/-
What a position is worth to its locker.

- `first_touch`: from the instruction that creates a position on, what was claimed and is pending is what the lock earned
  since. A position is settled from a zero lock when it is created, so what accrued before stays in the reserve
  (`late_position`); only a custodian that distributes opens its own position without a settlement.
- `checkpointed`: no position owes more than its lock earned, along every run that lists no asset over positions with a
  debt. Delisting closes the index of an asset, not its positions: listed again, it starts at zero below their debts
  (`stale_position`), and a settlement then forfeits what accrues.
-/
import Grindurus.Grai.Overhang

namespace Grindurus.Grai

open RewardIndex Machine Checked

/-! ## Entitlement -/

def World.reserveOf (w : World) (m : Key) : ℕ := ((w.assets m).map AssetConfig.totalClaimable).getD 0

/-- what an instruction claims of `m` for `u`: what it takes out of the reserve -/
def claimedFor (m u : Key) (w : World) (i : Instr) (w' : World) : ℕ :=
  match i with
  | .claim a => if a.holder = u then w.reserveOf m - w'.reserveOf m else 0
  | .claimAll a => if a.holder = u then w.reserveOf m - w'.reserveOf m else 0
  | _ => 0

/-- once the instruction commits, `u` has the lock `l` and `m` is listed -/
def keepsLock (m u : Key) (l : ℕ) (w : World) (i : Instr) : Prop :=
  ∀ w', step w i = .ok w' → w'.lockOf u = l ∧ (w'.assets m).isSome

/-- `u` distributes -/
def distributes (u : Key) (i : Instr) : Prop := ∃ d, i = .distribute d ∧ d.custodyWallet.key = u

theorem view_reserveOf (w : World) (m : Key) : w.view.reserveOf m = w.reserveOf m := by
  unfold Ledger.reserveOf World.reserveOf
  simp only [World.view, Option.map_map]
  rfl

theorem claimedFor_eq (m u : Key) (w : World) (i : Instr) (w' : World) :
    claimedFor m u w i w' = collected m u (i.actor w) w.view w'.view := by
  unfold claimedFor collected
  simp only [view_reserveOf]
  cases i with
  | claim a => simp [Instr.actor]
  | claimAll a => simp [Instr.actor]
  | setFeed a =>
    dsimp only [Instr.actor, SetFeed.actor]
    split_ifs <;> simp_all
  | _ => simp [Instr.actor]

/-- a running account in the accounts of the program -/
theorem OnAccount.world {w : World} {m u : Key} {l d b k : ℕ} (h : OnAccount DIVIDEND_PRECISION m u l d b k w.view) :
    ∃ asset, w.assets m = some asset ∧ d ≤ l * asset.accShare / DIVIDEND_PRECISION ∧
      k + w.pending m asset u + d = b + l * asset.accShare / DIVIDEND_PRECISION := by
  obtain ⟨q, c, hq, hc, hl, -, hd, he⟩ := h
  obtain ⟨asset, ha, rfl⟩ := Option.map_eq_some_iff.1 hq
  refine ⟨asset, ha, hd, ?_⟩
  have hpending : w.pending m asset u = c.pending DIVIDEND_PRECISION asset.accShare l := by
    have hl : w.lockOf u = l := hl
    have hc : checkpoints w.positions m u = some c := hc
    rw [World.pending_eq, pendingOf, hc, hl]
    rfl
  rw [hpending]
  exact he

/-- while the lock stands and the asset stays listed, what is claimed is added to the running account -/
theorem run_onAccount {w : World} {m u : Key} {l d b k : ℕ} (hw : w.WF) (h : OnAccount DIVIDEND_PRECISION m u l d b k w.view)
    (js : List Instr) (hjs : Meets step (keepsLock m u l) w js) :
    OnAccount DIVIDEND_PRECISION m u l d b (k + tally step (claimedFor m u) w js) (run step w js).view := by
  have hstep : ∀ w i w' k, (w.WF ∧ OnAccount DIVIDEND_PRECISION m u l d b k w.view) → keepsLock m u l w i →
      step w i = .ok w' → w'.WF ∧ OnAccount DIVIDEND_PRECISION m u l d b (k + claimedFor m u w i w') w'.view := by
    intro w i w' k ⟨hw, he⟩ hkeep hi
    obtain ⟨hw', who, ht⟩ := step_committed hw hi
    obtain ⟨hl, hm⟩ := hkeep w' hi
    rw [claimedFor_eq]
    exact ⟨hw', he.trans ht hl (by simpa [World.view] using hm)⟩
  exact (run_bounded_of hstep w js hjs k ⟨hw, h⟩).2

/-- **First touch.** The position of `u` in `m` is created by `i`, when the index stands at `asset.accShare`. As long as the lock
of `u` then stands and `m` stays listed, what `u` claimed and has pending is what its lock earned since: from that index on, or
from zero if `u` opened the position itself by distributing. The sequence of instructions is arbitrary: settlements in between,
claims, distributions by anybody and locks of others move what is pending to what is claimed, and never change the sum. That is
why the index of the first touch is all that has to be remembered. -/
theorem first_touch (g : Genesis) (is : List Instr) (i : Instr) (js : List Instr) (m u : Key) (asset : AssetConfig)
    (w' : World) (position : Position) (hm : (g.after is).assets m = some asset) (hu : (g.after is).positions (u, m) = none)
    (hi : step (g.after is) i = .ok w') (hm' : (w'.assets m).isSome) (hu' : w'.positions (u, m) = some position)
    (hjs : Meets step (keepsLock m u (w'.lockOf u)) w' js) :
    ∃ a asset', (a = asset.accShare ∨ distributes u i ∧ a = 0) ∧ (g.after (is ++ i :: js)).assets m = some asset' ∧
      tally step (claimedFor m u) (g.after is) (i :: js) + (g.after (is ++ i :: js)).pending m asset' u +
        w'.lockOf u * a / DIVIDEND_PRECISION = w'.lockOf u * asset'.accShare / DIVIDEND_PRECISION := by
  obtain ⟨hw', who, ht⟩ := step_committed (g.after_wf is) hi
  obtain ⟨a, ha, hcol, he⟩ := Entitled.first (u := u) ht (World.view_asset hm) (by simpa [World.view] using hm')
    (by simp [World.view, checkpoints, hu]) (c := position.checkpoint) (by simp [World.view, checkpoints, hu'])
  have hrun : g.after (is ++ i :: js) = run step w' js := by
    show run step g.world (is ++ i :: js) = _
    rw [run_append, run_cons]
    exact congrArg (run step · js) (exec_ok hi)
  have htally : tally step (claimedFor m u) (g.after is) (i :: js) = 0 + tally step (claimedFor m u) w' js := by
    rw [tally, hi, exec_ok hi]
    show claimedFor m u _ i w' + _ = _
    rw [claimedFor_eq, hcol]
  obtain ⟨asset', hasset', -, heq⟩ := (run_onAccount hw' (entitled_iff.1 he) js hjs).world
  refine ⟨a, asset', ha.imp_right fun h => ⟨?_, h.2⟩, hrun ▸ hasset', ?_⟩
  · have hact := h.1
    cases i with
    | distribute d => exact ⟨d, rfl, Actor.opener.inj hact⟩
    | setFeed b =>
      dsimp only [Instr.actor, SetFeed.actor] at hact
      split_ifs at hact
    | _ => cases hact
  · rw [htally, hrun]
    exact heq.trans (Nat.zero_add _)

theorem keepsLock_exec {m u : Key} {l : ℕ} {w : World} {i : Instr} (hl : (exec step w i).lockOf u = l)
    (hm : ((exec step w i).assets m).isSome) : keepsLock m u l w i := by
  intro w' h
  rw [exec_ok h] at hl hm
  exact ⟨hl, hm⟩

/-- wallet 2 holds a lock when gold is listed, and yield arrives before it has a position in gold -/
def Sample.lateLocker : List Instr :=
  [listing usdc false, deposit 2 1000 .default [], lock 2 1000 [usdc], listing gold false, distribute 3 1000 gold]

/-- a lock that stood when the asset was listed gets nothing of what accrued before its first claim: 500 stay reserved -/
theorem late_position :
    let w := Sample.genesis.after (Sample.lateLocker ++ [Sample.claim 4 2 Sample.gold])
    (Sample.genesis.after (Sample.lateLocker.take 4)).lockOf (Sample.user 2) = 1000 ∧
      (Sample.genesis.after (Sample.lateLocker.take 4)).assets Sample.gold =
        some ⟨Sample.gold, .key 200, false, false, 1, 0, 0, 0, 0⟩ ∧
      tally step (claimedFor Sample.gold (Sample.user 2)) Sample.genesis.world
        (Sample.lateLocker ++ [Sample.claim 4 2 Sample.gold]) = 0 ∧
      w.lockOf (Sample.user 2) = 1000 ∧ w.positions (Sample.user 2, Sample.gold) = some ⟨500, 0, 0⟩ ∧
      w.assets Sample.gold = some ⟨Sample.gold, .key 200, false, false, 1, 5 * 10 ^ 17, 500, 1000, 0⟩ ∧
      1000 * (5 * 10 ^ 17) / DIVIDEND_PRECISION = 500 := by
  decide +kernel

/-- from its first claim on, wallet 2 gets what its lock earns -/
theorem first_touch_by_claim :
    ∃ a asset', (a = 5 * 10 ^ 17 ∨ distributes (Sample.user 2) (Sample.claim 4 2 Sample.gold) ∧ a = 0) ∧
      (Sample.genesis.after (Sample.lateLocker ++ Sample.claim 4 2 Sample.gold ::
        [Sample.distribute 3 1000 Sample.gold])).assets Sample.gold = some asset' ∧
      tally step (claimedFor Sample.gold (Sample.user 2)) (Sample.genesis.after Sample.lateLocker)
          (Sample.claim 4 2 Sample.gold :: [Sample.distribute 3 1000 Sample.gold]) +
        (Sample.genesis.after (Sample.lateLocker ++ Sample.claim 4 2 Sample.gold ::
          [Sample.distribute 3 1000 Sample.gold])).pending Sample.gold asset' (Sample.user 2) +
        (exec step (Sample.genesis.after Sample.lateLocker) (Sample.claim 4 2 Sample.gold)).lockOf (Sample.user 2) * a /
          DIVIDEND_PRECISION =
        (exec step (Sample.genesis.after Sample.lateLocker) (Sample.claim 4 2 Sample.gold)).lockOf (Sample.user 2) *
          asset'.accShare / DIVIDEND_PRECISION :=
  first_touch Sample.genesis Sample.lateLocker (Sample.claim 4 2 Sample.gold) [Sample.distribute 3 1000 Sample.gold]
    Sample.gold (Sample.user 2) ⟨Sample.gold, .key 200, false, false, 1, 5 * 10 ^ 17, 500, 1000, 0⟩ _ ⟨500, 0, 0⟩
    (by decide +kernel) (by decide +kernel) (step_exec (by decide +kernel)) (by decide +kernel) (by decide +kernel)
    ⟨fun _ _ => keepsLock_exec (by decide +kernel) (by decide +kernel), trivial⟩

/-! ## Checkpoints -/

/-- in a listed asset no position owes more than its lock earned, and a settlement banks all that accrued beyond the debt -/
structure World.Checkpointed (w : World) : Prop where
  debt_le : ∀ m u asset position, w.assets m = some asset → w.positions (u, m) = some position →
    position.debt ≤ w.lockOf u * asset.accShare / DIVIDEND_PRECISION
  settles : ∀ m u asset position new position', w.assets m = some asset → w.positions (u, m) = some position →
    settle asset.accShare (w.lockOf u) new position = .ok position' →
      position'.claimable + position.debt = position.claimable + w.lockOf u * asset.accShare / DIVIDEND_PRECISION

/-- an asset that is listed has no position with a debt from before -/
def listsClean (w : World) (i : Instr) : Prop :=
  ∀ a, i = .setFeed a → a.assetMint ∉ w.state.assetMints →
    ∀ u position, w.positions (u, a.assetMint) = some position → position.debt = 0

theorem Aligned.keepsDebts {w : World} (h : Aligned DIVIDEND_PRECISION w.view) : w.Checkpointed := by
  have hle : ∀ m u asset position, w.assets m = some asset → w.positions (u, m) = some position →
      position.debt ≤ w.lockOf u * asset.accShare / DIVIDEND_PRECISION := by
    intro m u asset position ha hp
    exact h m asset.pool u position.checkpoint (World.view_asset ha) (by simp [World.view, checkpoints, hp])
  refine ⟨hle, fun m u asset position new position' ha hp hs => ?_⟩
  have hdebt := hle m u asset position ha hp
  simp only [settle, bind_ok, checkedMul_ok, checkedDiv_ok, narrow_ok, checkedAdd_ok, Except.ok.injEq] at hs
  obtain ⟨_, ⟨-, rfl⟩, _, ⟨-, rfl⟩, _, ⟨-, rfl⟩, _, ⟨-, rfl⟩, _, ⟨-, rfl⟩, _, ⟨-, rfl⟩, rfl⟩ := hs
  show position.claimable + (_ - position.debt) + position.debt = _
  omega

theorem listsClean_actor {w : World} {i : Instr} (h : listsClean w i) (m : Key) (hact : i.actor w = .lister m) (u : Key)
    (c : Checkpoint) (hc : w.view.pos m u = some c) : c.debt = 0 := by
  cases i with
  | setFeed a =>
    dsimp only [Instr.actor, SetFeed.actor] at hact
    split_ifs at hact with hm
    cases Actor.lister.inj hact
    obtain ⟨position, hp, rfl⟩ := Option.map_eq_some_iff.1 hc
    exact h a rfl hm u position hp
  | _ => cases hact

/-- **Checkpoints.** Along every run that lists no asset over positions with a debt, no position owes more than its lock earned.
The condition fails for one kind of step only: the owner lists a mint again while positions of the earlier listing still have a
debt. A settlement then forfeits what has accrued to these positions since. -/
theorem checkpointed (g : Genesis) (is : List Instr) (hc : Meets step listsClean g.world is) : (g.after is).Checkpointed := by
  have haligned : Aligned DIVIDEND_PRECISION (g.after is).view :=
    Genesis.after_ledger_of (fun _ _ _ _ _ hm => nomatch hm) (fun _ _ _ _ _ hi hP ht => hP.trans ht (listsClean_actor hi))
      g is hc
  exact haligned.keepsDebts

/-- wallet 2 leaves a debt of 450 in an asset that is emptied, delisted and listed again -/
def Sample.relisted : List Instr :=
  [listing usdc false, deposit 2 1000 .default [], lock 2 1000 [usdc], distribute 3 1000 usdc, unlock 2 100 [usdc],
    claim 4 2 usdc, listing usdc true, delisting usdc, listing usdc false]

/-- after a second listing the index starts below the debt; of the 499 that then accrue, a claim gets 49 -/
theorem stale_position :
    let w := Sample.genesis.after Sample.relisted
    let w' := Sample.genesis.after (Sample.relisted ++ [Sample.distribute 3 1000 Sample.usdc, Sample.claim 4 2 Sample.usdc])
    w.positions (Sample.user 2, Sample.usdc) = some ⟨450, 0, 0⟩ ∧
      w.assets Sample.usdc = some ⟨Sample.usdc, .key 200, false, false, 0, 0, 0, 0, 0⟩ ∧
      ¬ 450 ≤ w.lockOf (Sample.user 2) * 0 / DIVIDEND_PRECISION ∧
      w'.positions (Sample.user 2, Sample.usdc) = some ⟨499, 0, 0⟩ ∧ w'.reserveOf Sample.usdc = 450 := by
  decide +kernel

/-- a lock that changes after dividends arrived -/
theorem checkpointed_after_unlock :
    (Sample.genesis.after (Sample.relisted.take 5)).Checkpointed := by
  refine checkpointed Sample.genesis _ ⟨fun _ _ a _ _ u position hp => ?_, ?_, ?_, ?_, ?_, trivial⟩
  · cases hp
  all_goals exact fun _ _ a ha => nomatch ha

end Grindurus.Grai
