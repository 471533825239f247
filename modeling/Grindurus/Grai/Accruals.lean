/-
What accrues over many harvests, and when it is claimed.

- `distributions`: calls of `distribute_dividend` in a row, while the total lock stands. `Accrued` is what they do: nothing of
  the amounts is lost, and the reserve grows by what the whole lock earns as the index moves. It composes
  (`Accrued.trans`), so the floors of the single calls do not add up.
- `distribute_exact`: both for one call and for a row of them, and what a locker that holds the whole lock can claim then.
- `claim_timing`: what a locker claims and has pending does not depend on when it is settled, exactly if its position owes
  no more than the lock earned. A position from before a second listing owes more (`early_claim`).
-/
import Grindurus.Grai.Positions

namespace Grindurus.Grai

open Checked RewardIndex Machine

/-! ## Harvests -/

/-- calls of `distribute_dividend` in a row, for one asset; returns what each sends to the treasury -/
def distributions (eligible : ℕ) : List ℕ → AssetConfig → Except ErrorCode (AssetConfig × List ℕ)
  | [], asset => .ok (asset, [])
  | amount :: amounts, asset => do
    let (asset, dust) ← distributeDividend asset amount eligible
    let (asset, dusts) ← distributions eligible amounts asset
    .ok (asset, dust :: dusts)

/-- of `amount`, `toTreasury` goes to the treasury and the rest is reserved; it is what `eligible` locks together earn by the
move of the index, which moves only if something is reserved -/
structure Accrued (eligible : ℕ) (asset : AssetConfig) (amount : ℕ) (asset' : AssetConfig) (toTreasury : ℕ) : Prop where
  conserved : asset'.totalClaimable + toTreasury = asset.totalClaimable + amount
  telescopes : asset'.totalClaimable + eligible * asset.accShare / DIVIDEND_PRECISION =
    asset.totalClaimable + eligible * asset'.accShare / DIVIDEND_PRECISION
  index : asset.accShare ≤ asset'.accShare
  reserve : asset.totalClaimable ≤ asset'.totalClaimable
  bumped : asset'.accShare ≠ asset.accShare → asset.totalClaimable < asset'.totalClaimable
  frame : asset' = { asset with accShare := asset'.accShare, totalClaimable := asset'.totalClaimable }

namespace Accrued

variable {eligible amount amount' x x' : ℕ} {asset asset₁ asset₂ : AssetConfig}

theorem refl (eligible : ℕ) (asset : AssetConfig) (amount : ℕ) : Accrued eligible asset amount asset amount :=
  ⟨rfl, rfl, le_rfl, le_rfl, fun h => absurd rfl h, rfl⟩

theorem trans (h : Accrued eligible asset amount asset₁ x) (h' : Accrued eligible asset₁ amount' asset₂ x') :
    Accrued eligible asset (amount + amount') asset₂ (x + x') := by
  have hconserved := h.conserved
  have hconserved' := h'.conserved
  have htele := h.telescopes
  have htele' := h'.telescopes
  refine ⟨by omega, by omega, h.index.trans h'.index, h.reserve.trans h'.reserve, ?_, ?_⟩
  · intro hne
    rcases eq_or_ne asset₁.accShare asset.accShare with heq | hne₁
    · exact h.reserve.trans_lt (h'.bumped (by rwa [heq]))
    · exact (h.bumped hne₁).trans_le h'.reserve
  · calc asset₂ = { asset₁ with accShare := asset₂.accShare, totalClaimable := asset₂.totalClaimable } := h'.frame
      _ = { asset with accShare := asset₂.accShare, totalClaimable := asset₂.totalClaimable } := by rw [h.frame]

end Accrued

/-- the index moves only together with the reserve -/
theorem distributeDividend_bumps {asset asset' : AssetConfig} {amount eligible dust : ℕ}
    (h : distributeDividend asset amount eligible = .ok (asset', dust)) (hne : asset'.accShare ≠ asset.accShare) :
    asset'.totalClaimable ≠ asset.totalClaimable := by
  unfold distributeDividend at h
  by_cases h0 : amount = 0
  · rw [if_pos h0] at h
    cases h
    exact absurd rfl hne
  rw [if_neg h0, bind_ok] at h
  obtain ⟨inc, -, h⟩ := h
  by_cases hi : inc = 0
  · rw [if_pos hi] at h
    cases h
    exact absurd rfl hne
  rw [if_neg hi] at h
  simp only [bind_ok] at h
  obtain ⟨_, -, _, -, _, -, _, -, _, -, reserved, -, h⟩ := h
  by_cases hr : reserved = 0
  · rw [if_pos hr] at h
    cases h
    exact absurd rfl hne
  rw [if_neg hr] at h
  simp only [bind_ok, checkedAdd_ok, Except.ok.injEq, Prod.mk.injEq] at h
  obtain ⟨_, ⟨-, rfl⟩, rfl, -⟩ := h
  show asset.totalClaimable + reserved ≠ asset.totalClaimable
  omega

theorem distributeDividend_accrued {asset asset' : AssetConfig} {amount eligible dust : ℕ}
    (h : distributeDividend asset amount eligible = .ok (asset', dust)) : Accrued eligible asset amount asset' dust := by
  have hbumps := distributeDividend_bumps h
  obtain ⟨acc, reserved, hacc, hle, rfl, hearned, rfl⟩ := distributeDividend_ok h
  unfold earned at hearned
  refine ⟨?_, ?_, hacc, Nat.le_add_right .., ?_, rfl⟩
  · show asset.totalClaimable + reserved + (amount - reserved) = _
    omega
  · show asset.totalClaimable + reserved + _ = _ + eligible * acc / DIVIDEND_PRECISION
    omega
  · intro hne
    have hmoved : asset.totalClaimable + reserved ≠ asset.totalClaimable := hbumps hne
    show asset.totalClaimable < asset.totalClaimable + reserved
    omega

/-- along a list of distributions the indices add up, by induction, and the dust never reaches the total that is locked -/
theorem distributions_accrued {eligible : ℕ} {amounts dusts : List ℕ} {asset asset' : AssetConfig}
    (h : distributions eligible amounts asset = .ok (asset', dusts)) :
    Accrued eligible asset amounts.sum asset' dusts.sum := by
  induction amounts generalizing asset dusts with
  | nil =>
    cases h
    exact .refl eligible _ 0
  | cons amount amounts ih =>
    simp only [distributions, bind_ok, Prod.exists, Except.ok.injEq, Prod.mk.injEq] at h
    obtain ⟨asset₁, dust, hcall, asset₂, rest, hrest, rfl, rfl⟩ := h
    rw [List.sum_cons, List.sum_cons]
    exact (distributeDividend_accrued hcall).trans (ih hrest)

/-- a call fits if it moved the index -/
theorem distributeDividend_fits {asset asset' : AssetConfig} {amount eligible dust : ℕ}
    (h : distributeDividend asset amount eligible = .ok (asset', dust)) (hfits : eligible * asset.accShare < 2 ^ 128)
    (hroom : asset.totalClaimable < 2 ^ 64) : eligible * asset'.accShare < 2 ^ 128 ∧ asset'.totalClaimable < 2 ^ 64 := by
  unfold distributeDividend at h
  by_cases h0 : amount = 0
  · rw [if_pos h0] at h
    cases h
    exact ⟨hfits, hroom⟩
  rw [if_neg h0, bind_ok] at h
  obtain ⟨inc, -, h⟩ := h
  by_cases hi : inc = 0
  · rw [if_pos hi] at h
    cases h
    exact ⟨hfits, hroom⟩
  rw [if_neg hi] at h
  simp only [bind_ok, checkedAdd_ok, checkedMul_ok] at h
  obtain ⟨_, ⟨-, rfl⟩, _, ⟨hmul, rfl⟩, _, -, _, -, _, -, reserved, -, h⟩ := h
  by_cases hr : reserved = 0
  · rw [if_pos hr] at h
    cases h
    exact ⟨hfits, hroom⟩
  rw [if_neg hr] at h
  simp only [bind_ok, checkedAdd_ok, Except.ok.injEq, Prod.mk.injEq] at h
  obtain ⟨_, ⟨hadd, rfl⟩, rfl, -⟩ := h
  rw [Nat.mul_comm] at hmul
  exact ⟨hmul, hadd⟩

/-- and each of them fits, because their sum does -/
theorem distributions_fits {eligible : ℕ} {amounts dusts : List ℕ} {asset asset' : AssetConfig}
    (h : distributions eligible amounts asset = .ok (asset', dusts)) (hfits : eligible * asset.accShare < 2 ^ 128)
    (hroom : asset.totalClaimable < 2 ^ 64) : eligible * asset'.accShare < 2 ^ 128 ∧ asset'.totalClaimable < 2 ^ 64 := by
  induction amounts generalizing asset dusts with
  | nil =>
    cases h
    exact ⟨hfits, hroom⟩
  | cons amount amounts ih =>
    simp only [distributions, bind_ok, Prod.exists, Except.ok.injEq, Prod.mk.injEq] at h
    obtain ⟨asset₁, dust, hcall, asset₂, rest, hrest, rfl, -⟩ := h
    obtain ⟨hfits₁, hroom₁⟩ := distributeDividend_fits hcall hfits hroom
    exact ih hrest hfits₁ hroom₁

/-- a settlement at an unchanged stake goes through if the stake fits at the index and what is pending fits -/
theorem settle_same {acc l : ℕ} {position : Position} (hfits : l * acc < 2 ^ 128)
    (hpending : position.claimable + (l * acc / DIVIDEND_PRECISION - position.debt) < 2 ^ 64) :
    settle acc l l position = .ok { position with
      claimable := position.claimable + (l * acc / DIVIDEND_PRECISION - position.debt)
      debt := l * acc / DIVIDEND_PRECISION } := by
  have hprec : DIVIDEND_PRECISION ≠ 0 := by decide
  unfold settle
  simp only [bind_ok, checkedMul_ok, checkedDiv_ok, narrow_ok, checkedAdd_ok]
  exact ⟨_, ⟨hfits, rfl⟩, _, ⟨hprec, rfl⟩, _, ⟨(Nat.le_add_left ..).trans_lt hpending, rfl⟩, _, ⟨hpending, rfl⟩,
    _, ⟨hfits, rfl⟩, _, ⟨hprec, rfl⟩, rfl⟩

/-- a locker that holds all of `eligible` and the whole reserve can claim the whole reserve after the index moved -/
def SoleLocker (eligible : ℕ) (asset asset' : AssetConfig) : Prop :=
  ∀ old position₀ position, settle asset.accShare old eligible position₀ = .ok position →
    position.claimable = asset.totalClaimable →
    ∃ position', settle asset'.accShare eligible eligible position = .ok position' ∧
      position'.claimable = asset'.totalClaimable

theorem distributions_sole {eligible : ℕ} {amounts dusts : List ℕ} {asset asset' : AssetConfig}
    (h : distributions eligible amounts asset = .ok (asset', dusts)) : SoleLocker eligible asset asset' := by
  intro old position₀ position hs hwhole
  simp only [settle, bind_ok, checkedMul_ok, checkedDiv_ok, narrow_ok, checkedAdd_ok, Except.ok.injEq] at hs
  obtain ⟨_, ⟨-, rfl⟩, _, ⟨-, rfl⟩, _, ⟨-, rfl⟩, _, ⟨hclaimable, rfl⟩, _, ⟨hfits, rfl⟩, _, ⟨-, rfl⟩, rfl⟩ := hs
  obtain ⟨hfits', hroom'⟩ := distributions_fits h hfits (by rw [← hwhole]; exact hclaimable)
  have htele := (distributions_accrued h).telescopes
  have hmono : eligible * asset.accShare / DIVIDEND_PRECISION ≤ eligible * asset'.accShare / DIVIDEND_PRECISION :=
    earned_mono (distributions_accrued h).index
  have hsum : asset.totalClaimable + (eligible * asset'.accShare / DIVIDEND_PRECISION -
      eligible * asset.accShare / DIVIDEND_PRECISION) = asset'.totalClaimable := by omega
  refine ⟨_, settle_same hfits' ?_, ?_⟩
  · rw [hwhole, hsum]
    exact hroom'
  · rw [← hsum, ← hwhole]

/-- **Exact dividends.** A call that succeeds reserves or returns every unit. Over any row of calls at the total lock `eligible`
the reserve grows by exactly what that lock earns between the first index and the last, so a locker who holds all of it can claim
exactly the reserve. Floors are taken when a call is spread over the locks. What one leaves over the call returns, and the
reserve grows by the difference of two floors, not by a sum of many. -/
theorem distribute_exact :
    (∀ asset amount eligible asset' dust, distributeDividend asset amount eligible = .ok (asset', dust) →
      Accrued eligible asset amount asset' dust) ∧
    ∀ eligible amounts asset asset' dusts, distributions eligible amounts asset = .ok (asset', dusts) →
      Accrued eligible asset amounts.sum asset' dusts.sum ∧ SoleLocker eligible asset asset' :=
  ⟨fun _ _ _ _ _ h => distributeDividend_accrued h,
    fun _ _ _ _ _ h => ⟨distributions_accrued h, distributions_sole h⟩⟩

/-- three harvests of two units for a lock of three: the first leaves a unit of dust, which the others make up for -/
theorem distribute_exact_three :
    Accrued 3 ⟨Sample.usdc, .key 200, false, false, 0, 0, 0, 0, 0⟩ 6
      ⟨Sample.usdc, .key 200, false, false, 0, 1999999999999999998, 5, 0, 0⟩ 1 :=
  (distribute_exact.2 3 [2, 2, 2] _ _ [1, 0, 0] (by decide +kernel)).1

/-! ## Timing -/

/-- from `w` on, while the lock of `u` stands and `m` stays listed: what `u` claimed of `m` and has pending, whenever it was
settled, voted or claimed, is what one settlement of `position` at the end would give -/
def World.TimingFree (w : World) (m u : Key) (position : Position) : Prop :=
  ∀ js asset, Meets step (keepsLock m u (w.lockOf u)) w js → (run step w js).assets m = some asset →
    tally step (claimedFor m u) w js + (run step w js).pending m asset u + position.debt =
        position.claimable + w.lockOf u * asset.accShare / DIVIDEND_PRECISION ∧
      tally step (claimedFor m u) w js + (run step w js).pending m asset u =
        position.claimable + (w.lockOf u * asset.accShare / DIVIDEND_PRECISION - position.debt)

/-- a position that owes no more than its lock earned runs an account -/
theorem World.opens_account {w : World} {m u : Key} {asset : AssetConfig} {position : Position} (ha : w.assets m = some asset)
    (hp : w.positions (u, m) = some position)
    (hdebt : position.debt ≤ w.lockOf u * asset.accShare / DIVIDEND_PRECISION) :
    OnAccount DIVIDEND_PRECISION m u (w.lockOf u) position.debt position.claimable 0 w.view := by
  have hpos : w.view.pos m u = some position.checkpoint := by simp [World.view, checkpoints, hp]
  refine ⟨asset.pool, position.checkpoint, World.view_asset ha, hpos, rfl, hdebt, hdebt, ?_⟩
  show 0 + (position.claimable + (w.lockOf u * asset.accShare / DIVIDEND_PRECISION - position.debt)) + position.debt =
    position.claimable + w.lockOf u * asset.accShare / DIVIDEND_PRECISION
  omega

/-- **Claim timing.** After every run, for a position in a listed asset: what its locker claims and has pending from there on
does not depend on when it settles, votes and claims, exactly if the position owes no more than its lock earned. The condition is
on the position as it stands. It holds of every position that was opened in the present listing (`checkpointed`), so the timing
matters only to positions that are left from an earlier one. -/
theorem claim_timing (g : Genesis) (is : List Instr) {m u : Key} {asset : AssetConfig} {position : Position}
    (ha : (g.after is).assets m = some asset) (hp : (g.after is).positions (u, m) = some position) :
    (g.after is).TimingFree m u position ↔
      position.debt ≤ (g.after is).lockOf u * asset.accShare / DIVIDEND_PRECISION := by
  constructor
  · intro htiming
    -- already before anything happens
    have hnow := (htiming [] asset trivial ha).1
    have hpending : (g.after is).pending m asset u =
        position.claimable + ((g.after is).lockOf u * asset.accShare / DIVIDEND_PRECISION - position.debt) := by
      unfold World.pending
      rw [hp]
    have hrun : run step (g.after is) [] = g.after is := rfl
    rw [hrun, hpending] at hnow
    have hnone : tally step (claimedFor m u) (g.after is) [] = 0 := rfl
    omega
  · intro hdebt js asset' hjs ha'
    have haccount := run_onAccount (g.after_wf is) (World.opens_account ha hp hdebt) js hjs
    rw [Nat.zero_add] at haccount
    obtain ⟨asset'', ha'', hle, heq⟩ := haccount.world
    rw [ha'] at ha''
    cases ha''
    exact ⟨heq, by omega⟩

/-- wallet 2 holds 900 shares and 450 are pending when its timing starts not to matter -/
theorem claim_timing_after_unlock :
    (Sample.genesis.after (Sample.relisted.take 5)).TimingFree Sample.usdc (Sample.user 2) ⟨450, 500, 0⟩ := by
  have ha : (Sample.genesis.after (Sample.relisted.take 5)).assets Sample.usdc =
      some ⟨Sample.usdc, .key 200, false, false, 0, 5 * 10 ^ 17, 500, 1000, 0⟩ := by decide +kernel
  exact (claim_timing Sample.genesis (Sample.relisted.take 5) ha (by decide +kernel)).2 (by decide +kernel)

/-- the position of wallet 2 owes 450 from before the second listing; two harvests follow, and a claim between them -/
def Sample.claimedEarly : List Instr :=
  [distribute 3 100 usdc, claim 4 2 usdc, distribute 3 1000 usdc]

/-- with the claim between the harvests, which pays nothing, 500 are pending; without it 99 are -/
theorem early_claim :
    let w := Sample.genesis.after Sample.relisted
    let early := run step w Sample.claimedEarly
    let late := run step w [Sample.distribute 3 100 Sample.usdc, Sample.distribute 3 1000 Sample.usdc]
    let asset : AssetConfig := ⟨Sample.usdc, .key 200, false, false, 0, 611111111111111110, 549, 1100, 0⟩
    w.positions (Sample.user 2, Sample.usdc) = some ⟨450, 0, 0⟩ ∧
      Meets step (keepsLock Sample.usdc (Sample.user 2) 900) w Sample.claimedEarly ∧ w.lockOf (Sample.user 2) = 900 ∧
      early.assets Sample.usdc = some asset ∧ late.assets Sample.usdc = some asset ∧
      tally step (claimedFor Sample.usdc (Sample.user 2)) w Sample.claimedEarly = 0 ∧
      early.pending Sample.usdc asset (Sample.user 2) = 500 ∧ late.pending Sample.usdc asset (Sample.user 2) = 99 ∧
      900 * asset.accShare / DIVIDEND_PRECISION - 450 = 99 ∧
      ¬w.TimingFree Sample.usdc (Sample.user 2) ⟨450, 0, 0⟩ := by
  have hmeets : Meets step (keepsLock Sample.usdc (Sample.user 2) 900) (Sample.genesis.after Sample.relisted)
      Sample.claimedEarly := by
    refine ⟨fun _ _ => ?_, fun _ _ => ?_, fun _ _ => ?_, trivial⟩
    · exact keepsLock_exec (by decide +kernel) (by decide +kernel)
    · exact keepsLock_exec (by decide +kernel) (by decide +kernel)
    · exact keepsLock_exec (by decide +kernel) (by decide +kernel)
  have hlock : (Sample.genesis.after Sample.relisted).lockOf (Sample.user 2) = 900 := by decide +kernel
  refine ⟨by decide +kernel, hmeets, hlock, by decide +kernel, by decide +kernel, by decide +kernel, by decide +kernel,
    by decide +kernel, by decide +kernel, fun htiming => ?_⟩
  have hone := (htiming Sample.claimedEarly ⟨Sample.usdc, .key 200, false, false, 0, 611111111111111110, 549, 1100, 0⟩
    (by rw [hlock]; exact hmeets) (by decide +kernel)).2
  revert hone
  decide +kernel

end Grindurus.Grai
