/-
The timeline of a liquidation.

- `Turn w i w'`: what an instruction may do to the clock of liquidation: open it, close it, set parameters while it is closed,
  or nothing. `step_turn`: every committed instruction is a turn.
- `Clocked`: the clock shows times of 64 bits and never goes back.
- `liquidation_timeline`: along every run that is clocked, liquidation opens on a quorum and a stale heartbeat, the
  parameters stand while it is open, redeems wait for the liquidation period, and it closes after the redeem period.
-/
import Grindurus.Grai.Frames

namespace Grindurus.Grai

open Checked TokenBank Machine

/-! ## Turns -/

/-- is liquidation open, since when, and by what parameters -/
def GraiState.timing (s : GraiState) : Bool × ℤ × Config := (s.liquidation, s.liquidationAt, s.config)

/-- the time until which nobody may redeem -/
def GraiState.redeemAt (s : GraiState) : ℤ := s.liquidationAt + s.config.liquidationPeriod

/-- the time until which nobody may revive -/
def GraiState.reviveAt (s : GraiState) : ℤ := s.redeemAt + s.config.redeemPeriod

/-- the votes are beyond the quorum of the shares -/
def World.Quorum (w : World) : Prop := w.supply * w.state.config.quorumBps < w.state.totalVoted * BPS

/-- the heartbeat of Grinders is older than its period, at a time that is one of 64 bits -/
def World.Stale (w : World) (now : ℤ) : Prop :=
  ∃ g, w.grinders w.state.grinders = some g ∧ min (g.heartbeatAt + g.grindingPeriod) (2 ^ 63 - 1) < now

inductive Turn (w : World) (i : Instr) (w' : World) : Prop where
  | opens (a : Liquidate) (h : i = .liquidate a) (closed : w.state.liquidation = false) (quorum : w.Quorum)
      (stale : w.Stale a.now) (timing : w'.state.timing = (true, a.now, w.state.config))
  | closes (a : Revive) (h : i = .revive a) (opened : w.state.liquidation = true) (late : w.state.reviveAt ≤ a.now)
      (timing : w'.state.timing = (false, 0, w.state.config))
  | adjusts (closed : w.state.liquidation = false) (closed' : w'.state.liquidation = false)
  | keeps (timing : w'.state.timing = w.state.timing)

variable {w w' : World}

theorem Framed.turn (h : Framed w w') (i : Instr) : Turn w i w' := by
  refine .keeps ?_
  have htiming : w'.state.frame.timing = w.state.frame.timing := by rw [h.state]
  exact htiming

theorem executeLiquidate_timing {a : Liquidate} (h : executeLiquidate w a = .ok w') :
    w'.state.timing = (true, a.now, w.state.config) := by
  obtain ⟨_, _, _, -, -, -, -, -, -, rfl⟩ := executeLiquidate_opens h
  rfl

theorem executeLiquidate_turn {a : Liquidate} (h : executeLiquidate w a = .ok w') : Turn w (.liquidate a) w' := by
  have htiming := executeLiquidate_timing h
  obtain ⟨_, _, _, -, -, hclosed, hquorum, hgrinding, -, -⟩ := executeLiquidate_opens h
  simp only [grindersGrinding, bind_ok, demand_ok, Except.ok.injEq] at hgrinding
  obtain ⟨g, hg, hfalse⟩ := hgrinding
  refine .opens a rfl hclosed ?_ ⟨g, hg, ?_⟩ htiming
  · simpa [hasQuorum, World.Quorum] using hquorum
  · exact lt_of_not_ge (of_decide_eq_false hfalse)

theorem executeRevive_turn {a : Revive} (h : executeRevive w a = .ok w') : Turn w (.revive a) w' := by
  obtain ⟨_, _, hopen, hlate, -, rfl⟩ := executeRevive_closes h
  exact .closes a rfl hopen hlate rfl

/-- who may turn the flag: `liquidate` opens, `revive` closes, all others keep it -/
theorem step_turn {i : Instr} (hw : w.WF) (h : step w i = .ok w') : Turn w i w' := by
  cases i with
  | transferOwnership a | acceptOwnership a | setBeneficiar a | setRoyaltyBps a | setRevenueShareBps a | setGrinders a =>
    obtain ⟨_, _, _, _, _, _, _, rfl⟩ := step_governs rfl h
    exact .keeps rfl
  | setBribeable a =>
    obtain ⟨_, -, rfl⟩ := executeSetBribeable_marks h
    exact .keeps rfl
  | setConfig a =>
    -- the parameters may change, but not while liquidation is open
    obtain ⟨hclosed, rfl⟩ := executeSetConfig_adjusts h
    exact .adjusts hclosed hclosed
  | setFeed a => exact (executeSetFeed_unbooked h).turn _
  | deposit a => exact (executeDeposit_framed hw h).turn _
  | depositSol a => exact (executeDepositSol_framed hw h).turn _
  | distribute a => exact (executeDistribute_unbooked h).turn _
  | lock a => exact (executeLock_unbooked hw h).turn _
  | unlock a => exact (executeUnlock_unbooked hw h).turn _
  | claim a =>
    simp only [step, bind_ok, Prod.exists, Except.ok.injEq] at h
    obtain ⟨_, _, h, rfl⟩ := h
    exact (executeClaim_framed h).turn _
  | claimAll a =>
    simp only [step, bind_ok, Prod.exists, Except.ok.injEq] at h
    obtain ⟨_, _, h, rfl⟩ := h
    exact (executeClaimAll_framed h).turn _
  | vote a => exact (executeVote_unbooked hw h).turn _
  | bribe a => exact (executeBribe_unbooked hw h).turn _
  | poach a => exact (executePoach_framed h).turn _
  | liquidate a => exact executeLiquidate_turn h
  | redeem a => exact (executeRedeem_unbooked hw h).turn _
  | revive a => exact executeRevive_turn h
  | token s op =>
    simp only [step, bind_ok, Except.ok.injEq] at h
    obtain ⟨-, -, _, -, rfl⟩ := h
    exact .keeps rfl
  | wrap k x =>
    simp only [step, bind_ok, Except.ok.injEq] at h
    obtain ⟨_, -, rfl⟩ := h
    exact .keeps rfl
  | grinders k g =>
    cases h
    exact .keeps rfl

/-! ## What a turn says -/

theorem GraiState.timing_eq {s : GraiState} {opened : Bool} {since : ℤ} {config : Config} :
    s.timing = (opened, since, config) ↔ s.liquidation = opened ∧ s.liquidationAt = since ∧ s.config = config := by
  simp [GraiState.timing]

theorem Turn.opening {i : Instr} (h : Turn w i w') (hclosed : w.state.liquidation = false)
    (hopen : w'.state.liquidation = true) :
    ∃ a, i = .liquidate a ∧ w.Quorum ∧ w.Stale a.now ∧ w'.state.liquidationAt = a.now := by
  cases h with
  | opens a hi _ quorum stale timing => exact ⟨a, hi, quorum, stale, (GraiState.timing_eq.1 timing).2.1⟩
  | closes a _ opened => cases opened.symm.trans hclosed
  | adjusts _ closed' => cases hopen.symm.trans closed'
  | keeps timing => cases (((GraiState.timing_eq.1 timing).1.symm.trans hopen).symm.trans hclosed)

theorem Turn.standing {i : Instr} (h : Turn w i w') (hopen : w.state.liquidation = true)
    (hopen' : w'.state.liquidation = true) : w'.state.timing = w.state.timing := by
  cases h with
  | opens a _ closed => cases hopen.symm.trans closed
  | closes a _ _ _ timing => cases hopen'.symm.trans (GraiState.timing_eq.1 timing).1
  | adjusts closed => cases hopen.symm.trans closed
  | keeps timing => exact timing

theorem Turn.closing {i : Instr} (h : Turn w i w') (hopen : w.state.liquidation = true)
    (hclosed : w'.state.liquidation = false) : ∃ a, i = .revive a ∧ w.state.reviveAt ≤ a.now := by
  cases h with
  | opens a _ closed => cases hopen.symm.trans closed
  | closes a hi _ late => exact ⟨a, hi, late⟩
  | adjusts closed => cases hopen.symm.trans closed
  | keeps timing => cases ((GraiState.timing_eq.1 timing).1.trans hopen).symm.trans hclosed

/-! ## Along a run -/

/-- the time an instruction reads off the clock -/
def Instr.time : Instr → Option ℤ
  | .deposit a => some a.now
  | .depositSol a => some a.now
  | .vote a => some a.now
  | .liquidate a => some a.now
  | .redeem a => some a.now
  | .revive a => some a.now
  | _ => none

/-- the clock shows times of 64 bits and never goes back -/
structure Clocked (is : List Instr) : Prop where
  times : ∀ i ∈ is, ∀ t, i.time = some t → t < 2 ^ 63
  sorted : is.Pairwise fun i j => ∀ t t', i.time = some t → j.time = some t' → t ≤ t'

/-- liquidation is open and its period is over: a redeem is neither closed nor delayed -/
def World.RedeemOpen (w : World) (now : ℤ) : Prop := w.state.liquidation = true ∧ w.state.redeemAt ≤ now

/-- when liquidation opens and closes along a run, and when holders may redeem -/
structure Timeline (g : Genesis) (is : List Instr) : Prop where
  opens : ∀ pre i post, is = pre ++ i :: post → (g.after pre).state.liquidation = false →
    (g.after (pre ++ [i])).state.liquidation = true →
    ∃ a grinders, i = .liquidate a ∧ (g.after pre).Quorum ∧
      (g.after pre).grinders (g.after pre).state.grinders = some grinders ∧
      grinders.heartbeatAt + grinders.grindingPeriod < a.now ∧ (g.after (pre ++ [i])).state.liquidationAt = a.now
  fixed : ∀ pre i post, is = pre ++ i :: post → (g.after pre).state.liquidation = true →
    (g.after (pre ++ [i])).state.liquidation = true →
    (g.after (pre ++ [i])).state.liquidationAt = (g.after pre).state.liquidationAt ∧
      (g.after (pre ++ [i])).state.config = (g.after pre).state.config
  redeems : ∀ pre a post w, is = pre ++ .redeem a :: post → step (g.after pre) (.redeem a) = .ok w →
    (g.after pre).RedeemOpen a.now
  closes : ∀ pre i post, is = pre ++ i :: post → (g.after pre).state.liquidation = true →
    (g.after (pre ++ [i])).state.liquidation = false → ∃ a, i = .revive a ∧ (g.after pre).state.reviveAt ≤ a.now
  /-- whatever comes between, an instruction at a time before the end of the redeem period that follows the opening finds
  liquidation as it was opened, and after the liquidation period open for redeems -/
  window : ∀ pre a mid j post w t, is = pre ++ .liquidate a :: (mid ++ j :: post) →
    step (g.after pre) (.liquidate a) = .ok w → j.time = some t →
    t < a.now + (g.after pre).state.config.liquidationPeriod + (g.after pre).state.config.redeemPeriod →
    (g.after (pre ++ .liquidate a :: mid)).state.timing = (true, a.now, (g.after pre).state.config) ∧
      (a.now + (g.after pre).state.config.liquidationPeriod ≤ t → (g.after (pre ++ .liquidate a :: mid)).RedeemOpen t)

theorem executeRedeem_opened {a : Redeem} (h : executeRedeem w a = .ok w') : w.RedeemOpen a.now := by
  obtain ⟨_, _, _, _, -, hopen, hdelay, -, -, -, -, -⟩ := executeRedeem_redeems h
  exact ⟨hopen, hdelay⟩

/-- an instruction before the end of the redeem period leaves an open liquidation as it is -/
theorem exec_timing {i : Instr} {t : ℤ} (hw : w.WF) (hopen : w.state.liquidation = true) (ht : t < w.state.reviveAt)
    (hi : ∀ t', i.time = some t' → t' ≤ t) : (exec step w i).state.timing = w.state.timing := by
  rcases exec_cases step w i with ⟨w', h, he⟩ | he
  · rw [he]
    cases step_turn hw h with
    | opens a _ closed => cases hopen.symm.trans closed
    | closes a hi' _ late =>
      subst hi'
      have hle := hi a.now rfl
      omega
    | adjusts closed => cases hopen.symm.trans closed
    | keeps timing => exact timing
  · rw [he]

/-- until the revival is due, an open liquidation keeps its time and its parameters -/
theorem run_timing {is : List Instr} {t : ℤ} (hw : w.WF) (hopen : w.state.liquidation = true) (ht : t < w.state.reviveAt)
    (his : ∀ i ∈ is, ∀ t', i.time = some t' → t' ≤ t) : (run step w is).state.timing = w.state.timing := by
  induction is generalizing w with
  | nil => rfl
  | cons i is ih =>
    have htiming := exec_timing hw hopen ht (his i List.mem_cons_self)
    have hwf : (exec step w i).WF := by
      rcases exec_cases step w i with ⟨w', h, he⟩ | he
      · rw [he]
        exact (step_committed hw h).wf
      · rwa [he]
    obtain ⟨hl, hat, hcfg⟩ := GraiState.timing_eq.1 htiming
    rw [run_cons, ih hwf (hl.trans hopen) ?_ fun j hj => his j (List.mem_cons_of_mem i hj), htiming]
    simp only [GraiState.reviveAt, GraiState.redeemAt, hat, hcfg] at ht ⊢
    exact ht

/-- one more instruction of a run is a turn, also where it is refused -/
theorem Genesis.after_turn (g : Genesis) (pre : List Instr) (i : Instr) : Turn (g.after pre) i (g.after (pre ++ [i])) := by
  unfold Genesis.after
  rw [run_append, run_cons]
  rcases exec_cases step (run step g.world pre) i with ⟨w', h, he⟩ | he
  · rw [he]
    exact step_turn (g.after_wf pre) h
  · rw [he]
    exact .keeps rfl

/-- what comes between an instruction and a later one is at no later time -/
theorem Clocked.before {pre mid post : List Instr} {i j : Instr} {t : ℤ} (h : Clocked (pre ++ i :: (mid ++ j :: post)))
    (hj : j.time = some t) : ∀ k ∈ mid, ∀ t', k.time = some t' → t' ≤ t := by
  intro k hk t' ht'
  have hsorted := h.sorted
  rw [List.pairwise_append, List.pairwise_cons, List.pairwise_append] at hsorted
  exact hsorted.2.1.2.2.2 k hk j List.mem_cons_self t' t ht' hj

/-- until the redeem period that follows it ends, an opening stands -/
theorem executeLiquidate_stands {a : Liquidate} {mid : List Instr} {t : ℤ} (hw : w.WF) (h : executeLiquidate w a = .ok w')
    (ht : t < a.now + w.state.config.liquidationPeriod + w.state.config.redeemPeriod)
    (hmid : ∀ k ∈ mid, ∀ t', k.time = some t' → t' ≤ t) :
    (run step w' mid).state.timing = (true, a.now, w.state.config) := by
  have hwf : w'.WF := (executeLiquidate_committed hw h).wf
  have hopened := executeLiquidate_timing h
  obtain ⟨hopen, hat, hcfg⟩ := GraiState.timing_eq.1 hopened
  rw [← hopened]
  refine run_timing hwf hopen ?_ hmid
  simp only [GraiState.reviveAt, GraiState.redeemAt, hat, hcfg]
  exact ht

/-- **Timeline.** Along every run by a clock that never goes back, liquidation opens on a quorum and a stale heartbeat only, its
clock and the parameters stand while it is open, and it stays open for the whole redeem period. The clock is the only assumption:
the times that instructions carry fit an `i64` and do not go back along the run. The owner can change the parameters before and
after, and not while liquidation is open. -/
theorem liquidation_timeline (g : Genesis) (is : List Instr) (hclock : Clocked is) : Timeline g is where
  opens pre i post his hclosed hopen := by
    obtain ⟨a, rfl, quorum, ⟨grinders, hgrinders, hstale⟩, hat⟩ := (g.after_turn pre i).opening hclosed hopen
    have hnow : a.now < 2 ^ 63 := hclock.times (.liquidate a) (by simp [his]) a.now rfl
    exact ⟨a, grinders, rfl, quorum, hgrinders, by omega, hat⟩
  fixed pre i post _ hopen hopen' := by
    have htiming := (g.after_turn pre i).standing hopen hopen'
    exact (GraiState.timing_eq.1 htiming).2
  redeems _ _ _ _ _ h := executeRedeem_opened h
  closes pre i post _ hopen hclosed := (g.after_turn pre i).closing hopen hclosed
  window pre a mid j post w t his h hj ht := by
    have hafter : g.after (pre ++ .liquidate a :: mid) = run step w mid := by
      unfold Genesis.after at h ⊢
      rw [run_append, run_cons, exec_ok h]
    have htiming := executeLiquidate_stands (g.after_wf pre) h ht ((his ▸ hclock).before hj)
    obtain ⟨hopen, hat, hcfg⟩ := GraiState.timing_eq.1 htiming
    rw [hafter]
    refine ⟨htiming, fun hle => ⟨hopen, ?_⟩⟩
    rw [GraiState.redeemAt, hat, hcfg]
    exact hle

/-- wallet 2 votes its shares, opens liquidation, redeems half of them and revives -/
def oneLiquidation : List Instr :=
  [Sample.listing Sample.usdc false, Sample.deposit 2 1000 .default (List.replicate 3 .default),
    .vote ⟨Sample.wallet 2, .ata (Sample.user 2) Sample.grai, Sample.pairs (Sample.user 2) [Sample.usdc], 1000, 10⟩,
    .grinders (Sample.user 1) ⟨.program, 10, 100⟩, .liquidate ⟨Sample.wallet 2, 111⟩,
    .redeem ⟨Sample.wallet 2, .ata (Sample.user 2) Sample.grai, Sample.quads (Sample.user 2) [Sample.usdc], 500, 86511⟩,
    .revive ⟨[.asset Sample.usdc, Sample.usdc, .default, .vault Sample.usdc, .ata (Sample.user 1) Sample.usdc], 691311⟩]

theorem timeline_of_one_liquidation :
    (Sample.genesis.after (oneLiquidation.take 5)).state.timing = (true, 111, defaultProtocolConfig) ∧
      (Sample.genesis.after oneLiquidation).state.liquidation = false ∧ Timeline Sample.genesis oneLiquidation := by
  refine ⟨by decide +kernel, by decide +kernel, liquidation_timeline _ _ ⟨?_, ?_⟩⟩
  · simp [oneLiquidation, Instr.time, Sample.listing, Sample.deposit]
  · simp [oneLiquidation, Instr.time, Sample.listing, Sample.deposit]

end Grindurus.Grai
