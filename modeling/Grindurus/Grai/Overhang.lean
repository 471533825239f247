/-
How far the dividends that lockers may collect can exceed what is reserved for them.

Floors are taken per locker and again for the whole lock, so the pending dividends of an asset can add up to more than its
reserve. `overhang` bounds the excess by the number of lock changes that settled the asset; distributions and claims add
nothing to it, in any order.
-/
import Grindurus.Grai.Custody

namespace Grindurus.Grai

open Tally RewardIndex Machine

/-- what `u` may collect of an asset: what its position holds, and what its lock earned beyond the debt; nothing without a
position -/
def World.pending (w : World) (m : Key) (asset : AssetConfig) (u : Key) : ℕ :=
  match w.positions (u, m) with
  | none => 0
  | some position => position.claimable + (w.lockOf u * asset.accShare / DIVIDEND_PRECISION - position.debt)

/-- the dividends pending in `m` exceed what is reserved for them by at most `k`, over any set of lockers -/
def World.OverhangWithin (w : World) (m : Key) (k : ℕ) : Prop :=
  ∀ asset, w.assets m = some asset → ∀ us : Finset Key, ∑ u ∈ us, w.pending m asset u ≤ asset.totalClaimable + k

open Classical in
/-- did an instruction settle `m` across a change of some lock -/
noncomputable def lockChange (m : Key) (w : World) (_ : Instr) (w' : World) : ℕ :=
  if (w'.assets m).isSome ∧ ∃ u, w'.lockOf u ≠ w.lockOf u then 1 else 0

/-- the lock changes of a run that settled `m` -/
noncomputable def Genesis.lockChanges (g : Genesis) (m : Key) (is : List Instr) : ℕ := tally step (lockChange m) g.world is

theorem World.pending_eq (w : World) (m : Key) (asset : AssetConfig) (u : Key) :
    w.pending m asset u = pendingOf DIVIDEND_PRECISION asset.accShare w.lockOf (checkpoints w.positions m) u := by
  unfold World.pending pendingOf checkpoints
  cases w.positions (u, m) <;> rfl

theorem Overhung.within {w : World} {m : Key} {k : ℕ} (h : Overhung DIVIDEND_PRECISION m k w.view) : w.OverhangWithin m k := by
  intro asset ha us
  have hc := ((Overhung.some_iff (World.view_asset ha)).1 h).pending_le us
  simp only [World.pending_eq]
  exact hc

theorem lockChange_eq {w w' : World} {i : Instr} {who : Option Key} {act : Actor Key} (m : Key)
    (h : Trans DIVIDEND_PRECISION w.view who act w'.view) : lockChange m w i w' = settleCost m who w'.view := by
  have hlisted : (w'.assets m).isSome ↔ (w'.view.asset m).isSome := by simp [World.view]
  have hchanged : (∃ u, w'.lockOf u ≠ w.lockOf u) ↔ who.isSome := h.changed_iff.symm
  unfold lockChange settleCost
  simp only [hlisted, hchanged]

theorem Overhung.empty (m : Key) (held : Holdings Key) : Overhung DIVIDEND_PRECISION m 0 (.empty held) :=
  (Overhung.none_iff rfl).2 ⟨0, hasTotal_zero, le_rfl⟩

theorem after_overhung (g : Genesis) (m : Key) (is : List Instr) :
    Overhung DIVIDEND_PRECISION m (g.lockChanges m is) (g.after is).view := by
  have hstep : ∀ w i w' k, (w.WF ∧ Staked w.view ∧ Overhung DIVIDEND_PRECISION m k w.view) → step w i = .ok w' →
      w'.WF ∧ Staked w'.view ∧ Overhung DIVIDEND_PRECISION m (k + lockChange m w i w') w'.view := by
    intro w i w' k ⟨hw, hs, hk⟩ h
    obtain ⟨hw', who, ht⟩ := step_committed hw h
    rw [lockChange_eq m ht]
    exact ⟨hw', hs.trans ht, hk.trans (by decide) hs ht⟩
  have hrun := run_bounded hstep g.world is 0 ⟨g.wf, g.view ▸ .empty _, g.view ▸ .empty m _⟩
  rw [Nat.zero_add] at hrun
  exact hrun.2.2

/-- **Overhang.** After every run the dividends pending in an asset are at most its reserve plus the number of lock changes that
settled it. The excess comes from rounding alone: each lock that changes is settled with a floor of its own, and the floor of the
whole lock does not know of it. Dividends and claims, in whatever number, add nothing. The bound is in units of the asset,
whatever the amounts. -/
theorem overhang (g : Genesis) (is : List Instr) (m : Key) : (g.after is).OverhangWithin m (g.lockChanges m is) :=
  (after_overhung g m is).within

end Grindurus.Grai
