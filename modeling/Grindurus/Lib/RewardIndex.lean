/-
Reward-index accounting: every stake earns `stake * index / p`, collected through lazy checkpoints.

A pool keeps one growing index and a reserve; each account keeps a checkpoint `(debt, claimable)` that is settled only
when the account acts. All floors are taken separately, so the sum of what the accounts may collect can exceed the
reserve.

- `earned`, `Checkpoint.settle`, `touch`, `pending`: the arithmetic.
- `Synced`: a checkpoint whose debt is at most what its stake has earned. Settling restores it, a growing index keeps it.
- `Covered`: the potential. `Covered.pending_le`: over any finite set of accounts the pending rewards are at most the
  reserve plus the slack. `accrue` and `pay` keep the slack, a settlement costs one unit if it changes the stake and
  nothing otherwise.
- `Stale`: what remains of a pool that was closed with an empty reserve.
-/
import Grindurus.Lib.Tally

namespace Grindurus.RewardIndex

open Tally Function

/-! ## Arithmetic -/

/-- what the stake `l` has earned at index `a`, rounded down -/
def earned (p l a : ℕ) : ℕ := l * a / p

structure Checkpoint where
  debt : ℕ
  claimable : ℕ
  deriving DecidableEq, Repr

namespace Checkpoint

/-- bank what the stake `old` earned beyond the debt, restart with the stake `new` -/
def settle (p a old new : ℕ) (c : Checkpoint) : Checkpoint :=
  ⟨earned p new a, c.claimable + (earned p old a - c.debt)⟩

/-- what a stake `l` may collect at index `a` -/
def pending (p a l : ℕ) (c : Checkpoint) : ℕ := c.claimable + (earned p l a - c.debt)

def Synced (p a l : ℕ) (c : Checkpoint) : Prop := c.debt ≤ earned p l a

end Checkpoint

/-- a settlement opens a missing checkpoint first; what accrued before it was opened is not banked -/
def touch (p a old new : ℕ) : Option Checkpoint → Checkpoint
  | some c => c.settle p a old new
  | none => Checkpoint.settle p a 0 new ⟨0, 0⟩

theorem earned_zero_left (p a : ℕ) : earned p 0 a = 0 := by simp [earned]

theorem earned_zero_right (p l : ℕ) : earned p l 0 = 0 := by simp [earned]

theorem earned_mono {p l a a' : ℕ} (h : a ≤ a') : earned p l a ≤ earned p l a' :=
  Nat.div_le_div_right (Nat.mul_le_mul_left l h)

/-- floors of two parts: at most the floor of the whole -/
theorem earned_add_le (p l l' a : ℕ) : earned p l a + earned p l' a ≤ earned p (l + l') a := by
  unfold earned
  rw [Nat.add_mul]
  exact Nat.div_add_div_le_add_div

/-- and short of it by at most one -/
theorem earned_add_ge {p : ℕ} (hp : 0 < p) (l l' a : ℕ) : earned p (l + l') a ≤ earned p l a + earned p l' a + 1 := by
  unfold earned
  rw [Nat.add_mul, Nat.add_div hp]
  split_ifs <;> omega

theorem touch_debt (p a old new : ℕ) (c : Option Checkpoint) : (touch p a old new c).debt = earned p new a := by
  cases c <;> rfl

theorem touch_none (p a old new : ℕ) : touch p a old new none = ⟨earned p new a, 0⟩ := by
  simp [touch, Checkpoint.settle, earned_zero_left]

theorem Checkpoint.Synced.mono {p a a' l : ℕ} {c : Checkpoint} (h : c.Synced p a l) (ha : a ≤ a') : c.Synced p a' l :=
  Nat.le_trans h (earned_mono ha)

theorem touch_synced (p a old new : ℕ) (c : Option Checkpoint) : (touch p a old new c).Synced p a new :=
  (touch_debt p a old new c).le

/-- settling at an unchanged stake moves nothing in or out of what is pending -/
theorem settle_pending (p a l : ℕ) (c : Checkpoint) : (c.settle p a l l).pending p a l = c.pending p a l := by
  simp [Checkpoint.settle, Checkpoint.pending]

/-- a growing index adds to what is pending exactly what the stake earned meanwhile -/
theorem pending_accrue {p a a' l : ℕ} {c : Checkpoint} (h : c.Synced p a l) (ha : a ≤ a') :
    c.pending p a' l + earned p l a = c.pending p a l + earned p l a' := by
  have hmono : earned p l a ≤ earned p l a' := earned_mono ha
  unfold Checkpoint.Synced at h
  unfold Checkpoint.pending
  omega

/-! ## The potential -/

variable {U : Type}

def claimableOf (pos : U → Option Checkpoint) (u : U) : ℕ := ((pos u).map Checkpoint.claimable).getD 0

def debtOf (pos : U → Option Checkpoint) (u : U) : ℕ := ((pos u).map Checkpoint.debt).getD 0

/-- what `u` may collect; nothing without a checkpoint -/
def pendingOf (p a : ℕ) (lock : U → ℕ) (pos : U → Option Checkpoint) (u : U) : ℕ :=
  ((pos u).map (Checkpoint.pending p a (lock u))).getD 0

/-- the reserve covers the accounts up to `slack`: `base u` is the part of the debt of `u` that its stake has earned -/
structure Covered (p a : ℕ) (lock : U → ℕ) (pos : U → Option Checkpoint) (total reserve slack : ℕ) : Prop where
  stakes : HasTotal lock total
  potential : ∃ (base : U → ℕ) (bases claims : ℕ), HasTotal base bases ∧ HasTotal (claimableOf pos) claims ∧
    (∀ u, base u ≤ debtOf pos u) ∧ (∀ u, base u ≤ earned p (lock u) a) ∧
    claims + earned p total a ≤ reserve + slack + bases

/-- what a closed pool leaves behind: claims worth at most `slack` -/
def Stale (pos : U → Option Checkpoint) (slack : ℕ) : Prop := ∃ claims, HasTotal (claimableOf pos) claims ∧ claims ≤ slack

variable {p a a' total reserve slack : ℕ} {lock : U → ℕ} {pos : U → Option Checkpoint}

theorem pendingOf_le {base : ℕ} {u : U} (h : base ≤ debtOf pos u) :
    pendingOf p a lock pos u ≤ claimableOf pos u + (earned p (lock u) a - base) := by
  unfold pendingOf claimableOf
  unfold debtOf at h
  cases hu : pos u with
  | none => simp
  | some c =>
    simp only [hu, Option.map_some, Option.getD_some] at h ⊢
    unfold Checkpoint.pending
    omega

variable [DecidableEq U]

/-- **Overhang bound.** Over any finite set of accounts, what may be collected is at most the reserve plus the slack. -/
theorem Covered.pending_le (h : Covered p a lock pos total reserve slack) (t : Finset U) :
    ∑ u ∈ t, pendingOf p a lock pos u ≤ reserve + slack := by
  obtain ⟨base, bases, claims, hb, hc, hdebt, hearned, hpot⟩ := h.potential
  obtain ⟨s, hts, hs, hn⟩ := hb.cover t
  have hmono : ∑ u ∈ t, pendingOf p a lock pos u ≤ ∑ u ∈ s, pendingOf p a lock pos u := Finset.sum_le_sum_of_subset hts
  have hsum : ∑ u ∈ s, pendingOf p a lock pos u + bases ≤ claims + earned p total a := by
    rw [← hn, ← Finset.sum_add_distrib]
    calc ∑ u ∈ s, (pendingOf p a lock pos u + base u)
        ≤ ∑ u ∈ s, (claimableOf pos u + earned p (lock u) a) := Finset.sum_le_sum fun u _ => by
          have h₁ : pendingOf p a lock pos u ≤ claimableOf pos u + (earned p (lock u) a - base u) :=
            pendingOf_le (hdebt u)
          have h₂ := hearned u
          omega
      _ = ∑ u ∈ s, claimableOf pos u + ∑ u ∈ s, lock u * a / p := Finset.sum_add_distrib
      _ ≤ claims + earned p total a := Nat.add_le_add (hc.sum_le s) (h.stakes.sum_div_le a p s)
  omega

omit [DecidableEq U] in
/-- the index grows and the reserve takes up what the whole stake earns by it -/
theorem Covered.accrue (h : Covered p a lock pos total reserve slack) (ha : a ≤ a') {r : ℕ}
    (hr : earned p total a' = earned p total a + r) : Covered p a' lock pos total (reserve + r) slack := by
  obtain ⟨base, bases, claims, hb, hc, hdebt, hearned, hpot⟩ := h.potential
  exact ⟨h.stakes, base, bases, claims, hb, hc, hdebt, fun u => (hearned u).trans (earned_mono ha), by omega⟩

theorem claimableOf_update_ne {u v : U} (c : Checkpoint) (h : v ≠ u) :
    claimableOf (update pos u (some c)) v = claimableOf pos v := by simp [claimableOf, h]

theorem claimableOf_update_self (u : U) (c : Checkpoint) : claimableOf (update pos u (some c)) u = c.claimable := by
  simp [claimableOf]

theorem debtOf_update_ne {u v : U} (c : Checkpoint) (h : v ≠ u) :
    debtOf (update pos u (some c)) v = debtOf pos v := by simp [debtOf, h]

theorem debtOf_update_self (u : U) (c : Checkpoint) : debtOf (update pos u (some c)) u = c.debt := by simp [debtOf]

omit [DecidableEq U] in
/-- what a settlement banks, on top of the part of the debt that was earned, has been earned -/
theorem touch_banked {base old new : ℕ} {u : U} (hdebt : base ≤ debtOf pos u) (hearned : base ≤ earned p old a) :
    (touch p a old new (pos u)).claimable + base ≤ claimableOf pos u + earned p old a := by
  unfold debtOf at hdebt
  unfold claimableOf
  cases hu : pos u with
  | none =>
    simp only [hu, Option.map_none, Option.getD_none] at hdebt ⊢
    rw [touch_none]
    show 0 + base ≤ _
    omega
  | some c =>
    simp only [hu, Option.map_some, Option.getD_some] at hdebt ⊢
    show c.claimable + (earned p old a - c.debt) + base ≤ _
    omega

/-- a settlement: one unit of slack if it changes the stake, none otherwise -/
theorem Covered.settle (h : Covered p a lock pos total reserve slack) (hp : 0 < p) (u : U) {new total' : ℕ}
    (htotal : total' + lock u = total + new) :
    Covered p a (update lock u new) (update pos u (some (touch p a (lock u) new (pos u)))) total' reserve
      (slack + if new = lock u then 0 else 1) := by
  obtain ⟨base, bases, claims, hb, hc, hdebt, hearned, hpot⟩ := h.potential
  set c := touch p a (lock u) new (pos u) with hcdef
  have hbank : c.claimable + base u ≤ claimableOf pos u + earned p (lock u) a := touch_banked (hdebt u) (hearned u)
  have hle := hb.le u
  have hle' := hc.le u
  refine ⟨h.stakes.update u new htotal, update base u (earned p new a), bases + earned p new a - base u,
    claims + c.claimable - claimableOf pos u, hb.update u _ (by omega), ?_, fun v => ?_, fun v => ?_, ?_⟩
  · refine hc.write u (fun v hv => claimableOf_update_ne c hv) ?_
    rw [claimableOf_update_self]
    omega
  · by_cases hv : v = u
    · subst hv
      rw [update_self, debtOf_update_self]
      exact (touch_debt p a (lock v) new (pos v)).ge
    · rw [update_of_ne hv, debtOf_update_ne c hv]
      exact hdebt v
  · by_cases hv : v = u
    · subst hv; simp
    · rw [update_of_ne hv, update_of_ne hv]
      exact hearned v
  · -- the stake moves from `lock u` to `new`: two floors are exchanged for two others
    split_ifs with hnew
    · have htot : total' = total := by omega
      subst hnew htot
      omega
    · have h₁ := earned_add_le p (lock u) total' a
      have h₂ := earned_add_ge hp total new a
      rw [show lock u + total' = total + new by omega] at h₁
      omega

/-- a payment out of a checkpoint and the reserve -/
theorem Covered.pay (h : Covered p a lock pos total reserve slack) {u : U} {c : Checkpoint} (hu : pos u = some c) {x : ℕ}
    (hx : x ≤ c.claimable) (hres : x ≤ reserve) :
    Covered p a lock (update pos u (some { c with claimable := c.claimable - x })) total (reserve - x) slack := by
  obtain ⟨base, bases, claims, hb, hc, hdebt, hearned, hpot⟩ := h.potential
  have hcu : claimableOf pos u = c.claimable := by simp [claimableOf, hu]
  have hle := hc.le u
  refine ⟨h.stakes, base, bases, claims - x, hb, ?_, fun v => ?_, hearned, by omega⟩
  · refine hc.write u (fun v hv => claimableOf_update_ne _ hv) ?_
    rw [claimableOf_update_self]
    show _ = _ + (c.claimable - x)
    omega
  · by_cases hv : v = u
    · subst hv
      rw [debtOf_update_self]
      simpa [debtOf, hu] using hdebt v
    · rw [debtOf_update_ne _ hv]
      exact hdebt v

/-- an empty checkpoint is opened -/
theorem Covered.open (h : Covered p a lock pos total reserve slack) {u : U} (hu : pos u = none) :
    Covered p a lock (update pos u (some ⟨0, 0⟩)) total reserve slack := by
  obtain ⟨base, bases, claims, hb, hc, hdebt, hearned, hpot⟩ := h.potential
  refine ⟨h.stakes, base, bases, claims, hb, ?_, fun v => ?_, hearned, hpot⟩
  · refine hc.congr fun v => ?_
    by_cases hv : v = u
    · subst hv; simp [claimableOf, hu]
    · exact (claimableOf_update_ne _ hv).symm
  · by_cases hv : v = u
    · subst hv; simpa [debtOf, hu] using hdebt v
    · rw [debtOf_update_ne _ hv]; exact hdebt v

/-- a pool with an empty reserve is closed -/
theorem Covered.stale (h : Covered p a lock pos total 0 slack) : Stale pos slack := by
  obtain ⟨base, bases, claims, hb, hc, -, hearned, hpot⟩ := h.potential
  obtain ⟨s, -, -, hn⟩ := hb.cover ∅
  have hbases : bases ≤ earned p total a := by
    rw [← hn]
    exact (Finset.sum_le_sum fun u _ => hearned u).trans (h.stakes.sum_div_le a p s)
  exact ⟨claims, hc, by omega⟩

omit [DecidableEq U] in
/-- a pool is opened over what a closed one left behind -/
theorem Stale.covered (h : Stale pos slack) (hlock : HasTotal lock total) : Covered p 0 lock pos total 0 slack := by
  obtain ⟨claims, hc, hle⟩ := h
  refine ⟨hlock, fun _ => 0, 0, claims, hasTotal_zero, hc, fun _ => Nat.zero_le _, fun _ => Nat.zero_le _, ?_⟩
  rw [earned_zero_right]
  omega

end Grindurus.RewardIndex
