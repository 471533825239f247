/-
Draining: accounts are emptied into a vault, one at a time, until nothing is left.

- `exists_drained`: if every pocket that holds something can be emptied without filling another, all of them can be.
- `reserve P m b k`: what the account at `k` holds of the mint `m` for an owner of whom `P` holds.
- `Emptied k v b b'`: all that `k` held is in `v` now, and nothing else happened. A transfer can do it, and two in a row.
- `Emptied.reserve`, `Emptied.total`: what that does to the reserves, where the vault is not one of them.
-/
import Grindurus.Lib.Opened
import Grindurus.Lib.Tally

namespace Grindurus

/-! ## Pockets -/

/-- **Drained.** Whoever can empty each pocket can empty all, when finitely many hold something. -/
theorem exists_drained {S K : Type} {r : S → S → Prop} {Good : S → Prop} {f : S → K → ℕ}
    (hdrain : ∀ s k, Good s → 0 < f s k →
      ∃ s', Relation.ReflTransGen r s s' ∧ Good s' ∧ f s' k = 0 ∧ ∀ j, f s' j ≤ f s j)
    {s : S} (hs : Good s) (hfin : (f s).support.Finite) :
    ∃ s', Relation.ReflTransGen r s s' ∧ Good s' ∧ ∀ k, f s' k = 0 := by
  classical
  have hmain : ∀ (t : Finset K) (s : S), Good s → (∀ k ∉ t, f s k = 0) →
      ∃ s', Relation.ReflTransGen r s s' ∧ Good s' ∧ ∀ k, f s' k = 0 := by
    intro t
    induction t using Finset.induction_on with
    | empty =>
      intro s hs hzero
      exact ⟨s, .refl, hs, fun k => hzero k (Finset.notMem_empty k)⟩
    | insert k t _ ih =>
      intro s hs hzero
      rcases Nat.eq_zero_or_pos (f s k) with hk | hk
      · refine ih s hs fun j hj => ?_
        rcases eq_or_ne j k with rfl | hjk
        · exact hk
        · exact hzero j (by simp [hjk, hj])
      · obtain ⟨s₁, hreach, hs₁, hk₁, hle⟩ := hdrain s k hs hk
        have hzero₁ : ∀ j ∉ t, f s₁ j = 0 := by
          intro j hj
          rcases eq_or_ne j k with rfl | hjk
          · exact hk₁
          · have hj₀ := hzero j (by simp [hjk, hj])
            have hj₁ := hle j
            omega
        obtain ⟨s', hreach', hs', hall⟩ := ih s₁ hs₁ hzero₁
        exact ⟨s', hreach.trans hreach', hs', hall⟩
  refine hmain hfin.toFinset s hs fun k hk => ?_
  by_contra hne
  exact hk (hfin.mem_toFinset.2 hne)

namespace TokenBank.Bank

open Tally Function

variable {K : Type} [DecidableEq K]

/-! ## Reserves -/

def reserve (P : K → Bool) (m : K) (b : Bank K) (k : K) : ℕ :=
  match b.slots k with
  | some (m', o) => if P o = true ∧ m' = m then b.balance k else 0
  | none => 0

variable {P : K → Bool} {b b₁ b' : Bank K} {m m' k v g j o p q : K} {x n : ℕ}

theorem reserve_some (h : b.slots k = some (m', o)) : reserve P m b k = if P o = true ∧ m' = m then b.balance k else 0 := by
  simp [reserve, h]

theorem reserve_congr (hslot : b'.slots k = b.slots k) (hbal : b'.balance k = b.balance k) : reserve P m b' k = reserve P m b k := by
  simp [reserve, hslot, hbal]

theorem reserve_le (k : K) : reserve P m b k ≤ b.balance k := by
  unfold reserve
  split
  · split_ifs
    · exact le_rfl
    · exact Nat.zero_le _
  · exact Nat.zero_le _

/-- what holds something of a mint for an owner is an account of both -/
theorem reserve_pos (h : 0 < reserve P m b k) : ∃ a, b.accounts k = some a ∧ P a.owner = true ∧ a.mint = m ∧ 0 < a.amount := by
  cases hslot : b.slots k with
  | none => simp [reserve, hslot] at h
  | some s =>
    obtain ⟨m', o⟩ := s
    rw [reserve_some hslot] at h
    obtain ⟨a, ha, rfl, rfl⟩ := slots_some.1 hslot
    split_ifs at h with hP
    · rw [balance_some ha] at h
      exact ⟨a, ha, hP.1, hP.2, h⟩
    · exact absurd h (lt_irrefl 0)

/-- an account of somebody else is no reserve -/
theorem reserve_other (h : ∀ a, b.accounts k = some a → P a.owner = false) : reserve P m b k = 0 := by
  by_contra hne
  obtain ⟨a, ha, hP, -⟩ := reserve_pos (Nat.pos_of_ne_zero hne)
  rw [h a ha] at hP
  cases hP

/-! ## Emptied -/

/-- all that `k` held is in `v`, and nothing else happened -/
structure Emptied (k v : K) (b b' : Bank K) : Prop where
  mints : b'.mints = b.mints
  slots : b'.slots = b.slots
  source : b'.balance k = 0
  vault : b'.balance v = b.balance v + b.balance k
  frame : ∀ j, j ≠ k → j ≠ v → b'.balance j = b.balance j

namespace Emptied

omit [DecidableEq K] in
theorem refl (h : b.balance k = 0) : Emptied k v b b := ⟨rfl, rfl, h, by omega, fun _ _ _ => rfl⟩

theorem of_transfer (h : b.transfer k v p x = .ok b') (hx : x = b.balance k) (hne : k ≠ v) : Emptied k v b b' := by
  obtain ⟨hmints, hslots⟩ := transfer_slots h
  have hsrc := transfer_src h hne
  have hdst := transfer_dst h hne
  exact ⟨hmints, hslots, by omega, by omega, fun j hj hv => transfer_frame h hj hv⟩

/-- by way of a third account, which is left as it was -/
theorem of_hops (h : b.transfer k g p x = .ok b₁) (h' : b₁.transfer g v q x = .ok b') (hx : x = b.balance k)
    (hkg : k ≠ g) (hgv : g ≠ v) (hkv : k ≠ v) : Emptied k v b b' := by
  obtain ⟨hmints, hslots⟩ := transfer_slots h
  obtain ⟨hmints', hslots'⟩ := transfer_slots h'
  have hk := transfer_src h hkg
  have hg := transfer_dst h hkg
  have hv := transfer_frame h hkv.symm hgv.symm
  have hk' := transfer_frame h' hkg hkv
  have hg' := transfer_src h' hgv
  have hv' := transfer_dst h' hgv
  refine ⟨hmints'.trans hmints, hslots'.trans hslots, by omega, by omega, fun j hjk hjv => ?_⟩
  rcases eq_or_ne j g with rfl | hjg
  · omega
  · rw [transfer_frame h' hjg hjv, transfer_frame h hjk hjg]

omit [DecidableEq K] in
/-- an account that is neither is as it was -/
theorem account (h : Emptied k v b b') (hk : j ≠ k) (hv : j ≠ v) : b'.accounts j = b.accounts j := by
  have hslot := congrFun h.slots j
  have hbal := h.frame j hk hv
  unfold Bank.slots at hslot
  unfold Bank.balance at hbal
  cases ha : b.accounts j with
  | none =>
    rw [ha] at hslot
    simpa using hslot
  | some a =>
    rw [ha] at hslot hbal
    cases ha' : b'.accounts j with
    | none => simp [ha'] at hslot
    | some a' =>
      obtain ⟨mint, owner, amount⟩ := a
      obtain ⟨mint', owner', amount'⟩ := a'
      simp_all

variable (hv : ∀ a, b.accounts v = some a → P a.owner = false)
include hv

omit [DecidableEq K] in
theorem vault_other (h : Emptied k v b b') : ∀ a, b'.accounts v = some a → P a.owner = false := by
  intro a ha
  have hslot : b.slots v = some (a.mint, a.owner) := by
    rw [← h.slots]
    exact slots_some.2 ⟨a, ha, rfl, rfl⟩
  obtain ⟨a₀, ha₀, -, howner⟩ := slots_some.1 hslot
  rw [← howner]
  exact hv a₀ ha₀

/-- only the reserve at `k` is gone -/
theorem reserve (h : Emptied k v b b') (j : K) : Bank.reserve P m b' j = if j = k then 0 else Bank.reserve P m b j := by
  split_ifs with hj
  · have hle : Bank.reserve P m b' j ≤ b'.balance j := reserve_le j
    rw [hj, h.source] at hle
    rw [hj]
    omega
  · rcases eq_or_ne j v with rfl | hjv
    · rw [reserve_other hv, reserve_other (h.vault_other hv)]
    · exact reserve_congr (congrFun h.slots j) (h.frame j hj hjv)

theorem total (h : Emptied k v b b') (hn : HasTotal (Bank.reserve P m b) n) :
    HasTotal (Bank.reserve P m b') (n - Bank.reserve P m b k) := by
  have hle := hn.le k
  refine hn.write k (fun j hj => ?_) ?_
  · rw [h.reserve hv, if_neg hj]
  · rw [h.reserve hv, if_pos rfl]
    omega

end Emptied

end TokenBank.Bank
end Grindurus
