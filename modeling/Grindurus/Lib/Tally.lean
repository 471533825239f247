/-
Totals of finitely supported quantities over an unbounded key space.

`HasTotal f n`: only finitely many keys have `f k ≠ 0`, and the values of `f` sum to `n`. A ledger keeps such a total in
one counter; the lemmas say how the counter moves when one key is written (`update`), when a quantity moves between
two keys (`move`), and what the total bounds (`le`, `pair_le`, `sum_div_le`).
-/
import Mathlib.Tactic
import Mathlib.Algebra.BigOperators.Finprod

namespace Grindurus.Tally

variable {K : Type} {f g : K → ℕ} {n m : ℕ}

/-- `f` is nonzero at finitely many keys only and its values sum to `n` -/
def HasTotal (f : K → ℕ) (n : ℕ) : Prop := f.support.Finite ∧ ∑ᶠ k, f k = n

/-- a total is a sum over any finite set of keys outside of which the quantity is zero -/
theorem HasTotal.of_sum (s : Finset K) (hs : ∀ k ∉ s, f k = 0) (hn : ∑ k ∈ s, f k = n) : HasTotal f n := by
  have hsub : f.support ⊆ ↑s := fun k hk => by
    by_contra hks
    exact hk (hs k hks)
  exact ⟨s.finite_toSet.subset hsub, by rw [finsum_eq_sum_of_support_subset f hsub, hn]⟩

/-- the total over a finite set that covers the support and any further keys one asks for -/
theorem HasTotal.cover [DecidableEq K] (h : HasTotal f n) (t : Finset K) :
    ∃ s : Finset K, t ⊆ s ∧ (∀ k ∉ s, f k = 0) ∧ ∑ k ∈ s, f k = n := by
  refine ⟨h.1.toFinset ∪ t, Finset.subset_union_right, fun k hk => ?_, ?_⟩
  · by_contra hne
    exact hk (Finset.mem_union_left _ (h.1.mem_toFinset.2 hne))
  · have hsub : f.support ⊆ ↑(h.1.toFinset ∪ t) := fun k hk => by
      rw [Finset.coe_union]
      exact Or.inl (h.1.mem_toFinset.2 hk)
    exact (finsum_eq_sum_of_support_subset f hsub).symm.trans h.2

theorem hasTotal_zero : HasTotal (fun _ : K => 0) 0 := .of_sum ∅ (fun _ _ => rfl) rfl

theorem HasTotal.congr (h : HasTotal f n) (hfg : ∀ k, f k = g k) : HasTotal g n := (funext hfg : f = g) ▸ h

theorem HasTotal.unique (h : HasTotal f n) (h' : HasTotal f m) : n = m := h.2.symm.trans h'.2

variable [DecidableEq K]

theorem HasTotal.sum_le (h : HasTotal f n) (t : Finset K) : ∑ k ∈ t, f k ≤ n := by
  obtain ⟨s, hts, -, hn⟩ := h.cover t
  rw [← hn]
  exact Finset.sum_le_sum_of_subset hts

theorem HasTotal.le (h : HasTotal f n) (k : K) : f k ≤ n := by
  simpa using h.sum_le {k}

theorem HasTotal.pair_le (h : HasTotal f n) {j k : K} (hjk : j ≠ k) : f j + f k ≤ n := by
  simpa [Finset.sum_pair hjk] using h.sum_le {j, k}

/-- one key is written: the counter moves by the difference -/
theorem HasTotal.update (h : HasTotal f n) (k : K) (v : ℕ) (hm : m + f k = n + v) :
    HasTotal (Function.update f k v) m := by
  obtain ⟨s, hks, hs, hn⟩ := h.cover {k}
  have hk : k ∈ s := hks (Finset.mem_singleton_self k)
  refine .of_sum s (fun j hj => ?_) ?_
  · rw [Function.update_of_ne (by rintro rfl; exact hj hk)]
    exact hs j hj
  · have h1 := Finset.sum_update_of_mem hk f v
    have h2 := Finset.add_sum_erase s f hk
    rw [Finset.sdiff_singleton_eq_erase] at h1
    omega

/-- the same, for a quantity given by its values: `g` differs from `f` at `k` only -/
theorem HasTotal.write (h : HasTotal f n) (k : K) (hg : ∀ j, j ≠ k → g j = f j) (hm : m + f k = n + g k) :
    HasTotal g m := by
  refine (h.update k (g k) hm).congr fun j => ?_
  by_cases hj : j = k
  · subst hj; simp
  · rw [Function.update_of_ne hj, hg j hj]

/-- two keys are written and what one loses the other gains: the total stands -/
theorem HasTotal.move (h : HasTotal f n) {j k : K} (hjk : j ≠ k) (hg : ∀ i, i ≠ j → i ≠ k → g i = f i)
    (hm : g j + g k = f j + f k) : HasTotal g n := by
  have hle := h.pair_le hjk
  have h1 : HasTotal (Function.update f j (g j)) (n + g j - f j) := h.update j (g j) (by omega)
  refine h1.write k (fun i hi => ?_) ?_
  · by_cases hij : i = j
    · subst hij; simp
    · rw [Function.update_of_ne hij, hg i hij hi]
  · rw [Function.update_of_ne (Ne.symm hjk)]
    omega

/-- pointwise below -/
theorem HasTotal.mono (h : HasTotal f n) (h' : HasTotal g m) (hfg : ∀ k, f k ≤ g k) : n ≤ m := by
  obtain ⟨s, -, hs, hn⟩ := h.cover ∅
  obtain ⟨t, hst, -, hm⟩ := h'.cover s
  rw [← hn, ← hm]
  exact (Finset.sum_le_sum fun k _ => hfg k).trans (Finset.sum_le_sum_of_subset hst)

/-- a quantity pointwise below a total has a total itself, and a smaller one -/
theorem HasTotal.exists_of_le (h : HasTotal g m) (hfg : ∀ k, f k ≤ g k) : ∃ n, HasTotal f n ∧ n ≤ m := by
  have hf : HasTotal f (∑ᶠ k, f k) :=
    ⟨h.1.subset fun k hk => by
      have := hfg k
      simp only [Function.mem_support] at hk ⊢
      omega, rfl⟩
  exact ⟨_, hf, hf.mono h hfg⟩

/-- floors lose: the floors of the parts sum to at most the floor of the whole -/
theorem HasTotal.sum_div_le (h : HasTotal f n) (x p : ℕ) (t : Finset K) :
    ∑ k ∈ t, f k * x / p ≤ n * x / p := by
  have hle : ∑ k ∈ t, f k * x / p ≤ (∑ k ∈ t, f k * x) / p := by
    induction t using Finset.induction_on with
    | empty => simp
    | insert k t hk ih =>
      rw [Finset.sum_insert hk, Finset.sum_insert hk]
      exact (Nat.add_le_add_left ih _).trans Nat.div_add_div_le_add_div
  refine hle.trans (Nat.div_le_div_right ?_)
  rw [← Finset.sum_mul]
  exact Nat.mul_le_mul_right _ (h.sum_le t)

end Grindurus.Tally
