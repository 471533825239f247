/-
A fee taken out of what is transferred: a share of the amount, rounded up, and never more than a cap.

- `withheld n d cap x`: the fee on `x`, at `n / d`. `kept`: what is left of `x`. `needed`: what has to be sent for `y` to be left.
- `needed_gc`: `needed` and `kept` are a Galois connection: what is needed is the least that leaves enough. `kept_needed`: and it
  leaves exactly that.
-/
import Mathlib.Tactic
import Mathlib.Algebra.Order.Floor.Div

namespace Grindurus.Withholding

variable {n d cap x y : ℕ}

def withheld (n d cap x : ℕ) : ℕ := min ((x * n) ⌈/⌉ d) cap

def kept (n d cap x : ℕ) : ℕ := x - withheld n d cap x

/-- a fee of the whole can only be outgrown -/
def needed (n d cap y : ℕ) : ℕ :=
  if y = 0 then 0 else if n = d then y + cap else min ((y * d) ⌈/⌉ (d - n)) (y + cap)

theorem withheld_mono (hd : 0 < d) (h : x ≤ y) : withheld n d cap x ≤ withheld n d cap y := by
  refine min_le_min ?_ le_rfl
  rw [ceilDiv_le_iff_le_mul hd]
  exact (Nat.mul_le_mul_right n h).trans ((ceilDiv_le_iff_le_mul hd).1 le_rfl)

/-- one more unit leaves one more at most -/
theorem kept_succ_le (hd : 0 < d) (x : ℕ) : kept n d cap (x + 1) ≤ kept n d cap x + 1 := by
  have hmono : withheld n d cap x ≤ withheld n d cap (x + 1) := withheld_mono hd (Nat.le_succ x)
  unfold kept
  omega

/-- enough is left if the share leaves enough, or the cap does -/
theorem le_kept (hd : 0 < d) (hn : n ≤ d) (hy : 0 < y) : y ≤ kept n d cap x ↔ y * d ≤ x * (d - n) ∨ y + cap ≤ x := by
  have hshare : y + (x * n) ⌈/⌉ d ≤ x ↔ y * d ≤ x * (d - n) := by
    have hsplit : x * n + x * (d - n) = x * d := by rw [← Nat.mul_add, Nat.add_sub_cancel' hn]
    constructor
    · intro h
      have hceil : (x * n) ⌈/⌉ d ≤ x - y := by omega
      rw [ceilDiv_le_iff_le_mul hd, Nat.mul_sub] at hceil
      have hle : d * y ≤ d * x := Nat.mul_le_mul_left d (by omega)
      have hcomm := Nat.mul_comm d x
      have hcomm' := Nat.mul_comm d y
      omega
    · intro h
      have hle : y * d ≤ x * d := h.trans (hsplit ▸ Nat.le_add_left ..)
      have hxy : y ≤ x := Nat.le_of_mul_le_mul_right hle hd
      have hceil : (x * n) ⌈/⌉ d ≤ x - y := by
        rw [ceilDiv_le_iff_le_mul hd, Nat.mul_sub]
        have hcomm := Nat.mul_comm d x
        have hcomm' := Nat.mul_comm d y
        omega
      omega
  rw [← hshare, kept, withheld]
  rcases le_total ((x * n) ⌈/⌉ d) cap with h | h
  · rw [min_eq_left h]
    omega
  · rw [min_eq_right h]
    omega

/-- **Exactly what is needed.** -/
theorem needed_gc (hd : 0 < d) (hn : n ≤ d) : GaloisConnection (needed n d cap) (kept n d cap) := by
  intro y x
  rcases Nat.eq_zero_or_pos y with rfl | hy
  · simp [needed]
  · rw [le_kept hd hn hy, needed, if_neg hy.ne']
    split_ifs with hnd
    · subst hnd
      have hnone : ¬ y * n ≤ x * (n - n) := by
        rw [Nat.sub_self, Nat.mul_zero]
        exact (Nat.mul_pos hy hd).not_ge
      rw [or_iff_right hnone]
    · have hrest : 0 < d - n := by omega
      rw [min_le_iff, ceilDiv_le_iff_le_mul hrest, Nat.mul_comm (d - n)]

theorem needed_free (hd : 0 < d) (y : ℕ) : needed 0 d cap y = y := by
  refine eq_of_forall_ge_iff fun x => (needed_gc hd (Nat.zero_le d) y x).trans ?_
  simp [kept, withheld]

theorem kept_needed (hd : 0 < d) (hn : n ≤ d) (y : ℕ) : kept n d cap (needed n d cap y) = y := by
  have hgc : GaloisConnection (needed n d cap) (kept n d cap) := needed_gc hd hn
  refine le_antisymm ?_ (hgc.le_u_l y)
  -- one unit less would not leave enough
  cases hx : needed n d cap y with
  | zero => simp [kept]
  | succ x =>
    have hless : kept n d cap x < y := by
      rw [← not_le, ← hgc.le_iff_le, hx]
      omega
    exact (kept_succ_le hd x).trans hless

end Grindurus.Withholding
