/-
Scaling with floors, over the naturals.

- `scaled n d a`: `a` units of one kind in units of another, where `d` of the first are worth `n` of the second, rounded down.
- `scaled_back_le`, `lt_scaled_back`: there and back never gains, and loses less than one unit and what a unit of the other
  kind is worth.
- `le_scaled_scaled`, `scaled_scaled_le`: two divisions in a row against a limit, cross-multiplied.
- `compounded n d k a`: `k` rounds of scaling, each rounded down; monotone in the factor, the number of rounds and `a`.
-/
import Mathlib.Tactic

namespace Grindurus.Rounding

variable {n n' d k k' a b l x : ℕ}

def scaled (n d a : ℕ) : ℕ := a * n / d

/-! ## One scaling -/

theorem scaled_mono (h : a ≤ b) : scaled n d a ≤ scaled n d b := Nat.div_le_div_right (Nat.mul_le_mul_right n h)

theorem scaled_mono_factor (h : n ≤ n') : scaled n d a ≤ scaled n' d a := Nat.div_le_div_right (Nat.mul_le_mul_left a h)

theorem scaled_self (hd : 0 < d) : scaled d d a = a := Nat.mul_div_cancel a hd

theorem scaled_mul_le (n d a : ℕ) : scaled n d a * d ≤ a * n := Nat.div_mul_le_self _ _

theorem lt_scaled_succ_mul (hd : 0 < d) : a * n < (scaled n d a + 1) * d := by
  rw [Nat.mul_comm _ d]
  exact Nat.lt_mul_div_succ _ hd

theorem scaled_le (h : n ≤ d) : scaled n d a ≤ a :=
  Nat.div_le_of_le_mul ((Nat.mul_le_mul_left a h).trans (Nat.mul_comm a d).le)

theorem le_scaled (hd : 0 < d) (h : d ≤ n) : a ≤ scaled n d a := (Nat.le_div_iff_mul_le hd).2 (Nat.mul_le_mul_left a h)

/-! ## There and back -/

/-- **Never a gain.** -/
theorem scaled_back_le (n d a : ℕ) : scaled d n (scaled n d a) ≤ a :=
  Nat.div_le_of_le_mul ((scaled_mul_le n d a).trans (Nat.mul_comm a n).le)

/-- **A bounded loss.** Less than one unit, and what a unit of the other kind is worth. -/
theorem lt_scaled_back (hn : 0 < n) (hd : 0 < d) : a * n < (scaled d n (scaled n d a) + 1) * n + d := by
  have hthere : a * n < (scaled n d a + 1) * d := lt_scaled_succ_mul hd
  have hback : scaled n d a * d < (scaled d n (scaled n d a) + 1) * n := lt_scaled_succ_mul hn
  rw [Nat.add_mul, Nat.one_mul] at hthere
  omega

/-! ## Two divisions against a limit -/

theorem le_scaled_scaled (ha : 0 < a) (hb : 0 < b) : l ≤ x / a / b ↔ l * a * b ≤ x := by
  rw [Nat.div_div_eq_div_mul, Nat.le_div_iff_mul_le (Nat.mul_pos ha hb), Nat.mul_assoc]

theorem scaled_scaled_le (ha : 0 < a) (hb : 0 < b) : x / a / b ≤ l ↔ x < (l + 1) * a * b := by
  rw [← Nat.lt_add_one_iff, ← not_le, le_scaled_scaled ha hb, not_le]

/-! ## Compounding -/

def compounded (n d : ℕ) : ℕ → ℕ → ℕ
  | 0, a => a
  | k + 1, a => compounded n d k (scaled n d a)

theorem compounded_mono (k : ℕ) (h : a ≤ b) : compounded n d k a ≤ compounded n d k b := by
  induction k generalizing a b with
  | zero => exact h
  | succ k ih => exact ih (scaled_mono h)

theorem compounded_mono_factor (k : ℕ) (h : n ≤ n') (a : ℕ) : compounded n d k a ≤ compounded n' d k a := by
  induction k generalizing a with
  | zero => exact le_rfl
  | succ k ih =>
    calc compounded n d k (scaled n d a) ≤ compounded n' d k (scaled n d a) := ih _
      _ ≤ compounded n' d k (scaled n' d a) := compounded_mono k (scaled_mono_factor h)

theorem le_compounded (hd : 0 < d) (h : d ≤ n) (k a : ℕ) : a ≤ compounded n d k a := by
  induction k generalizing a with
  | zero => exact le_rfl
  | succ k ih => exact (le_scaled hd h).trans (ih _)

/-- no round of a factor above one loses anything -/
theorem compounded_mono_rounds (hd : 0 < d) (h : d ≤ n) (hk : k ≤ k') (a : ℕ) : compounded n d k a ≤ compounded n d k' a := by
  induction k generalizing k' a with
  | zero => exact le_compounded hd h k' a
  | succ k ih =>
    cases k' with
    | zero => exact absurd hk (Nat.not_succ_le_zero k)
    | succ k' => exact ih (Nat.le_of_succ_le_succ hk) _

theorem compounded_self (hd : 0 < d) (k a : ℕ) : compounded d d k a = a := by
  induction k with
  | zero => rfl
  | succ k ih => rw [compounded, scaled_self hd, ih]

/-- a round leaves the exact growth of the rounds to come behind -/
theorem scaled_pow_le (hd : 0 < d) {m : ℕ} (h : a * n ^ (k + 1) ≤ m * d ^ (k + 1)) : scaled n d a * n ^ k ≤ m * d ^ k := by
  refine Nat.le_of_mul_le_mul_right ?_ hd
  calc scaled n d a * n ^ k * d = scaled n d a * d * n ^ k := by ring
    _ ≤ a * n * n ^ k := Nat.mul_le_mul_right _ (scaled_mul_le n d a)
    _ = a * n ^ (k + 1) := by ring
    _ ≤ m * d ^ (k + 1) := h
    _ = m * d ^ k * d := by ring

/-- where growth cannot exceed `m`, what grows does not either -/
theorem le_of_pow_le (hd : 0 < d) (hdn : d ≤ n) {m : ℕ} (h : a * n ^ k ≤ m * d ^ k) : a ≤ m :=
  Nat.le_of_mul_le_mul_right ((Nat.mul_le_mul_left a (Nat.pow_le_pow_left hdn k)).trans h) (Nat.pow_pos hd)

end Grindurus.Rounding
