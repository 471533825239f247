/-
Pro-rata redemption: a pool of `r` units behind `s` shares pays `share r s g` units for `g` shares, rounded down.

- `share_le`, `share_mono`: a share is at most the pool, and does not fall while the pool gets dearer.
- `Dearer r s r' s'`: from `r` behind `s` to `r'` behind `s'` no shares are added and the units per share do not fall. A
  redemption makes the pool dearer, and so does a row of them in whatever order.
- `Aged r s r' s' n`: by `n` redemptions, and each left less than a unit behind. `Aged.share_le`: so what a number of shares gets
  has grown by `n` units at most.
-/
import Mathlib.Tactic

namespace Grindurus.ProRata

variable {r s g r' s' r₀ s₀ : ℕ}

def share (r s g : ℕ) : ℕ := r * g / s

structure Dearer (r s r' s' : ℕ) : Prop where
  shares : s' ≤ s
  price : r * s' ≤ r' * s

theorem share_mul_le (r s g : ℕ) : share r s g * s ≤ r * g := Nat.div_mul_le_self _ _

theorem share_le (h : g ≤ s) : share r s g ≤ r :=
  Nat.div_le_of_le_mul ((Nat.mul_le_mul_left r h).trans (Nat.mul_comm r s).le)

/-- what is left behind a share after a redemption is at least what was behind it -/
theorem share_price (r s g : ℕ) : r * (s - g) ≤ (r - share r s g) * s := by
  rw [Nat.mul_sub, Nat.sub_mul]
  exact Nat.sub_le_sub_left (share_mul_le r s g) _

/-- and less than a unit more -/
theorem share_left (r : ℕ) (hs : 0 < s) (hg : g ≤ s) : (r - share r s g) * s ≤ r * (s - g) + s := by
  have hlt : r * g < share r s g * s + s := Nat.lt_div_mul_add hs
  have hle : r * g ≤ r * s := Nat.mul_le_mul_left r hg
  rw [Nat.mul_sub, Nat.sub_mul]
  omega

namespace Dearer

theorem refl (r s : ℕ) : Dearer r s r s := ⟨le_rfl, le_rfl⟩

theorem redeem (r s g : ℕ) : Dearer r s (r - share r s g) (s - g) := ⟨Nat.sub_le .., share_price r s g⟩

theorem trans (h : Dearer r₀ s₀ r s) (h' : Dearer r s r' s') : Dearer r₀ s₀ r' s' := by
  refine ⟨h'.shares.trans h.shares, ?_⟩
  rcases Nat.eq_zero_or_pos s with rfl | hs
  · have hs' : s' = 0 := Nat.le_zero.1 h'.shares
    rw [hs', Nat.mul_zero]
    exact Nat.zero_le _
  · refine Nat.le_of_mul_le_mul_right ?_ hs
    calc r₀ * s' * s = r₀ * s * s' := by ring
      _ ≤ r * s₀ * s' := Nat.mul_le_mul_right _ h.price
      _ = r * s' * s₀ := by ring
      _ ≤ r' * s * s₀ := Nat.mul_le_mul_right _ h'.price
      _ = r' * s₀ * s := by ring

/-- the same number of shares gets no less from a dearer pool -/
theorem share_mono (h : Dearer r₀ s₀ r s) (hs : 0 < s) (g : ℕ) : share r₀ s₀ g ≤ share r s g := by
  rcases Nat.eq_zero_or_pos s₀ with rfl | hs₀
  · simp [share]
  refine (Nat.le_div_iff_mul_le hs).2 (Nat.le_of_mul_le_mul_right ?_ hs₀)
  calc share r₀ s₀ g * s * s₀ = share r₀ s₀ g * s₀ * s := by ring
    _ ≤ r₀ * g * s := Nat.mul_le_mul_right _ (share_mul_le r₀ s₀ g)
    _ = r₀ * s * g := by ring
    _ ≤ r * s₀ * g := Nat.mul_le_mul_right _ h.price
    _ = r * g * s₀ := by ring

end Dearer

/-- the pool got dearer by `n` redemptions, each of which rounded less than a unit off -/
structure Aged (r s r' s' n : ℕ) : Prop extends Dearer r s r' s' where
  age : r' * s ≤ r * s' + n * s

variable {n : ℕ}

namespace Aged

theorem refl (r s : ℕ) : Aged r s r s 0 := ⟨.refl r s, by simp⟩

/-- a bound on the redemptions is as good as their number -/
theorem mono {n' : ℕ} (h : Aged r₀ s₀ r s n) (hn : n ≤ n') : Aged r₀ s₀ r s n' :=
  ⟨h.toDearer, h.age.trans (Nat.add_le_add_left (Nat.mul_le_mul_right s₀ hn) _)⟩

theorem redeem (h : Aged r₀ s₀ r s n) (hs : 0 < s) (hg : g ≤ s) : Aged r₀ s₀ (r - share r s g) (s - g) (n + 1) := by
  refine ⟨h.toDearer.trans (.redeem r s g), Nat.le_of_mul_le_mul_right ?_ hs⟩
  calc (r - share r s g) * s₀ * s = (r - share r s g) * s * s₀ := by ring
    _ ≤ (r * (s - g) + s) * s₀ := Nat.mul_le_mul_right _ (share_left r hs hg)
    _ = r * s₀ * (s - g) + s₀ * s := by ring
    _ ≤ (r₀ * s + n * s₀) * (s - g) + s₀ * s := by gcongr; exact h.age
    _ = r₀ * (s - g) * s + n * s₀ * (s - g) + s₀ * s := by ring
    _ ≤ r₀ * (s - g) * s + n * s₀ * s + s₀ * s := by gcongr; exact Nat.sub_le s g
    _ = (r₀ * (s - g) + (n + 1) * s₀) * s := by ring

/-- a number of shares gets at most `n` units more than before the `n` redemptions -/
theorem share_le (h : Aged r₀ s₀ r s n) (hs₀ : 0 < s₀) (hs : 0 < s) (hg : g ≤ s) : share r s g ≤ share r₀ s₀ g + n := by
  refine Nat.le_of_lt_succ ((Nat.div_lt_iff_lt_mul hs).2 (Nat.lt_of_mul_lt_mul_right (a := s₀) ?_))
  have hold : r₀ * g < share r₀ s₀ g * s₀ + s₀ := Nat.lt_div_mul_add hs₀
  calc r * g * s₀ = r * s₀ * g := by ring
    _ ≤ (r₀ * s + n * s₀) * g := Nat.mul_le_mul_right _ h.age
    _ = r₀ * g * s + n * s₀ * g := by ring
    _ ≤ r₀ * g * s + n * s₀ * s := by gcongr
    _ < (share r₀ s₀ g * s₀ + s₀) * s + n * s₀ * s := by gcongr
    _ = (share r₀ s₀ g + n).succ * s * s₀ := by rw [Nat.succ_eq_add_one]; ring

end Aged
end Grindurus.ProRata
