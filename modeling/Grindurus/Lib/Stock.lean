/-
A stock with earmarks: lots of some good, a counter of what the lots take up, and what is actually held.

- `Stock.Sound`: the counter is the total of the lots, and what is held covers it.
- `Stock.Move`: holding more, listing goods for a lot, selling part of a lot, releasing part of it unsold.
- `Sound.moves`: whatever is moved, the stock stays sound. `Sound.lot_le`, `Sound.covered`: so no lot lacks earmark or goods.
-/
import Grindurus.Lib.Tally

namespace Grindurus

open Tally Function

/-- lots by id, the counter of what is earmarked for them, and what is held -/
structure Stock (K : Type) where
  lots : K → ℕ
  reserved : ℕ
  held : ℕ

namespace Stock

variable {K : Type} [DecidableEq K]

structure Sound (s : Stock K) : Prop where
  total : HasTotal s.lots s.reserved
  covered : s.reserved ≤ s.held

inductive Move : Stock K → Stock K → Prop where
  /-- more is held than before -/
  | hold {s : Stock K} {held : ℕ} (h : s.held ≤ held) : Move s { s with held }
  /-- `x` is earmarked for the lot `k`, out of what is then held or with as much added -/
  | list {s : Stock K} (k : K) (x : ℕ) {held : ℕ} (h : s.reserved + x ≤ held ∨ s.held + x ≤ held) :
    Move s ⟨update s.lots k (s.lots k + x), s.reserved + x, held⟩
  /-- `x` of the lot `k` leaves the stock -/
  | sell {s : Stock K} (k : K) (x : ℕ) (h : x ≤ s.lots k) :
    Move s ⟨update s.lots k (s.lots k - x), s.reserved - x, s.held - x⟩
  /-- `x` of the lot `k` is no longer for sale -/
  | release {s : Stock K} (k : K) (x : ℕ) (h : x ≤ s.lots k) :
    Move s { s with lots := update s.lots k (s.lots k - x), reserved := s.reserved - x }

def Moves : Stock K → Stock K → Prop := Relation.ReflTransGen Move

variable {s s' : Stock K}

/-- no lot is larger than the earmark -/
theorem Sound.lot_le (h : s.Sound) (k : K) : s.lots k ≤ s.reserved := h.total.le k

/-- no lot is larger than what is held -/
theorem Sound.lot_held (h : s.Sound) (k : K) : s.lots k ≤ s.held := (h.lot_le k).trans h.covered

/-- what leaves a lot leaves the counter -/
theorem Sound.shrink (h : s.Sound) {k : K} {x : ℕ} (hx : x ≤ s.lots k) :
    s.reserved - x + s.lots k = s.reserved + (s.lots k - x) := by
  have hlot := h.lot_le k
  omega

theorem Move.sound (hm : Move s s') (h : s.Sound) : s'.Sound := by
  have hc := h.covered
  cases hm with
  | hold hle => exact ⟨h.total, hc.trans hle⟩
  | list k x hle =>
    have htotal : s.reserved + x + s.lots k = s.reserved + (s.lots k + x) := by omega
    exact ⟨h.total.update k _ htotal, hle.elim id (Nat.add_le_add_right hc x).trans⟩
  | sell k x hle => exact ⟨h.total.update k _ (h.shrink hle), Nat.sub_le_sub_right hc x⟩
  | release k x hle => exact ⟨h.total.update k _ (h.shrink hle), (Nat.sub_le ..).trans hc⟩

theorem Moves.refl (s : Stock K) : Moves s s := Relation.ReflTransGen.refl

theorem Moves.trans {s₁ s₂ s₃ : Stock K} (h : Moves s₁ s₂) (h' : Moves s₂ s₃) : Moves s₁ s₃ := Relation.ReflTransGen.trans h h'

theorem Move.moves (h : Move s s') : Moves s s' := Relation.ReflTransGen.single h

/-! Moves told by what they leave behind. -/

theorem Moves.hold (hl : s'.lots = s.lots) (hr : s'.reserved = s.reserved) (hh : s.held ≤ s'.held) : Moves s s' := by
  obtain ⟨lots, reserved, held⟩ := s'
  subst hl hr
  exact (Move.hold hh).moves

theorem Moves.list {k : K} {x : ℕ} (hl : s'.lots = update s.lots k (s.lots k + x)) (hr : s'.reserved = s.reserved + x)
    (hh : s.reserved + x ≤ s'.held ∨ s.held + x ≤ s'.held) : Moves s s' := by
  obtain ⟨lots, reserved, held⟩ := s'
  subst hl hr
  exact (Move.list k x hh).moves

theorem Moves.sell {k : K} {x : ℕ} (hx : x ≤ s.lots k) (hl : s'.lots = update s.lots k (s.lots k - x))
    (hr : s'.reserved = s.reserved - x) (hh : s.held - x ≤ s'.held) : Moves s s' :=
  (Move.sell k x hx).moves.trans (Moves.hold hl hr hh)

theorem Moves.release {k : K} {x : ℕ} (hx : x ≤ s.lots k) (hl : s'.lots = update s.lots k (s.lots k - x))
    (hr : s'.reserved = s.reserved - x) (hh : s.held ≤ s'.held) : Moves s s' :=
  (Move.release k x hx).moves.trans (Moves.hold hl hr hh)

/-- **Sound stock.** Whatever is moved, the counter is the total of the lots and what is held covers it. -/
theorem Sound.moves (h : s.Sound) (hm : Moves s s') : s'.Sound := by
  induction hm with
  | refl => exact h
  | tail _ hm ih => exact hm.sound ih

end Stock
end Grindurus
