/-
Ancestors under a parent map: every account has at most one account right above it.

- `Above up x y`: going up from `x`, in any number of hops, one gets to `y`.
- `Grounded up`: from every account the way up ends. Then no account is above itself (`Grounded.irrefl`), and the way up is a
  list of distinct accounts that ends at a root (`Grounded.path`).
- `Grounded.hang`: an account may be hung below any other that it is not above; `Grounded.cut`: a link may be cut.
-/
import Mathlib.Tactic
import Mathlib.Data.List.Chain
import Mathlib.Logic.Relation

namespace Grindurus.Ancestry

open Function

variable {K : Type} {up : K → Option K} {k x y z : K}

/-- going up from `x` one gets to `y` -/
def Above (up : K → Option K) : K → K → Prop := Relation.ReflTransGen fun a b => up a = some b

/-- every way up ends -/
def Grounded (up : K → Option K) : Prop := WellFounded fun b a => up a = some b

theorem Above.refl (up : K → Option K) (x : K) : Above up x x := Relation.ReflTransGen.refl

theorem Above.head (h : up x = some y) (h' : Above up y z) : Above up x z := Relation.ReflTransGen.head h h'

/-- there is one way up, so what is above `x` and is not `x` is above the next one -/
theorem Above.next (h : Above up x z) (hne : x ≠ z) (hx : up x = some y) : Above up y z := by
  rcases h.cases_head with rfl | ⟨y', hy', h⟩
  · exact absurd rfl hne
  · rw [hx] at hy'
    cases hy'
    exact h

/-- nothing else is above a root -/
theorem Above.of_root (h : Above up x z) (hx : up x = none) : x = z := by
  rcases h.cases_head with rfl | ⟨y, hy, -⟩
  · rfl
  · rw [hx] at hy
    cases hy

namespace Grounded

theorem irrefl_trans (h : Grounded up) (hx : up x = some y) : ¬Above up y x := by
  induction x using h.induction generalizing y with
  | _ x ih =>
    intro hyx
    -- the way from `y` back to `x` starts a cycle at `y` as well
    rcases hyx.cases_head with rfl | ⟨z, hz, hzx⟩
    · exact ih y hx hx (.refl up y)
    · exact ih y hx hz (hzx.tail hx)

theorem irrefl (h : Grounded up) (x : K) : up x ≠ some x := fun hx => h.irrefl_trans hx (.refl up x)

theorem asymm (h : Grounded up) (hx : up x = some y) : up y ≠ some x := fun hy =>
  h.irrefl_trans hx (.head hy (.refl up x))

/-- the way up, as a list of distinct accounts -/
theorem path (h : Grounded up) (x : K) : ∃ rest : List K, (x :: rest).IsChain (fun a b => up a = some b) ∧ (x :: rest).Nodup ∧
    up ((x :: rest).getLast (List.cons_ne_nil x rest)) = none := by
  suffices hpath : ∃ rest : List K, (x :: rest).IsChain (fun a b => up a = some b) ∧ (x :: rest).Nodup ∧
      up ((x :: rest).getLast (List.cons_ne_nil x rest)) = none ∧ ∀ y ∈ x :: rest, Above up x y by
    obtain ⟨rest, hchain, hnodup, hlast, -⟩ := hpath
    exact ⟨rest, hchain, hnodup, hlast⟩
  induction x using h.induction with
  | _ x ih =>
    cases hx : up x with
    | none => exact ⟨[], .singleton x, List.nodup_singleton x, hx, fun y hy => by
        rw [List.mem_singleton.1 hy]
        exact .refl up x⟩
    | some y =>
      obtain ⟨rest, hchain, hnodup, hlast, habove⟩ := ih y hx
      refine ⟨y :: rest, hchain.cons_cons hx, List.nodup_cons.2 ⟨fun hmem => ?_, hnodup⟩, ?_, fun z hz => ?_⟩
      · exact h.irrefl_trans hx (habove x hmem)
      · rwa [List.getLast_cons (List.cons_ne_nil y rest)]
      · rcases List.mem_cons.1 hz with rfl | hz
        · exact .refl up z
        · exact .head hx (habove z hz)

variable [DecidableEq K]

theorem cut (h : Grounded up) (k : K) : Grounded (update up k none) := by
  refine Subrelation.wf (fun {b a} hab => ?_) h
  rcases eq_or_ne a k with rfl | ha
  · rw [update_self] at hab
    cases hab
  · rwa [update_of_ne ha] at hab

/-- an account is hung below one that it is not above -/
theorem hang (h : Grounded up) (hkx : ¬Above up x k) : Grounded (update up k (some x)) := by
  have hfree : ∀ y, ¬Above up y k → Acc (fun b a => update up k (some x) a = some b) y := by
    intro y hy
    induction y using h.induction with
    | _ y ih =>
      refine .intro y fun z hz => ?_
      rw [update_of_ne (by rintro rfl; exact hy (.refl up y))] at hz
      exact ih z hz fun hzk => hy (.head hz hzk)
  have hk : Acc (fun b a => update up k (some x) a = some b) k := by
    refine .intro k fun z hz => ?_
    rw [update_self, Option.some.injEq] at hz
    exact hz ▸ hfree x hkx
  refine ⟨fun y => ?_⟩
  induction y using h.induction with
  | _ y ih =>
    rcases eq_or_ne y k with rfl | hy
    · exact hk
    · refine .intro y fun z hz => ih z ?_
      rwa [update_of_ne hy] at hz

/-- a cut makes nothing newly above anything -/
theorem above_of_cut (h : Above (update up k none) x y) : Above up x y := by
  induction h with
  | refl => exact .refl up x
  | tail _ hab ih =>
    refine Relation.ReflTransGen.tail ih ?_
    rename_i a b _
    rcases eq_or_ne a k with rfl | ha
    · rw [update_self] at hab
      cases hab
    · rwa [update_of_ne ha] at hab

end Grounded
end Grindurus.Ancestry
