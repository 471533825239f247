/-
Two-level upline totals over a forest of accounts.

Every account has its own `value` and at most one upline. `l1` of an account totals the values of its downlines, `l2`
totals the `l1` of its downlines, each kept as a counter.

- `credit`, `attach`, `detach`: the moves that touch the counters. `adopt` is `attach` for an account without value.
- `Balanced`: the counters are the totals they stand for, no account is its own upline and no two are each other's.
- `Balanced.credit`, `Balanced.attach`, `Balanced.detach`: each move keeps it; `l1_covers`, `l2_covers` and `l2_up_covers`
  say that what `detach` takes off is there.
-/
import Grindurus.Lib.Tally

namespace Grindurus.Uplines

open Tally Function

variable {K : Type} [DecidableEq K]

structure Forest (K : Type) where
  up : K → Option K
  value : K → ℕ
  l1 : K → ℕ
  l2 : K → ℕ

/-- the quantity `q` of the downlines of `x`, by account -/
def fed (up : K → Option K) (q : K → ℕ) (x y : K) : ℕ := if up y = some x then q y else 0

/-- `q` with `v` added at `k`, if there is such an account -/
def raise (q : K → ℕ) (k : Option K) (v : ℕ) : K → ℕ :=
  match k with
  | none => q
  | some k => update q k (q k + v)

/-- `q` with `v` taken off at `k`, if there is such an account -/
def lower (q : K → ℕ) (k : Option K) (v : ℕ) : K → ℕ :=
  match k with
  | none => q
  | some k => update q k (q k - v)

namespace Forest

def credit (f : Forest K) (k : K) (v : ℕ) : Forest K where
  up := f.up
  value := raise f.value (some k) v
  l1 := raise f.l1 (f.up k) v
  l2 := raise f.l2 ((f.up k).bind f.up) v

/-- give `k`, which has no upline, the upline `x` -/
def attach (f : Forest K) (k x : K) : Forest K where
  up := update f.up k (some x)
  value := f.value
  l1 := raise f.l1 (some x) (f.value k)
  l2 := raise (raise f.l2 (some x) (f.l1 k)) (f.up x) (f.value k)

/-- give `k` the upline `x` without its own value: `x` takes over the `l1` of `k` only -/
def adopt (f : Forest K) (k x : K) : Forest K where
  up := update f.up k (some x)
  value := f.value
  l1 := f.l1
  l2 := raise f.l2 (some x) (f.l1 k)

/-- take `k` away from its upline `x` -/
def detach (f : Forest K) (k x : K) : Forest K where
  up := update f.up k none
  value := f.value
  l1 := lower f.l1 (some x) (f.value k)
  l2 := lower (lower f.l2 (some x) (f.l1 k)) (f.up x) (f.value k)

structure Balanced (f : Forest K) : Prop where
  l1 : ∀ x, HasTotal (fed f.up f.value x) (f.l1 x)
  l2 : ∀ x, HasTotal (fed f.up f.l1 x) (f.l2 x)
  irrefl : ∀ x, f.up x ≠ some x
  asymm : ∀ x y, f.up x = some y → f.up y ≠ some x

end Forest

theorem raise_apply (q : K → ℕ) (k : Option K) (v : ℕ) (x : K) : raise q k v x = q x + if k = some x then v else 0 := by
  cases k with
  | none => simp [raise]
  | some k =>
    by_cases h : x = k
    · subst h; simp [raise]
    · simp [raise, h, Ne.symm h]

theorem lower_apply (q : K → ℕ) (k : Option K) (v : ℕ) (x : K) : lower q k v x = q x - if k = some x then v else 0 := by
  cases k with
  | none => simp [lower]
  | some k =>
    by_cases h : x = k
    · subst h; simp [lower]
    · simp [lower, h, Ne.symm h]

theorem raise_zero (q : K → ℕ) (k : Option K) : raise q k 0 = q := by
  funext x
  rw [raise_apply]
  split_ifs <;> omega

theorem raise_raise (q : K → ℕ) (k : Option K) (v u : ℕ) : raise (raise q k v) k u = raise q k (v + u) := by
  funext x
  simp only [raise_apply]
  split_ifs <;> omega

namespace Forest

variable {f : Forest K} {k x : K}

theorem credit_credit (f : Forest K) (k : K) (v u : ℕ) : (f.credit k v).credit k u = f.credit k (v + u) := by
  simp only [credit, raise_raise]

theorem credit_zero (f : Forest K) (k : K) : f.credit k 0 = f := by
  simp only [credit, raise_zero]

/-- an account without value may be adopted -/
theorem adopt_eq_attach (h : f.value k = 0) : f.adopt k x = f.attach k x := by
  simp only [adopt, attach, h, raise_zero]

theorem Balanced.l1_covers (h : Balanced f) (hk : f.up k = some x) : f.value k ≤ f.l1 x := by
  simpa [fed, hk] using (h.l1 x).le k

theorem Balanced.l2_covers (h : Balanced f) (hk : f.up k = some x) : f.l1 k ≤ f.l2 x := by
  simpa [fed, hk] using (h.l2 x).le k

theorem Balanced.l2_up_covers (h : Balanced f) (hk : f.up k = some x) {z : K} (hx : f.up x = some z) :
    f.value k ≤ f.l2 z :=
  (h.l1_covers hk).trans (h.l2_covers hx)

/-- crediting an account raises the `l1` of its upline and the `l2` of the upline above -/
theorem Balanced.credit (h : Balanced f) (k : K) (v : ℕ) : Balanced (f.credit k v) := by
  refine ⟨fun x => ?_, fun x => ?_, h.irrefl, h.asymm⟩
  · refine (h.l1 x).write k (fun y hy => ?_) ?_
    · simp [fed, Forest.credit, raise_apply, Ne.symm hy]
    · by_cases hu : f.up k = some x
      · simp [fed, Forest.credit, raise_apply, hu]
        omega
      · simp [fed, Forest.credit, raise_apply, hu]
  · cases hu : f.up k with
    | none => simpa [Forest.credit, hu, raise] using h.l2 x
    | some y =>
      refine (h.l2 x).write y (fun z hz => ?_) ?_
      · simp [fed, Forest.credit, raise_apply, hu, Ne.symm hz]
      · by_cases hy : f.up y = some x
        · simp [fed, Forest.credit, raise_apply, hu, hy]
          omega
        · simp [fed, Forest.credit, raise_apply, hu, hy]

/-- attaching a node adds its value to the one above it, and its own level to the one above that -/
theorem Balanced.attach (h : Balanced f) (hk : f.up k = none) (hkx : k ≠ x) (hx : f.up x ≠ some k) :
    Balanced (f.attach k x) := by
  refine ⟨fun t => ?_, fun t => ?_, fun t => ?_, fun s t hst => ?_⟩
  · refine (h.l1 t).write k (fun y hy => ?_) ?_
    · simp [fed, Forest.attach, hy]
    · simp only [fed, Forest.attach, raise_apply, update_self, hk]
      simp
  · -- two accounts change what they feed: `k` now feeds `x`, and `x` feeds its own upline more
    have hmid : HasTotal (fed (update f.up k (some x)) f.l1 t) (f.l2 t + if x = t then f.l1 k else 0) := by
      refine (h.l2 t).write k (fun y hy => ?_) ?_
      · simp [fed, hy]
      · simp [fed, hk]
    refine hmid.write x (fun y hy => ?_) ?_
    · simp [fed, Forest.attach, raise_apply, Ne.symm hy]
    · by_cases ht : f.up x = some t
      · simp [fed, Forest.attach, raise_apply, update_of_ne (Ne.symm hkx), ht]
        omega
      · simp [fed, Forest.attach, raise_apply, update_of_ne (Ne.symm hkx), ht]
  · by_cases ht : t = k
    · subst ht; simpa [Forest.attach] using Ne.symm hkx
    · simpa [Forest.attach, ht] using h.irrefl t
  · by_cases hs : s = k
    · subst hs
      have htx : x = t := by simpa [Forest.attach] using hst
      subst htx
      simpa [Forest.attach, Ne.symm hkx] using hx
    · have hst' : f.up s = some t := by simpa [Forest.attach, hs] using hst
      by_cases ht : t = k
      · subst ht
        have hsx : x ≠ s := by rintro rfl; exact hx hst'
        simpa [Forest.attach] using hsx
      · simpa [Forest.attach, ht] using h.asymm s t hst'

/-- detaching it takes off what attaching it put on -/
theorem Balanced.detach (h : Balanced f) (hk : f.up k = some x) : Balanced (f.detach k x) := by
  have hkx : k ≠ x := by rintro rfl; exact h.irrefl k hk
  refine ⟨fun t => ?_, fun t => ?_, fun t => ?_, fun s t hst => ?_⟩
  · refine (h.l1 t).write k (fun y hy => ?_) ?_
    · simp [fed, Forest.detach, hy]
    · have hle := h.l1_covers hk
      simp only [fed, Forest.detach, lower_apply, update_self, hk]
      split_ifs <;> simp_all
  · have hmid : HasTotal (fed (update f.up k none) f.l1 t) (f.l2 t - if x = t then f.l1 k else 0) := by
      refine (h.l2 t).write k (fun y hy => ?_) ?_
      · simp [fed, hy]
      · have hle := h.l2_covers hk
        simp only [fed, update_self, hk]
        split_ifs <;> simp_all
    refine hmid.write x (fun y hy => ?_) ?_
    · simp [fed, Forest.detach, lower_apply, Ne.symm hy]
    · have hle := h.l1_covers hk
      simp only [fed, Forest.detach, lower_apply, update_of_ne (Ne.symm hkx)]
      by_cases ht : f.up x = some t
      · have hle₂ := h.l2_up_covers hk ht
        have hxt : x ≠ t := by rintro rfl; exact h.irrefl x ht
        simp [ht, hxt]
        omega
      · simp [ht]
  · by_cases ht : t = k
    · subst ht; simp [Forest.detach]
    · simpa [Forest.detach, ht] using h.irrefl t
  · by_cases hs : s = k
    · subst hs; simp [Forest.detach] at hst
    · have hst' : f.up s = some t := by simpa [Forest.detach, hs] using hst
      by_cases ht : t = k
      · subst ht; simp [Forest.detach]
      · simpa [Forest.detach, ht] using h.asymm s t hst'

end Forest
end Grindurus.Uplines
