/-
Fallible code over machine integers, read as `Except` computations over ℕ and ℤ.

- `require`, `demand`: the guard `if !p { return Err(e) }` and the unwrap `x.ok_or(e)?`.
- `checkedAdd`, `checkedSub`, `checkedMul`, `checkedDiv`, `narrow`: unsigned arithmetic of a given width, refused
  (never wrapped) when the result does not fit.
- `Throws S x`: whatever `x` fails with is in `S`. One rule per construct.
- `StopsIff x e p`: `x` fails with `e` exactly if `p`.
- `bind_ok` and the `_ok` lemmas invert a successful computation into the facts it passed: rewriting a successful
  run with them gives one existential over the intermediate values, in program order.

Nothing here names a program: the error type is a parameter.
-/
import Mathlib.Tactic

namespace Grindurus.Checked

variable {ε α β : Type}

/-! ## Guards -/

/-- stop with `e` unless `p` -/
def require (p : Prop) [Decidable p] (e : ε) : Except ε Unit := if p then .ok () else .error e

/-- the value, or stop with `e` -/
def demand (e : ε) : Option α → Except ε α
  | none => .error e
  | some a => .ok a

/-- did the computation succeed -/
def Succeeds (x : Except ε α) : Prop := ∃ a, x = .ok a

/-- the error of a computation that fails -/
def refusal : Except ε α → Option ε
  | .ok _ => none
  | .error e => some e

theorem refusal_eq_some {x : Except ε α} {e : ε} : refusal x = some e ↔ x = .error e := by
  cases x <;> simp [refusal]

theorem bind_ok {x : Except ε α} {f : α → Except ε β} {b : β} :
    x >>= f = .ok b ↔ ∃ a, x = .ok a ∧ f a = .ok b := by
  cases x <;> simp [bind, Except.bind]

theorem require_ok {p : Prop} [Decidable p] {e : ε} {u : Unit} : require p e = .ok u ↔ p := by
  unfold require; split_ifs with h <;> simp [h]

theorem demand_ok {e : ε} {x : Option α} {a : α} : demand e x = .ok a ↔ x = some a := by
  cases x <;> simp [demand]

theorem bind_error {x : Except ε α} {f : α → Except ε β} {e : ε} :
    x >>= f = .error e ↔ x = .error e ∨ ∃ a, x = .ok a ∧ f a = .error e := by
  cases x <;> simp [bind, Except.bind]

/-- a passed guard disappears -/
theorem require_bind {p : Prop} [Decidable p] (h : p) (e : ε) (f : Unit → Except ε β) :
    (require p e >>= f) = f () := by
  simp [require, h, bind, Except.bind]

/-! ## Unsigned arithmetic of width `w` -/

def u64 : ℕ := 64
def u128 : ℕ := 128

/-- the largest unsigned value of 64 bits -/
def u64Max : ℕ := 2 ^ 64 - 1

def narrow (w a : ℕ) (e : ε) : Except ε ℕ := if a < 2 ^ w then .ok a else .error e

def checkedAdd (w a b : ℕ) (e : ε) : Except ε ℕ := narrow w (a + b) e

def checkedMul (w a b : ℕ) (e : ε) : Except ε ℕ := narrow w (a * b) e

def checkedSub (a b : ℕ) (e : ε) : Except ε ℕ := if b ≤ a then .ok (a - b) else .error e

def checkedDiv (a b : ℕ) (e : ε) : Except ε ℕ := if b = 0 then .error e else .ok (a / b)

/-- signed addition of 64 bits -/
def checkedAddI64 (a b : ℤ) (e : ε) : Except ε ℤ :=
  if -2 ^ 63 ≤ a + b ∧ a + b < 2 ^ 63 then .ok (a + b) else .error e

theorem narrow_ok {w a c : ℕ} {e : ε} : narrow w a e = .ok c ↔ a < 2 ^ w ∧ a = c := by
  unfold narrow; split_ifs with h <;> simp [h]

theorem checkedAdd_ok {w a b c : ℕ} {e : ε} : checkedAdd w a b e = .ok c ↔ a + b < 2 ^ w ∧ a + b = c := narrow_ok

theorem checkedMul_ok {w a b c : ℕ} {e : ε} : checkedMul w a b e = .ok c ↔ a * b < 2 ^ w ∧ a * b = c := narrow_ok

theorem checkedSub_ok {a b c : ℕ} {e : ε} : checkedSub a b e = .ok c ↔ b ≤ a ∧ a - b = c := by
  unfold checkedSub; split_ifs with h <;> simp [h]

theorem checkedDiv_ok {a b c : ℕ} {e : ε} : checkedDiv a b e = .ok c ↔ b ≠ 0 ∧ a / b = c := by
  unfold checkedDiv; split_ifs with h <;> simp [h]

theorem checkedAddI64_ok {a b c : ℤ} {e : ε} :
    checkedAddI64 a b e = .ok c ↔ (-2 ^ 63 ≤ a + b ∧ a + b < 2 ^ 63) ∧ a + b = c := by
  unfold checkedAddI64; split_ifs with h <;> simp only [Except.ok.injEq, h, true_and, false_and]

theorem narrow_error {w a : ℕ} {e e' : ε} : narrow w a e = .error e' ↔ 2 ^ w ≤ a ∧ e = e' := by
  unfold narrow; split_ifs with h
  · simp; omega
  · simp; omega

/-! ## What a computation may fail with -/

/-- every error of `x` is in `S` -/
def Throws (S : Set ε) (x : Except ε α) : Prop := ∀ e, x = .error e → e ∈ S

variable {S T : Set ε} {e : ε}

theorem Throws.mono {x : Except ε α} (h : Throws S x) (hST : S ⊆ T) : Throws T x := fun e he => hST (h e he)

@[simp] theorem throws_ok (a : α) : Throws S (.ok a : Except ε α) := fun _ h => nomatch h

@[simp] theorem throws_univ {x : Except ε α} : Throws Set.univ x := fun _ _ => Set.mem_univ _

@[simp] theorem throws_error : Throws S (.error e : Except ε α) ↔ e ∈ S :=
  ⟨fun h => h e rfl, fun h e' he => by cases he; exact h⟩

@[simp] theorem throws_bind {x : Except ε α} {f : α → Except ε β} :
    Throws S (x >>= f) ↔ Throws S x ∧ ∀ a, x = .ok a → Throws S (f a) := by
  cases x <;> simp [Throws, bind, Except.bind]

theorem Throws.bind {x : Except ε α} {f : α → Except ε β} (hx : Throws S x) (hf : ∀ a, x = .ok a → Throws S (f a)) :
    Throws S (x >>= f) := throws_bind.2 ⟨hx, hf⟩

@[simp] theorem throws_require {p : Prop} [Decidable p] : Throws S (require p e) ↔ p ∨ e ∈ S := by
  unfold require
  split_ifs with h <;> simp [h]

@[simp] theorem throws_demand {x : Option α} : Throws S (demand e x) ↔ x ≠ none ∨ e ∈ S := by
  cases x <;> simp [demand]

@[simp] theorem throws_narrow {w a : ℕ} : Throws S (narrow w a e) ↔ a < 2 ^ w ∨ e ∈ S := by
  unfold narrow
  split_ifs with h <;> simp [h]

@[simp] theorem throws_checkedAdd {w a b : ℕ} : Throws S (checkedAdd w a b e) ↔ a + b < 2 ^ w ∨ e ∈ S := throws_narrow

@[simp] theorem throws_checkedMul {w a b : ℕ} : Throws S (checkedMul w a b e) ↔ a * b < 2 ^ w ∨ e ∈ S := throws_narrow

@[simp] theorem throws_checkedSub {a b : ℕ} : Throws S (checkedSub a b e) ↔ b ≤ a ∨ e ∈ S := by
  unfold checkedSub
  split_ifs with h <;> simp [h]

@[simp] theorem throws_checkedDiv {a b : ℕ} : Throws S (checkedDiv a b e) ↔ b ≠ 0 ∨ e ∈ S := by
  unfold checkedDiv
  split_ifs with h <;> simp [h]

theorem throws_checkedAddI64 {a b : ℤ} (h : e ∈ S) : Throws S (checkedAddI64 a b e) := by
  unfold checkedAddI64
  split_ifs <;> simp [h]

/-- a computation whose every error is refuted succeeds -/
theorem Throws.succeeds {x : Except ε α} (h : Throws (∅ : Set ε) x) : Succeeds x := by
  cases x with
  | ok a => exact ⟨a, rfl⟩
  | error e => exact absurd (h e rfl) (Set.notMem_empty e)

theorem succeeds_toBool {x : Except ε α} : Succeeds x ↔ x.toBool = true := by
  cases x <;> simp [Succeeds, Except.toBool]

theorem toOption_eq_some {x : Except ε α} {a : α} : x.toOption = some a ↔ x = .ok a := by
  cases x <;> simp [Except.toOption]

/-- `x` stops with `e` if `p` holds, and succeeds otherwise -/
def StopsIff (x : Except ε α) (e : ε) (p : Prop) : Prop := x = .error e ∧ p ∨ Succeeds x ∧ ¬ p

theorem StopsIff.congr {x : Except ε α} {p q : Prop} (h : StopsIff x e p) (hpq : p ↔ q) : StopsIff x e q := by
  unfold StopsIff at h ⊢
  rwa [← hpq]

end Grindurus.Checked
