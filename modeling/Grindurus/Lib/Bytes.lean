/-
Byte strings and fixed-width big-endian numbers.

- `beBytes w n`, `ofBe`: the `w` big-endian bytes of `n`, and the number a byte string spells.
- `ofBe_beBytes`, `beBytes_ofBe`: the two round trips; `ofBe_beBytes_le`: what does not fit is cut; `ofBe_lt` bounds what a string of a given length spells.
- `slice l i j`: the bytes of `l` from `i` up to `j`. `slice_flatten`: the slices of a row of equally long fields are the fields;
  `flatten_slices`: a string is the row of its slices.
-/
import Mathlib.Tactic

namespace Grindurus.Bytes

/-! ## Big-endian numbers -/

/-- the `w` low bytes of `n`, most significant first -/
def beBytes : ℕ → ℕ → List UInt8
  | 0, _ => []
  | w + 1, n => beBytes w (n / 256) ++ [UInt8.ofNat n]

/-- the number a string of bytes spells, most significant first -/
def ofBe (l : List UInt8) : ℕ := l.foldl (fun n b => 256 * n + b.toNat) 0

@[simp] theorem beBytes_length (w n : ℕ) : (beBytes w n).length = w := by
  induction w generalizing n with
  | zero => rfl
  | succ w ih => simp [beBytes, ih]

theorem ofBe_concat (l : List UInt8) (b : UInt8) : ofBe (l ++ [b]) = 256 * ofBe l + b.toNat := by simp [ofBe]

/-- what `w` bytes hold of a number -/
theorem ofBe_beBytes_mod (w n : ℕ) : ofBe (beBytes w n) = n % 256 ^ w := by
  induction w generalizing n with
  | zero => simp [beBytes, ofBe, Nat.mod_one]
  | succ w ih =>
    have hsplit : n % (256 * 256 ^ w) = n % 256 + 256 * (n / 256 % 256 ^ w) := Nat.mod_mul
    rw [beBytes, ofBe_concat, ih, UInt8.toNat_ofNat', pow_succ' 256, hsplit]
    exact Nat.add_comm ..

/-- a number that fits is read back -/
theorem ofBe_beBytes {w n : ℕ} (h : n < 256 ^ w) : ofBe (beBytes w n) = n := by
  rw [ofBe_beBytes_mod, Nat.mod_eq_of_lt h]

theorem ofBe_beBytes_le (w n : ℕ) : ofBe (beBytes w n) ≤ n := ofBe_beBytes_mod w n ▸ Nat.mod_le ..

theorem ofBe_lt (l : List UInt8) : ofBe l < 256 ^ l.length := by
  induction l using List.reverseRecOn with
  | nil => decide
  | append_singleton l b ih =>
    have hb := b.toNat_lt
    rw [ofBe_concat, List.length_append, List.length_singleton, pow_succ]
    omega

/-- a string is determined by its length and the number it spells -/
theorem beBytes_ofBe (l : List UInt8) : beBytes l.length (ofBe l) = l := by
  induction l using List.reverseRecOn with
  | nil => rfl
  | append_singleton l b ih =>
    have hb := b.toNat_lt
    have hdiv : (256 * ofBe l + b.toNat) / 256 = ofBe l := by omega
    have hbyte : UInt8.ofNat (256 * ofBe l + b.toNat) = b := by
      apply UInt8.toNat.inj
      rw [UInt8.toNat_ofNat']
      omega
    rw [List.length_append, List.length_singleton, beBytes, ofBe_concat, hdiv, ih, hbyte]

/-! ## Slices -/

variable {α : Type}

/-- the elements from position `i` up to position `j` -/
def slice (l : List α) (i j : ℕ) : List α := (l.drop i).take (j - i)

theorem slice_length {l : List α} {i j : ℕ} (h : j ≤ l.length) : (slice l i j).length = j - i := by
  simp only [slice, List.length_take, List.length_drop]
  omega

theorem slice_append {a b : List α} {n : ℕ} (h : a.length = n) : slice (a ++ b) 0 n = a := by
  subst h
  simp [slice]

theorem slice_append_right {a b : List α} {n m : ℕ} (h : a.length = n) (h' : b.length = m) : slice (a ++ b) n (n + m) = b := by
  subst h h'
  simp [slice]

/-- in a row of fields of one length, each field is the slice at its place -/
theorem slice_flatten {n : ℕ} {fields : List (List α)} (h : ∀ f ∈ fields, f.length = n) {k : ℕ} {f : List α}
    (hk : fields[k]? = some f) : slice fields.flatten (n * k) (n * (k + 1)) = f := by
  have hwidth : n * (k + 1) - n * k = n := by
    rw [Nat.mul_succ]
    omega
  rw [slice, hwidth]
  induction fields generalizing k with
  | nil => cases hk
  | cons g fields ih =>
    have hg : g.length = n := h g (by simp)
    cases k with
    | zero =>
      cases hk
      rw [List.flatten_cons, Nat.mul_zero, List.drop_zero, List.take_left' hg]
    | succ k =>
      have hrest := ih (fun f hf => h f (by simp [hf])) hk (by rw [Nat.mul_succ]; omega)
      rwa [List.flatten_cons, Nat.mul_succ, Nat.add_comm, ← List.drop_drop, List.drop_left' hg]

theorem flatten_slices_take (n k : ℕ) (l : List α) :
    ((List.range k).map fun i => slice l (n * i) (n * (i + 1))).flatten = l.take (n * k) := by
  induction k with
  | zero => simp
  | succ k ih =>
    have hwidth : n * (k + 1) - n * k = n := by
      rw [Nat.mul_succ]
      omega
    rw [List.range_succ, List.map_append, List.flatten_append, ih, Nat.mul_succ, List.take_add]
    simp [slice, hwidth]

/-- a string of `k` fields of length `n` is the row of its slices -/
theorem flatten_slices {n k : ℕ} {l : List α} (h : l.length = n * k) :
    ((List.range k).map fun i => slice l (n * i) (n * (i + 1))).flatten = l := by
  rw [flatten_slices_take, ← h, List.take_length]

end Grindurus.Bytes
