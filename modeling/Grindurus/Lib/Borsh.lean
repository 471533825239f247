/-
Borsh: a value is written as the row of its fields. Numbers are little-endian and of a fixed width, a vector comes after its
count.

- `uint`, `ofUint`: unsigned numbers. `int`, `ofInt`: two's complement. `ofUint_uint`, `ofInt_int`: what fits is read back.
- `vec`: refuses more elements than a count of four bytes can tell. `vec_fits`, `vec_length`.
- `slice_field`: a field stands right behind the fields before it, whatever follows.
- `store`: write to a buffer that cannot grow. `store_fits`: it works if the bytes fit.
-/
import Grindurus.Lib.Bytes
import Grindurus.Lib.Checked

namespace Grindurus.Borsh

open Bytes Checked

inductive Error where
  /-- a count beyond 32 bits -/
  | invalidInput
  /-- the buffer is full -/
  | writeZero
  deriving DecidableEq, Repr

/-! ## Numbers -/

/-- `to_le_bytes` of an unsigned number of `w` bytes -/
def uint (w n : ℕ) : List UInt8 := (beBytes w n).reverse

/-- `from_le_bytes` of an unsigned number -/
def ofUint (l : List UInt8) : ℕ := ofBe l.reverse

/-- `to_le_bytes` of a signed number of `w` bytes -/
def int (w : ℕ) (z : ℤ) : List UInt8 := uint w (z % (256 ^ w : ℕ)).toNat

/-- `from_le_bytes` of a signed number: the upper half of the range is negative -/
def ofInt (l : List UInt8) : ℤ := Int.bmod (ofUint l) (256 ^ l.length)

def bool (b : Bool) : List UInt8 := uint 1 b.toNat

@[simp] theorem uint_length (w n : ℕ) : (uint w n).length = w := by simp [uint]

@[simp] theorem int_length (w : ℕ) (z : ℤ) : (int w z).length = w := uint_length ..

@[simp] theorem bool_length (b : Bool) : (bool b).length = 1 := uint_length ..

theorem ofUint_uint {w n : ℕ} (h : n < 256 ^ w) : ofUint (uint w n) = n := by
  rw [ofUint, uint, List.reverse_reverse, ofBe_beBytes h]

theorem ofInt_int {w : ℕ} {z : ℤ} (hlow : -(256 ^ w : ℕ) ≤ z * 2) (hhigh : z * 2 < (256 ^ w : ℕ)) : ofInt (int w z) = z := by
  have hpos : (0 : ℤ) < (256 ^ w : ℕ) := by positivity
  have hnonneg : 0 ≤ z % (256 ^ w : ℕ) := Int.emod_nonneg z hpos.ne'
  have hlt : (z % (256 ^ w : ℕ)).toNat < 256 ^ w := by
    have h := Int.emod_lt_of_pos z hpos
    omega
  have hread : (ofUint (int w z) : ℤ) = z % (256 ^ w : ℕ) := by
    rw [int, ofUint_uint hlt, Int.toNat_of_nonneg hnonneg]
  calc ofInt (int w z)
      = Int.bmod (z % (256 ^ w : ℕ)) (256 ^ w) := by rw [ofInt, hread, int_length]
    _ = Int.bmod z (256 ^ w) := Int.emod_bmod z _
    _ = z := Int.bmod_eq_of_le_mul_two hlow hhigh

example : int 2 (-2) = [0xfe, 0xff] := by decide

/-! ## Vectors -/

/-- a vector of serialized elements -/
def vec (elems : List (List UInt8)) : Except Error (List UInt8) := do
  require (elems.length < 2 ^ 32) .invalidInput
  .ok (uint 4 elems.length ++ elems.flatten)

theorem vec_fits {elems : List (List UInt8)} (h : elems.length < 2 ^ 32) :
    vec elems = .ok (uint 4 elems.length ++ elems.flatten) := require_bind h _ _

theorem flatten_length_const {n : ℕ} {elems : List (List UInt8)} (h : ∀ e ∈ elems, e.length = n) :
    elems.flatten.length = elems.length * n := by
  rw [List.length_flatten, List.map_congr_left h, List.map_const', List.sum_replicate, smul_eq_mul]

/-- elements of one length -/
theorem vec_length {n : ℕ} {elems : List (List UInt8)} {bytes : List UInt8} (hv : vec elems = .ok bytes)
    (h : ∀ e ∈ elems, e.length = n) : bytes.length = 4 + elems.length * n := by
  simp only [vec, bind_ok, Except.ok.injEq] at hv
  obtain ⟨-, -, rfl⟩ := hv
  rw [List.length_append, uint_length, flatten_length_const h]

/-! ## Fields -/

/-- the field `f` of a row, from `i` up to `j`, with anything behind the row -/
theorem slice_field (pre : List (List UInt8)) (f : List UInt8) (post : List (List UInt8)) (rest : List UInt8) {i j : ℕ}
    (hi : pre.flatten.length = i) (hj : i + f.length = j) : slice ((pre ++ f :: post).flatten ++ rest) i j = f := by
  subst hi hj
  have hsplit : (pre ++ f :: post).flatten ++ rest = pre.flatten ++ (f ++ (post.flatten ++ rest)) := by simp
  rw [slice, hsplit, List.drop_left, Nat.add_sub_cancel_left, List.take_left]

/-! ## Accounts -/

/-- an address -/
abbrev Pubkey := Vector UInt8 32

/-- the type of an account, in front of its body -/
abbrev Discriminator := Vector UInt8 8

/-- write at the front of a buffer -/
def store (buffer bytes : List UInt8) : Except Error (List UInt8) := do
  require (bytes.length ≤ buffer.length) .writeZero
  .ok (bytes ++ buffer.drop bytes.length)

theorem store_fits {buffer bytes : List UInt8} (h : bytes.length ≤ buffer.length) :
    store buffer bytes = .ok (bytes ++ buffer.drop bytes.length) := require_bind h _ _

end Grindurus.Borsh
