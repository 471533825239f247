/-
Borsh, read: a reader takes a value off the front of a string of bytes, and leaves the rest.

- `Codec r enc`: the reader `r` accepts exactly the strings that start with the bytes `enc` writes for a value, and reads that
  value.
- `bytes`, `word`, `u8`, `u64`, `i32`, `i64`: arrays, words of whole bytes, and the numbers that are such words.
- `run_bind`, `run_map`, `run_pure`: what a row of readers reads. `Codec.read`, `Codec.read_bind`: what was written is read back,
  and the rest is left.
-/
import Grindurus.Lib.Borsh

namespace Grindurus.Borsh

open Bytes

variable {α β : Type}

abbrev Reader := StateT (List UInt8) Option

namespace Reader

/-- an array of `n` bytes -/
def bytes (n : ℕ) : Reader (Vector UInt8 n) := fun l =>
  if h : n ≤ l.length then some (⟨(l.take n).toArray, by simpa using h⟩, l.drop n) else none

/-- a little-endian word of `w` bytes -/
def word (w : ℕ) : Reader (BitVec (8 * w)) := do
  let l ← bytes w
  pure (BitVec.ofNat _ (ofUint l.toList))

theorem run_pure {a b : α} {l rest : List UInt8} : (pure a : Reader α).run l = some (b, rest) ↔ a = b ∧ l = rest := by
  simp

theorem run_bind {r : Reader α} {k : α → Reader β} {l rest : List UInt8} {b : β} :
    (r >>= k).run l = some (b, rest) ↔ ∃ a l', r.run l = some (a, l') ∧ (k a).run l' = some (b, rest) := by
  simp [StateT.run_bind, Option.bind_eq_some_iff]

theorem run_map {r : Reader α} {f : α → β} {l rest : List UInt8} {b : β} :
    (f <$> r).run l = some (b, rest) ↔ ∃ a, r.run l = some (a, rest) ∧ f a = b := by
  simp [StateT.run_map]

end Reader

/-- the reader accepts exactly the bytes of its values, whatever follows them -/
def Codec (r : Reader α) (enc : α → List UInt8) : Prop := ∀ l a rest, r.run l = some (a, rest) ↔ l = enc a ++ rest

/-- a word as little-endian bytes -/
def word (w : ℕ) (x : BitVec (8 * w)) : List UInt8 := uint w x.toNat

@[simp] theorem word_length (w : ℕ) (x : BitVec (8 * w)) : (word w x).length = w := uint_length ..

namespace Codec

variable {r : Reader α} {enc : α → List UInt8} {a b : α} {rest rest' : List UInt8}

theorem read (h : Codec r enc) (a : α) (rest : List UInt8) : r.run (enc a ++ rest) = some (a, rest) := (h ..).2 rfl

/-- the first of a row of readers reads its value, the others go on with what is left -/
theorem read_bind (h : Codec r enc) (k : α → Reader β) (a : α) (rest : List UInt8) :
    (r >>= k).run (enc a ++ rest) = (k a).run rest := by
  simp [StateT.run_bind, h.read a rest]

theorem bytes (n : ℕ) : Codec (Reader.bytes n) Vector.toList := by
  intro l a rest
  show Reader.bytes n l = _ ↔ _
  unfold Reader.bytes
  constructor
  · intro h
    split_ifs at h with hn
    simp only [Option.some.injEq, Prod.mk.injEq] at h
    obtain ⟨rfl, rfl⟩ := h
    simp
  · rintro rfl
    have harray : a.toList.toArray = a.toArray := Array.toArray_toList
    simp [harray]

theorem word_bytes {w : ℕ} (l : Vector UInt8 w) : Borsh.word w (BitVec.ofNat _ (ofUint l.toList)) = l.toList := by
  have hlen : l.toList.reverse.length = w := by simp
  have hlt : ofUint l.toList < 2 ^ (8 * w) := by
    have h := ofBe_lt l.toList.reverse
    rw [hlen] at h
    rwa [pow_mul, ofUint]
  have hbytes := beBytes_ofBe l.toList.reverse
  rw [hlen] at hbytes
  rw [Borsh.word, BitVec.toNat_ofNat, Nat.mod_eq_of_lt hlt, uint, ofUint, hbytes, List.reverse_reverse]

theorem word (w : ℕ) : Codec (Reader.word w) (Borsh.word w) := by
  intro l a rest
  simp only [Reader.word, Reader.run_bind, Reader.run_pure, bytes w _ _ _]
  constructor
  · rintro ⟨x, l', rfl, rfl, rfl⟩
    rw [word_bytes]
  · rintro rfl
    have hlt : a.toNat < 256 ^ w := by
      have h := a.isLt
      rwa [pow_mul] at h
    refine ⟨⟨(Borsh.word w a).toArray, by simp⟩, rest, by simp, ?_, rfl⟩
    rw [Vector.toList_mk, List.toList_toArray, Borsh.word, ofUint_uint hlt, BitVec.ofNat_toNat, BitVec.setWidth_eq]

/-- a value that is another one in disguise -/
theorem map {f : α → β} {g : β → α} (h : Codec r enc) (hgf : ∀ a, g (f a) = a) (hfg : ∀ b, f (g b) = b) :
    Codec (f <$> r) (fun b => enc (g b)) := by
  intro l b rest
  simp only [Reader.run_map, h _ _ _]
  constructor
  · rintro ⟨a, rfl, rfl⟩
    rw [hgf]
  · rintro rfl
    exact ⟨g b, rfl, hfg b⟩

end Codec

/-! ## Numbers -/

def u8 (x : UInt8) : List UInt8 := word 1 x.toBitVec

def u64 (x : UInt64) : List UInt8 := word 8 x.toBitVec

def i32 (x : Int32) : List UInt8 := word 4 x.toBitVec

def i64 (x : Int64) : List UInt8 := word 8 x.toBitVec

namespace Reader

def u8 : Reader UInt8 := UInt8.ofBitVec <$> word 1

def u64 : Reader UInt64 := UInt64.ofBitVec <$> word 8

def i32 : Reader Int32 := Int32.ofBitVec <$> word 4

def i64 : Reader Int64 := Int64.ofBitVec <$> word 8

end Reader

namespace Codec

theorem u8 : Codec Reader.u8 Borsh.u8 := (word 1).map (fun _ => rfl) fun _ => rfl

theorem u64 : Codec Reader.u64 Borsh.u64 := (word 8).map (fun _ => rfl) fun _ => rfl

theorem i32 : Codec Reader.i32 Borsh.i32 := (word 4).map (fun _ => rfl) fun _ => rfl

theorem i64 : Codec Reader.i64 Borsh.i64 := (word 8).map (fun _ => rfl) fun _ => rfl

end Codec

end Grindurus.Borsh
