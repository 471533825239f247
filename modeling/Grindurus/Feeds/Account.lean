/-
The account of a feed (`programs/custom_price_feed/src/lib.rs`, `CustomPriceFeed`).

- `serialize`: the data the program writes, behind the discriminator of its type. `tryDeserialize`: the read of whoever is given
  the account; what follows the fields is not looked at.
- `tryDeserialize_iff`: it succeeds exactly on what starts with the data of a feed, and gives that feed.
-/
import Grindurus.Lib.Reader
import Grindurus.Feeds.Program

namespace Grindurus.Feeds

open Borsh

namespace CustomPriceFeed

def encode (f : CustomPriceFeed) : List UInt8 :=
  f.oracle.toList ++ f.assetMint.toList ++ f.description.toList ++ word 16 f.price ++ u8 f.decimals ++ i64 f.updatedAt

/-- length of the body -/
def LEN : ℕ := 121

def read : Reader CustomPriceFeed := do
  let oracle ← Reader.bytes 32
  let assetMint ← Reader.bytes 32
  let description ← Reader.bytes 32
  let price ← Reader.word 16
  let decimals ← Reader.u8
  let updatedAt ← Reader.i64
  pure ⟨oracle, assetMint, description, price, decimals, updatedAt⟩

theorem encode_length (f : CustomPriceFeed) : f.encode.length = LEN := by
  simp [encode, u8, i64, LEN]

theorem codec : Codec read encode := by
  intro l f rest
  constructor
  · simp only [read, Reader.run_bind, Reader.run_pure, Codec.bytes 32 _ _ _, Codec.word 16 _ _ _, Codec.u8 _ _ _, Codec.i64 _ _ _]
    rintro ⟨oracle, _, horacle, assetMint, _, hmint, description, _, hdescription, price, _, hprice, decimals, _, hdecimals,
      updatedAt, _, hupdated, hf, hrest⟩
    rw [horacle, hmint, hdescription, hprice, hdecimals, hupdated, hrest, ← hf]
    simp only [encode, List.append_assoc]
  · rintro rfl
    simp only [read, encode, List.append_assoc, (Codec.bytes 32).read_bind, (Codec.word 16).read_bind, Codec.u8.read_bind,
      Codec.i64.read_bind]
    rfl

/-- the data of the account -/
def serialize (d : Discriminator) (f : CustomPriceFeed) : List UInt8 := d.toList ++ f.encode

def tryDeserialize (d : Discriminator) (data : List UInt8) : Option CustomPriceFeed :=
  if data.take 8 = d.toList then (read.run (data.drop 8)).map Prod.fst else none

theorem tryDeserialize_iff {d : Discriminator} {data : List UInt8} {f : CustomPriceFeed} :
    tryDeserialize d data = some f ↔ ∃ rest, data = f.serialize d ++ rest := by
  unfold tryDeserialize serialize
  constructor
  · intro h
    split_ifs at h with hd
    simp only [Option.map_eq_some_iff, Prod.exists, codec _ _ _] at h
    obtain ⟨_, rest, hrest, rfl⟩ := h
    exact ⟨rest, by rw [← hd, List.append_assoc, ← hrest, List.take_append_drop]⟩
  · rintro ⟨rest, rfl⟩
    have hlen : d.toList.length = 8 := Vector.length_toList
    rw [List.append_assoc, List.take_left' hlen, List.drop_left' hlen, if_pos rfl, codec.read]
    rfl

end CustomPriceFeed

end Grindurus.Feeds
