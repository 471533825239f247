/-
The three formats that share the GRS channel are read without ambiguity (`programs/grs/src/msg_codec.rs`).

- `u64FromU256Be_iff`: a word is read exactly as the number it was written for.
- `SaleMsg.WellFormed`, `GrantMsg.WellFormed`: what can be sent. `decodeSale_iff`, `decodeGrant_iff`: the strings that are accepted
  are the encodings of well-formed messages, each of one message only.
- `wire_unambiguous`: with the credits, which are read back unless they look like one of the two.
-/
import Grindurus.Grs.Codec

namespace Grindurus.Grs

open Checked Bytes

variable {m : List UInt8}

/-! ## Words -/

theorem slice_split {α : Type} {l : List α} {i j : ℕ} (hl : l.length = j) : slice l 0 i ++ slice l i j = l := by
  have htail : slice l i j = l.drop i := by
    rw [slice, List.take_of_length_le]
    rw [List.length_drop, hl]
  rw [htail, slice, List.drop_zero, Nat.sub_zero, List.take_append_drop]

/-- the words that are accepted are those of the numbers of 64 bits -/
theorem u64FromU256Be_iff {word : List UInt8} {v : ℕ} : u64FromU256Be word = .ok v ↔ v < 2 ^ 64 ∧ u256BeFromU64 v = word := by
  constructor
  · intro h
    have hv := u64FromU256Be_ok h
    simp only [u64FromU256Be, bind_ok, require_ok, Except.ok.injEq] at h
    obtain ⟨-, hlen, -, hzero, rfl⟩ := h
    have hhigh : slice word 0 24 = List.replicate 24 0 := by
      have hlen24 : (slice word 0 24).length = 24 := slice_length (by omega)
      rw [List.all_eq_true] at hzero
      exact List.eq_replicate_iff.2 ⟨hlen24, fun b hb => beq_iff_eq.1 (hzero b hb)⟩
    have hlow : beBytes 8 (ofBe (slice word 24 32)) = slice word 24 32 := by
      have hlen8 : (slice word 24 32).length = 8 := slice_length (by omega)
      have hback := beBytes_ofBe (slice word 24 32)
      rwa [hlen8] at hback
    refine ⟨hv, ?_⟩
    rw [u256BeFromU64, hlow, ← hhigh]
    exact slice_split hlen
  · rintro ⟨hv, rfl⟩
    exact u64FromU256Be_u256BeFromU64 hv

theorem readKey_iff {l : List UInt8} {k : Pubkey} : readKey l = .ok k ↔ k.bytes = l := by
  constructor
  · exact readKey_ok
  · rintro rfl
    exact readKey_bytes k

/-! ## Sales -/

/-- a sale that can be sent: numbered from 1, and of whole shared units -/
structure SaleMsg.WellFormed (t : SaleMsg) : Prop where
  id_pos : 1 ≤ t.id
  id_lt : t.id < 2 ^ 64
  asset_lt : t.assetAmount < 2 ^ 64
  grs_lt : t.grsAmount < 2 ^ 64
  whole : t.grsAmount % GRS_LD2SD_RATE = 0

def SaleMsg.encode (t : SaleMsg) : List UInt8 := encodeSale t.id t.asset t.assetAmount t.grsAmount t.recipient

/-- **Sale messages are their encodings.** -/
theorem decodeSale_iff {t : SaleMsg} : decodeSale m = .ok t ↔ t.WellFormed ∧ t.encode = m := by
  constructor
  · intro h
    simp only [decodeSale, bind_ok, require_ok, checkedMul_ok, readKey_iff, u64FromU256Be_iff, Except.ok.injEq] at h
    obtain ⟨-, hsale, id, ⟨hid, hword₁⟩, -, hpos, asset, hword₂, amount, ⟨hamount, hword₃⟩, sd, ⟨-, hword₄⟩, grs, ⟨hgrs, rfl⟩,
      recipient, hword₅, rfl⟩ := h
    obtain ⟨hlen, htag⟩ : m.length = SALE_MSG_LEN ∧ slice m 0 32 = saleMsgType.bytes := by simpa [isSale] using hsale
    have hsd : sd * GRS_LD2SD_RATE / GRS_LD2SD_RATE = sd := Nat.mul_div_cancel sd (by decide)
    refine ⟨⟨Nat.pos_of_ne_zero hpos, hid, hamount, hgrs, Nat.mul_mod_left sd _⟩, ?_⟩
    rw [SaleMsg.encode, encodeSale, hsd, ← htag, hword₁, hword₂, hword₃, hword₄, hword₅]
    exact flatten_slices (n := 32) (k := 6) hlen
  · rintro ⟨ht, rfl⟩
    exact decodeSale_encodeSale _ _ _ _ _ (Nat.pos_iff_ne_zero.1 ht.id_pos) ht.id_lt ht.asset_lt ht.grs_lt ht.whole

/-! ## Grants -/

/-- a grant that can be sent: of whole shared units, in one of the twelve buckets -/
structure GrantMsg.WellFormed (t : GrantMsg) : Prop where
  amount_lt : t.amountLd < 2 ^ 64
  whole : t.amountLd % GRS_LD2SD_RATE = 0
  start_lt : t.start < 2 ^ 64
  cliff_lt : t.cliffSeconds < 2 ^ 64
  duration_lt : t.durationSeconds < 2 ^ 64
  bucket_le : t.bucket ≤ 11

def GrantMsg.encode (t : GrantMsg) : List UInt8 :=
  encodeGrant t.toKey t.amountLd t.start t.cliffSeconds t.durationSeconds t.bucket

/-- every field of a grant message is a word -/
theorem GrantMsg.encode_slice (t : GrantMsg) {k : ℕ} {f : List UInt8}
    (hk : [grantMsgType.bytes, t.toKey.bytes, u256BeFromU64 (t.amountLd / GRS_LD2SD_RATE), u256BeFromU64 t.start,
      u256BeFromU64 t.cliffSeconds, u256BeFromU64 t.durationSeconds, u256BeFromU64 t.bucket][k]? = some f) :
    slice t.encode (32 * k) (32 * (k + 1)) = f :=
  slice_flatten (by simp) hk

@[simp] theorem GrantMsg.encode_length (t : GrantMsg) : t.encode.length = GRANT_MSG_LEN := by
  simp [GrantMsg.encode, encodeGrant, GRANT_MSG_LEN]

theorem isGrant_encodeGrant (t : GrantMsg) : isGrant t.encode = true := by
  have htag := t.encode_slice (k := 0) rfl
  simp only [isGrant, GrantMsg.encode_length, decide_eq_true_eq, true_and]
  exact htag

/-- **Grant messages are their encodings.** -/
theorem decodeGrant_iff {t : GrantMsg} : decodeGrant m = .ok t ↔ t.WellFormed ∧ t.encode = m := by
  constructor
  · intro h
    simp only [decodeGrant, bind_ok, require_ok, checkedMul_ok, readKey_iff, u64FromU256Be_iff, Except.ok.injEq] at h
    obtain ⟨-, hgrant, toKey, hword₁, sd, ⟨-, hword₂⟩, amount, ⟨hamount, rfl⟩, start, ⟨hstart, hword₃⟩, cliff, ⟨hcliff, hword₄⟩,
      duration, ⟨hduration, hword₅⟩, bucket, ⟨-, hword₆⟩, -, hbucket, rfl⟩ := h
    obtain ⟨hlen, htag⟩ : m.length = GRANT_MSG_LEN ∧ slice m 0 32 = grantMsgType.bytes := by simpa [isGrant] using hgrant
    have hsd : sd * GRS_LD2SD_RATE / GRS_LD2SD_RATE = sd := Nat.mul_div_cancel sd (by decide)
    refine ⟨⟨hamount, Nat.mul_mod_left sd _, hstart, hcliff, hduration, hbucket⟩, ?_⟩
    rw [GrantMsg.encode, encodeGrant, hsd, ← htag, hword₁, hword₂, hword₃, hword₄, hword₅, hword₆]
    exact flatten_slices (n := 32) (k := 7) hlen
  · rintro ⟨ht, rfl⟩
    have hfield := fun k f => @GrantMsg.encode_slice t k f
    have hsd : t.amountLd / GRS_LD2SD_RATE * GRS_LD2SD_RATE = t.amountLd :=
      Nat.div_mul_cancel (Nat.dvd_of_mod_eq_zero ht.whole)
    have hsd' : t.amountLd / GRS_LD2SD_RATE < 2 ^ 64 := (Nat.div_le_self _ _).trans_lt ht.amount_lt
    have hbucket : t.bucket < 2 ^ 64 := ht.bucket_le.trans_lt (by decide)
    simp only [decodeGrant, bind_ok, require_ok, checkedMul_ok, readKey_iff, u64FromU256Be_iff]
    refine ⟨(), isGrant_encodeGrant t, t.toKey, ?_, _, ⟨hsd', ?_⟩, t.amountLd, ⟨?_, hsd⟩, t.start, ⟨ht.start_lt, ?_⟩,
      t.cliffSeconds, ⟨ht.cliff_lt, ?_⟩, t.durationSeconds, ⟨ht.duration_lt, ?_⟩, t.bucket, ⟨hbucket, ?_⟩, (), ht.bucket_le, rfl⟩
    · exact (hfield 1 _ rfl).symm
    · exact (hfield 2 _ rfl).symm
    · rw [hsd]
      exact ht.amount_lt
    · exact (hfield 3 _ rfl).symm
    · exact (hfield 4 _ rfl).symm
    · exact (hfield 5 _ rfl).symm
    · exact (hfield 6 _ rfl).symm

/-! ## Credits -/

section Credits

variable (toKey : Pubkey) (amount : ℕ) (sender : Pubkey) (compose : Option (List UInt8))

/-- what follows the amount: the sender and its message, if there is one -/
theorem encode_eq : encode toKey amount sender compose =
    toKey.bytes ++ (beBytes 8 amount ++ (compose.map (sender.bytes ++ ·)).getD []) := by
  cases compose <;> simp [encode]

theorem sendTo_of_encode : sendTo (encode toKey amount sender compose) = .ok toKey := by
  have hslice : slice (encode toKey amount sender compose) 0 32 = toKey.bytes := by
    rw [encode_eq]
    exact slice_append toKey.size
  rw [sendTo, SEND_AMOUNT_SD_OFFSET, hslice, readKey_bytes]

theorem amountSd_of_encode {amount : ℕ} (h : amount < 2 ^ 64) :
    amountSd (encode toKey amount sender compose) = .ok amount := by
  have hslice : slice (encode toKey amount sender compose) 32 40 = beBytes 8 amount := by
    rw [encode_eq, slice, List.drop_left' toKey.size, List.take_left' (beBytes_length 8 amount)]
  have hlen : COMPOSE_MSG_OFFSET ≤ (encode toKey amount sender compose).length := by
    rw [encode_eq]
    simp [COMPOSE_MSG_OFFSET, toKey.size]
    omega
  simp only [amountSd, bind_ok, SEND_AMOUNT_SD_OFFSET, COMPOSE_MSG_OFFSET, hslice, Except.ok.injEq]
  exact ⟨(), require_ok.2 hlen, ofBe_beBytes (by omega)⟩

theorem composeMsg_of_encode (hsale : isSale (encode toKey amount sender compose) = false)
    (hgrant : isGrant (encode toKey amount sender compose) = false) :
    composeMsg (encode toKey amount sender compose) = compose.map (sender.bytes ++ ·) := by
  have hdrop : (encode toKey amount sender compose).drop 40 = (compose.map (sender.bytes ++ ·)).getD [] := by
    have hhead : (toKey.bytes ++ beBytes 8 amount).length = 40 := by simp [toKey.size]
    rw [encode_eq, ← List.append_assoc, List.drop_left' hhead]
  have hlen : (encode toKey amount sender compose).length = 40 + ((compose.map (sender.bytes ++ ·)).getD []).length := by
    rw [encode_eq]
    simp [toKey.size]
    omega
  rw [composeMsg, if_neg (by simp [hsale, hgrant]), COMPOSE_MSG_OFFSET, hdrop, hlen]
  cases compose with
  | none => rfl
  | some msg => simp [sender.size]

end Credits

/-- no string has both lengths -/
theorem isSale_isGrant : ¬ (isSale m = true ∧ isGrant m = true) := by
  rintro ⟨hsale, hgrant⟩
  obtain ⟨hlen, -⟩ : m.length = SALE_MSG_LEN ∧ slice m 0 32 = saleMsgType.bytes := by simpa [isSale] using hsale
  obtain ⟨hlen', -⟩ : m.length = GRANT_MSG_LEN ∧ slice m 0 32 = grantMsgType.bytes := by simpa [isGrant] using hgrant
  exact absurd (hlen.symm.trans hlen') (by decide)

/-- **Unambiguous.** Sales and grants are accepted exactly as the encodings of well-formed messages. A credit is read back, its
compose message unless it looks like a sale or a grant. No string is both, and a credit without a compose message is neither. An
inbound string of bytes is thus of at most one kind, and if it is accepted it says one thing. The two tags are hashes, and an
address that equals one of them is the only way for a credit to be taken for something else. -/
theorem wire_unambiguous :
    (∀ (m : List UInt8) (t : SaleMsg), decodeSale m = .ok t ↔ t.WellFormed ∧ t.encode = m) ∧
    (∀ (m : List UInt8) (t : GrantMsg), decodeGrant m = .ok t ↔ t.WellFormed ∧ t.encode = m) ∧
    (∀ (toKey : Pubkey) (amount : ℕ) (sender : Pubkey) (compose : Option (List UInt8)), amount < 2 ^ 64 →
      sendTo (encode toKey amount sender compose) = .ok toKey ∧ amountSd (encode toKey amount sender compose) = .ok amount ∧
      (isSale (encode toKey amount sender compose) = false → isGrant (encode toKey amount sender compose) = false →
        composeMsg (encode toKey amount sender compose) = compose.map (sender.bytes ++ ·))) ∧
    (∀ m : List UInt8, ¬ (isSale m = true ∧ isGrant m = true)) ∧
    ∀ (toKey : Pubkey) (amount : ℕ) (sender : Pubkey),
      isSale (encode toKey amount sender none) = false ∧ isGrant (encode toKey amount sender none) = false := by
  refine ⟨fun _ _ => decodeSale_iff, fun _ _ => decodeGrant_iff, ?_, fun _ => isSale_isGrant, ?_⟩
  · intro toKey amount sender compose hamount
    exact ⟨sendTo_of_encode .., amountSd_of_encode _ _ _ hamount, composeMsg_of_encode _ _ _ _⟩
  · intro toKey amount sender
    exact ⟨isSale_encode .., isGrant_encode ..⟩

/-- lot 3, of 10 USDC for one GRS -/
def Sample.lot : SaleMsg := ⟨3, grantMsgType, 10000000, 1000000000, saleMsgType⟩

theorem wire_unambiguous_lot : decodeSale Sample.lot.encode = .ok Sample.lot ∧
    composeMsg (encode grantMsgType 5000000 saleMsgType (some [1, 2, 3])) = some (saleMsgType.bytes ++ [1, 2, 3]) := by
  obtain ⟨hsale, -, hcredit, -⟩ := wire_unambiguous
  refine ⟨(hsale _ _).2 ⟨⟨by decide, by decide, by decide, by decide, by decide⟩, rfl⟩, ?_⟩
  exact (hcredit grantMsgType 5000000 saleMsgType (some [1, 2, 3]) (by decide)).2.2 (by decide) (by decide)

end Grindurus.Grs
