/-
Wire format of the GRS messages (`programs/grs/src/msg_codec.rs`).

Three kinds of message: an OFT credit of 40 bytes or more, a sale of 192 bytes and a grant of 224 bytes. A sale or a grant is
recognised by its length and its first 32 bytes. Amounts travel in shared decimals.

- `decodeSale_encodeSale`, `amountSd_encode`, `sendTo_encode`: what is encoded is read back.
- `grsCarried`: the local amount a message is good for. `grsCarried_encodeSale`, `grsCarried_encode`: what it is for the
  messages this program sends.

The two tags are hashes of names, so that an OFT message, which begins with a recipient, is not taken for a sale or a grant unless
its recipient is one of the two hashes; `Wire` says so for whole messages. Amounts are scaled by the rate between local and shared
decimals before they are written, and back when they are read, in checked arithmetic.
-/
import Grindurus.Grs.Types

namespace Grindurus.Grs

open Checked Bytes

/-! ## Encoding -/

def SEND_AMOUNT_SD_OFFSET : ℕ := 32
def COMPOSE_MSG_OFFSET : ℕ := 40
def SALE_MSG_LEN : ℕ := 192
def GRANT_MSG_LEN : ℕ := 224

/-- keccak256 of "GRS.sale" -/
def saleMsgType : Pubkey :=
  ⟨[0x9a, 0xd0, 0x4f, 0x5e, 0x83, 0x38, 0x4a, 0x6d, 0x14, 0x3d, 0xcd, 0xba, 0xb3, 0xe4, 0x98, 0xbd,
    0xe0, 0x25, 0x7b, 0xcd, 0xd7, 0x78, 0x06, 0x84, 0x3b, 0x0c, 0x11, 0x5c, 0xbe, 0xf6, 0x5b, 0xe9], rfl⟩

/-- keccak256 of "GRS.grant" -/
def grantMsgType : Pubkey :=
  ⟨[0x8b, 0x42, 0x7b, 0xa0, 0xee, 0xaa, 0x0e, 0x85, 0xa3, 0xbc, 0x8d, 0xec, 0xe1, 0x67, 0x61, 0x56,
    0x4e, 0xa9, 0xc7, 0xba, 0x4d, 0x8b, 0xf9, 0x76, 0x35, 0xc7, 0x5c, 0x78, 0x96, 0x17, 0xc7, 0x73], rfl⟩

def u256BeFromU64 (v : ℕ) : List UInt8 := List.replicate 24 0 ++ beBytes 8 v

def u64FromU256Be (word : List UInt8) : Except OFTError ℕ := do
  require (word.length = 32) .invalidSaleMessage
  require ((slice word 0 24).all (· == 0) = true) .invalidSaleMessage
  .ok (ofBe (slice word 24 32))

def isSale (message : List UInt8) : Bool := message.length = SALE_MSG_LEN ∧ slice message 0 32 = saleMsgType.bytes

def isGrant (message : List UInt8) : Bool := message.length = GRANT_MSG_LEN ∧ slice message 0 32 = grantMsgType.bytes

def encodeSale (id : ℕ) (asset : Pubkey) (assetAmount grsAmount : ℕ) (recipient : Pubkey) : List UInt8 :=
  [saleMsgType.bytes, u256BeFromU64 id, asset.bytes, u256BeFromU64 assetAmount,
    u256BeFromU64 (grsAmount / GRS_LD2SD_RATE), recipient.bytes].flatten

def encodeGrant (toKey : Pubkey) (amountLd start cliffSeconds durationSeconds bucket : ℕ) : List UInt8 :=
  [grantMsgType.bytes, toKey.bytes, u256BeFromU64 (amountLd / GRS_LD2SD_RATE), u256BeFromU64 start,
    u256BeFromU64 cliffSeconds, u256BeFromU64 durationSeconds, u256BeFromU64 bucket].flatten

/-- 32 bytes of a message as a key; a shorter slice panics -/
def readKey (l : List UInt8) : Except OFTError Pubkey := if h : l.length = 32 then .ok ⟨l, h⟩ else .error .panicked

structure SaleMsg where
  id : ℕ
  asset : Pubkey
  assetAmount : ℕ
  grsAmount : ℕ
  recipient : Pubkey
  deriving DecidableEq, Repr

structure GrantMsg where
  toKey : Pubkey
  amountLd : ℕ
  start : ℕ
  cliffSeconds : ℕ
  durationSeconds : ℕ
  bucket : ℕ
  deriving DecidableEq, Repr

def decodeSale (message : List UInt8) : Except OFTError SaleMsg := do
  require (isSale message = true) .invalidSaleMessage
  let id ← u64FromU256Be (slice message 32 64)
  require (id ≠ 0) .invalidSaleMessage
  let asset ← readKey (slice message 64 96)
  let assetAmount ← u64FromU256Be (slice message 96 128)
  let grsSd ← u64FromU256Be (slice message 128 160)
  let grsAmount ← checkedMul u64 grsSd GRS_LD2SD_RATE .invalidSaleMessage
  let recipient ← readKey (slice message 160 192)
  .ok ⟨id, asset, assetAmount, grsAmount, recipient⟩

def decodeGrant (message : List UInt8) : Except OFTError GrantMsg := do
  require (isGrant message = true) .invalidSaleMessage
  let toKey ← readKey (slice message 32 64)
  let amountSd ← u64FromU256Be (slice message 64 96)
  let amountLd ← checkedMul u64 amountSd GRS_LD2SD_RATE .invalidSaleMessage
  let start ← u64FromU256Be (slice message 96 128)
  let cliffSeconds ← u64FromU256Be (slice message 128 160)
  let durationSeconds ← u64FromU256Be (slice message 160 192)
  let bucket ← u64FromU256Be (slice message 192 224)
  require (bucket ≤ 11) .invalidSaleMessage
  .ok ⟨toKey, amountLd, start, cliffSeconds, durationSeconds, bucket⟩

def encode (sendTo : Pubkey) (amountSd : ℕ) (sender : Pubkey) (composeMsg : Option (List UInt8)) : List UInt8 :=
  match composeMsg with
  | some msg => sendTo.bytes ++ beBytes 8 amountSd ++ sender.bytes ++ msg
  | none => sendTo.bytes ++ beBytes 8 amountSd

def sendTo (message : List UInt8) : Except OFTError Pubkey := readKey (slice message 0 SEND_AMOUNT_SD_OFFSET)

/-- reading past the end of a short message panics -/
def amountSd (message : List UInt8) : Except OFTError ℕ := do
  require (COMPOSE_MSG_OFFSET ≤ message.length) .panicked
  .ok (ofBe (slice message SEND_AMOUNT_SD_OFFSET COMPOSE_MSG_OFFSET))

def composeMsg (message : List UInt8) : Option (List UInt8) :=
  if isSale message = true ∨ isGrant message = true then none
  else if COMPOSE_MSG_OFFSET < message.length then some (message.drop COMPOSE_MSG_OFFSET)
  else none

/-! ## Reading back -/

@[simp] theorem u256BeFromU64_length (v : ℕ) : (u256BeFromU64 v).length = 32 := by simp [u256BeFromU64]

theorem u64FromU256Be_ok {word : List UInt8} {v : ℕ} (h : u64FromU256Be word = .ok v) : v < 2 ^ 64 := by
  simp only [u64FromU256Be, bind_ok, require_ok, Except.ok.injEq] at h
  obtain ⟨-, hlen, -, -, rfl⟩ := h
  have hlt := ofBe_lt (slice word 24 32)
  rwa [slice_length (by omega)] at hlt

/-- a word holds any number of 64 bits -/
theorem u64FromU256Be_u256BeFromU64 {v : ℕ} (h : v < 2 ^ 64) : u64FromU256Be (u256BeFromU64 v) = .ok v := by
  have hhigh : slice (u256BeFromU64 v) 0 24 = List.replicate 24 0 := slice_append (by simp)
  have hlow : slice (u256BeFromU64 v) 24 32 = beBytes 8 v := slice_append_right (by simp) (beBytes_length 8 v)
  simp only [u64FromU256Be, bind_ok, require_ok, hhigh, hlow]
  exact ⟨(), u256BeFromU64_length v, (), by decide, by rw [ofBe_beBytes (by omega)]⟩

/-- a word never holds more than was written -/
theorem u64FromU256Be_le {v v' : ℕ} (h : u64FromU256Be (u256BeFromU64 v) = .ok v') : v' ≤ v := by
  have hlow : slice (u256BeFromU64 v) 24 32 = beBytes 8 v := slice_append_right (by simp) (beBytes_length 8 v)
  simp only [u64FromU256Be, bind_ok, Except.ok.injEq, hlow] at h
  obtain ⟨-, -, -, -, rfl⟩ := h
  exact ofBe_beBytes_le 8 v

@[simp] theorem readKey_bytes (k : Pubkey) : readKey k.bytes = .ok k := by simp [readKey]

theorem readKey_ok {l : List UInt8} {k : Pubkey} (h : readKey l = .ok k) : k.bytes = l := by
  unfold readKey at h
  split_ifs at h
  cases h
  rfl

section Fields

variable (id : ℕ) (asset : Pubkey) (assetAmount grsAmount : ℕ) (recipient : Pubkey)

/-- every field of a sale message is a word -/
theorem encodeSale_slice {k : ℕ} {f : List UInt8}
    (hk : [saleMsgType.bytes, u256BeFromU64 id, asset.bytes, u256BeFromU64 assetAmount,
      u256BeFromU64 (grsAmount / GRS_LD2SD_RATE), recipient.bytes][k]? = some f) :
    slice (encodeSale id asset assetAmount grsAmount recipient) (32 * k) (32 * (k + 1)) = f :=
  slice_flatten (by simp) hk

@[simp] theorem encodeSale_length : (encodeSale id asset assetAmount grsAmount recipient).length = SALE_MSG_LEN := by
  simp [encodeSale, SALE_MSG_LEN]

theorem isSale_encodeSale : isSale (encodeSale id asset assetAmount grsAmount recipient) = true := by
  have htag := encodeSale_slice id asset assetAmount grsAmount recipient (k := 0) rfl
  simp only [isSale, encodeSale_length, decide_eq_true_eq, true_and]
  exact htag

/-- **Sale messages.** A lot of whole shared units is read back as it was written. -/
theorem decodeSale_encodeSale (hid : id ≠ 0) (hid' : id < 2 ^ 64) (ha : assetAmount < 2 ^ 64) (hg : grsAmount < 2 ^ 64)
    (hdust : grsAmount % GRS_LD2SD_RATE = 0) :
    decodeSale (encodeSale id asset assetAmount grsAmount recipient) = .ok ⟨id, asset, assetAmount, grsAmount, recipient⟩ := by
  have hfield := fun k f => @encodeSale_slice id asset assetAmount grsAmount recipient k f
  have h1 := hfield 1 _ rfl
  have h2 := hfield 2 _ rfl
  have h3 := hfield 3 _ rfl
  have h4 := hfield 4 _ rfl
  have h5 := hfield 5 _ rfl
  have hsd : grsAmount / GRS_LD2SD_RATE * GRS_LD2SD_RATE = grsAmount := Nat.div_mul_cancel (Nat.dvd_of_mod_eq_zero hdust)
  have hsd' : grsAmount / GRS_LD2SD_RATE < 2 ^ 64 := (Nat.div_le_self _ _).trans_lt hg
  simp only [decodeSale, bind_ok, require_ok, checkedMul_ok]
  refine ⟨(), isSale_encodeSale .., id, ?_, (), hid, asset, ?_, assetAmount, ?_, _, ?_, grsAmount, ⟨?_, hsd⟩, recipient, ?_, rfl⟩
  · exact (congrArg u64FromU256Be h1).trans (u64FromU256Be_u256BeFromU64 hid')
  · exact (congrArg readKey h2).trans (readKey_bytes asset)
  · exact (congrArg u64FromU256Be h3).trans (u64FromU256Be_u256BeFromU64 ha)
  · exact (congrArg u64FromU256Be h4).trans (u64FromU256Be_u256BeFromU64 hsd')
  · rw [hsd]
    exact hg
  · exact (congrArg readKey h5).trans (readKey_bytes recipient)

end Fields

/-- what a sale message says is never more than what was encoded -/
theorem decodeSale_encodeSale_le {id : ℕ} {asset : Pubkey} {assetAmount grsAmount : ℕ} {recipient : Pubkey} {m : SaleMsg}
    (h : decodeSale (encodeSale id asset assetAmount grsAmount recipient) = .ok m) : m.grsAmount ≤ grsAmount := by
  have h4 := encodeSale_slice id asset assetAmount grsAmount recipient (k := 4) rfl
  simp only [decodeSale, bind_ok, require_ok, checkedMul_ok, Except.ok.injEq] at h
  obtain ⟨-, -, i, -, -, -, a, -, x, -, sd, hsd, g, ⟨-, rfl⟩, r, -, rfl⟩ := h
  have hle : sd ≤ grsAmount / GRS_LD2SD_RATE := u64FromU256Be_le ((congrArg u64FromU256Be h4).symm.trans hsd)
  exact (Nat.mul_le_mul_right _ hle).trans (Nat.div_mul_le_self _ _)

/-- the id of a sale message is the one that was encoded -/
theorem decodeSale_encodeSale_id {id : ℕ} {asset : Pubkey} {assetAmount grsAmount : ℕ} {recipient : Pubkey} {m : SaleMsg}
    (hid : id < 2 ^ 64) (h : decodeSale (encodeSale id asset assetAmount grsAmount recipient) = .ok m) : m.id = id := by
  have h1 := encodeSale_slice id asset assetAmount grsAmount recipient (k := 1) rfl
  simp only [decodeSale, bind_ok, require_ok, checkedMul_ok, Except.ok.injEq] at h
  obtain ⟨-, -, i, hi, -, -, a, -, x, -, sd, -, g, -, r, -, rfl⟩ := h
  have hread := ((congrArg u64FromU256Be h1).trans (u64FromU256Be_u256BeFromU64 hid)).symm.trans hi
  exact (Except.ok.inj hread).symm

theorem decodeSale_ok {message : List UInt8} {m : SaleMsg} (h : decodeSale message = .ok m) :
    isSale message = true ∧ 0 < m.id ∧ m.id < 2 ^ 64 ∧ m.grsAmount < 2 ^ 64 := by
  simp only [decodeSale, bind_ok, require_ok, checkedMul_ok, Except.ok.injEq] at h
  obtain ⟨-, hsale, i, hi, -, hpos, a, -, x, -, sd, -, g, ⟨hg, rfl⟩, r, -, rfl⟩ := h
  exact ⟨hsale, Nat.pos_of_ne_zero hpos, u64FromU256Be_ok hi, hg⟩

theorem encode_none_length (toKey : Pubkey) (amount : ℕ) (sender : Pubkey) : (encode toKey amount sender none).length = 40 := by
  simp [encode]

/-- a credit without a compose message is too short for a sale or a grant -/
theorem isSale_encode (toKey : Pubkey) (amount : ℕ) (sender : Pubkey) : isSale (encode toKey amount sender none) = false := by
  simp [isSale, encode_none_length, SALE_MSG_LEN]

theorem isGrant_encode (toKey : Pubkey) (amount : ℕ) (sender : Pubkey) : isGrant (encode toKey amount sender none) = false := by
  simp [isGrant, encode_none_length, GRANT_MSG_LEN]

theorem sendTo_encode (toKey : Pubkey) (amount : ℕ) (sender : Pubkey) : sendTo (encode toKey amount sender none) = .ok toKey := by
  have hslice : slice (encode toKey amount sender none) 0 32 = toKey.bytes := slice_append toKey.size
  rw [sendTo, SEND_AMOUNT_SD_OFFSET, hslice, readKey_bytes]

theorem amountSd_encode (toKey : Pubkey) {amount : ℕ} (sender : Pubkey) (h : amount < 2 ^ 64) :
    amountSd (encode toKey amount sender none) = .ok amount := by
  have hslice : slice (encode toKey amount sender none) 32 40 = beBytes 8 amount :=
    slice_append_right toKey.size (beBytes_length 8 amount)
  simp only [amountSd, bind_ok, COMPOSE_MSG_OFFSET, SEND_AMOUNT_SD_OFFSET, hslice]
  exact ⟨(), require_ok.2 (encode_none_length ..).ge, by rw [ofBe_beBytes (by omega)]⟩

/-! ## What a message carries -/

/-- the local amount a message is good for where it is received; nothing, if it cannot be read -/
def grsCarried (message : List UInt8) : ℕ :=
  if isSale message = true then (decodeSale message).toOption.elim 0 SaleMsg.grsAmount
  else if isGrant message = true then (decodeGrant message).toOption.elim 0 GrantMsg.amountLd
  else (amountSd message).toOption.elim 0 (· * GRS_LD2SD_RATE)

theorem grsCarried_sale {message : List UInt8} {m : SaleMsg} (h : decodeSale message = .ok m) :
    grsCarried message = m.grsAmount := by
  simp [grsCarried, (decodeSale_ok h).1, h, Except.toOption]

theorem grsCarried_grant {message : List UInt8} {m : GrantMsg} (hsale : isSale message = false) (h : decodeGrant message = .ok m) :
    grsCarried message = m.amountLd := by
  have hgrant : isGrant message = true := by
    simp only [decodeGrant, bind_ok, require_ok] at h
    exact h.choose_spec.1
  simp [grsCarried, hsale, hgrant, h, Except.toOption]

theorem grsCarried_credit {message : List UInt8} {sd : ℕ} (hsale : isSale message = false) (hgrant : isGrant message = false)
    (h : amountSd message = .ok sd) : grsCarried message = sd * GRS_LD2SD_RATE := by
  simp [grsCarried, hsale, hgrant, h, Except.toOption]

/-- an open sale carries the whole lot -/
theorem grsCarried_encodeSale {id : ℕ} {asset : Pubkey} {assetAmount grsAmount : ℕ} {recipient : Pubkey} (hid : id ≠ 0)
    (hid' : id < 2 ^ 64) (ha : assetAmount < 2 ^ 64) (hg : grsAmount < 2 ^ 64) (hdust : grsAmount % GRS_LD2SD_RATE = 0) :
    grsCarried (encodeSale id asset assetAmount grsAmount recipient) = grsAmount :=
  grsCarried_sale (decodeSale_encodeSale id asset assetAmount grsAmount recipient hid hid' ha hg hdust)

theorem grsCarried_encode (toKey : Pubkey) {amount : ℕ} (sender : Pubkey) (h : amount < 2 ^ 64) :
    grsCarried (encode toKey amount sender none) = amount * GRS_LD2SD_RATE :=
  grsCarried_credit (isSale_encode ..) (isGrant_encode ..) (amountSd_encode toKey sender h)

/-- a message never carries more than what it was made of -/
theorem grsCarried_encodeSale_le (id : ℕ) (asset : Pubkey) (assetAmount grsAmount : ℕ) (recipient : Pubkey) :
    grsCarried (encodeSale id asset assetAmount grsAmount recipient) ≤ grsAmount := by
  rw [grsCarried, if_pos (isSale_encodeSale ..)]
  cases hm : decodeSale (encodeSale id asset assetAmount grsAmount recipient) with
  | error e => exact Nat.zero_le _
  | ok m => exact decodeSale_encodeSale_le hm

theorem grsCarried_encode_le (toKey : Pubkey) (amount : ℕ) (sender : Pubkey) :
    grsCarried (encode toKey amount sender none) ≤ amount * GRS_LD2SD_RATE := by
  have hslice : slice (encode toKey amount sender none) 32 40 = beBytes 8 amount :=
    slice_append_right toKey.size (beBytes_length 8 amount)
  rw [grsCarried, isSale_encode, isGrant_encode]
  simp only [Bool.false_eq_true, if_false]
  cases hsd : amountSd (encode toKey amount sender none) with
  | error e => exact Nat.zero_le _
  | ok sd =>
    simp only [amountSd, bind_ok, COMPOSE_MSG_OFFSET, SEND_AMOUNT_SD_OFFSET, hslice, Except.ok.injEq] at hsd
    obtain ⟨-, -, rfl⟩ := hsd
    exact Nat.mul_le_mul_right _ (ofBe_beBytes_le 8 amount)

end Grindurus.Grs
