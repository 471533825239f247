/-
Reads of the Grinders account as bytes (`programs/grai/src/redeem.rs`, `config.rs`, `programs/grinders/src/state.rs`).

GRAI does not link the Grinders crate: it reads three fields of `GrindersState` at fixed offsets.

- `GrindersAccount`: the state of Grinders with all its fields at their widths, and the data of its account, `serialize`.
- `Raw.grindersGrinding`, `Raw.linked`: the reads. `raw_reads_agree`: on the data of an account they give its fields.
- `grindersGrinding_raw`, `executeSetGrinders_raw`: the program that reads bytes does what the one that reads fields does.
-/
import Grindurus.Lib.Borsh
import Grindurus.Grai.Governance
import Grindurus.Grai.Liquidation

namespace Grindurus.Grai

open Checked Bytes Borsh

/-! ## The account of Grinders -/

/-- `GrindersState`, field by field -/
structure GrindersAccount where
  toreador : Pubkey
  reserved : Pubkey
  graiProgram : Pubkey
  nextCustodianId : UInt64
  collectionMint : Pubkey
  heartbeatAt : Int64
  grindingPeriod : UInt32
  bump : UInt8
  clusterRef : Vector UInt8 32
  deriving DecidableEq

namespace GrindersAccount

/-- length of the body -/
def LEN : ℕ := 181

def fields (d : Discriminator) (g : GrindersAccount) : List (List UInt8) :=
  [d.toList, g.toreador.toList, g.reserved.toList, g.graiProgram.toList, uint 8 g.nextCustodianId.toNat,
    g.collectionMint.toList, int 8 g.heartbeatAt.toInt, uint 4 g.grindingPeriod.toNat, uint 1 g.bump.toNat, g.clusterRef.toList]

/-- the data of the account -/
def serialize (d : Discriminator) (g : GrindersAccount) : List UInt8 := (g.fields d).flatten

theorem serialize_length (d : Discriminator) (g : GrindersAccount) : (g.serialize d).length = 8 + LEN := by
  simp [serialize, fields, LEN]

end GrindersAccount

/-! ## The reads -/

/-- `i64::saturating_add` -/
def saturatingAddI64 (a b : ℤ) : ℤ := max (-2 ^ 63) (min (a + b) (2 ^ 63 - 1))

namespace Raw

def GRINDERS_HEARTBEAT_AT_OFFSET : ℕ := 8 + 32 + 32 + 32 + 8 + 32

def GRINDERS_GRINDING_PERIOD_OFFSET : ℕ := GRINDERS_HEARTBEAT_AT_OFFSET + 8

def GRINDERS_STATE_GRAI_PROGRAM_OFFSET : ℕ := 8 + 32 + 32

/-- is the Grinders heartbeat still active -/
def grindersGrinding (data : List UInt8) (now : ℤ) : Except ErrorCode Bool := do
  require (GRINDERS_GRINDING_PERIOD_OFFSET + 4 < data.length) .invalidGrinders
  let heartbeatAt := ofInt (slice data GRINDERS_HEARTBEAT_AT_OFFSET (GRINDERS_HEARTBEAT_AT_OFFSET + 8))
  let grindingPeriod := ofUint (slice data GRINDERS_GRINDING_PERIOD_OFFSET (GRINDERS_GRINDING_PERIOD_OFFSET + 4))
  .ok (decide (now ≤ saturatingAddI64 heartbeatAt grindingPeriod))

/-- an array of 32 bytes out of a slice -/
def tryInto (l : List UInt8) : Option Pubkey := if h : l.length = 32 then some ⟨l.toArray, h⟩ else none

/-- the program that the Grinders account links to -/
def linked (data : List UInt8) : Except ErrorCode Pubkey := do
  require (GRINDERS_STATE_GRAI_PROGRAM_OFFSET + 32 ≤ data.length) .invalidGrinders
  demand .invalidGrinders
    (tryInto (slice data GRINDERS_STATE_GRAI_PROGRAM_OFFSET (GRINDERS_STATE_GRAI_PROGRAM_OFFSET + 32)))

theorem tryInto_toList (k : Pubkey) : tryInto k.toList = some k := by
  rw [tryInto, dif_pos Vector.length_toList]
  rfl

variable (d : Discriminator) (g : GrindersAccount) (rest : List UInt8)

theorem data_length : (g.serialize d ++ rest).length = 189 + rest.length := by
  rw [List.length_append, g.serialize_length]
  rfl

theorem slice_graiProgram : slice (g.serialize d ++ rest) GRINDERS_STATE_GRAI_PROGRAM_OFFSET
    (GRINDERS_STATE_GRAI_PROGRAM_OFFSET + 32) = g.graiProgram.toList :=
  slice_field [d.toList, g.toreador.toList, g.reserved.toList] g.graiProgram.toList _ rest
    (by simp [GRINDERS_STATE_GRAI_PROGRAM_OFFSET]) (by simp)

theorem slice_heartbeatAt : slice (g.serialize d ++ rest) GRINDERS_HEARTBEAT_AT_OFFSET
    (GRINDERS_HEARTBEAT_AT_OFFSET + 8) = int 8 g.heartbeatAt.toInt :=
  slice_field [d.toList, g.toreador.toList, g.reserved.toList, g.graiProgram.toList, uint 8 g.nextCustodianId.toNat,
    g.collectionMint.toList] (int 8 g.heartbeatAt.toInt) _ rest (by simp [GRINDERS_HEARTBEAT_AT_OFFSET]) (by simp)

theorem slice_grindingPeriod : slice (g.serialize d ++ rest) GRINDERS_GRINDING_PERIOD_OFFSET
    (GRINDERS_GRINDING_PERIOD_OFFSET + 4) = uint 4 g.grindingPeriod.toNat :=
  slice_field [d.toList, g.toreador.toList, g.reserved.toList, g.graiProgram.toList, uint 8 g.nextCustodianId.toNat,
    g.collectionMint.toList, int 8 g.heartbeatAt.toInt] (uint 4 g.grindingPeriod.toNat) _ rest
    (by simp [GRINDERS_GRINDING_PERIOD_OFFSET, GRINDERS_HEARTBEAT_AT_OFFSET]) (by simp)

theorem read_heartbeatAt : ofInt (int 8 g.heartbeatAt.toInt) = g.heartbeatAt.toInt := by
  have hlow := g.heartbeatAt.le_toInt
  have hhigh := g.heartbeatAt.toInt_lt
  exact ofInt_int (by omega) (by omega)

theorem read_grindingPeriod : ofUint (uint 4 g.grindingPeriod.toNat) = g.grindingPeriod.toNat :=
  ofUint_uint g.grindingPeriod.toNat_lt

theorem grindersGrinding_serialize (now : ℤ) : grindersGrinding (g.serialize d ++ rest) now =
    .ok (decide (now ≤ saturatingAddI64 g.heartbeatAt.toInt g.grindingPeriod.toNat)) := by
  have hlen : GRINDERS_GRINDING_PERIOD_OFFSET + 4 < (g.serialize d ++ rest).length := by
    rw [data_length, GRINDERS_GRINDING_PERIOD_OFFSET, GRINDERS_HEARTBEAT_AT_OFFSET]
    omega
  rw [grindersGrinding, require_bind hlen, slice_heartbeatAt, slice_grindingPeriod, read_heartbeatAt, read_grindingPeriod]

theorem linked_serialize : linked (g.serialize d ++ rest) = .ok g.graiProgram := by
  have hlen : GRINDERS_STATE_GRAI_PROGRAM_OFFSET + 32 ≤ (g.serialize d ++ rest).length := by
    rw [data_length, GRINDERS_STATE_GRAI_PROGRAM_OFFSET]
    omega
  rw [linked, require_bind hlen, slice_graiProgram, tryInto_toList]
  rfl

end Raw

/-- **The raw reads agree with the account.** Whatever Grinders writes to its state, GRAI reads from the data the heartbeat, the
grinding period and the link, each as it was written. The offsets are written out in the code and not derived from the type, so
the statement is about every value the account can have, with any bytes after it. -/
theorem raw_reads_agree (d : Discriminator) (g : GrindersAccount) (rest : List UInt8) :
    (∀ now, Raw.grindersGrinding (g.serialize d ++ rest) now =
      .ok (decide (now ≤ saturatingAddI64 g.heartbeatAt.toInt g.grindingPeriod.toNat))) ∧
    Raw.linked (g.serialize d ++ rest) = .ok g.graiProgram :=
  ⟨Raw.grindersGrinding_serialize d g rest, Raw.linked_serialize d g rest⟩

/-! ## The program on bytes -/

/-- a clock of 64 bits does not see the saturation -/
theorem le_saturatingAddI64 {now a b : ℤ} (hnow : now < 2 ^ 63) (ha : -2 ^ 63 ≤ a) (hb : 0 ≤ b) :
    now ≤ saturatingAddI64 a b ↔ now ≤ a + b := by
  unfold saturatingAddI64
  omega

theorem grindersGrinding_iff (d : Discriminator) (g : GrindersAccount) (now : Int64) :
    Raw.grindersGrinding (g.serialize d) now.toInt =
      .ok (decide (now.toInt ≤ g.heartbeatAt.toInt + g.grindingPeriod.toNat)) := by
  have h := Raw.grindersGrinding_serialize d g [] now.toInt
  rw [List.append_nil] at h
  rw [h, Except.ok.injEq, decide_eq_decide]
  exact le_saturatingAddI64 now.toInt_lt g.heartbeatAt.le_toInt (by omega)

/-- the account holds what `g` says -/
structure GrindersAccount.Shows (pubkey : Key → Pubkey) (account : GrindersAccount) (g : GrindersState) : Prop where
  graiProgram : account.graiProgram = pubkey g.graiProgram
  heartbeatAt : account.heartbeatAt.toInt = g.heartbeatAt
  grindingPeriod : account.grindingPeriod.toNat = g.grindingPeriod

/-- `data` is what the accounts of the Grinders program hold -/
structure Stored (d : Discriminator) (pubkey : Key → Pubkey) (data : Key → Option (List UInt8))
    (grinders : Key → Option GrindersState) : Prop where
  absent : ∀ k, grinders k = none → data k = none
  present : ∀ k g, grinders k = some g → ∃ account : GrindersAccount, account.Shows pubkey g ∧ data k = some (account.serialize d)

namespace Raw

/-- `set_grinders` on the data of the account it is given -/
def executeSetGrinders (pubkey : Key → Pubkey) (data : Key → Option (List UInt8)) (w : World) (a : SetGrinders) :
    Except ErrorCode World := do
  requireOwner w a.owner
  require (w.state.liquidation = false) .liquidationOpen
  require (a.grinders ≠ .default) .invalidGrinders
  require (a.grindersState = a.grinders) .invalidGrinders
  let bytes ← demand .invalidGrinders (data a.grindersState)
  let linked ← linked bytes
  require (linked = pubkey .program) .grindersGraiMismatch
  .ok { w with state := { w.state with grinders := a.grinders } }

end Raw

variable {d : Discriminator} {pubkey : Key → Pubkey} {data : Key → Option (List UInt8)} {w : World}

/-- `liquidate` asks the data what the model asks the state -/
theorem grindersGrinding_raw (hs : Stored d pubkey data w.grinders) (now : ℤ) :
    (demand .invalidGrinders (data w.state.grinders) >>= fun bytes => Raw.grindersGrinding bytes now) = grindersGrinding w now := by
  cases hg : w.grinders w.state.grinders with
  | none => rw [grindersGrinding, hg, hs.absent _ hg]; rfl
  | some g =>
    obtain ⟨account, hshows, hdata⟩ := hs.present _ g hg
    have hread := Raw.grindersGrinding_serialize d account [] now
    have hlow := account.heartbeatAt.le_toInt
    have hsum : saturatingAddI64 account.heartbeatAt.toInt account.grindingPeriod.toNat =
        min (g.heartbeatAt + g.grindingPeriod) (2 ^ 63 - 1) := by
      rw [← hshows.heartbeatAt, ← hshows.grindingPeriod, saturatingAddI64]
      omega
    rw [List.append_nil, hsum] at hread
    rw [grindersGrinding, hg, hdata]
    exact hread

/-- no other address is spelled as the one of the program -/
theorem executeSetGrinders_raw (hinj : Function.Injective pubkey) (hs : Stored d pubkey data w.grinders) (a : SetGrinders) :
    Raw.executeSetGrinders pubkey data w a = executeSetGrinders w a := by
  unfold Raw.executeSetGrinders executeSetGrinders
  cases hg : w.grinders a.grindersState with
  | none => rw [hs.absent _ hg]; rfl
  | some g =>
    obtain ⟨account, hshows, hdata⟩ := hs.present _ g hg
    have hread := Raw.linked_serialize d account []
    rw [List.append_nil] at hread
    have hlink : account.graiProgram = pubkey .program ↔ g.graiProgram = .program := by
      rw [hshows.graiProgram, hinj.eq_iff]
    simp only [hdata, demand, hread, bind, Except.bind, hlink, require]

end Grindurus.Grai
