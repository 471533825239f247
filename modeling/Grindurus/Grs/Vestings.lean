/-
Vesting (`programs/grs/src/state/vesting.rs`, `instructions/vest.rs`, `release.rs`, and the account helpers of the grant
path in `lz_receive.rs`).

A holder, or a grant from the home chain, locks GRS in the vest escrow; it is released to the beneficiary over time. Ids are
given in order.
-/
import Grindurus.Grs.Bridge

namespace Grindurus.Grs

open Checked TokenBank Function

variable (d : Deployment)

namespace Vesting

def vestedAt (v : Vesting) (timestamp : ℕ) : ℕ :=
  if timestamp < v.cliffEnd then 0
  else if v.endAt ≤ v.cliffEnd ∨ v.endAt ≤ timestamp then v.allocationLd
  else v.allocationLd * (timestamp - v.cliffEnd) / (v.endAt - v.cliffEnd) % 2 ^ 64

def releasableAt (v : Vesting) (timestamp : ℕ) : ℕ := v.vestedAt timestamp - v.releasedLd

end Vesting

def nowTs (w : World) : Except OFTError ℕ := unixTime w.now .invalidSchedule

structure Schedule where
  start : ℕ
  cliffEnd : ℕ
  endAt : ℕ
  deriving DecidableEq, Repr

/-- a start of 0 stands for now -/
def schedule (w : World) (start cliffSeconds durationSeconds : ℕ) : Except OFTError Schedule := do
  let start ← (if start = 0 then nowTs w else .ok start)
  let cliffEnd ← checkedAdd u64 start cliffSeconds .invalidSchedule
  let endAt ← checkedAdd u64 cliffEnd durationSeconds .invalidSchedule
  .ok ⟨start, cliffEnd, endAt⟩

/-! ## Instructions -/

structure Vest where
  funder : Pubkey
  tokenSource : Pubkey
  id : ℕ
  toKey : Pubkey
  amountLd : ℕ
  start : ℕ
  cliffSeconds : ℕ
  durationSeconds : ℕ
  deriving DecidableEq, Repr

/-- the row is booked for what the funder gives, also where the mint keeps a part of it -/
def Vest.apply (w : World) (a : Vest) : Except OFTError World := do
  require (w.vestings a.id = none) (.accountAlreadyInUse (d.vest a.id))
  let bank ← initTokenAccount w.bank d.vestEscrow w.store.tokenMint d.grsConfig
  let w := { w with bank }
  let _ ← loadOwned w.bank a.tokenSource w.store.tokenMint a.funder
  require (a.toKey ≠ .default) .invalidRecipient
  require (a.toKey ≠ d.program) .invalidRecipient
  require (a.toKey ≠ d.oftStore) .invalidRecipient
  require (a.toKey ≠ d.vestEscrow) .invalidRecipient
  require (0 < a.amountLd) .zeroAmount
  require (¬ (a.cliffSeconds = 0 ∧ a.durationSeconds = 0)) .instantNotVest
  require (a.cliffSeconds ≤ GRS_MAX_CLIFF_SECONDS) .invalidSchedule
  require (a.durationSeconds ≤ GRS_MAX_DURATION_SECONDS) .invalidSchedule
  let next ← checkedAdd u64 w.config.vestingCount 1 .invalidSchedule
  require (a.id = next) .invalidVestingId
  let s ← schedule w a.start a.cliffSeconds a.durationSeconds
  let bank ← spl (w.bank.transfer a.tokenSource d.vestEscrow a.funder a.amountLd)
  .ok { w with
    bank
    vestings := update w.vestings a.id (some ⟨a.id, a.funder, a.toKey, a.amountLd, 0, s.start, s.cliffEnd, s.endAt⟩)
    config := { w.config with vestingCount := next } }

structure Release where
  payer : Pubkey
  id : ℕ
  beneficiary : Pubkey
  deriving DecidableEq, Repr

def Release.apply (w : World) (a : Release) : Except OFTError World := do
  let vesting ← demand (.accountNotInitialized (d.vest a.id)) (w.vestings a.id)
  require (vesting.id = a.id) (.constraintSeeds (d.vest a.id))
  let _ ← loadOwned w.bank d.vestEscrow w.store.tokenMint d.grsConfig
  require (a.beneficiary = vesting.beneficiary) .invalidRecipient
  let bank ← initAta d w.bank a.beneficiary w.store.tokenMint
  let now ← nowTs w
  let amountLd := vesting.releasableAt now
  require (0 < amountLd) .nothingToRelease
  let releasedLd ← checkedAdd u64 vesting.releasedLd amountLd .invalidSchedule
  let bank ← spl (bank.transfer d.vestEscrow (d.ata a.beneficiary w.store.tokenMint) d.grsConfig amountLd)
  .ok { w with bank, vestings := update w.vestings a.id (some { vesting with releasedLd }) }

/-! ## The accounts of a grant -/

/-- the vest escrow, created by hand if it is not there yet -/
def ensureVestEscrow (w : World) (vestEscrow : Pubkey) : Except OFTError World := do
  require (vestEscrow = d.vestEscrow) .invalidRemainingAccounts
  match w.bank.accounts d.vestEscrow with
  | some _ => .ok w
  | none => do
    createAccount w d.vestEscrow
    let bank ← spl (w.bank.openAccount d.vestEscrow w.store.tokenMint d.grsConfig)
    .ok { w with bank }

/-- the vesting of a grant, funded by the store -/
def initGrantVesting (w : World) (vesting : Pubkey) (id : ℕ) (m : GrantMsg) : Except OFTError World := do
  require (0 < id) .invalidVestingId
  require (vesting = d.vest id) .invalidRemainingAccounts
  require (w.vestings id = none) .invalidVestingId
  let s ← schedule w m.start m.cliffSeconds m.durationSeconds
  createAccount w (d.vest id)
  .ok { w with
    vestings := update w.vestings id (some ⟨id, d.oftStore, m.toKey, m.amountLd, 0, s.start, s.cliffEnd, s.endAt⟩) }

end Grindurus.Grs
