/-
Receiving a message from another chain (`programs/grs/src/instructions/lz_receive.rs`).

The endpoint hands over each verified message once. A sale message opens, resizes or closes the lot of a spoke, with the
escrow minted or burned to match; a grant opens a vesting; anything else is an OFT credit.

`LzReceive.apply` is the whole instruction; `receiveSale`, `receiveGrant` and `receiveOft` are its three branches.
-/
import Grindurus.Grs.Sales
import Grindurus.Grs.Vestings

namespace Grindurus.Grs

open Checked TokenBank Function

variable (d : Deployment)

/-- what the endpoint verified -/
structure LzReceiveParams where
  srcEid : ℕ
  sender : Pubkey
  message : List UInt8
  deriving DecidableEq, Repr

/-- the accounts an executor chooses -/
structure LzReceive where
  payer : Pubkey
  sale : Pubkey
  vestEscrow : Pubkey
  toAddress : Pubkey
  mintAuthority : Option Pubkey
  deriving DecidableEq, Repr

/-! ## The escrows -/

/-- credit `dst`: an adapter unlocks what it holds, a native store mints, never past the cap. The amount is what is booked, and
of a token that withholds nothing it is what arrives -/
def creditEscrow (w : World) (a : LzReceive) (dst : Pubkey) (amountLd : ℕ) : Except OFTError World :=
  match w.store.oftType with
  | .adapter => do
    let tvlLd ← checkedSub w.store.tvlLd amountLd .invalidFee
    let bank ← spl (w.bank.transfer d.tokenEscrow dst d.oftStore amountLd)
    .ok { w with bank, store := { w.store with tvlLd } }
  | .native => do
    let _ ← demand .invalidMintAuthority a.mintAuthority
    let newSupply ← checkedAdd u64 w.supply amountLd .capExceeded
    require (newSupply ≤ GRS_MAX_SUPPLY_LD) .capExceeded
    let bank ← spl (w.bank.mintTo w.store.tokenMint dst d.oftStore amountLd)
    .ok { w with bank }

def creditSaleEscrow (w : World) (a : LzReceive) (amountLd : ℕ) : Except OFTError World :=
  creditEscrow d w a d.saleEscrow amountLd

def creditVestEscrow (w : World) (a : LzReceive) (amountLd : ℕ) : Except OFTError World :=
  creditEscrow d w a d.vestEscrow amountLd

/-- the reverse of `creditSaleEscrow`: an adapter locks again what it transfers back -/
def debitSaleEscrow (w : World) (amountLd : ℕ) : Except OFTError World :=
  if amountLd = 0 then .ok w
  else
    match w.store.oftType with
    | .adapter => do
      let tvlLd ← checkedAdd u64 w.store.tvlLd amountLd .invalidFee
      let bank ← spl (w.bank.transfer d.saleEscrow d.tokenEscrow d.grsConfig amountLd)
      .ok { w with bank, store := { w.store with tvlLd } }
    | .native => do
      let bank ← spl (w.bank.burn w.store.tokenMint d.saleEscrow d.grsConfig amountLd)
      .ok { w with bank }

/-! ## Sale messages -/

/-- the lot grows: mint the difference and earmark it -/
def growLot (w : World) (a : LzReceive) (amountLd : ℕ) : Except OFTError World := do
  let w ← creditSaleEscrow d w a amountLd
  let salesReserved ← checkedAdd u64 w.config.salesReserved amountLd .insufficientInventory
  .ok { w with config := { w.config with salesReserved } }

/-- the lot shrinks: release the difference and burn it -/
def shrinkLot (w : World) (amountLd : ℕ) : Except OFTError World := do
  let salesReserved ← checkedSub w.config.salesReserved amountLd .insufficientInventory
  debitSaleEscrow d { w with config := { w.config with salesReserved } } amountLd

/-- bring the earmark from what the lot held to what it now holds -/
def resizeLot (w : World) (a : LzReceive) (previous : Option ℕ) (grsAmount : ℕ) : Except OFTError World :=
  match previous with
  | none => if 0 < grsAmount then growLot d w a grsAmount else .ok w
  | some previous =>
    if previous < grsAmount then do
      let minted ← checkedSub grsAmount previous .insufficientInventory
      growLot d w a minted
    else if grsAmount < previous then do
      let burned ← checkedSub previous grsAmount .insufficientInventory
      shrinkLot d w burned
    else .ok w

def receiveSale (w : World) (a : LzReceive) (message : List UInt8) : Except OFTError World := do
  require (w.config.isHome = false) .notSpoke
  let m ← decodeSale message
  require (m.recipient ≠ d.program) .invalidRecipient
  require (m.recipient ≠ d.oftStore) .invalidRecipient
  require (m.recipient ≠ d.saleEscrow) .invalidRecipient
  let previous ← peekSaleAccount d w a.sale m.id
  -- a close that overtook its open leaves a row that holds nothing: the late open is dropped
  if previous = some 0 ∧ m.grsAmount ≠ 0 then .ok w
  else do
    let w ← upsertSaleAccount d w a.sale m
    resizeLot d { w with saleCount := max w.saleCount m.id } a previous m.grsAmount

/-! ## Grants -/

def receiveGrant (w : World) (a : LzReceive) (message : List UInt8) : Except OFTError World := do
  require (w.config.isHome = false) .notSpoke
  let m ← decodeGrant message
  require (m.toKey ≠ .default) .invalidRecipient
  require (m.toKey ≠ d.program) .invalidRecipient
  require (m.toKey ≠ d.oftStore) .invalidRecipient
  require (m.toKey ≠ d.saleEscrow) .invalidRecipient
  require (¬ (m.cliffSeconds = 0 ∧ m.durationSeconds = 0)) .invalidSchedule
  require (m.cliffSeconds ≤ GRS_MAX_CLIFF_SECONDS) .invalidSchedule
  require (m.durationSeconds ≤ GRS_MAX_DURATION_SECONDS) .invalidSchedule
  let id ← checkedAdd u64 w.config.vestingCount 1 .invalidVestingId
  let w ← initGrantVesting d w a.sale id m
  let w := { w with config := { w.config with vestingCount := id } }
  if 0 < m.amountLd then do
    let w ← ensureVestEscrow d w a.vestEscrow
    creditVestEscrow d w a m.amountLd
  else .ok w

/-! ## OFT credits -/

/-- what a compose message says was received: an adapter asks the mint what is left of the transfer -/
def amountComposedLd (w : World) (amountReceivedLd : ℕ) : Except OFTError ℕ :=
  match w.store.oftType with
  | .adapter => getPostFeeAmountLd d.transferFee amountReceivedLd
  | .native => .ok amountReceivedLd

/-- a compose message is handed to the endpoint with that amount, which changes nothing here -/
def receiveOft (w : World) (a : LzReceive) (srcEid : ℕ) (peer : PeerConfig) (message : List UInt8) :
    Except OFTError World := do
  let dest ← sendTo message
  require (a.toAddress = dest) .invalidTokenDest
  let sd ← amountSd message
  let amountReceivedLd ← w.store.sd2ld sd
  let peer ← peer.inbound w.now amountReceivedLd
  let w := { w with peers := update w.peers srcEid (some peer) }
  let w ← creditEscrow d w a (d.ata a.toAddress w.store.tokenMint) amountReceivedLd
  let _ ← amountComposedLd d w amountReceivedLd
  .ok w

variable {d} in
@[simp] theorem amountComposedLd_whole (w : World) (x : ℕ) : amountComposedLd d w x = .ok x := by
  unfold amountComposedLd
  split
  · exact getPostFeeAmountLd_whole x
  · rfl

variable {d} in
/-- where nothing is withheld, nothing more can fail after the credit -/
theorem receiveOft_eq {w : World} {a : LzReceive} {srcEid : ℕ} {peer : PeerConfig} {message : List UInt8} :
    receiveOft d w a srcEid peer message = (do
      let dest ← sendTo message
      require (a.toAddress = dest) .invalidTokenDest
      let sd ← amountSd message
      let amountReceivedLd ← w.store.sd2ld sd
      let peer ← peer.inbound w.now amountReceivedLd
      creditEscrow d { w with peers := update w.peers srcEid (some peer) } a (d.ata a.toAddress w.store.tokenMint)
        amountReceivedLd) := by
  have hrest : ∀ (x : Except OFTError World) n, (do let w ← x; let _ ← amountComposedLd d w n; .ok w) = x := by
    intro x n
    cases x with
    | ok w => simp [bind, Except.bind]
    | error e => rfl
  simp only [receiveOft, hrest]

/-! ## The instruction -/

/-- a mint authority that is given must be the mint's -/
def loadMintAuthority (w : World) (authority : Option Pubkey) : Except OFTError Unit :=
  match authority with
  | none => .ok ()
  | some k => do
    let mint ← loadMint w.bank w.store.tokenMint
    require (mint.mintAuthority = some k) .invalidMintAuthority

def LzReceive.apply (w : World) (a : LzReceive) (params : LzReceiveParams) : Except OFTError World := do
  let peer ← demand (.accountNotInitialized (d.peer params.srcEid)) (w.peers params.srcEid)
  require (peer.peerAddress = params.sender) .invalidSender
  let bank ← initTokenAccount w.bank d.saleEscrow w.store.tokenMint d.grsConfig
  let _ ← loadOwned bank d.tokenEscrow w.store.tokenMint d.oftStore
  let bank ← initAta d bank a.toAddress w.store.tokenMint
  let w := { w with bank }
  loadMintAuthority w a.mintAuthority
  require (w.store.paused = false) .paused
  if isSale params.message = true then receiveSale d w a params.message
  else if isGrant params.message = true then receiveGrant d w a params.message
  else receiveOft d w a params.srcEid peer params.message

end Grindurus.Grs
