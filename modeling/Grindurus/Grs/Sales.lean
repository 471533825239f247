/-
Token sales (`programs/grs/src/state/sale.rs`, `instructions/set_sale.rs`, `buy.rs`, `publish_sale.rs`).

A lot is a row under its id: GRS for sale, and what is asked for all of it. The home chain lists, closes and publishes lots;
any chain sells from the lots it has. What open lots hold is earmarked in `salesReserved` and lies in the sale escrow.

- `quoteCost`: what part of a lot costs. `quoteCost_ok`: a part of the lot, for a part of the price.
- `SetSale.apply`, `Buy.apply`, `PublishSale.apply`: the instructions. Each has an inversion lemma that says what it did.
-/
import Mathlib
import Grindurus.Grs.Codec

namespace Grindurus.Grs

open Checked TokenBank Function

variable (d : Deployment)

/-- quote due for `amountLd` of the `remainingLd` a lot still has at `assetAmount` -/
def quoteCost (amountLd remainingLd assetAmount : ℕ) : Except OFTError ℕ := do
  require (0 < assetAmount ∧ 0 < remainingLd) .saleClosed
  require (0 < amountLd) .zeroAmount
  require (amountLd ≤ remainingLd) .saleExceeded
  if amountLd = remainingLd then .ok assetAmount
  else do
    let product ← checkedMul u128 amountLd assetAmount .invalidPayment
    let cost := product / remainingLd
    require (0 < cost) .zeroAmount
    narrow u64 cost .invalidPayment

/-! ## Listing and closing -/

structure SetSale where
  admin : Pubkey
  sale : Pubkey
  inventorySource : Pubkey
  id : ℕ
  asset : Pubkey
  assetAmount : ℕ
  grsAmount : ℕ
  recipient : Pubkey
  deriving DecidableEq, Repr

/-- what the unreserved float of the escrow lacks for the lot comes from `inventory_source` -/
def SetSale.topUp (w : World) (a : SetSale) (source : TokenAccount Pubkey) : Except OFTError (Bank Pubkey) :=
  let free := w.config.freeSaleInventory (w.bank.balance d.saleEscrow)
  if free < a.grsAmount then do
    let need ← checkedSub a.grsAmount free .insufficientInventory
    require (source.owner = a.admin) .unauthorized
    spl (w.bank.transfer a.inventorySource d.saleEscrow a.admin need)
  else .ok w.bank

def SetSale.earmark (w : World) (a : SetSale) (source : TokenAccount Pubkey) : Except OFTError World :=
  if 0 < a.grsAmount then do
    let bank ← a.topUp d w source
    let salesReserved ← checkedAdd u64 w.config.salesReserved a.grsAmount .insufficientInventory
    .ok { w with bank, config := { w.config with salesReserved } }
  else .ok w

def SetSale.append (w : World) (a : SetSale) (source : TokenAccount Pubkey) (id : ℕ) : Except OFTError World := do
  require (a.recipient ≠ d.program) .invalidRecipient
  require (a.recipient ≠ d.oftStore) .invalidRecipient
  require (a.recipient ≠ d.saleEscrow) .invalidRecipient
  require (¬ (0 < a.grsAmount ∧ a.assetAmount = 0)) .invalidAssetAmount
  require (a.sale = d.sale id) .invalidSaleId
  require (w.sales id = none) .invalidSaleId
  createAccount w (d.sale id)
  let w ← a.earmark d w source
  .ok { w with
    sales := update w.sales id (some ⟨id, a.asset, a.assetAmount, a.grsAmount, a.recipient⟩)
    saleCount := id }

/-- release what is left of the lot and zero its row -/
def SetSale.close (w : World) (a : SetSale) : Except OFTError World := do
  require (a.sale = d.sale a.id) .unknownSale
  let account ← demand .unknownSale (w.sales a.id)
  require (account.id = a.id) .unknownSale
  let unsold := account.grsAmount
  let salesReserved ←
    (if 0 < unsold then checkedSub w.config.salesReserved unsold .insufficientInventory else .ok w.config.salesReserved)
  .ok { w with
    config := { w.config with salesReserved }
    sales := update w.sales a.id (some { account with assetAmount := 0, grsAmount := 0 }) }

def SetSale.apply (w : World) (a : SetSale) : Except OFTError World := do
  require (w.store.admin = a.admin) .unauthorized
  let bank ← initTokenAccount w.bank d.saleEscrow w.store.tokenMint d.grsConfig
  let w := { w with bank }
  let source ← loadToken w.bank a.inventorySource w.store.tokenMint
  require (w.config.isHome = true) .notHome
  let next ← checkedAdd u64 w.saleCount 1 .invalidSaleId
  if a.id = 0 ∨ a.id = next then a.append d w source next
  else if 0 < a.id ∧ a.id ≤ w.saleCount then a.close d w
  else .error .invalidSaleId

/-! ## Buying -/

structure Buy where
  buyer : Pubkey
  payee : Pubkey
  toKey : Pubkey
  quoteMint : Option Pubkey
  quoteSource : Option Pubkey
  quoteDest : Option Pubkey
  hasQuoteProgram : Bool
  id : ℕ
  amountLd : ℕ
  deriving DecidableEq, Repr

/-- an optional account, which must be there if it is given -/
def loadOptional {α : Type} (load : Pubkey → Except OFTError α) : Option Pubkey → Except OFTError (Option (Pubkey × α))
  | none => .ok none
  | some k => do
    let a ← load k
    .ok (some (k, a))

/-- pay `cost` of `asset` to `payee`: lamports, or tokens between accounts of the two -/
def Buy.pay (w : World) (a : Buy) (asset payee : Pubkey) (cost : ℕ) : Except OFTError World :=
  if asset = .default then do
    require (a.quoteMint = none ∧ a.quoteSource = none ∧ a.quoteDest = none ∧ a.hasQuoteProgram = false) .invalidPayment
    require (cost ≤ w.lamports a.buyer) .paymentFailed
    let debited := update w.lamports a.buyer (w.lamports a.buyer - cost)
    .ok { w with lamports := update debited a.payee (debited a.payee + cost) }
  else do
    let mint ← demand .invalidPayment a.quoteMint
    let source ← demand .invalidPayment a.quoteSource
    let dest ← demand .invalidPayment a.quoteDest
    require (a.hasQuoteProgram = true) .invalidPayment
    require (mint = asset) .invalidPayment
    let s ← loadTokenAccount w.bank source
    require (s.mint = asset) .invalidPayment
    let t ← loadTokenAccount w.bank dest
    require (t.mint = asset) .invalidPayment
    require (s.owner = a.buyer) .invalidPayment
    require (t.owner = payee) .invalidPayment
    let bank ← spl (w.bank.transfer source dest a.buyer cost)
    .ok { w with bank }

def Buy.apply (w : World) (a : Buy) : Except OFTError World := do
  let sale ← demand (.accountNotInitialized (d.sale a.id)) (w.sales a.id)
  require (a.toKey ≠ .default) .invalidRecipient
  let _ ← loadOwned w.bank d.saleEscrow w.store.tokenMint d.grsConfig
  let bank ← initAta d w.bank a.toKey w.store.tokenMint
  let _ ← loadOptional (loadMint bank) a.quoteMint
  let _ ← loadOptional (loadTokenAccount bank) a.quoteSource
  let _ ← loadOptional (loadTokenAccount bank) a.quoteDest
  require (sale.id = a.id) .unknownSale
  let cost ← quoteCost a.amountLd sale.grsAmount sale.assetAmount
  let payee := if sale.recipient = .default then w.store.admin else sale.recipient
  require (a.payee = payee) .invalidRecipient
  let tokenSalesSpent ← checkedAdd u64 w.config.tokenSalesSpent a.amountLd .bucketExceeded
  let salesReserved ← checkedSub w.config.salesReserved a.amountLd .insufficientInventory
  let grsAmount ← checkedSub sale.grsAmount a.amountLd .saleExceeded
  let assetAmount ← checkedSub sale.assetAmount cost .invalidPayment
  let bank ← spl (bank.transfer d.saleEscrow (d.ata a.toKey w.store.tokenMint) d.grsConfig a.amountLd)
  let w := { w with
    bank
    config := { w.config with tokenSalesSpent, salesReserved }
    sales := update w.sales a.id (some { sale with grsAmount, assetAmount }) }
  a.pay w sale.asset payee cost

/-! ## Publishing -/

structure PublishSale where
  admin : Pubkey
  /-- the sender among the accounts of the endpoint -/
  endpointSender : Pubkey
  dstEid : ℕ
  id : ℕ
  deriving DecidableEq, Repr

/-- take an open lot out of the home book: release the earmark and burn it -/
def PublishSale.withdraw (w : World) (sale : SaleAccount) : Except OFTError World := do
  require (0 < sale.grsAmount ∧ 0 < sale.assetAmount) .saleClosed
  require (sale.grsAmount % GRS_LD2SD_RATE = 0) .invalidSaleMessage
  let tokenSalesSpent ← checkedAdd u64 w.config.tokenSalesSpent sale.grsAmount .bucketExceeded
  let salesReserved ← checkedSub w.config.salesReserved sale.grsAmount .insufficientInventory
  let bank ← spl (w.bank.burn w.store.tokenMint d.saleEscrow d.grsConfig sale.grsAmount)
  .ok { w with bank, config := { w.config with tokenSalesSpent, salesReserved } }

/-- send the lot to a spoke; a lot already closed is sent as a zero row -/
def PublishSale.apply (w : World) (a : PublishSale) : Except OFTError (World × Outbound) := do
  let peer ← demand (.accountNotInitialized (d.peer a.dstEid)) (w.peers a.dstEid)
  require (w.store.admin = a.admin) .unauthorized
  let sale ← demand (.accountNotInitialized (d.sale a.id)) (w.sales a.id)
  let _ ← loadOwned w.bank d.saleEscrow w.store.tokenMint d.grsConfig
  require (w.config.isHome = true) .notHome
  require (w.store.paused = false) .paused
  require (sale.id = a.id) .unknownSale
  require (a.endpointSender = d.oftStore) .invalidSender
  let w ← (if sale.grsAmount = 0 ∧ sale.assetAmount = 0 then .ok w else PublishSale.withdraw d w sale)
  let message := encodeSale a.id sale.asset sale.assetAmount sale.grsAmount sale.recipient
  .ok ({ w with sales := update w.sales a.id (some { sale with grsAmount := 0, assetAmount := 0 }) },
    ⟨a.dstEid, peer.peerAddress, message⟩)

/-! ## The lot on a spoke -/

/-- what the lot still holds, if the row exists: a row that holds nothing was closed, a missing one never opened -/
def peekSaleAccount (w : World) (sale : Pubkey) (id : ℕ) : Except OFTError (Option ℕ) := do
  require (0 < id) .unknownSale
  require (sale = d.sale id) .invalidRemainingAccounts
  match w.sales id with
  | none => .ok none
  | some existing => do
    require (existing.id = id) .invalidRemainingAccounts
    .ok (some existing.grsAmount)

/-- the account of the row: created by hand if it is not there yet -/
def initSaleAccount (w : World) (id : ℕ) : Except OFTError Unit :=
  match w.sales id with
  | none => createAccount w (d.sale id)
  | some existing => require (existing.id = id) .invalidRemainingAccounts

def upsertSaleAccount (w : World) (sale : Pubkey) (m : SaleMsg) : Except OFTError World := do
  require (0 < m.id) .unknownSale
  require (sale = d.sale m.id) .invalidRemainingAccounts
  initSaleAccount d w m.id
  .ok { w with sales := update w.sales m.id (some ⟨m.id, m.asset, m.assetAmount, m.grsAmount, m.recipient⟩) }

end Grindurus.Grs
