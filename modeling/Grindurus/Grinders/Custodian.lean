/-
The custodians (`custodian.rs`, `heartbeat.rs`, `custodians/explicit_swap.rs`, `custodians/jupiter_gasless.rs`).

The toreador hands a custodian inventory from the reserve and takes it back (`allocate`, `custodian_deallocate`), sends yield
to GRAI (`custodian_distribute`), and points the custodian at another pair of assets (`set_assets`). Who holds the custodian's
NFT trades with its inventory (`custodian_swap`): a router is called with the custodian's signature, and what it did to the
two balances is priced afterwards.

A router may ask the token program for anything that the custodian, or anyone outside Grinders, may ask for: `routed` is what
it does ask for. `Op.placed` is where accounts and mints can be created; `Op.graiKeeps` is what GRAI does not do.
-/
import Grindurus.Grinders.Types

namespace Grindurus.Grinders

open Checked TokenBank Function

/-! ## Accounts -/

def spl {α : Type} (x : Except (TokenError Key) α) : Except ErrorCode α := x.mapError .token

def loadAccount (b : Bank Key) (k : Key) : Except ErrorCode (TokenAccount Key) := demand (.accountNotInitialized k) (b.accounts k)

def loadMint (b : Bank Key) (m : Key) : Except ErrorCode (MintAccount Key) := demand (.accountNotInitialized m) (b.mints m)

/-- a token account of `owner` for `mint`; the errors are of the constraints that say so -/
def ownAccount (b : Bank Key) (k owner mint : Key) (notOwner notMint : ErrorCode) : Except ErrorCode (TokenAccount Key) := do
  let a ← loadAccount b k
  require (a.owner = owner) notOwner
  require (a.mint = mint) notMint
  .ok a

def grindersAta (b : Bank Key) (k mint : Key) : Except ErrorCode (TokenAccount Key) :=
  ownAccount b k .grinders mint .invalidGrindersTokenAccount .notTradingAsset

def custodianAta (b : Bank Key) (k custodian mint : Key) : Except ErrorCode (TokenAccount Key) :=
  ownAccount b k custodian mint .notCustodianOwner .notTradingAsset

/-- a custodian of this Grinders, at the address of its id -/
def loadCustodian (w : World) (k : Key) : Except ErrorCode CustodianState := do
  let c ← demand (.accountNotInitialized k) (w.custodians k)
  require (k = .custodian c.custodianId) (.constraintSeeds k)
  require (c.grinders = .grinders) .notCustodianWallet
  .ok c

def assertToreador (w : World) (s : Signer) : Except ErrorCode Unit := require (s.key = w.state.toreador) .notToreador

/-- the signer holds the custodian's NFT -/
def assertCustodianOwner (b : Bank Key) (c : CustodianState) (owner : Signer) (k : Key) : Except ErrorCode Unit := do
  let a ← loadAccount b k
  require (a.mint = c.nftMint) .invalidNftOwner
  require (a.owner = owner.key) .notCustodianOwner
  require (1 ≤ a.amount) .notCustodianOwner

def requireNotLiquidation (w : World) : Except ErrorCode Unit := require (w.grai.liquidation = false) .liquidationOpen

/-- the program is alive -/
def heartbeat (w : World) : World := { w with state := { w.state with heartbeatAt := w.now } }

/-! ## Inventory -/

structure Allocate where
  authority : Signer
  custodianState : Key
  assetMint : Key
  grindersAta : Key
  custodianAta : Key
  amount : ℕ
  deriving DecidableEq, Repr

/-- which assets the custodian trades is not asked -/
def executeAllocate (w : World) (a : Allocate) : Except ErrorCode World := do
  assertToreador w a.authority
  let _ ← loadCustodian w a.custodianState
  let _ ← loadMint w.bank a.assetMint
  let reserve ← grindersAta w.bank a.grindersAta a.assetMint
  let _ ← custodianAta w.bank a.custodianAta a.custodianState a.assetMint
  require (0 < a.amount) .amountZero
  require (a.amount ≤ reserve.amount) .insufficientReserve
  let bank ← spl (w.bank.transfer a.grindersAta a.custodianAta .grinders a.amount)
  .ok (heartbeat { w with bank })

structure CustodianDeallocate where
  authority : Signer
  custodianState : Key
  assetMint : Key
  custodianAta : Key
  grindersAta : Key
  amount : ℕ
  deriving DecidableEq, Repr

def executeCustodianDeallocate (w : World) (a : CustodianDeallocate) : Except ErrorCode World := do
  assertToreador w a.authority
  let _ ← loadCustodian w a.custodianState
  let _ ← loadMint w.bank a.assetMint
  let _ ← custodianAta w.bank a.custodianAta a.custodianState a.assetMint
  let _ ← grindersAta w.bank a.grindersAta a.assetMint
  requireNotLiquidation w
  require (0 < a.amount) .amountZero
  let bank ← spl (w.bank.transfer a.custodianAta a.grindersAta a.custodianState a.amount)
  .ok (heartbeat { w with bank })

structure CustodianDistribute where
  authority : Signer
  custodianState : Key
  assetMint : Key
  custodianAta : Key
  /-- GRAI has no reason of its own to refuse, such as an arithmetic overflow in its books -/
  accepted : Bool
  yieldAmount : ℕ
  deriving DecidableEq, Repr

/-- the part of `grai::distribute` that needs the custodian's signature: the yield goes to the vault of a listed asset. What
GRAI passes on from its vault it signs for itself -/
def graiDistribute (w : World) (a : CustodianDistribute) : Except ErrorCode (Bank Key) := do
  require (a.assetMint ≠ w.grai.graiMint ∧ a.assetMint ∈ w.grai.assetMints ∧ a.accepted = true) .unauthorized
  spl (w.bank.transfer a.custodianAta (.vault a.assetMint) a.custodianState a.yieldAmount)

def executeCustodianDistribute (w : World) (a : CustodianDistribute) : Except ErrorCode World := do
  assertToreador w a.authority
  let _ ← loadCustodian w a.custodianState
  let _ ← loadMint w.bank a.assetMint
  let _ ← custodianAta w.bank a.custodianAta a.custodianState a.assetMint
  requireNotLiquidation w
  require (0 < a.yieldAmount) .amountZero
  let bank ← graiDistribute w a
  .ok (heartbeat { w with bank })

structure SetAssets where
  authority : Signer
  custodianState : Key
  baseCustodianAta : Key
  quoteCustodianAta : Key
  newBaseMint : Key
  newQuoteMint : Key
  deriving DecidableEq, Repr

/-- the two accounts the toreador passes are empty; others of the custodian are not looked at -/
def executeSetAssets (w : World) (a : SetAssets) : Except ErrorCode World := do
  assertToreador w a.authority
  let c ← loadCustodian w a.custodianState
  let base ← custodianAta w.bank a.baseCustodianAta a.custodianState c.baseMint
  let quote ← custodianAta w.bank a.quoteCustodianAta a.custodianState c.quoteMint
  let _ ← loadMint w.bank a.newBaseMint
  let _ ← loadMint w.bank a.newQuoteMint
  require (base.amount = 0 ∧ quote.amount = 0) .nonZeroBalance
  require (a.newBaseMint ≠ .default) .baseZero
  require (a.newQuoteMint ≠ .default) .quoteZero
  require (a.newBaseMint ≠ a.newQuoteMint) .sameAsset
  let c := { c with baseMint := a.newBaseMint, quoteMint := a.newQuoteMint }
  .ok { w with custodians := update w.custodians a.custodianState (some c) }

/-! ## Swaps -/

/-- an account is created at an address that can sign, at the associated one of its owner and mint, or by the program whose
address it is -/
def placed (auth : Key) : Bank.Op Key → Bool
  | .openAccount (.wallet _) _ _ => true
  | .openAccount (.ata owner mint) mint' owner' => owner = owner' ∧ mint = mint'
  | .openAccount (.vault mint) mint' owner' => auth = .grai ∧ owner' = .grai ∧ mint = mint'
  | .openAccount (.treasury mint) mint' owner' => auth = .grai ∧ owner' = .grai ∧ mint = mint'
  | .openAccount _ _ _ => false
  | .createMint (.wallet _) _ _ => true
  | .createMint m _ _ => auth = .grinders ∧ m.mintable
  | _ => true

/-- GRAI hands over no account of its own, and closes no vault of an asset it lists -/
def graiKeeps (listed : List Key) (auth : Key) : Bank.Op Key → Bool
  | .setOwner _ _ => auth ≠ .grai
  | .closeAccount (.vault m) => auth ≠ .grai ∨ m ∉ listed
  | _ => true

def allowed (listed : List Key) (auth : Key) (op : Bank.Op Key) : Bool := placed auth op && graiKeeps listed auth op

/-- the call of the router: each request with the authority it is made under -/
def route (listed : List Key) (custodian : Key) : Bank Key → List (Key × Bank.Op Key) → Except ErrorCode (Bank Key)
  | b, [] => .ok b
  | b, (auth, op) :: routed => do
    require ((auth = custodian ∨ auth.ofGrinders = false) ∧ allowed listed auth op = true) .swapFailed
    let b ← (b.apply auth op).mapError fun _ => .swapFailed
    route listed custodian b routed

def PRICE_DECIMALS : ℕ := 1000000000000000000

def pow10 (decimals : ℕ) : Except ErrorCode ℕ := narrow u128 (10 ^ decimals) .mathOverflow

def quotePerBase (baseDelta quoteDelta baseDecimals quoteDecimals : ℕ) : Except ErrorCode ℕ := do
  let baseScale ← pow10 baseDecimals
  let quoteScale ← pow10 quoteDecimals
  let v ← checkedMul u128 quoteDelta PRICE_DECIMALS .mathOverflow
  let v ← checkedMul u128 v baseScale .mathOverflow
  let v ← checkedDiv v baseDelta .mathOverflow
  checkedDiv v quoteScale .mathOverflow

/-- the balances moved in opposite directions, at a price within the limit -/
def settleSwap (baseBefore quoteBefore baseAfter quoteAfter baseDecimals quoteDecimals limitPrice : ℕ) : Except ErrorCode Unit :=
  if baseAfter < baseBefore ∧ quoteBefore < quoteAfter then do
    let baseDelta ← checkedSub baseBefore baseAfter .mathOverflow
    let quoteDelta ← checkedSub quoteAfter quoteBefore .mathOverflow
    let executionPrice ← quotePerBase baseDelta quoteDelta baseDecimals quoteDecimals
    require (limitPrice ≤ executionPrice) .exceededPriceLimit
  else if baseBefore < baseAfter ∧ quoteAfter < quoteBefore then do
    let baseDelta ← checkedSub baseAfter baseBefore .mathOverflow
    let quoteDelta ← checkedSub quoteBefore quoteAfter .mathOverflow
    let executionPrice ← quotePerBase baseDelta quoteDelta baseDecimals quoteDecimals
    require (executionPrice ≤ limitPrice) .exceededPriceLimit
  else .error .noTrade

structure CustodianSwap where
  owner : Signer
  custodianState : Key
  ownerNftAta : Key
  baseCustodianAta : Key
  quoteCustodianAta : Key
  baseMint : Key
  quoteMint : Key
  /-- the target first -/
  remaining : List Key
  /-- the target is a program -/
  executable : Bool
  limitPrice : ℕ
  ixData : List ℕ
  routed : List (Key × Bank.Op Key)
  deriving DecidableEq, Repr

/-- the accounts of a custodian that a swap names -/
def swapAta (b : Bank Key) (k custodian mint : Key) : Except ErrorCode (TokenAccount Key) := do
  let a ← loadAccount b k
  require (a.mint = mint) .notTradingAsset
  require (a.owner = custodian) .notCustodianOwner
  .ok a

/-- the mints that are passed for their decimals are not compared with the pair -/
def executeSwap (w : World) (a : CustodianSwap) : Except ErrorCode World := do
  let c ← loadCustodian w a.custodianState
  require (c.label = .swap w.state.clusterRef) .custodianKindMismatch
  assertCustodianOwner w.bank c a.owner a.ownerNftAta
  let base ← swapAta w.bank a.baseCustodianAta a.custodianState c.baseMint
  let quote ← swapAta w.bank a.quoteCustodianAta a.custodianState c.quoteMint
  let baseMint ← loadMint w.bank a.baseMint
  let quoteMint ← loadMint w.bank a.quoteMint
  require (a.ixData ≠ []) .dataEmpty
  require (a.remaining ≠ []) .targetZero
  require (a.executable = true) .targetZero
  let bank ← route w.grai.assetMints a.custodianState w.bank a.routed
  let base' ← loadAccount bank a.baseCustodianAta
  let quote' ← loadAccount bank a.quoteCustodianAta
  settleSwap base.amount quote.amount base'.amount quote'.amount baseMint.decimals quoteMint.decimals a.limitPrice
  .ok { w with bank }

structure CustodianJupiterGaslessSwap where
  owner : Signer
  feePayer : Signer
  custodianState : Key
  ownerNftAta : Key
  baseCustodianAta : Key
  quoteCustodianAta : Key
  baseMint : Key
  quoteMint : Key
  deriving DecidableEq, Repr

/-- not implemented yet -/
def executeJupiterGaslessSwap (w : World) (a : CustodianJupiterGaslessSwap) : Except ErrorCode World := do
  require (a.feePayer.key ≠ a.owner.key) .grinderMustNotPayGas
  let c ← loadCustodian w a.custodianState
  require (c.label = .jupiterGasless w.state.clusterRef) .custodianKindMismatch
  assertCustodianOwner w.bank c a.owner a.ownerNftAta
  let base ← swapAta w.bank a.baseCustodianAta a.custodianState c.baseMint
  let quote ← swapAta w.bank a.quoteCustodianAta a.custodianState c.quoteMint
  require (base.mint = a.baseMint) .notTradingAsset
  require (quote.mint = a.quoteMint) .notTradingAsset
  .error .custodianSwapNotImplemented

end Grindurus.Grinders
