/-
The sweeps of a liquidation (`liquidate_idle`, `liquidate_custodian` of `lib.rs`).

Anyone may call them while GRAI says that liquidation is open. `liquidate_idle` takes a token account of Grinders for every
listed asset and empties it into the vault of the asset; `liquidate_custodian` empties one account of a custodian for each
of the two assets it trades, by way of an account of Grinders.
-/
import Grindurus.Grinders.Custodian

namespace Grindurus.Grinders

open Checked TokenBank

/-! ## Idle reserve -/

/-- the vault of the asset, of `GraiState` -/
def requireGraiVaultAta (b : Bank Key) (k mint : Key) : Except ErrorCode Unit := do
  require (k = .vault mint) .invalidGrindersTokenAccount
  let a ← demand .invalidGrindersTokenAccount (b.accounts k)
  require (a.mint = mint) .invalidGrindersTokenAccount
  require (a.owner = .grai) .invalidGrindersTokenAccount

/-- remaining accounts: for each listed asset an account of Grinders and the vault -/
def checkIdle (b : Bank Key) : List Key → List Key → Except ErrorCode Unit
  | mint :: mints, k :: vault :: remaining => do
    let a ← loadAccount b k
    require (a.mint = mint) .notTradingAsset
    require (a.owner = .grinders) .invalidGrindersTokenAccount
    requireGraiVaultAta b vault mint
    checkIdle b mints remaining
  | _, _ => .ok ()

def sweepIdle : Bank Key → List Key → List Key → Except ErrorCode (Bank Key)
  | b, _ :: mints, k :: vault :: remaining => do
    let a ← loadAccount b k
    if a.amount = 0 then sweepIdle b mints remaining
    else do
      let b ← spl (b.transfer k vault .grinders a.amount)
      sweepIdle b mints remaining
  | b, _, _ => .ok b

structure LiquidateIdle where
  remaining : List Key
  deriving DecidableEq, Repr

def executeLiquidateIdle (w : World) (a : LiquidateIdle) : Except ErrorCode World := do
  require (w.grai.grinders = .grinders) .notGrai
  require (a.remaining.length = w.grai.assetMints.length * 2) .invalidRemainingAccounts
  checkIdle w.bank w.grai.assetMints a.remaining
  require (w.grai.liquidation = true) .noLiquidation
  let bank ← sweepIdle w.bank w.grai.assetMints a.remaining
  .ok { w with bank }

/-! ## Custodians -/

def graiVault (b : Bank Key) (k mint : Key) : Except ErrorCode (TokenAccount Key) := do
  let a ← loadAccount b k
  require (k = .vault mint) (.constraintSeeds k)
  require (a.mint = mint) .invalidGrindersTokenAccount
  .ok a

/-- the custodian hands `x` to Grinders, and Grinders to the vault -/
def forward (b : Bank Key) (custodian k g vault : Key) (x : ℕ) : Except ErrorCode (Bank Key) :=
  if x = 0 then .ok b
  else do
    let b ← spl (b.transfer k g custodian x)
    spl (b.transfer g vault .grinders x)

structure LiquidateCustodian where
  custodianState : Key
  baseMint : Key
  quoteMint : Key
  baseCustodianAta : Key
  quoteCustodianAta : Key
  baseGrindersAta : Key
  quoteGrindersAta : Key
  baseVaultAta : Key
  quoteVaultAta : Key
  deriving DecidableEq, Repr

def executeLiquidateCustodian (w : World) (a : LiquidateCustodian) : Except ErrorCode World := do
  require (w.grai.grinders = .grinders) .notGrai
  let c ← loadCustodian w a.custodianState
  let base ← custodianAta w.bank a.baseCustodianAta a.custodianState c.baseMint
  require (a.baseMint = c.baseMint) .notTradingAsset
  let quote ← custodianAta w.bank a.quoteCustodianAta a.custodianState c.quoteMint
  require (a.quoteMint = c.quoteMint) .notTradingAsset
  let _ ← grindersAta w.bank a.baseGrindersAta a.baseMint
  let _ ← grindersAta w.bank a.quoteGrindersAta a.quoteMint
  let _ ← graiVault w.bank a.baseVaultAta a.baseMint
  let _ ← graiVault w.bank a.quoteVaultAta a.quoteMint
  require (w.grai.liquidation = true) .noLiquidation
  let bank ← forward w.bank a.custodianState a.baseCustodianAta a.baseGrindersAta a.baseVaultAta base.amount
  let bank ← forward bank a.custodianState a.quoteCustodianAta a.quoteGrindersAta a.quoteVaultAta quote.amount
  .ok { w with bank }

end Grindurus.Grinders
