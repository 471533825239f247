/-
The price feed program as a machine (`programs/custom_price_feed/src/lib.rs`).

An owner creates one feed per mint and appoints its oracle; the oracle sets the price. Feeds live at addresses derived from their
mint and are kept by it. Numbers have the widths of the accounts; `I128` is a word of 128 bits, read as two's complement.

- `Genesis`: a successful `initialize_config`. `Instr`: everything that can happen after it. `step` commits an instruction or fails.
- `Genesis.after`: the feeds after a run.
-/
import Grindurus.Lib.Borsh
import Grindurus.Lib.Machine

namespace Grindurus.Feeds

open Borsh Checked Machine Function

/-! ## Accounts -/

abbrev I128 := BitVec 128

def defaultPubkey : Pubkey := Vector.replicate 32 0

inductive ErrorCode where
  | unauthorized
  | invalidPrice
  | invalidDecimals
  | invalidMint
  | invalidPendingOwner
  | invalidOracle
  | accountAlreadyInUse (mint : Pubkey)
  | accountNotInitialized (mint : Pubkey)
  deriving DecidableEq

structure FeedConfig where
  owner : Pubkey
  pendingOwner : Pubkey
  deriving DecidableEq

structure CustomPriceFeed where
  oracle : Pubkey
  assetMint : Pubkey
  description : Vector UInt8 32
  price : I128
  decimals : UInt8
  updatedAt : Int64
  deriving DecidableEq

structure World where
  config : FeedConfig
  /-- the feed at the address derived from a mint -/
  feeds : Pubkey → Option CustomPriceFeed
  now : Int64

/-! ## Config -/

/-- the first caller becomes the owner -/
def executeInitializeConfig (owner : Pubkey) (now : Int64) : World := ⟨⟨owner, defaultPubkey⟩, fun _ => none, now⟩

def requireOwner (w : World) (owner : Pubkey) : Except ErrorCode Unit := require (w.config.owner = owner) .unauthorized

structure TransferOwnership where
  owner : Pubkey
  newOwner : Pubkey

def executeTransferOwnership (w : World) (a : TransferOwnership) : Except ErrorCode World := do
  requireOwner w a.owner
  require (a.newOwner ≠ a.owner) .invalidPendingOwner
  .ok { w with config := { w.config with pendingOwner := a.newOwner } }

structure AcceptOwnership where
  pendingOwner : Pubkey

def executeAcceptOwnership (w : World) (a : AcceptOwnership) : Except ErrorCode World := do
  require (w.config.pendingOwner = a.pendingOwner) .unauthorized
  require (w.config.pendingOwner ≠ defaultPubkey) .unauthorized
  .ok { w with config := ⟨a.pendingOwner, defaultPubkey⟩ }

/-! ## Feeds -/

def World.storeFeed (w : World) (mint : Pubkey) (feed : CustomPriceFeed) : World :=
  { w with feeds := update w.feeds mint (some feed) }

structure Initialize where
  owner : Pubkey
  assetMint : Pubkey
  price : I128
  decimals : UInt8
  description : Vector UInt8 32
  oracle : Pubkey

/-- the account is created before the owner is checked -/
def executeInitialize (w : World) (a : Initialize) : Except ErrorCode World := do
  require (w.feeds a.assetMint = none) (.accountAlreadyInUse a.assetMint)
  requireOwner w a.owner
  require (0 < a.price.toInt) .invalidPrice
  require (a.decimals ≤ 18) .invalidDecimals
  require (a.oracle ≠ defaultPubkey) .invalidOracle
  .ok (w.storeFeed a.assetMint
    { oracle := a.oracle, assetMint := a.assetMint, description := a.description, price := a.price, decimals := a.decimals
      updatedAt := w.now })

structure SetOracle where
  owner : Pubkey
  assetMint : Pubkey
  oracle : Pubkey

def executeSetOracle (w : World) (a : SetOracle) : Except ErrorCode World := do
  let feed ← demand (.accountNotInitialized a.assetMint) (w.feeds a.assetMint)
  requireOwner w a.owner
  require (feed.assetMint = a.assetMint) .invalidMint
  require (a.oracle ≠ defaultPubkey) .invalidOracle
  .ok (w.storeFeed a.assetMint { feed with oracle := a.oracle })

structure SetPrice where
  oracle : Pubkey
  assetMint : Pubkey
  price : I128

def executeSetPrice (w : World) (a : SetPrice) : Except ErrorCode World := do
  let feed ← demand (.accountNotInitialized a.assetMint) (w.feeds a.assetMint)
  require (feed.oracle = a.oracle) .unauthorized
  require (feed.assetMint = a.assetMint) .invalidMint
  require (0 < a.price.toInt) .invalidPrice
  .ok (w.storeFeed a.assetMint { feed with price := a.price, updatedAt := w.now })

/-! ## Runs -/

inductive Instr where
  | transferOwnership (a : TransferOwnership)
  | acceptOwnership (a : AcceptOwnership)
  | initializeFeed (a : Initialize)
  | setOracle (a : SetOracle)
  | setPrice (a : SetPrice)
  /-- time passes; the clock never goes back -/
  | tick (now : Int64)

def step (w : World) : Instr → Except ErrorCode World
  | .transferOwnership a => executeTransferOwnership w a
  | .acceptOwnership a => executeAcceptOwnership w a
  | .initializeFeed a => executeInitialize w a
  | .setOracle a => executeSetOracle w a
  | .setPrice a => executeSetPrice w a
  | .tick now => .ok { w with now := if w.now ≤ now then now else w.now }

/-- the program before its first instruction -/
structure Genesis where
  owner : Pubkey
  now : Int64

def Genesis.world (g : Genesis) : World := executeInitializeConfig g.owner g.now

/-- the feeds after a run of instructions, the refused ones rolled back -/
def Genesis.after (g : Genesis) (is : List Instr) : World := run step g.world is

/-! ## What they do -/

variable {w w' : World}

theorem executeInitialize_opens {a : Initialize} (h : executeInitialize w a = .ok w') :
    w.feeds a.assetMint = none ∧ w.config.owner = a.owner ∧ 0 < a.price.toInt ∧ a.decimals ≤ 18 ∧ a.oracle ≠ defaultPubkey ∧
      w' = w.storeFeed a.assetMint ⟨a.oracle, a.assetMint, a.description, a.price, a.decimals, w.now⟩ := by
  simp only [executeInitialize, requireOwner, bind_ok, require_ok, Except.ok.injEq] at h
  obtain ⟨-, hnone, -, howner, -, hprice, -, hdecimals, -, horacle, rfl⟩ := h
  exact ⟨hnone, howner, hprice, hdecimals, horacle, rfl⟩

theorem executeSetOracle_appoints {a : SetOracle} (h : executeSetOracle w a = .ok w') :
    ∃ feed, w.feeds a.assetMint = some feed ∧ w.config.owner = a.owner ∧ a.oracle ≠ defaultPubkey ∧
      w' = w.storeFeed a.assetMint { feed with oracle := a.oracle } := by
  simp only [executeSetOracle, requireOwner, bind_ok, demand_ok, require_ok, Except.ok.injEq] at h
  obtain ⟨feed, hfeed, -, howner, -, -, -, horacle, rfl⟩ := h
  exact ⟨feed, hfeed, howner, horacle, rfl⟩

theorem executeSetPrice_quotes {a : SetPrice} (h : executeSetPrice w a = .ok w') :
    ∃ feed, w.feeds a.assetMint = some feed ∧ feed.oracle = a.oracle ∧ 0 < a.price.toInt ∧
      w' = w.storeFeed a.assetMint { feed with price := a.price, updatedAt := w.now } := by
  simp only [executeSetPrice, bind_ok, demand_ok, require_ok, Except.ok.injEq] at h
  obtain ⟨feed, hfeed, -, horacle, -, -, -, hprice, rfl⟩ := h
  exact ⟨feed, hfeed, horacle, hprice, rfl⟩

end Grindurus.Feeds
