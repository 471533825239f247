/-
Data model of the GRS program (`programs/grs/src/lib.rs`, `errors.rs`, `state/`).

An address is 32 bytes, as on the wire. A `Deployment` is one OFT store with the addresses derived from its seeds: the fixed
ones differ from each other and from every associated token account, and cannot sign for themselves. Rows that live at
addresses derived from a number (sales, vestings, peers) are kept by that number. Unsigned integers are ℕ, bounded where the
code checks them; the clock is ℤ.

`World` is everything an instruction reads and writes on one chain.

Standing assumption on transfer fees. A Token-2022 mint can be created with an extension that withholds a part of every transfer,
and the code asks the mint for it (`get_extension::<TransferFeeConfig>`) where an adapter quotes, sends and credits. It books,
however, what it transfers and not what arrives: `tvl_ld`, a lot and an award all grow by the gross amount. So whatever is said of
escrows, locked tokens and payments is said of mints without the extension, or with one that takes nothing: that is
`Deployment.withholdsNothing` for the token of the store. The assets that lots are paid in withhold nothing either. A transfer
of the bank credits what it debits. What the arithmetic of `compute_fee_and_adjust_amount` does with a fee is in `TransferFees`.
-/
import Grindurus.Lib.Bytes
import Grindurus.Lib.TokenBank

namespace Grindurus.Grs

open Checked TokenBank

/-! ## Constants -/

def GRS_LOCAL_DECIMALS : ℕ := 9
def GRS_LD2SD_RATE : ℕ := 1000
def GRS_ONE_LD : ℕ := 1000000000
def GRS_MAX_SUPPLY_LD : ℕ := 1000000000 * GRS_ONE_LD
def GRS_MAX_CLIFF_SECONDS : ℕ := 365 * 24 * 60 * 60
def GRS_MAX_DURATION_SECONDS : ℕ := 4 * 365 * 24 * 60 * 60
def GRS_MAX_PEERS : ℕ := 16
def MAX_FEE_BASIS_POINTS : ℕ := 10000
def ONE_IN_BASIS_POINTS : ℕ := 10000

/-! ## Addresses -/

/-- a public key, and any other `[u8; 32]` -/
structure Pubkey where
  bytes : List UInt8
  size : bytes.length = 32
  deriving DecidableEq, Repr

namespace Pubkey

def default : Pubkey := ⟨List.replicate 32 0, rfl⟩

/-- the key whose big-endian value is `n` -/
def ofNat (n : ℕ) : Pubkey := ⟨Bytes.beBytes 32 n, Bytes.beBytes_length 32 n⟩

@[simp] theorem size_eq (k : Pubkey) : k.bytes.length = 32 := k.size

end Pubkey

/-! ## Transfer fees -/

namespace Token2022

/-- the transfer fee of a mint in an epoch -/
structure TransferFee where
  maximumFee : ℕ
  transferFeeBasisPoints : ℕ
  maximum_fits : maximumFee < 2 ^ 64
  bounded : transferFeeBasisPoints ≤ MAX_FEE_BASIS_POINTS

/-- the extension of a mint: its fee of this epoch, and how the token program applies it -/
structure TransferFeeConfig where
  epochFee : TransferFee
  calculatePostFeeAmount : ℕ → Option ℕ

/-- an extension that takes nothing of any amount -/
structure TransferFeeConfig.Free (c : TransferFeeConfig) : Prop where
  points : c.epochFee.transferFeeBasisPoints = 0
  whole : ∀ x, c.calculatePostFeeAmount x = some x

/-- a mint without the extension withholds nothing -/
theorem free_of_none (c : TransferFeeConfig) (h : none = some c) : c.Free := by cases h

end Token2022

/-! ## A store on its chain -/

/-- the program's id, the addresses it derives from the seeds of one store, and the transfer fee extension of the store's mint,
if it was created with one -/
structure Deployment where
  program : Pubkey
  oftStore : Pubkey
  grsConfig : Pubkey
  tokenEscrow : Pubkey
  saleEscrow : Pubkey
  vestEscrow : Pubkey
  peer : ℕ → Pubkey
  sale : ℕ → Pubkey
  vest : ℕ → Pubkey
  ata : Pubkey → Pubkey → Pubkey
  transferFee : Option Token2022.TransferFeeConfig
  distinct : [oftStore, grsConfig, tokenEscrow, saleEscrow, vestEscrow].Nodup
  ata_fresh : ∀ owner mint, ata owner mint ∉ [oftStore, grsConfig, tokenEscrow, saleEscrow, vestEscrow]
  /-- nothing is withheld of a transfer of the store's token -/
  withholdsNothing : ∀ c, transferFee = some c → c.Free

/-- the addresses only this program can sign for or create an account at -/
def Deployment.derived (d : Deployment) : List Pubkey :=
  [d.oftStore, d.grsConfig, d.tokenEscrow, d.saleEscrow, d.vestEscrow]

/-! ## Errors -/

/-- the program's errors, then what the runtime, Anchor and the token program refuse with -/
inductive OFTError where
  | unauthorized
  | invalidSender
  | invalidDecimals
  | slippageExceeded
  | invalidTokenDest
  | rateLimitExceeded
  | invalidFee
  | invalidOptions
  | invalidMintAuthority
  | paused
  | genesisDisabled
  | invalidGrsDecimals
  | nonZeroSupply
  | capExceeded
  | tooManyPeers
  | instantNotVest
  | zeroAmount
  | invalidRecipient
  | invalidSchedule
  | nothingToRelease
  | notHome
  | notSpoke
  | unknownSale
  | unknownVesting
  | saleClosed
  | invalidAssetAmount
  | saleExceeded
  | invalidPayment
  | paymentFailed
  | bucketExceeded
  | insufficientInventory
  | invalidSaleMessage
  | composeDisabled
  | invalidSaleId
  | invalidVestingId
  | invalidRemainingAccounts
  | invalidPendingOwner
  | accountNotInitialized (account : Pubkey)
  | accountAlreadyInUse (account : Pubkey)
  | constraintToken (account : Pubkey)
  | constraintSeeds (account : Pubkey)
  | missingSignature (account : Pubkey)
  | invalidArgument
  | token (e : TokenError Pubkey)
  | panicked
  deriving DecidableEq, Repr

/-! ## Accounts -/

inductive OFTType where
  | native
  | adapter
  deriving DecidableEq, Repr

structure OFTStore where
  oftType : OFTType
  ld2sdRate : ℕ
  tokenMint : Pubkey
  tvlLd : ℕ
  admin : Pubkey
  pendingOwner : Pubkey
  defaultFeeBps : ℕ
  paused : Bool
  pauser : Option Pubkey
  unpauser : Option Pubkey
  deriving DecidableEq, Repr

structure GrsConfig where
  homeEid : ℕ
  homeAddress : Pubkey
  genesisMinted : Bool
  vestingCount : ℕ
  tokenSalesSpent : ℕ
  salesReserved : ℕ
  deriving DecidableEq, Repr

structure SaleAccount where
  id : ℕ
  asset : Pubkey
  assetAmount : ℕ
  grsAmount : ℕ
  recipient : Pubkey
  deriving DecidableEq, Repr

structure Vesting where
  id : ℕ
  funder : Pubkey
  beneficiary : Pubkey
  allocationLd : ℕ
  releasedLd : ℕ
  start : ℕ
  cliffEnd : ℕ
  endAt : ℕ
  deriving DecidableEq, Repr

structure RateLimiter where
  capacity : ℕ
  tokens : ℕ
  refillPerSecond : ℕ
  lastRefillTime : ℕ
  deriving DecidableEq, Repr

structure PeerConfig where
  peerAddress : Pubkey
  outboundRateLimiter : Option RateLimiter
  inboundRateLimiter : Option RateLimiter
  feeBps : Option ℕ
  deriving DecidableEq, Repr

structure PeerEntry where
  eid : ℕ
  peer : Pubkey
  deriving DecidableEq, Repr

structure World where
  store : OFTStore
  config : GrsConfig
  peers : ℕ → Option PeerConfig
  peerRegistry : List PeerEntry
  saleCount : ℕ
  sales : ℕ → Option SaleAccount
  vestings : ℕ → Option Vesting
  bank : Bank Pubkey
  lamports : Pubkey → ℕ
  now : ℤ

/-- what the endpoint is handed to send: the destination chain, the peer there, and the message -/
structure Outbound where
  dstEid : ℕ
  receiver : Pubkey
  message : List UInt8
  deriving DecidableEq, Repr

/-- supply of the store's token -/
def World.supply (w : World) : ℕ := w.bank.supply w.store.tokenMint

namespace GrsConfig

def isHome (c : GrsConfig) : Bool := c.homeEid = 0

def freeSaleInventory (c : GrsConfig) (escrowAmount : ℕ) : ℕ := escrowAmount - c.salesReserved

end GrsConfig

namespace OFTStore

def ld2sd (s : OFTStore) (amountLd : ℕ) : ℕ := amountLd / s.ld2sdRate

/-- an unchecked product: builds panic on overflow -/
def sd2ld (s : OFTStore) (amountSd : ℕ) : Except OFTError ℕ := checkedMul u64 amountSd s.ld2sdRate .panicked

def removeDust (s : OFTStore) (amountLd : ℕ) : ℕ := amountLd - amountLd % s.ld2sdRate

end OFTStore

/-! ## Loading accounts -/

def spl {α : Type} (x : Except (TokenError Pubkey) α) : Except OFTError α := x.mapError .token

theorem spl_ok {α : Type} {x : Except (TokenError Pubkey) α} {a : α} : spl x = .ok a ↔ x = .ok a := by
  cases x <;> simp [spl, Except.mapError]

def loadMint (b : Bank Pubkey) (m : Pubkey) : Except OFTError (MintAccount Pubkey) :=
  demand (.accountNotInitialized m) (b.mints m)

def loadTokenAccount (b : Bank Pubkey) (k : Pubkey) : Except OFTError (TokenAccount Pubkey) :=
  demand (.accountNotInitialized k) (b.accounts k)

/-- `token::mint = mint` -/
def loadToken (b : Bank Pubkey) (k mint : Pubkey) : Except OFTError (TokenAccount Pubkey) := do
  let a ← loadTokenAccount b k
  require (a.mint = mint) (.constraintToken k)
  .ok a

/-- `token::mint = mint, token::authority = owner` -/
def loadOwned (b : Bank Pubkey) (k mint owner : Pubkey) : Except OFTError (TokenAccount Pubkey) := do
  let a ← loadToken b k mint
  require (a.owner = owner) (.constraintToken k)
  .ok a

/-- `init_if_needed` of a token account at `k` -/
def initTokenAccount (b : Bank Pubkey) (k mint owner : Pubkey) : Except OFTError (Bank Pubkey) :=
  match b.accounts k with
  | some a => do
    require (a.mint = mint ∧ a.owner = owner) (.constraintToken k)
    .ok b
  | none => spl (b.openAccount k mint owner)

/-- `init_if_needed` of an associated token account -/
def initAta (d : Deployment) (b : Bank Pubkey) (owner mint : Pubkey) : Except OFTError (Bank Pubkey) :=
  initTokenAccount b (d.ata owner mint) mint owner

/-- the System Program's `create_account`: it refuses an address that already holds lamports -/
def createAccount (w : World) (k : Pubkey) : Except OFTError Unit := require (w.lamports k = 0) (.accountAlreadyInUse k)

end Grindurus.Grs
