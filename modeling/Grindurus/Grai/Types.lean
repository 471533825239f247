/-
Data model of the GRAI program (`programs/grai/src/lib.rs`, `errors.rs`).

Addresses are an inductive type: wallets and the accounts of other programs, this program's derived addresses by their
seeds, and associated token accounts. Distinct seeds are distinct addresses by construction. A `Signer` is an address that
can sign for itself: the program's own addresses cannot be one. Unsigned integers are ℕ, bounded where the code checks them;
`i64` and `i128` are ℤ.

`World` is everything an instruction reads and writes: `grai_state`, the accounts of the program by their seeds, the token
bank, and the Grinders accounts the program reads.
-/
import Grindurus.Lib.TokenBank

namespace Grindurus.Grai

open TokenBank

/-! ## Addresses -/

inductive Key where
  /-- `Pubkey::default()`, which is also the System Program -/
  | default
  | key (n : ℕ)
  | program
  | nativeMint
  | protocol
  | asset (mint : Key)
  | vault (mint : Key)
  | treasury (mint : Key)
  | escrow (account : Key)
  | position (account mint : Key)
  | referrer (locker : Key)
  | treasuryNft (locker : Key)
  | edition (mint : Key)
  | ata (owner mint : Key)
  deriving DecidableEq, Repr

/-- an address that can sign for itself: a wallet, or an account another program signs for -/
structure Signer where
  id : ℕ
  deriving DecidableEq, Repr

def Signer.key (s : Signer) : Key := .key s.id

/-- the token accounts the program holds, and the mint each is for -/
def Key.custodyMint : Key → Option Key
  | .vault m => some m
  | .treasury m => some m
  | _ => none

theorem Signer.key_ne_protocol (s : Signer) : s.key ≠ .protocol := by simp [Signer.key]

@[simp] theorem Key.custodyMint_vault (m : Key) : (Key.vault m).custodyMint = some m := rfl

@[simp] theorem Key.custodyMint_treasury (m : Key) : (Key.treasury m).custodyMint = some m := rfl

/-! ## Errors -/

/-- the program's errors, then what the runtime, Anchor and the token program refuse with -/
inductive ErrorCode where
  | unauthorized
  | invalidPendingOwner
  | amountZero
  | invalidAmount
  | mathOverflow
  | bpsTooHigh
  | periodZero
  | invalidMint
  | invalidDestination
  | invalidDepositSource
  | invalidGrinders
  | grindersGraiMismatch
  | zeroAddress
  | alreadyBound
  | referralLoop
  | invalidShares
  | assetUnknown
  | notPaused
  | paused
  | assetBalanceNonZero
  | notBribeable
  | invalidCuts
  | liquidationOpen
  | liquidationClosed
  | liquidationQuorumNotMet
  | liquidationDelay
  | redeemPeriodActive
  | invalidChainlinkPrice
  | invalidChainlinkFeed
  | invalidCustomPriceFeed
  | invalidRemainingAccounts
  | insufficientGraiBalance
  | insolventBook
  | grindersGrinding
  | invalidReferrer
  | invalidReferralRange
  | accountNotInitialized (account : Key)
  | constraintMut
  | constraintSeeds (account : Key)
  | constraintToken (account : Key)
  | accountDiscriminatorMismatch (account : Key)
  | token (e : TokenError Key)
  | oracle (n : ℕ)
  | panicked
  | outOfFuel
  deriving DecidableEq, Repr

/-! ## Accounts -/

structure PriceData where
  price : ℤ
  decimals : ℕ
  deriving DecidableEq, Repr

structure Config where
  dividendCutBps : ℕ
  treasuryCutBps : ℕ
  revenueShareBps : ℕ
  claimTipBps : ℕ
  bribePremiumBps : ℕ
  quorumBps : ℕ
  unlockPenaltyBps : ℕ
  poachFeeBps : ℕ
  liquidationPeriod : ℕ
  redeemPeriod : ℕ
  mintPremiumBpsPerYear : ℕ
  deriving DecidableEq, Repr

structure GraiState where
  owner : Key
  pendingOwner : Key
  beneficiar : Key
  grinders : Key
  totalValue : ℕ
  totalLocked : ℕ
  totalVoted : ℕ
  liquidation : Bool
  liquidationAt : ℤ
  mintPremiumAt : ℤ
  graiMint : Key
  config : Config
  royaltyBps : ℕ
  affiliateLevels : ℕ
  affiliateShareBps : List ℕ
  assetMints : List Key
  lockers : List Key
  voters : List Key
  referrers : List Key
  deriving DecidableEq, Repr

structure AssetConfig where
  assetMint : Key
  priceFeed : Key
  paused : Bool
  bribeable : Bool
  id : ℕ
  accShare : ℕ
  totalClaimable : ℕ
  totalYielded : ℕ
  pythFeedId : ℕ
  deriving DecidableEq, Repr

structure Escrow where
  amount : ℕ
  voted : ℕ
  votedAt : ℤ
  lockerId : ℕ
  voterId : ℕ
  bump : ℕ
  deriving DecidableEq, Repr

structure Position where
  debt : ℕ
  claimable : ℕ
  yielded : ℕ
  deriving DecidableEq, Repr

structure Referrer where
  referrer : Key
  nftMint : Key
  value : ℕ
  l1Value : ℕ
  l2Value : ℕ
  deriving DecidableEq, Repr

/-- the part of a Grinders state account the program reads -/
structure GrindersState where
  graiProgram : Key
  heartbeatAt : ℤ
  grindingPeriod : ℕ
  deriving DecidableEq, Repr

/-- `init_if_needed` leaves a fresh account zeroed -/
def Escrow.empty : Escrow := ⟨0, 0, 0, 0, 0, 0⟩

def Position.empty : Position := ⟨0, 0, 0⟩

def Referrer.empty : Referrer := ⟨.default, .default, 0, 0, 0⟩

/-- the canonical bump of an escrow address; a zeroed escrow does not carry it yet -/
def ESCROW_BUMP : ℕ := 255

structure World where
  state : GraiState
  stateSpace : ℕ
  stateLamports : ℕ
  assets : Key → Option AssetConfig
  escrows : Key → Option Escrow
  positions : Key × Key → Option Position
  books : Key → Option Referrer
  bank : Bank Key
  grinders : Key → Option GrindersState

/-- is the account at this address one of the program's own data accounts -/
def World.programOwned (w : World) : Key → Bool
  | .protocol => true
  | .asset m => (w.assets m).isSome
  | .escrow u => (w.escrows u).isSome
  | .position u m => (w.positions (u, m)).isSome
  | .referrer u => (w.books u).isSome
  | _ => false

/-- GRAI locked by `u` -/
def World.lockOf (w : World) (u : Key) : ℕ := ((w.escrows u).map Escrow.amount).getD 0

def World.voteOf (w : World) (u : Key) : ℕ := ((w.escrows u).map Escrow.voted).getD 0

def World.supply (w : World) : ℕ := w.bank.supply w.state.graiMint

def World.graiVault (w : World) : ℕ := w.bank.balance (.vault w.state.graiMint)

def World.vaultOf (w : World) (m : Key) : ℕ := w.bank.balance (.vault m)

def World.treasuryOf (w : World) (m : Key) : ℕ := w.bank.balance (.treasury m)

end Grindurus.Grai
