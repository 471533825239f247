/-
Data model of the Grinders program (`programs/grinders/src/state.rs`, `errors.rs`).

Addresses are an inductive type, by their seeds: wallets and the accounts of other programs, this program's derived addresses,
the vaults of the GRAI program, and associated token accounts. A `Signer` is an address that can sign for itself. A label is a
hash on chain; here it is what it is a hash of. Amounts are ℕ, bounded where the code checks them; the clock is ℤ.

`World` is everything an instruction reads and writes: the state of Grinders, the custodians by their addresses, what GRAI
publishes in its own state, the token bank and the clock. Lamports and the Metaplex accounts are left out: no modelled
instruction reads them.
-/
import Grindurus.Lib.TokenBank

namespace Grindurus.Grinders

open TokenBank

/-! ## Addresses -/

inductive Key where
  /-- `Pubkey::default()` -/
  | default
  | wallet (n : ℕ)
  | grinders
  | collection
  | custodian (id : ℕ)
  | custodianMint (id : ℕ)
  | edition (mint : Key)
  /-- `GraiState`, of the GRAI program that Grinders is linked to -/
  | grai
  | vault (mint : Key)
  | treasury (mint : Key)
  | ata (owner mint : Key)
  deriving DecidableEq, Repr

structure Signer where
  id : ℕ
  deriving DecidableEq, Repr

def Signer.key (s : Signer) : Key := .wallet s.id

namespace Key

def isCustodian : Key → Bool
  | .custodian _ => true
  | _ => false

/-- the addresses the program signs for -/
def ofGrinders : Key → Bool
  | .grinders => true
  | .custodian _ => true
  | _ => false

/-- an address that can only be a token account of one owner and one mint: who owns it, for which mint. Grinders and GRAI hand
over no account; a custodian may, by the router of a swap -/
def home : Key → Option (Key × Key)
  | .ata owner mint => if owner = .grinders then some (owner, mint) else none
  | .vault mint => some (.grai, mint)
  | .treasury mint => some (.grai, mint)
  | _ => none

/-- the addresses at which a mint can be created -/
def mintable : Key → Bool
  | .wallet _ => true
  | .collection => true
  | .custodianMint _ => true
  | _ => false

end Key

/-! ## Errors -/

/-- the program's errors, then what the runtime, Anchor and the token program refuse with -/
inductive ErrorCode where
  | unauthorized
  | notToreador
  | amountZero
  | toZero
  | invalidCustodianProgram
  | unknownCustodianKind
  | custodianKindMismatch
  | invalidClusterRef
  | notCustodianWallet
  | invalidNftOwner
  | mathOverflow
  | solTransferFailed
  | invalidGrindersTokenAccount
  | notCustodianOwner
  | targetZero
  | dataEmpty
  | swapFailed
  | notTradingAsset
  | noTrade
  | exceededPriceLimit
  | grinderMustNotPayGas
  | invalidFeePayer
  | custodianSwapNotImplemented
  | insufficientReserve
  | invalidCollection
  | notGrai
  | noLiquidation
  | liquidationOpen
  | grindersGrinding
  | invalidGrindPeriod
  | invalidRemainingAccounts
  | baseZero
  | quoteZero
  | sameAsset
  | nonZeroBalance
  | graiTokenZero
  | toreadorZero
  | accountNotInitialized (account : Key)
  | constraintSeeds (account : Key)
  | token (e : TokenError Key)
  deriving DecidableEq, Repr

/-! ## Accounts -/

/-- the CAIP-2 reference of a cluster: its bytes, without the padding -/
abbrev ClusterRef := List ℕ

/-- `label_hash`, by what is hashed -/
inductive Label where
  | swap (clusterRef : ClusterRef)
  | jupiterGasless (clusterRef : ClusterRef)
  | other (n : ℕ)
  deriving DecidableEq, Repr

structure GrindersState where
  toreador : Key
  nextCustodianId : ℕ
  collectionMint : Key
  heartbeatAt : ℤ
  grindingPeriod : ℕ
  clusterRef : ClusterRef
  deriving DecidableEq, Repr

structure CustodianState where
  grinders : Key
  custodianId : ℕ
  label : Label
  baseMint : Key
  quoteMint : Key
  nftMint : Key
  /-- a hint only: who holds the NFT is read from its token account -/
  nftOwner : Key
  deriving DecidableEq, Repr

/-- the part of the GRAI state account the program reads -/
structure GraiState where
  owner : Key
  grinders : Key
  graiMint : Key
  liquidation : Bool
  assetMints : List Key
  deriving DecidableEq, Repr

structure World where
  state : GrindersState
  custodians : Key → Option CustodianState
  grai : GraiState
  bank : Bank Key
  now : ℤ

/-- `m` is one of the two assets of the custodian at `k` -/
def World.trades (w : World) (k m : Key) : Prop := ∃ c, w.custodians k = some c ∧ (m = c.baseMint ∨ m = c.quoteMint)

/-! ## Small facts -/

@[simp] theorem Signer.key_ofGrinders (s : Signer) : s.key.ofGrinders = false := rfl

theorem Key.isCustodian_ofGrinders {k : Key} (h : k.isCustodian = true) : k.ofGrinders = true := by
  cases k <;> simp_all [isCustodian, ofGrinders]

theorem Key.ofGrinders_cases {k : Key} (h : k.ofGrinders = true) : k = .grinders ∨ k.isCustodian = true := by
  cases k <;> simp_all [isCustodian, ofGrinders]

/-- who owns an address of one owner: Grinders or GRAI -/
theorem Key.home_owner {k o m : Key} (h : k.home = some (o, m)) : o = .grinders ∨ o = .grai := by
  cases k with
  | ata owner mint =>
    simp only [home, Option.ite_none_right_eq_some, Option.some.injEq, Prod.mk.injEq] at h
    obtain ⟨ho, rfl, -⟩ := h
    exact .inl ho
  | vault mint =>
    cases h
    exact .inr rfl
  | treasury mint =>
    cases h
    exact .inr rfl
  | _ => simp [home] at h

end Grindurus.Grinders
