/-
The program as a machine (`programs/grinders/src/lib.rs`, `collection.rs`).

- `Genesis`: a successful `initialize`. `Instr`: everything that can happen after it: the instructions of the program, what
  GRAI publishes in its own state, and what anyone outside Grinders asks of the token program. `step` commits or fails.
- `Genesis.after`: the world after a run. `Instr.permissionless`: what anyone can do for the sweeps.

GRAI lists an asset only where its vault stands. `withdraw`, which moves lamports, is left out.
-/
import Grindurus.Lib.Circulation
import Grindurus.Lib.Machine
import Grindurus.Grinders.Liquidation

namespace Grindurus.Grinders

open Checked TokenBank Machine Function

/-! ## Initialize -/

def DEFAULT_GRINDING_PERIOD : ℕ := 7 * 24 * 60 * 60

/-- graphic ASCII, of 1 to 32 bytes -/
def encodeClusterRef (s : List ℕ) : Except ErrorCode ClusterRef := do
  require (s ≠ [] ∧ s.length ≤ 32) .invalidClusterRef
  require (∀ c ∈ s, 33 ≤ c ∧ c ≤ 126) .invalidClusterRef
  .ok s

structure Initialize where
  payer : Signer
  clusterRef : List ℕ
  toreador : Key
  deriving DecidableEq, Repr

/-- one NFT, in the hands of Grinders; the master edition takes the mint over -/
def createCollection (b : Bank Key) : Except (TokenError Key) (Bank Key) := do
  let ata := .ata .grinders .collection
  let b ← b.createMint .collection 0 .grinders
  let b ← b.openAccount ata .collection .grinders
  let b ← b.mintTo .collection ata .grinders 1
  b.setMintAuthority .collection .grinders (some (.edition .collection))

def executeInitialize (bank : Bank Key) (grai : GraiState) (now : ℤ) (a : Initialize) : Except ErrorCode World := do
  let toreador := if a.toreador = .default then a.payer.key else a.toreador
  let clusterRef ← encodeClusterRef a.clusterRef
  let bank ← spl (createCollection bank)
  .ok
    { state :=
        { toreador, nextCustodianId := 0, collectionMint := .collection, heartbeatAt := now
          grindingPeriod := DEFAULT_GRINDING_PERIOD, clusterRef }
      custodians := fun _ => none
      grai, bank, now }

/-- every address of one owner and one mint has an account of both, or none -/
def Homed (b : Bank Key) : Prop := ∀ k o m, k.home = some (o, m) → ∀ a, b.accounts k = some a → a.owner = o ∧ a.mint = m

/-- there is always an unused address of somebody who can sign: key pairs are cheap -/
def Roomy (b : Bank Key) : Prop := {n | b.accounts (.wallet n) = none ∧ b.mints (.wallet n) = none}.Infinite

/-- the program before its first instruction: the chain has real tokens and room for more accounts, no custodian holds any, and
GRAI lists nothing -/
structure Genesis where
  bank : Bank Key
  grai : GraiState
  now : ℤ
  args : Initialize
  world : World
  homed : Homed bank
  room : Roomy bank
  empty : ∀ k a, bank.accounts k = some a → a.owner.isCustodian = true → a.amount = 0
  placed : ∀ m t, bank.mints m = some t → m.mintable = true
  minted : ∀ k a, bank.accounts k = some a → bank.mints a.mint ≠ none
  backed : ∀ m, bank.Backed m
  unlisted : grai.assetMints = []
  initialized : executeInitialize bank grai now args = .ok world

/-! ## Administration -/

structure SetGrindPeriod where
  owner : Signer
  grindPeriod : ℕ
  deriving DecidableEq, Repr

def executeSetGrindPeriod (w : World) (a : SetGrindPeriod) : Except ErrorCode World := do
  require (a.owner.key = w.grai.owner) .unauthorized
  require (24 * 60 * 60 ≤ a.grindPeriod ∧ a.grindPeriod ≤ 30 * 24 * 60 * 60) .invalidGrindPeriod
  .ok { w with state := { w.state with grindingPeriod := a.grindPeriod } }

structure SetToreador where
  owner : Signer
  toreador : Key
  deriving DecidableEq, Repr

def executeSetToreador (w : World) (a : SetToreador) : Except ErrorCode World := do
  require (a.owner.key = w.grai.owner) .unauthorized
  require (a.toreador ≠ .default) .toreadorZero
  .ok { w with state := { w.state with toreador := a.toreador } }

/-- `heartbeat` of GRAI -/
def executeHeartbeat (w : World) (graiSigns : Bool) : Except ErrorCode World := do
  require (w.grai.grinders = .grinders) .notGrai
  require (graiSigns = true) .notGrai
  .ok (heartbeat w)

structure WithdrawToken where
  owner : Signer
  assetMint : Key
  toKey : Key
  grindersAta : Key
  toAta : Key
  amount : ℕ
  deriving DecidableEq, Repr

def executeWithdrawToken (w : World) (a : WithdrawToken) : Except ErrorCode World := do
  require (a.owner.key = w.grai.owner) .unauthorized
  let _ ← loadMint w.bank a.assetMint
  let _ ← ownAccount w.bank a.grindersAta .grinders a.assetMint .invalidGrindersTokenAccount .invalidGrindersTokenAccount
  let dst ← loadAccount w.bank a.toAta
  require (dst.mint = a.assetMint) .invalidGrindersTokenAccount
  require (0 < a.amount) .amountZero
  require (a.toKey ≠ .default) .toZero
  let bank ← spl (w.bank.transfer a.grindersAta a.toAta .grinders a.amount)
  .ok { w with bank }

/-! ## Custodian NFTs -/

def isKnownLabel (label : Label) (clusterRef : ClusterRef) : Bool := label = .swap clusterRef ∨ label = .jupiterGasless clusterRef

structure MintCustodian where
  authority : Signer
  custodianOwner : Key
  baseMint : Key
  quoteMint : Key
  label : Label
  deriving DecidableEq, Repr

/-- the accounts that `mint` creates: the NFT with its holder's account, and one of the custodian for each asset -/
def initCustodian (b : Bank Key) (id : ℕ) (a : MintCustodian) : Except (TokenError Key) (Bank Key) := do
  let nft := Key.custodianMint id
  let custodian := Key.custodian id
  let b ← b.createMint nft 0 .grinders
  let b ← b.openAccount (.ata a.custodianOwner nft) nft a.custodianOwner
  let b ← b.openAccount (.ata custodian a.baseMint) a.baseMint custodian
  b.openAccount (.ata custodian a.quoteMint) a.quoteMint custodian

def executeMint (w : World) (a : MintCustodian) : Except ErrorCode World := do
  let id := w.state.nextCustodianId
  assertToreador w a.authority
  let _ ← loadMint w.bank a.baseMint
  let _ ← loadMint w.bank a.quoteMint
  require (w.custodians (.custodian id) = none) (.token (.alreadyInUse (.custodian id)))
  let bank ← spl (initCustodian w.bank id a)
  require (a.baseMint ≠ .default) .baseZero
  require (a.quoteMint ≠ .default) .quoteZero
  require (a.baseMint ≠ a.quoteMint) .sameAsset
  let nextCustodianId ← checkedAdd u64 id 1 .mathOverflow
  require (isKnownLabel a.label w.state.clusterRef = true) .unknownCustodianKind
  let c : CustodianState :=
    { grinders := .grinders, custodianId := id, label := a.label, baseMint := a.baseMint, quoteMint := a.quoteMint
      nftMint := .custodianMint id, nftOwner := a.custodianOwner }
  let bank ← spl (bank.mintTo (.custodianMint id) (.ata a.custodianOwner (.custodianMint id)) .grinders 1)
  .ok
    { w with
      state := { w.state with nextCustodianId }
      custodians := update w.custodians (.custodian id) (some c)
      bank }

structure TransferCustodianNft where
  currentOwner : Signer
  newOwner : Key
  custodianState : Key
  fromAta : Key
  deriving DecidableEq, Repr

/-- `init_if_needed` of an associated token account -/
def initAta (b : Bank Key) (owner mint : Key) : Except ErrorCode (Bank Key) :=
  match b.accounts (.ata owner mint) with
  | none => spl (b.openAccount (.ata owner mint) mint owner)
  | some a => do
    require (a.mint = mint ∧ a.owner = owner) (.constraintSeeds (.ata owner mint))
    .ok b

def executeTransferCustodianNft (w : World) (a : TransferCustodianNft) : Except ErrorCode World := do
  let c ← demand (.accountNotInitialized a.custodianState) (w.custodians a.custodianState)
  require (a.custodianState = .custodian c.custodianId) (.constraintSeeds a.custodianState)
  let src ← loadAccount w.bank a.fromAta
  require (src.mint = c.nftMint) .invalidNftOwner
  require (src.owner = a.currentOwner.key) .invalidNftOwner
  require (1 ≤ src.amount) .invalidNftOwner
  let bank ← initAta w.bank a.newOwner c.nftMint
  let bank ← spl (bank.transfer a.fromAta (.ata a.newOwner c.nftMint) a.currentOwner.key 1)
  .ok { w with bank, custodians := update w.custodians a.custodianState (some { c with nftOwner := a.newOwner }) }

/-! ## Instructions -/

inductive Instr where
  | setGrindPeriod (a : SetGrindPeriod)
  | setToreador (a : SetToreador)
  | heartbeat (graiSigns : Bool)
  | mint (a : MintCustodian)
  | custodianSwap (a : CustodianSwap)
  | custodianJupiterGaslessSwap (a : CustodianJupiterGaslessSwap)
  | allocate (a : Allocate)
  | setAssets (a : SetAssets)
  | custodianDeallocate (a : CustodianDeallocate)
  | custodianDistribute (a : CustodianDistribute)
  | liquidateIdle (a : LiquidateIdle)
  | liquidateCustodian (a : LiquidateCustodian)
  | transferCustodianNft (a : TransferCustodianNft)
  | withdrawToken (a : WithdrawToken)
  /-- anyone outside Grinders uses the token program -/
  | token (auth : Key) (op : Bank.Op Key)
  /-- GRAI writes its state -/
  | grai (g : GraiState)
  | tick (seconds : ℕ)
  deriving DecidableEq, Repr

/-- the vault of `m` is an account of GRAI for `m` -/
def vaultStands (b : Bank Key) (m : Key) : Bool := (b.accounts (.vault m)).any fun a => a.owner = .grai ∧ a.mint = m

def step (w : World) : Instr → Except ErrorCode World
  | .setGrindPeriod a => executeSetGrindPeriod w a
  | .setToreador a => executeSetToreador w a
  | .heartbeat graiSigns => executeHeartbeat w graiSigns
  | .mint a => executeMint w a
  | .custodianSwap a => executeSwap w a
  | .custodianJupiterGaslessSwap a => executeJupiterGaslessSwap w a
  | .allocate a => executeAllocate w a
  | .setAssets a => executeSetAssets w a
  | .custodianDeallocate a => executeCustodianDeallocate w a
  | .custodianDistribute a => executeCustodianDistribute w a
  | .liquidateIdle a => executeLiquidateIdle w a
  | .liquidateCustodian a => executeLiquidateCustodian w a
  | .transferCustodianNft a => executeTransferCustodianNft w a
  | .withdrawToken a => executeWithdrawToken w a
  | .token auth op => do
    require (auth.ofGrinders = false ∧ allowed w.grai.assetMints auth op = true) .unauthorized
    let bank ← spl (w.bank.apply auth op)
    .ok { w with bank }
  | .grai g => do
    require (∀ m ∈ g.assetMints, vaultStands w.bank m = true) (.accountNotInitialized .grai)
    .ok { w with grai := g }
  | .tick seconds => .ok { w with now := w.now + seconds }

/-- a sweep, or the creation of a token account that a sweep needs -/
def Instr.permissionless : Instr → Bool
  | .liquidateIdle _ => true
  | .liquidateCustodian _ => true
  | .token (.wallet _) (.openAccount _ _ _) => true
  | _ => false

/-- the world that the instructions `is` lead to; those that fail change nothing -/
def Genesis.after (g : Genesis) (is : List Instr) : World := run step g.world is

/-- what permissionless calls lead to, all of which succeed -/
def Swept : World → World → Prop := Relation.ReflTransGen fun w w' => ∃ i : Instr, i.permissionless = true ∧ step w i = .ok w'

/-! ## A world to run in -/

namespace Sample

/-- wallet 1 is the toreador, wallet 2 owns GRAI, wallet 3 trades, and wallet 9 issues the assets -/
def wallet (n : ℕ) : Signer := ⟨n⟩

def usdc : Key := .wallet 100

def eurc : Key := .wallet 101

def gold : Key := .wallet 102

def genesis : Genesis where
  bank := ⟨fun _ => none, fun _ => none⟩
  grai := ⟨(wallet 2).key, .grinders, .wallet 50, false, []⟩
  now := 0
  args := ⟨wallet 1, [108], .default⟩
  world := _
  homed k o m _ a ha := by cases ha
  room := by simpa [Roomy] using Set.infinite_univ
  empty k a ha := by cases ha
  placed m t ht := by cases ht
  minted k a ha := by cases ha
  backed m := Bank.backed_of_none (fun _ _ ha => by cases ha) (Nat.two_pow_pos 64)
  unlisted := rfl
  initialized := rfl

/-- the three assets exist, and GRAI lists them -/
def listing (liquidation : Bool) : Instr := .grai ⟨(wallet 2).key, .grinders, .wallet 50, liquidation, [usdc, eurc, gold]⟩

/-- an asset, its vault, and 1000 of it in the reserve -/
def issue (m : Key) : List Instr :=
  [.token (wallet 9).key (.createMint m 6 (wallet 9).key),
    .token .grai (.openAccount (.vault m) m .grai),
    .token (wallet 9).key (.openAccount (.ata .grinders m) m .grinders),
    .token (wallet 9).key (.mintTo m (.ata .grinders m) 1000)]

/-- a custodian that trades dollars and euros -/
def custodian : Instr := .mint ⟨wallet 1, (wallet 3).key, usdc, eurc, .swap [108]⟩

def setup : List Instr := issue usdc ++ issue eurc ++ issue gold ++ [listing false, custodian]

def allocate (m : Key) (x : ℕ) : Instr := .allocate ⟨wallet 1, .custodian 0, m, .ata .grinders m, .ata (.custodian 0) m, x⟩

end Sample

end Grindurus.Grinders
