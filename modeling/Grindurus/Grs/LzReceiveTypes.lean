/-
Account discovery for the executor (`programs/grs/src/instructions/lz_receive_types.rs`), and the accounts of `lz_receive`
(`instructions/lz_receive.rs`).

Here the addresses are derived from their seeds. Outside the program are `create_program_address` and the accounts the endpoint
asks for: parameters.

- `Place.find`: the first bump that takes seeds to an address. `Site`: a store whose addresses are found so. `Site.deployment`.
- `lzReceiveTypes`: the list of accounts an inbound message needs.
- `LzReceiveAccounts`: a list read by position. `LzReceiveAccounts.validate`: the constraints of `lz_receive` on it.
-/
import Grindurus.Grs.Program

namespace Grindurus.Grs

open Checked Bytes TokenBank

/-! ## Derived addresses -/

/-- an account as an instruction names it -/
structure LzAccount where
  pubkey : Pubkey
  isSigner : Bool
  isWritable : Bool
  deriving DecidableEq, Repr

/-- a store, and what it finds around it -/
structure Place where
  program : Pubkey
  tokenEscrow : Pubkey
  /-- the owner of the mint -/
  tokenProgram : Pubkey
  associatedTokenId : Pubkey
  endpointProgram : Pubkey
  /-- the address of some seeds under a program, if they take it off the curve -/
  createProgramAddress : List (List UInt8) → Pubkey → Option Pubkey
  getAccountsForClear (endpoint receiver : Pubkey) (srcEid : ℕ) (sender : Pubkey) (nonce : ℕ) : List LzAccount
  getAccountsForSendCompose (endpoint sender toAddress guid : Pubkey) (index : ℕ) (message : List UInt8) : List LzAccount

def OFT_SEED : List UInt8 := [0x4f, 0x46, 0x54]
def PEER_SEED : List UInt8 := [0x50, 0x65, 0x65, 0x72]
/-- "grs" -/
def GrsConfig.SEED : List UInt8 := [0x67, 0x72, 0x73]
/-- "sale" -/
def SaleAccount.SEED : List UInt8 := [0x73, 0x61, 0x6c, 0x65]
/-- "sales" -/
def SaleRegistry.SEED : List UInt8 := [0x73, 0x61, 0x6c, 0x65, 0x73]
/-- "sale_escrow" -/
def SaleRegistry.ESCROW_SEED : List UInt8 := [0x73, 0x61, 0x6c, 0x65, 0x5f, 0x65, 0x73, 0x63, 0x72, 0x6f, 0x77]
/-- "vest" -/
def Vesting.SEED : List UInt8 := [0x76, 0x65, 0x73, 0x74]
/-- "vest_escrow" -/
def Vesting.ESCROW_SEED : List UInt8 := [0x76, 0x65, 0x73, 0x74, 0x5f, 0x65, 0x73, 0x63, 0x72, 0x6f, 0x77]
/-- "__event_authority" -/
def EVENT_SEED : List UInt8 :=
  [0x5f, 0x5f, 0x65, 0x76, 0x65, 0x6e, 0x74, 0x5f, 0x61, 0x75, 0x74, 0x68, 0x6f, 0x72, 0x69, 0x74, 0x79]

/-- `to_le_bytes` of 64 bits -/
def leBytes (n : ℕ) : List UInt8 := (beBytes 8 n).reverse

namespace Place

variable (p : Place)

/-- the bumps from the given one down to 1 are tried -/
def search (seeds : List (List UInt8)) (program : Pubkey) : ℕ → Option (Pubkey × ℕ)
  | 0 => none
  | bump + 1 =>
    match p.createProgramAddress (seeds ++ [[UInt8.ofNat (bump + 1)]]) program with
    | some k => some (k, bump + 1)
    | none => search seeds program bump

/-- `find_program_address` -/
def find (seeds : List (List UInt8)) (program : Pubkey) : Option (Pubkey × ℕ) := p.search seeds program 255

/-- the address that is found; the library panics if there is none -/
def derive (seeds : List (List UInt8)) (program : Pubkey) : Except OFTError Pubkey := do
  let (k, _) ← demand .panicked (p.find seeds program)
  .ok k

def address (seeds : List (List UInt8)) (program : Pubkey) : Pubkey := ((p.find seeds program).map Prod.fst).getD .default

/-- the seeds of `get_associated_token_address_with_program_id` -/
def ataSeeds (owner mint : Pubkey) : List (List UInt8) := [owner.bytes, p.tokenProgram.bytes, mint.bytes]

def oftStore : Pubkey := p.address [OFT_SEED, p.tokenEscrow.bytes] p.program

def peerSeeds (eid : ℕ) : List (List UInt8) := [PEER_SEED, p.oftStore.bytes, beBytes 4 eid]

/-- the seeds of an account there is one of in a store -/
def ownSeeds (seed : List UInt8) : List (List UInt8) := [seed, p.oftStore.bytes]

/-- the seeds of a row -/
def rowSeeds (seed : List UInt8) (id : ℕ) : List (List UInt8) := [seed, p.oftStore.bytes, leBytes id]

/-- the addresses the program signs for -/
def fixed : List Pubkey :=
  [p.oftStore, p.address (p.ownSeeds GrsConfig.SEED) p.program, p.tokenEscrow,
    p.address (p.ownSeeds SaleRegistry.ESCROW_SEED) p.program, p.address (p.ownSeeds Vesting.ESCROW_SEED) p.program]

end Place

/-- a place whose addresses do not collide, and whose mint withholds nothing -/
structure Site extends Place where
  transferFee : Option Token2022.TransferFeeConfig
  distinct : toPlace.fixed.Nodup
  ata_fresh : ∀ owner mint, toPlace.address (toPlace.ataSeeds owner mint) associatedTokenId ∉ toPlace.fixed
  withholdsNothing : ∀ c, transferFee = some c → c.Free

def Site.deployment (s : Site) : Deployment where
  program := s.program
  oftStore := s.oftStore
  grsConfig := s.address (s.ownSeeds GrsConfig.SEED) s.program
  tokenEscrow := s.tokenEscrow
  saleEscrow := s.address (s.ownSeeds SaleRegistry.ESCROW_SEED) s.program
  vestEscrow := s.address (s.ownSeeds Vesting.ESCROW_SEED) s.program
  peer eid := s.address (s.peerSeeds eid) s.program
  sale id := s.address (s.rowSeeds SaleAccount.SEED id) s.program
  vest id := s.address (s.rowSeeds Vesting.SEED id) s.program
  ata owner mint := s.address (s.ataSeeds owner mint) s.associatedTokenId
  transferFee := s.transferFee
  distinct := s.distinct
  ata_fresh := s.ata_fresh
  withholdsNothing := s.withholdsNothing

/-! ## Discovery -/

/-- what the executor delivers -/
structure Inbound extends LzReceiveParams where
  nonce : ℕ
  guid : Pubkey
  deriving DecidableEq, Repr

def composeEncode (nonce srcEid amountLd : ℕ) (composeMsg : List UInt8) : List UInt8 :=
  beBytes 8 nonce ++ beBytes 4 srcEid ++ beBytes 8 amountLd ++ composeMsg

/-- the id of the system program -/
def SYSTEM_PROGRAM_ID : Pubkey := .default

namespace Site

variable (s : Site)

/-- `seeds, bump = account.bump`: an account keeps the bump it was found with when it was initialized -/
def keeps (seeds : List (List UInt8)) (k : Pubkey) : Bool :=
  (s.find seeds s.program).any fun (_, bump) => s.createProgramAddress (seeds ++ [[UInt8.ofNat bump]]) s.program = some k

/-- `seeds, bump` -/
def finds (seeds : List (List UInt8)) (k : Pubkey) : Bool := (s.find seeds s.program).any fun (k', _) => k' = k

end Site

variable (s : Site)

/-- the account of the row: the sale of a sale message, the next award for a grant, a placeholder for a credit -/
def discoverRow (w : World) (remaining : List Pubkey) (message : List UInt8) (grsConfig saleRegistry : Pubkey) :
    Except OFTError Pubkey :=
  if isSale message = true then do
    let m ← decodeSale message
    s.derive (s.rowSeeds SaleAccount.SEED m.id) s.program
  else if isGrant message = true then do
    let grsInfo ← demand .invalidRemainingAccounts remaining.head?
    require (grsInfo = grsConfig) .invalidRemainingAccounts
    let id ← checkedAdd u64 w.config.vestingCount 1 .invalidVestingId
    s.derive (s.rowSeeds Vesting.SEED id) s.program
  else .ok saleRegistry

/-- the accounts of the endpoint for a compose message; no mint has a transfer fee -/
def discoverCompose (w : World) (params : Inbound) (toAddress : Pubkey) : Except OFTError (List LzAccount) :=
  match composeMsg params.message with
  | none => .ok []
  | some message => do
    let sd ← amountSd params.message
    let amountReceivedLd ← w.store.sd2ld sd
    .ok (s.getAccountsForSendCompose s.endpointProgram s.oftStore toAddress params.guid 0
      (composeEncode params.nonce params.srcEid amountReceivedLd message))

/-- `remaining` are the accounts after `oft_store` and `token_mint` -/
def lzReceiveTypes (w : World) (remaining : List Pubkey) (params : Inbound) : Except OFTError (List LzAccount) := do
  require (s.keeps [OFT_SEED, s.tokenEscrow.bytes] s.oftStore = true) (.constraintSeeds s.oftStore)
  let mint ← loadMint w.bank w.store.tokenMint
  let peer ← s.derive (s.peerSeeds params.srcEid) s.program
  let grsConfig ← s.derive (s.ownSeeds GrsConfig.SEED) s.program
  let saleRegistry ← s.derive (s.ownSeeds SaleRegistry.SEED) s.program
  let saleEscrow ← s.derive (s.ownSeeds SaleRegistry.ESCROW_SEED) s.program
  let vestEscrow ← s.derive (s.ownSeeds Vesting.ESCROW_SEED) s.program
  let sale := isSale params.message
  let grant := isGrant params.message
  let row ← discoverRow s w remaining params.message grsConfig saleRegistry
  let toAddress ← (if sale || grant then .ok w.store.admin else sendTo params.message)
  let tokenDest ← s.derive (s.ataSeeds toAddress w.store.tokenMint) s.associatedTokenId
  let mintAuthority := mint.mintAuthority.getD s.program
  let eventAuthority ← s.derive [EVENT_SEED] s.program
  let accountsForClear := s.getAccountsForClear s.endpointProgram s.oftStore params.srcEid params.sender params.nonce
  let accountsForComposing ← (if sale || grant then .ok [] else discoverCompose s w params toAddress)
  .ok ([⟨.default, true, true⟩, ⟨peer, false, true⟩, ⟨s.oftStore, false, true⟩, ⟨grsConfig, false, true⟩,
      ⟨saleRegistry, false, true⟩, ⟨row, false, true⟩, ⟨saleEscrow, false, true⟩, ⟨vestEscrow, false, true⟩,
      ⟨s.tokenEscrow, false, true⟩, ⟨toAddress, false, false⟩, ⟨tokenDest, false, true⟩, ⟨w.store.tokenMint, false, true⟩, ⟨mintAuthority, false, false⟩, ⟨s.tokenProgram, false, false⟩,
      ⟨s.associatedTokenId, false, false⟩, ⟨SYSTEM_PROGRAM_ID, false, false⟩, ⟨eventAuthority, false, false⟩,
      ⟨s.program, false, false⟩] ++ accountsForClear ++ accountsForComposing)

/-! ## The accounts of `lz_receive` -/

structure LzReceiveAccounts where
  payer : LzAccount
  peer : LzAccount
  oftStore : LzAccount
  grsConfig : LzAccount
  saleRegistry : LzAccount
  sale : LzAccount
  saleEscrow : LzAccount
  vestEscrow : LzAccount
  tokenEscrow : LzAccount
  toAddress : LzAccount
  tokenDest : LzAccount
  tokenMint : LzAccount
  mintAuthority : Option LzAccount
  tokenProgram : LzAccount
  associatedTokenProgram : LzAccount
  systemProgram : LzAccount
  eventAuthority : LzAccount
  program : LzAccount
  remaining : List LzAccount

/-- what a constraint of the accounts refuses, and which account -/
inductive AccountError where
  | accountNotEnoughKeys
  | constraintMut
  | constraintSigner (account : Pubkey)
  | constraintSeeds (account : Pubkey)
  | constraintHasOne (account : Pubkey)
  | constraintAddress (account : Pubkey)
  | constraintMintTokenProgram (account : Pubkey)
  | notAssociated (account : Pubkey)
  | invalidMintAuthority
  | invalidProgramId (account : Pubkey)
  deriving DecidableEq, Repr

namespace LzReceiveAccounts

/-- the accounts by position; the id of the program stands for an optional account that is not given -/
def ofList (program : Pubkey) : List LzAccount → Except AccountError LzReceiveAccounts
  | payer :: peer :: oftStore :: grsConfig :: saleRegistry :: sale :: saleEscrow :: vestEscrow :: tokenEscrow :: toAddress ::
    tokenDest :: tokenMint :: mintAuthority :: tokenProgram :: associatedTokenProgram :: systemProgram :: eventAuthority ::
    thisProgram :: remaining =>
    .ok ⟨payer, peer, oftStore, grsConfig, saleRegistry, sale, saleEscrow, vestEscrow, tokenEscrow, toAddress, tokenDest, tokenMint,
      if mintAuthority.pubkey = program then none else some mintAuthority, tokenProgram, associatedTokenProgram, systemProgram,
      eventAuthority, thisProgram, remaining⟩
  | _ => .error .accountNotEnoughKeys

/-- what the instruction is handed of them -/
def chosen (a : LzReceiveAccounts) : LzReceive :=
  ⟨a.payer.pubkey, a.sale.pubkey, a.vestEscrow.pubkey, a.toAddress.pubkey, a.mintAuthority.map LzAccount.pubkey⟩

/-- the constraints on signers, seeds and addresses; those on what stands at the token accounts are part of `LzReceive.apply` -/
def validate (w : World) (srcEid : ℕ) (a : LzReceiveAccounts) : Except AccountError Unit := do
  require (a.payer.isSigner = true) (.constraintSigner a.payer.pubkey)
  require ([a.payer, a.peer, a.oftStore, a.grsConfig, a.saleRegistry, a.sale, a.saleEscrow, a.vestEscrow, a.tokenEscrow,
    a.tokenDest, a.tokenMint].all LzAccount.isWritable = true) .constraintMut
  require (s.keeps [PEER_SEED, a.oftStore.pubkey.bytes, beBytes 4 srcEid] a.peer.pubkey = true) (.constraintSeeds a.peer.pubkey)
  require (s.keeps [OFT_SEED, s.tokenEscrow.bytes] a.oftStore.pubkey = true) (.constraintSeeds a.oftStore.pubkey)
  require (s.keeps [GrsConfig.SEED, a.oftStore.pubkey.bytes] a.grsConfig.pubkey = true) (.constraintSeeds a.grsConfig.pubkey)
  require (s.keeps [SaleRegistry.SEED, a.oftStore.pubkey.bytes] a.saleRegistry.pubkey = true)
    (.constraintSeeds a.saleRegistry.pubkey)
  -- the registry keeps the store it was initialized for
  require (s.oftStore = a.oftStore.pubkey) (.constraintHasOne a.saleRegistry.pubkey)
  require (s.finds [SaleRegistry.ESCROW_SEED, a.oftStore.pubkey.bytes] a.saleEscrow.pubkey = true)
    (.constraintSeeds a.saleEscrow.pubkey)
  require (a.tokenEscrow.pubkey = s.tokenEscrow) (.constraintAddress a.tokenEscrow.pubkey)
  require (s.find [a.toAddress.pubkey.bytes, a.tokenProgram.pubkey.bytes, a.tokenMint.pubkey.bytes] s.associatedTokenId |>.any
    fun (k, _) => k = a.tokenDest.pubkey) (.notAssociated a.tokenDest.pubkey)
  require (a.tokenMint.pubkey = w.store.tokenMint) (.constraintAddress a.tokenMint.pubkey)
  require (a.tokenProgram.pubkey = s.tokenProgram) (.constraintMintTokenProgram a.tokenMint.pubkey)
  require (a.mintAuthority.all fun k => (w.bank.mints a.tokenMint.pubkey).any (·.mintAuthority = some k.pubkey))
    .invalidMintAuthority
  require (a.associatedTokenProgram.pubkey = s.associatedTokenId) (.invalidProgramId a.associatedTokenProgram.pubkey)
  require (a.systemProgram.pubkey = SYSTEM_PROGRAM_ID) (.invalidProgramId a.systemProgram.pubkey)
  require (s.finds [EVENT_SEED] a.eventAuthority.pubkey = true) (.constraintSeeds a.eventAuthority.pubkey)
  require (a.program.pubkey = s.program) (.invalidProgramId a.program.pubkey)

end LzReceiveAccounts

end Grindurus.Grs
