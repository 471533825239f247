/-
Bootstrap and configuration (`programs/grs/src/instructions/init.rs`, `set_peer_config.rs`, `set_oft_config.rs`,
`ownership.rs`, `set_pause.rs`, `state/peer_registry.rs`).

`Init.apply` builds the world of one store: on the home chain the mint authority stays with the deployer until genesis, on a
spoke it goes to the store at once. The options a peer enforces on messages, and the delegate of the endpoint, are not
part of the world.

A peer with the address zero is a peer that is not there. Its account stays, with its limiters, so that a later setting finds the
buckets as they were left. The fee of a peer is a share in basis points below the whole, and the default fee likewise.
-/
import Grindurus.Lib.Registry
import Grindurus.Grs.Bridge

namespace Grindurus.Grs

open Checked TokenBank Function

variable (d : Deployment)

/-! ## Peers -/

/-- a zero peer drops the entry, any other is entered once -/
def upsertPeer (entries : List PeerEntry) (eid : ℕ) (peer : Pubkey) : Except OFTError (List PeerEntry) :=
  let known := entries.find? fun e => e.eid = eid
  if peer = .default then
    match known with
    | some e => .ok (Registry.swapRemove entries e)
    | none => .ok entries
  else
    match known with
    | some _ => .ok (entries.replaceF fun e => if e.eid = eid then some { e with peer } else none)
    | none => do
      require (entries.length < GRS_MAX_PEERS) .tooManyPeers
      .ok (entries ++ [⟨eid, peer⟩])

structure RateLimitParams where
  refillPerSecond : Option ℕ
  capacity : Option ℕ
  deriving DecidableEq, Repr

inductive PeerConfigParam where
  | peerAddress (peerAddress : Pubkey)
  | feeBps (feeBps : Option ℕ)
  | outboundRateLimit (params : Option RateLimitParams)
  | inboundRateLimit (params : Option RateLimitParams)
  deriving DecidableEq, Repr

structure SetPeerConfig where
  admin : Pubkey
  remoteEid : ℕ
  config : PeerConfigParam
  deriving DecidableEq, Repr

/-- a peer account as it is created -/
def PeerConfig.empty : PeerConfig := ⟨.default, none, none, none⟩

def updateRateLimiter (now : ℤ) (rateLimiter : Option RateLimiter) :
    Option RateLimitParams → Except OFTError (Option RateLimiter)
  | none => .ok none
  | some params => do
    let limiter := rateLimiter.getD .default
    let limiter ← params.capacity.elim (.ok limiter) (limiter.setCapacity now ·)
    let limiter ← params.refillPerSecond.elim (.ok limiter) (limiter.setRate now ·)
    .ok (some limiter)

/-- the peer account and the registry after one parameter is set -/
def PeerConfig.set (w : World) (remoteEid : ℕ) (peer : PeerConfig) :
    PeerConfigParam → Except OFTError (PeerConfig × List PeerEntry)
  | .peerAddress peerAddress => do
    let entries ← upsertPeer w.peerRegistry remoteEid peerAddress
    .ok ({ peer with peerAddress }, entries)
  | .feeBps feeBps => do
    require (feeBps.all (· < MAX_FEE_BASIS_POINTS) = true) .invalidFee
    .ok ({ peer with feeBps }, w.peerRegistry)
  | .outboundRateLimit params => do
    let outboundRateLimiter ← updateRateLimiter w.now peer.outboundRateLimiter params
    .ok ({ peer with outboundRateLimiter }, w.peerRegistry)
  | .inboundRateLimit params => do
    let inboundRateLimiter ← updateRateLimiter w.now peer.inboundRateLimiter params
    .ok ({ peer with inboundRateLimiter }, w.peerRegistry)

def SetPeerConfig.apply (w : World) (a : SetPeerConfig) : Except OFTError World := do
  require (w.store.admin = a.admin) .unauthorized
  let peer := (w.peers a.remoteEid).getD .empty
  let (peer, peerRegistry) ← peer.set w a.remoteEid a.config
  .ok { w with peers := update w.peers a.remoteEid (some peer), peerRegistry }

/-! ## The store -/

inductive SetOFTConfigParams where
  | admin (admin : Pubkey)
  | delegate (delegate : Pubkey)
  | defaultFee (feeBps : ℕ)
  | paused (paused : Bool)
  | pauser (pauser : Option Pubkey)
  | unpauser (unpauser : Option Pubkey)
  deriving DecidableEq, Repr

def proposeAdmin (s : OFTStore) (newOwner : Pubkey) : Except OFTError OFTStore := do
  require (newOwner ≠ s.admin) .invalidPendingOwner
  .ok { s with pendingOwner := newOwner }

structure SetOFTConfig where
  admin : Pubkey
  params : SetOFTConfigParams
  deriving DecidableEq, Repr

def OFTStore.set (s : OFTStore) : SetOFTConfigParams → Except OFTError OFTStore
  | .admin admin => proposeAdmin s admin
  | .delegate _ => .ok s
  | .defaultFee feeBps => do
    require (feeBps < MAX_FEE_BASIS_POINTS) .invalidFee
    .ok { s with defaultFeeBps := feeBps }
  | .paused paused => .ok { s with paused }
  | .pauser pauser => .ok { s with pauser }
  | .unpauser unpauser => .ok { s with unpauser }

def SetOFTConfig.apply (w : World) (a : SetOFTConfig) : Except OFTError World := do
  require (w.store.admin = a.admin) .unauthorized
  let store ← w.store.set a.params
  .ok { w with store }

structure TransferOwnership where
  admin : Pubkey
  newOwner : Pubkey
  deriving DecidableEq, Repr

def TransferOwnership.apply (w : World) (a : TransferOwnership) : Except OFTError World := do
  require (w.store.admin = a.admin) .unauthorized
  let store ← proposeAdmin w.store a.newOwner
  .ok { w with store }

structure AcceptOwnership where
  pendingOwner : Pubkey
  deriving DecidableEq, Repr

def AcceptOwnership.apply (w : World) (a : AcceptOwnership) : Except OFTError World := do
  require (w.store.pendingOwner ≠ .default) .unauthorized
  require (w.store.pendingOwner = a.pendingOwner) .unauthorized
  .ok { w with store := { w.store with admin := a.pendingOwner, pendingOwner := .default } }

structure SetPause where
  signer : Pubkey
  paused : Bool
  deriving DecidableEq, Repr

def isValidSigner (signer : Pubkey) (s : OFTStore) (paused : Bool) : Bool :=
  if paused then s.pauser = some signer else s.unpauser = some signer

def SetPause.apply (w : World) (a : SetPause) : Except OFTError World := do
  require (isValidSigner a.signer w.store a.paused = true) .unauthorized
  .ok { w with store := { w.store with paused := a.paused } }

/-! ## Bootstrap -/

structure Init where
  payer : Pubkey
  tokenMint : Pubkey
  /-- the home peer account, given on a spoke -/
  hasPeer : Bool
  oftType : OFTType
  sharedDecimals : ℕ
  homeEid : ℕ
  homeAddress : Pubkey
  deriving DecidableEq, Repr

/-- on a spoke the store takes the mint over from the deployer -/
def handoffSpokeMint (w : World) (payer : Pubkey) : Except OFTError World := do
  let mint ← loadMint w.bank w.store.tokenMint
  if mint.mintAuthority = some d.oftStore then .ok w
  else if mint.mintAuthority = some payer then do
    let bank ← spl (w.bank.setMintAuthority w.store.tokenMint payer (some d.oftStore))
    .ok { w with bank }
  else .error .invalidMintAuthority

def Init.apply (bank : Bank Pubkey) (lamports : Pubkey → ℕ) (now : ℤ) (a : Init) : Except OFTError World := do
  let mint ← loadMint bank a.tokenMint
  let bank ← spl (bank.openAccount d.tokenEscrow a.tokenMint d.oftStore)
  require (mint.decimals = GRS_LOCAL_DECIMALS) .invalidGrsDecimals
  require (a.sharedDecimals ≤ mint.decimals) .invalidDecimals
  let ld2sdRate := 10 ^ (mint.decimals - a.sharedDecimals)
  require (ld2sdRate = GRS_LD2SD_RATE) .invalidGrsDecimals
  -- the metadata is created under the mint authority: the deployer or the store
  require (mint.mintAuthority = some a.payer ∨ mint.mintAuthority = some d.oftStore) .invalidMintAuthority
  let w : World :=
    { store :=
        { oftType := a.oftType, ld2sdRate, tokenMint := a.tokenMint, tvlLd := 0, admin := a.payer, pendingOwner := .default
          defaultFeeBps := 0, paused := false, pauser := none, unpauser := none }
      config :=
        { homeEid := a.homeEid, homeAddress := d.oftStore, genesisMinted := false, vestingCount := 0, tokenSalesSpent := 0
          salesReserved := 0 }
      peers := fun _ => none, peerRegistry := [], saleCount := 0, sales := fun _ => none, vestings := fun _ => none
      bank, lamports, now }
  if a.homeAddress = .default then do
    require (a.homeEid = 0) .invalidRecipient
    require (a.hasPeer = false) .invalidRecipient
    .ok w
  else do
    require (a.homeEid ≠ 0) .invalidRecipient
    require (a.hasPeer = true) .invalidRecipient
    let peerRegistry ← upsertPeer w.peerRegistry a.homeEid a.homeAddress
    let w := { w with
      peers := update w.peers a.homeEid (some { PeerConfig.empty with peerAddress := a.homeAddress })
      peerRegistry
      config := { w.config with homeAddress := a.homeAddress } }
    handoffSpokeMint d w a.payer

end Grindurus.Grs
