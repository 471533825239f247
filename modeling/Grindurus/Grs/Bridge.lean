/-
Sending GRS to another chain, and the token side of the store (`programs/grs/src/state/peer_config.rs`,
`instructions/send.rs`, `quote_send.rs`, `mint_genesis.rs`, `withdraw_fee.rs`).

A native store burns what it sends, less a fee it keeps; an adapter locks it. What travels is a whole number of shared units.

- `RateLimiter`: the token bucket of a path, refilled by the clock and by traffic the other way.
- `computeFeeAndAdjustAmount`: sent, received and fee, with what the mint withholds of a transfer through an adapter.
  `computeFee_plain`: where that is nothing, a native store and an adapter adjust alike. `computeFee_ok`: then they add up, free
  of dust.
- `Send.apply`, `bridge`, `MintGenesis.apply`, `WithdrawFee.apply`: the instructions.
-/
import Grindurus.Grs.Codec

namespace Grindurus.Grs

open Checked TokenBank Function

variable (d : Deployment)

/-! ## The clock and the rate limiters -/

/-- the clock as a `u64` -/
def unixTime (now : ℤ) (e : OFTError) : Except OFTError ℕ := do
  require (0 ≤ now) e
  .ok now.toNat

def saturatingAdd (a b : ℕ) : ℕ := min (a + b) u64Max

def saturatingMul (a b : ℕ) : ℕ := min (a * b) u64Max

namespace RateLimiter

def default : RateLimiter := ⟨0, 0, 0, 0⟩

def refill (r : RateLimiter) (now : ℤ) (extraTokens : ℕ) : Except OFTError RateLimiter := do
  let currentTime ← unixTime now .panicked
  let newTokens :=
    if r.lastRefillTime < currentTime then
      saturatingAdd extraTokens (saturatingMul (currentTime - r.lastRefillTime) r.refillPerSecond)
    else extraTokens
  .ok { r with tokens := min r.capacity (saturatingAdd r.tokens newTokens), lastRefillTime := currentTime }

def setRate (r : RateLimiter) (now : ℤ) (refillPerSecond : ℕ) : Except OFTError RateLimiter := do
  let r ← r.refill now 0
  .ok { r with refillPerSecond }

def setCapacity (r : RateLimiter) (now : ℤ) (capacity : ℕ) : Except OFTError RateLimiter := do
  let lastRefillTime ← unixTime now .panicked
  .ok { r with capacity, tokens := capacity, lastRefillTime }

def tryConsume (r : RateLimiter) (now : ℤ) (amount : ℕ) : Except OFTError RateLimiter := do
  let r ← r.refill now 0
  let tokens ← checkedSub r.tokens amount .rateLimitExceeded
  .ok { r with tokens }

end RateLimiter

/-- a limiter acts where one is set -/
def onLimiter (f : RateLimiter → Except OFTError RateLimiter) : Option RateLimiter → Except OFTError (Option RateLimiter)
  | none => .ok none
  | some r => do
    let r ← f r
    .ok (some r)

/-- `amount` leaves through the peer: it uses up the outbound limit and frees the inbound one -/
def PeerConfig.outbound (p : PeerConfig) (now : ℤ) (amount : ℕ) : Except OFTError PeerConfig := do
  let outboundRateLimiter ← onLimiter (·.tryConsume now amount) p.outboundRateLimiter
  let inboundRateLimiter ← onLimiter (·.refill now amount) p.inboundRateLimiter
  .ok { p with outboundRateLimiter, inboundRateLimiter }

/-- `amount` arrives from the peer -/
def PeerConfig.inbound (p : PeerConfig) (now : ℤ) (amount : ℕ) : Except OFTError PeerConfig := do
  let inboundRateLimiter ← onLimiter (·.tryConsume now amount) p.inboundRateLimiter
  let outboundRateLimiter ← onLimiter (·.refill now amount) p.outboundRateLimiter
  .ok { p with inboundRateLimiter, outboundRateLimiter }

/-! ## Fees -/

def calculateFee (preFeeAmount defaultFeeBps : ℕ) (feeBps : Option ℕ) : ℕ :=
  let finalFeeBps := feeBps.getD defaultFeeBps
  if finalFeeBps = 0 ∨ preFeeAmount = 0 then 0
  else preFeeAmount * finalFeeBps / ONE_IN_BASIS_POINTS % 2 ^ 64

structure Receipt where
  amountSentLd : ℕ
  amountReceivedLd : ℕ
  oftFeeLd : ℕ
  deriving DecidableEq, Repr

namespace Token2022

/-! ## The fee of the token -/

def fits (w a : ℕ) : Option ℕ := if a < 2 ^ w then some a else none

def checkedSub (a b : ℕ) : Option ℕ := if b ≤ a then some (a - b) else none

def ceilDiv (numerator denominator : ℕ) : Option ℕ := do
  let sum ← fits u128 (numerator + denominator)
  let sum ← checkedSub sum 1
  if denominator = 0 then none else some (sum / denominator)

def calculatePreFeeAmount (fee : TransferFee) (postFeeAmount : ℕ) : Option ℕ :=
  if fee.transferFeeBasisPoints = 0 then some postFeeAmount
  else if postFeeAmount = 0 then some 0
  else if fee.transferFeeBasisPoints = ONE_IN_BASIS_POINTS then fits u64 (fee.maximumFee + postFeeAmount)
  else do
    let numerator ← fits u128 (postFeeAmount * ONE_IN_BASIS_POINTS)
    let denominator ← checkedSub ONE_IN_BASIS_POINTS fee.transferFeeBasisPoints
    let rawPreFeeAmount ← ceilDiv numerator denominator
    let added ← checkedSub rawPreFeeAmount postFeeAmount
    if fee.maximumFee ≤ added then fits u64 (postFeeAmount + fee.maximumFee) else fits u64 rawPreFeeAmount

end Token2022

/-- what is left of an amount when it is transferred; a mint without the extension leaves all of it -/
def getPostFeeAmountLd (tokenMint : Option Token2022.TransferFeeConfig) (amountLd : ℕ) : Except OFTError ℕ :=
  match tokenMint with
  | some c => demand .invalidArgument (c.calculatePostFeeAmount amountLd)
  | none => .ok amountLd

/-- what has to be sent for an amount to be left -/
def getPreFeeAmountLd (tokenMint : Option Token2022.TransferFeeConfig) (amountLd : ℕ) : Except OFTError ℕ :=
  match tokenMint with
  | some c => demand .invalidArgument (Token2022.calculatePreFeeAmount c.epochFee amountLd)
  | none => .ok amountLd

/-- an adapter asks the mint for its transfer fee; a native token has none -/
def computeFeeAndAdjustAmount (s : OFTStore) (tokenMint : Option Token2022.TransferFeeConfig) (amountLd : ℕ)
    (feeBps : Option ℕ) : Except OFTError Receipt :=
  match s.oftType with
  | .adapter => do
    let postFeeAmountLd ← getPostFeeAmountLd tokenMint amountLd
    let amountReceivedLd := s.removeDust postFeeAmountLd
    let amountSentLd ← getPreFeeAmountLd tokenMint amountReceivedLd
    let oftFeeLd := s.removeDust (calculateFee amountReceivedLd s.defaultFeeBps feeBps)
    let amountReceivedLd ← checkedSub amountReceivedLd oftFeeLd .panicked
    .ok ⟨amountSentLd, amountReceivedLd, oftFeeLd⟩
  | .native => do
    let amountSentLd := s.removeDust amountLd
    let oftFeeLd := s.removeDust (calculateFee amountSentLd s.defaultFeeBps feeBps)
    let amountReceivedLd ← checkedSub amountSentLd oftFeeLd .panicked
    .ok ⟨amountSentLd, amountReceivedLd, oftFeeLd⟩

variable {d}

@[simp] theorem getPostFeeAmountLd_whole (x : ℕ) : getPostFeeAmountLd d.transferFee x = .ok x := by
  unfold getPostFeeAmountLd
  split
  · rename_i c hc
    rw [(d.withholdsNothing c hc).whole]
    rfl
  · rfl

@[simp] theorem getPreFeeAmountLd_whole (x : ℕ) : getPreFeeAmountLd d.transferFee x = .ok x := by
  unfold getPreFeeAmountLd
  split
  · rename_i c hc
    rw [Token2022.calculatePreFeeAmount, if_pos (d.withholdsNothing c hc).points]
    rfl
  · rfl

/-- where nothing is withheld, both kinds of store adjust alike -/
theorem computeFee_plain (s : OFTStore) (x : ℕ) (bps : Option ℕ) :
    computeFeeAndAdjustAmount s d.transferFee x bps = (do
      let oftFeeLd := s.removeDust (calculateFee (s.removeDust x) s.defaultFeeBps bps)
      let amountReceivedLd ← checkedSub (s.removeDust x) oftFeeLd .panicked
      .ok ⟨s.removeDust x, amountReceivedLd, oftFeeLd⟩) := by
  unfold computeFeeAndAdjustAmount
  cases s.oftType
  · rfl
  · simp [bind, Except.bind]

theorem removeDust_dvd (s : OFTStore) (x : ℕ) : s.ld2sdRate ∣ s.removeDust x := Nat.dvd_sub_mod x

theorem removeDust_le (s : OFTStore) (x : ℕ) : s.removeDust x ≤ x := Nat.sub_le ..

/-- what is sent is received or kept as the fee, and what is received has no dust -/
theorem computeFee_ok {s : OFTStore} {x : ℕ} {bps : Option ℕ} {r : Receipt}
    (h : computeFeeAndAdjustAmount s d.transferFee x bps = .ok r) :
    r.amountReceivedLd + r.oftFeeLd = r.amountSentLd ∧ r.amountSentLd ≤ x ∧ s.ld2sdRate ∣ r.amountReceivedLd := by
  simp only [computeFee_plain, bind_ok, checkedSub_ok, Except.ok.injEq] at h
  obtain ⟨_, ⟨hle, rfl⟩, rfl⟩ := h
  exact ⟨Nat.sub_add_cancel hle, removeDust_le .., Nat.dvd_sub (removeDust_dvd ..) (removeDust_dvd ..)⟩

variable (d)

/-! ## Sending -/

structure Send where
  signer : Pubkey
  tokenSource : Pubkey
  /-- the sender among the accounts of the endpoint -/
  endpointSender : Pubkey
  dstEid : ℕ
  toKey : Pubkey
  amountLd : ℕ
  minAmountLd : ℕ
  composeMsg : Option (List UInt8)
  deriving DecidableEq, Repr

/-- take what is sent out of `token_source`: an adapter locks all of it, a native store burns all but the fee. What an adapter
adds to `tvl_ld` is what is received; of a token that withholds nothing all that is sent lies in the escrow -/
def Send.debit (w : World) (a : Send) (r : Receipt) : Except OFTError World :=
  match w.store.oftType with
  | .adapter => do
    let tvlLd ← checkedAdd u64 w.store.tvlLd r.amountReceivedLd .panicked
    let bank ← spl (w.bank.transfer a.tokenSource d.tokenEscrow a.signer r.amountSentLd)
    .ok { w with bank, store := { w.store with tvlLd } }
  | .native => do
    let burned ← checkedSub r.amountSentLd r.oftFeeLd .panicked
    let bank ← spl (w.bank.burn w.store.tokenMint a.tokenSource a.signer burned)
    let bank ← (if 0 < r.oftFeeLd then spl (bank.transfer a.tokenSource d.tokenEscrow a.signer r.oftFeeLd) else .ok bank)
    .ok { w with bank }

def Send.apply (w : World) (a : Send) : Except OFTError (World × Outbound) := do
  let peer ← demand (.accountNotInitialized (d.peer a.dstEid)) (w.peers a.dstEid)
  let _ ← loadOwned w.bank a.tokenSource w.store.tokenMint a.signer
  let _ ← loadOwned w.bank d.tokenEscrow w.store.tokenMint d.oftStore
  require (w.store.paused = false) .paused
  let r ← computeFeeAndAdjustAmount w.store d.transferFee a.amountLd peer.feeBps
  require (a.minAmountLd ≤ r.amountReceivedLd) .slippageExceeded
  let peer ← peer.outbound w.now r.amountReceivedLd
  let w ← a.debit d w r
  require (a.endpointSender = d.oftStore) .invalidSender
  require (a.composeMsg = none) .composeDisabled
  require (a.toKey ≠ saleMsgType ∧ a.toKey ≠ grantMsgType) .invalidRecipient
  let amountSd := w.store.ld2sd r.amountReceivedLd
  .ok ({ w with peers := update w.peers a.dstEid (some peer) },
    ⟨a.dstEid, peer.peerAddress, encode a.toKey amountSd a.signer a.composeMsg⟩)

/-- `send` of everything but the dust, with no compose message -/
def bridge (a : Send) : Send := { a with minAmountLd := a.amountLd - a.amountLd % GRS_LD2SD_RATE, composeMsg := none }

/-! ## Genesis and fees -/

structure MintGenesis where
  admin : Pubkey
  toKey : Pubkey
  deriving DecidableEq, Repr

/-- the whole supply, once, on the home chain; from then on only the store mints -/
def MintGenesis.apply (w : World) (a : MintGenesis) : Except OFTError World := do
  require (w.store.admin = a.admin) .unauthorized
  require (w.store.oftType = .native) .invalidMintAuthority
  require (w.config.homeEid = 0) .genesisDisabled
  require (w.config.genesisMinted = false) .genesisDisabled
  let mint ← loadMint w.bank w.store.tokenMint
  let _ ← loadToken w.bank a.toKey w.store.tokenMint
  require (mint.supply = 0) .nonZeroSupply
  require (mint.decimals = GRS_LOCAL_DECIMALS) .invalidGrsDecimals
  require (mint.mintAuthority = some a.admin) .invalidMintAuthority
  let bank ← spl (w.bank.mintTo w.store.tokenMint a.toKey a.admin GRS_MAX_SUPPLY_LD)
  let bank ← spl (bank.setMintAuthority w.store.tokenMint a.admin (some d.oftStore))
  .ok { w with bank, config := { w.config with genesisMinted := true } }

structure WithdrawFee where
  admin : Pubkey
  tokenDest : Pubkey
  feeLd : ℕ
  deriving DecidableEq, Repr

def WithdrawFee.apply (w : World) (a : WithdrawFee) : Except OFTError World := do
  require (w.store.admin = a.admin) .unauthorized
  let escrow ← loadOwned w.bank d.tokenEscrow w.store.tokenMint d.oftStore
  let _ ← loadToken w.bank a.tokenDest w.store.tokenMint
  let free ← checkedSub escrow.amount w.store.tvlLd .panicked
  require (a.feeLd ≤ free) .invalidFee
  let bank ← spl (w.bank.transfer d.tokenEscrow a.tokenDest d.oftStore a.feeLd)
  .ok { w with bank }

end Grindurus.Grs
