/-
Quotes of a transfer (`programs/grs/src/instructions/quote_oft.rs`, `quote_send.rs`).

`quote_oft` says what a transfer takes and what arrives of it; `quote_send` and `quote_bridge` ask the endpoint for its fee on the
message. The options of the message are not part of the world, nor is the fee itself.

- `QuoteOFT.apply`, `QuoteSend.apply`, `QuoteBridge.apply`: the views, the last two up to what they ask of the endpoint.
- `World.Modest`, `step_modest`: in every reachable state all fees are below the whole. `computeFee_total`: so nothing panics,
  and something arrives of whatever is sent.
- `Sent`: what a transfer takes, of whom. `sends_as_quoted`: a transfer does what was quoted, and what was quoted is not refused
  for any reason the quote looks at.

`compute_fee_and_adjust_amount` is one function for native stores and adapters. A native store removes dust and takes its own
fee. An adapter also asks the mint what its transfer fee would leave, and how much has to be sent for a given amount to arrive.
Where the mint withholds nothing both questions have the amount itself for an answer (`computeFee_plain`), and that is what is
quoted and sent here; `TransferFees` is about mints that withhold something.
-/
import Grindurus.Grs.Settings

namespace Grindurus.Grs

open Checked TokenBank Machine Function

variable (d : Deployment)

/-! ## The quotes -/

structure OFTLimits where
  minAmountLd : ℕ
  maxAmountLd : ℕ
  deriving DecidableEq, Repr

structure OFTFeeDetail where
  feeAmountLd : ℕ
  description : String
  deriving DecidableEq, Repr

structure OFTReceipt where
  amountSentLd : ℕ
  amountReceivedLd : ℕ
  deriving DecidableEq, Repr

structure QuoteOFTResult where
  oftLimits : OFTLimits
  oftFeeDetails : List OFTFeeDetail
  oftReceipt : OFTReceipt
  deriving DecidableEq, Repr

structure QuoteOFT where
  dstEid : ℕ
  amountLd : ℕ
  minAmountLd : ℕ
  deriving DecidableEq, Repr

def QuoteOFT.apply (w : World) (params : QuoteOFT) : Except OFTError QuoteOFTResult := do
  let peer ← demand (.accountNotInitialized (d.peer params.dstEid)) (w.peers params.dstEid)
  require (w.store.paused = false) .paused
  let r ← computeFeeAndAdjustAmount w.store d.transferFee params.amountLd peer.feeBps
  require (params.minAmountLd ≤ r.amountReceivedLd) .slippageExceeded
  let oftLimits : OFTLimits := ⟨0, 0xffffffffffffffff⟩
  let delivered ← checkedAdd u64 r.amountReceivedLd r.oftFeeLd .panicked
  let oftFeeDetails : List OFTFeeDetail :=
    if delivered < r.amountSentLd then [⟨r.amountSentLd - r.oftFeeLd - r.amountReceivedLd, "Token2022 Transfer Fee"⟩] else []
  let oftFeeDetails := if 0 < r.oftFeeLd then oftFeeDetails ++ [⟨r.oftFeeLd, "Cross Chain Fee"⟩] else oftFeeDetails
  .ok ⟨oftLimits, oftFeeDetails, ⟨r.amountSentLd, r.amountReceivedLd⟩⟩

/-- what the endpoint is asked to price -/
structure QuoteParams where
  sender : Pubkey
  dstEid : ℕ
  receiver : Pubkey
  message : List UInt8
  payInLzToken : Bool
  deriving DecidableEq, Repr

structure QuoteSend where
  dstEid : ℕ
  toKey : Pubkey
  amountLd : ℕ
  minAmountLd : ℕ
  composeMsg : Option (List UInt8)
  payInLzToken : Bool
  deriving DecidableEq, Repr

/-- the amount goes into the message in local decimals: the endpoint looks at the length -/
def quoteSendInner (w : World) (params : QuoteSend) : Except OFTError QuoteParams := do
  let peer ← demand (.accountNotInitialized (d.peer params.dstEid)) (w.peers params.dstEid)
  require (w.store.paused = false) .paused
  require (params.composeMsg = none) .composeDisabled
  require (params.toKey ≠ saleMsgType ∧ params.toKey ≠ grantMsgType) .invalidRecipient
  let r ← computeFeeAndAdjustAmount w.store d.transferFee params.amountLd peer.feeBps
  require (params.minAmountLd ≤ r.amountReceivedLd) .slippageExceeded
  .ok ⟨d.oftStore, params.dstEid, peer.peerAddress, encode params.toKey r.amountReceivedLd .default params.composeMsg,
    params.payInLzToken⟩

def QuoteSend.apply (w : World) (params : QuoteSend) : Except OFTError QuoteParams := quoteSendInner d w params

structure QuoteBridge where
  dstEid : ℕ
  toKey : Pubkey
  amountLd : ℕ
  deriving DecidableEq, Repr

def QuoteBridge.apply (w : World) (a : QuoteBridge) : Except OFTError QuoteParams :=
  quoteSendInner d w ⟨a.dstEid, a.toKey, a.amountLd, a.amountLd - a.amountLd % GRS_LD2SD_RATE, none, false⟩

/-! ## Fees -/

variable {d} {w w' : World} {s : OFTStore} {x : ℕ} {bps : Option ℕ}

/-- a fee of less than the whole leaves something -/
theorem calculateFee_lt {b : ℕ} (hb : bps.getD b < MAX_FEE_BASIS_POINTS) (hx : x < 2 ^ 64) (hpos : 0 < x) :
    calculateFee x b bps < x := by
  unfold calculateFee
  dsimp only
  split_ifs
  · exact hpos
  · have hlt : x * bps.getD b < x * ONE_IN_BASIS_POINTS := Nat.mul_lt_mul_of_pos_left hb hpos
    have hfee : x * bps.getD b / ONE_IN_BASIS_POINTS < x := Nat.div_lt_of_lt_mul (by rwa [Nat.mul_comm ONE_IN_BASIS_POINTS])
    rwa [Nat.mod_eq_of_lt (hfee.trans hx)]

theorem calculateFee_le {b : ℕ} (hb : bps.getD b < MAX_FEE_BASIS_POINTS) (hx : x < 2 ^ 64) : calculateFee x b bps ≤ x := by
  rcases Nat.eq_zero_or_pos x with rfl | hpos
  · simp [calculateFee]
  · exact (calculateFee_lt hb hx hpos).le

/-- what is sent, what is kept of it and what arrives -/
structure Charged (s : OFTStore) (x : ℕ) (bps : Option ℕ) (r : Receipt) : Prop where
  sent : r.amountSentLd = s.removeDust x
  fee : r.oftFeeLd = s.removeDust (calculateFee r.amountSentLd s.defaultFeeBps bps)
  adds : r.amountReceivedLd + r.oftFeeLd = r.amountSentLd
  whole : s.ld2sdRate ∣ r.amountReceivedLd
  arrives : 0 < r.amountSentLd → 0 < r.amountReceivedLd

/-- with a fee below the whole the computation cannot panic, and something is left of whatever is sent -/
theorem computeFee_total (hb : bps.getD s.defaultFeeBps < MAX_FEE_BASIS_POINTS) (hx : x < 2 ^ 64) :
    ∃ r, computeFeeAndAdjustAmount s d.transferFee x bps = .ok r ∧ Charged s x bps r := by
  have hfee : s.removeDust (calculateFee (s.removeDust x) s.defaultFeeBps bps) ≤ s.removeDust x :=
    (removeDust_le ..).trans (calculateFee_le hb ((removeDust_le s x).trans_lt hx))
  have hr : computeFeeAndAdjustAmount s d.transferFee x bps = .ok ⟨s.removeDust x,
      s.removeDust x - s.removeDust (calculateFee (s.removeDust x) s.defaultFeeBps bps),
      s.removeDust (calculateFee (s.removeDust x) s.defaultFeeBps bps)⟩ := by
    simp only [computeFee_plain, bind_ok, checkedSub_ok]
    exact ⟨_, ⟨hfee, rfl⟩, rfl⟩
  obtain ⟨hadds, -, hwhole⟩ := computeFee_ok hr
  refine ⟨_, hr, rfl, rfl, hadds, hwhole, fun hpos => ?_⟩
  have hlt := calculateFee_lt hb ((removeDust_le s x).trans_lt hx) hpos
  have hle := removeDust_le s (calculateFee (s.removeDust x) s.defaultFeeBps bps)
  dsimp only
  omega

/-- every fee that is set is below the whole -/
structure World.Modest (w : World) : Prop where
  default : w.store.defaultFeeBps < MAX_FEE_BASIS_POINTS
  peers : ∀ eid p bps, w.peers eid = some p → p.feeBps = some bps → bps < MAX_FEE_BASIS_POINTS

theorem World.Modest.fee {eid : ℕ} {p : PeerConfig} (h : w.Modest) (hp : w.peers eid = some p) :
    p.feeBps.getD w.store.defaultFeeBps < MAX_FEE_BASIS_POINTS := by
  cases hbps : p.feeBps with
  | none => exact h.default
  | some bps => exact h.peers eid p bps hp hbps

theorem World.Modest.of_rules (h : w.Modest) (hrules : w'.rules = w.rules) : w'.Modest := by
  have hdefault : w'.store.defaultFeeBps = w.store.defaultFeeBps := congrArg (fun r => r.1.1.defaultFeeBps) hrules
  refine ⟨hdefault ▸ h.default, fun eid p bps hp hbps => ?_⟩
  have hterms : (w'.peers eid).map PeerConfig.terms = (w.peers eid).map PeerConfig.terms :=
    congrFun (congrArg Prod.snd hrules) eid
  rw [hp, Option.map_some, eq_comm, Option.map_eq_some_iff] at hterms
  obtain ⟨p₀, hp₀, hsame⟩ := hterms
  have hfee : p₀.terms.feeBps = p.terms.feeBps := by rw [hsame]
  exact h.peers eid p₀ bps hp₀ (hfee.trans hbps)

/-- the fee of a peer is checked when it is set -/
theorem SetPeerConfig.apply_modest {a : SetPeerConfig} (h : a.apply w = .ok w') (hw : w.Modest) : w'.Modest := by
  simp only [SetPeerConfig.apply, bind_ok, Prod.exists, Except.ok.injEq] at h
  obtain ⟨-, -, peer, entries, hset, rfl⟩ := h
  have hpeer : ∀ bps, peer.feeBps = some bps → bps < MAX_FEE_BASIS_POINTS := by
    have hold : ∀ bps, ((w.peers a.remoteEid).getD .empty).feeBps = some bps → bps < MAX_FEE_BASIS_POINTS := by
      intro bps hbps
      cases hp : w.peers a.remoteEid with
      | none => simp [hp, PeerConfig.empty] at hbps
      | some p => exact hw.peers _ p bps hp (by simpa [hp] using hbps)
    cases hconfig : a.config with
    | feeBps feeBps =>
      simp only [hconfig, PeerConfig.set, bind_ok, require_ok, Except.ok.injEq, Prod.mk.injEq] at hset
      obtain ⟨-, hall, rfl, -⟩ := hset
      intro bps hbps
      simpa [show feeBps = some bps from hbps] using hall
    | peerAddress _ | outboundRateLimit _ | inboundRateLimit _ =>
      simp only [hconfig, PeerConfig.set, bind_ok, Except.ok.injEq, Prod.mk.injEq] at hset
      obtain ⟨_, -, rfl, -⟩ := hset
      exact hold
  refine ⟨hw.default, fun eid p bps hp hbps => ?_⟩
  rcases eq_or_ne eid a.remoteEid with rfl | he
  · obtain rfl : peer = p := by simpa using hp
    exact hpeer bps hbps
  · exact hw.peers eid p bps (by simpa [he] using hp) hbps

/-- no other instruction sets a fee -/
theorem step_modest (i : Instr) (hw : w.Modest) (hrate : w.store.ld2sdRate = GRS_LD2SD_RATE) (h : step d w i = .ok w') :
    w'.Modest := by
  cases hi : i.configures with
  | false => exact hw.of_rules (step_rules hrate hi h)
  | true =>
    obtain ⟨posted, he⟩ := step_ok.1 h
    have ha := (exec_ok he).2
    cases i with
    | setPeerConfig a => exact SetPeerConfig.apply_modest (silent_ok ha).1 hw
    | setOftConfig a =>
      have ha := (silent_ok ha).1
      simp only [SetOFTConfig.apply, bind_ok, Except.ok.injEq] at ha
      obtain ⟨-, -, s, hset, rfl⟩ := ha
      cases hparams : a.params with
      | admin successor =>
        simp only [hparams, OFTStore.set, proposeAdmin, bind_ok, Except.ok.injEq] at hset
        obtain ⟨-, -, rfl⟩ := hset
        exact ⟨hw.default, hw.peers⟩
      | defaultFee bps =>
        simp only [hparams, OFTStore.set, bind_ok, require_ok, Except.ok.injEq] at hset
        obtain ⟨-, hlt, rfl⟩ := hset
        exact ⟨hlt, hw.peers⟩
      | delegate _ | paused _ | pauser _ | unpauser _ =>
        rw [hparams] at hset
        cases hset
        exact ⟨hw.default, hw.peers⟩
    | transferOwnership a =>
      have ha := (silent_ok ha).1
      simp only [TransferOwnership.apply, proposeAdmin, bind_ok, Except.ok.injEq] at ha
      obtain ⟨-, -, _, ⟨-, -, rfl⟩, rfl⟩ := ha
      exact ⟨hw.default, hw.peers⟩
    | acceptOwnership a =>
      have ha := (silent_ok ha).1
      simp only [AcceptOwnership.apply, bind_ok, Except.ok.injEq] at ha
      obtain ⟨-, -, -, -, rfl⟩ := ha
      exact ⟨hw.default, hw.peers⟩
    | setPause a =>
      have ha := (silent_ok ha).1
      simp only [SetPause.apply, bind_ok, Except.ok.injEq] at ha
      obtain ⟨-, -, rfl⟩ := ha
      exact ⟨hw.default, hw.peers⟩
    | _ => cases hi

theorem Init.apply_modest {a : Init} {bank : Bank Pubkey} {lamports : Pubkey → ℕ} {now : ℤ}
    (h : a.apply d bank lamports now = .ok w) : w.Modest := by
  simp only [Init.apply, bind_ok] at h
  obtain ⟨_, -, _, -, -, -, -, -, -, -, -, -, h⟩ := h
  split_ifs at h
  · simp only [bind_ok, Except.ok.injEq] at h
    obtain ⟨-, -, -, -, rfl⟩ := h
    refine ⟨show 0 < MAX_FEE_BASIS_POINTS by decide, fun _ _ _ hp _ => ?_⟩
    cases hp
  · simp only [bind_ok] at h
    obtain ⟨-, -, -, -, _, -, h⟩ := h
    obtain ⟨b, rfl, -⟩ := handoffSpokeMint_ok h
    refine ⟨show 0 < MAX_FEE_BASIS_POINTS by decide, fun eid p bps hp hbps => ?_⟩
    rcases eq_or_ne eid a.homeEid with rfl | he
    · obtain rfl : { PeerConfig.empty with peerAddress := a.homeAddress } = p := by simpa using hp
      cases hbps
    · simp [he] at hp

theorem Genesis.modest (g : Genesis d) (is : List Instr) : (g.after is).Modest := by
  have hboth : (g.after is).Modest ∧ (g.after is).Solvent d :=
    run_invariant (P := fun w => w.Modest ∧ w.Solvent d)
      (fun _ i _ hw h => ⟨step_modest i hw.1 hw.2.rate h, Solvent.step hw.2 h⟩) g.world is
      ⟨Init.apply_modest g.initialized, Init.apply_solvent g.initialized⟩
  exact hboth.1

/-! ## Answers -/

/-- what `quote_oft` answers -/
def Receipt.quote (r : Receipt) : QuoteOFTResult :=
  ⟨⟨0, u64Max⟩, if 0 < r.oftFeeLd then [⟨r.oftFeeLd, "Cross Chain Fee"⟩] else [], ⟨r.amountSentLd, r.amountReceivedLd⟩⟩

theorem Charged.computes {r : Receipt} (h : Charged s x bps r) (hb : bps.getD s.defaultFeeBps < MAX_FEE_BASIS_POINTS)
    (hx : x < 2 ^ 64) : computeFeeAndAdjustAmount s d.transferFee x bps = .ok r := by
  obtain ⟨r', hr', hc⟩ := computeFee_total hb hx
  have hsent : r'.amountSentLd = r.amountSentLd := hc.sent.trans h.sent.symm
  have hfee : r'.oftFeeLd = r.oftFeeLd := by rw [hc.fee, h.fee, hsent]
  have hreceived : r'.amountReceivedLd = r.amountReceivedLd := by
    have hadds := hc.adds
    have hadds' := h.adds
    omega
  obtain rfl : r' = r := by
    cases r'
    cases r
    simp_all
  exact hr'

/-- nothing is kept but the fee -/
theorem quote_of_receipt {r : Receipt} {q : QuoteOFT} {p : PeerConfig} (hp : w.peers q.dstEid = some p)
    (hpaused : w.store.paused = false) (hr : computeFeeAndAdjustAmount w.store d.transferFee q.amountLd p.feeBps = .ok r)
    (hmin : q.minAmountLd ≤ r.amountReceivedLd) (hx : q.amountLd < 2 ^ 64) : q.apply d w = .ok r.quote := by
  obtain ⟨hadds, hle, -⟩ := computeFee_ok hr
  have hfits : r.amountReceivedLd + r.oftFeeLd < 2 ^ u64 := hadds ▸ hle.trans_lt hx
  simp only [QuoteOFT.apply, bind_ok, demand_ok, require_ok, checkedAdd_ok]
  refine ⟨p, hp, (), hpaused, r, hr, (), hmin, _, ⟨hfits, rfl⟩, ?_⟩
  simp [hadds, Receipt.quote, u64Max]

/-- when the view answers, and what it says -/
theorem QuoteOFT.apply_iff {q : QuoteOFT} {res : QuoteOFTResult} (hw : w.Modest) (hx : q.amountLd < 2 ^ 64) :
    q.apply d w = .ok res ↔ ∃ p r, w.peers q.dstEid = some p ∧ w.store.paused = false ∧
      Charged w.store q.amountLd p.feeBps r ∧ q.minAmountLd ≤ r.amountReceivedLd ∧ r.quote = res := by
  constructor
  · intro h
    have h' := h
    simp only [QuoteOFT.apply, bind_ok, demand_ok, require_ok] at h
    obtain ⟨p, hp, -, hpaused, r, hr, -, hmin, -⟩ := h
    obtain ⟨r', hr', hc⟩ := computeFee_total (hw.fee hp) hx
    obtain rfl := Except.ok.inj (hr'.symm.trans hr)
    exact ⟨p, r', hp, hpaused, hc, hmin, Except.ok.inj ((quote_of_receipt hp hpaused hr hmin hx).symm.trans h')⟩
  · rintro ⟨p, r, hp, hpaused, hc, hmin, rfl⟩
    exact quote_of_receipt hp hpaused (hc.computes (hw.fee hp) hx) hmin hx

/-! ## Transfers -/

namespace World

/-- what a store keeps of a transfer -/
def retains (w : World) (r : Receipt) : ℕ :=
  match w.store.oftType with
  | .adapter => r.amountSentLd
  | .native => r.oftFeeLd

/-- what a store burns, or does not -/
def burns (w : World) (x : ℕ) : ℕ :=
  match w.store.oftType with
  | .adapter => 0
  | .native => x

/-- what a store locks, or does not -/
def locks (w : World) (x : ℕ) : ℕ :=
  match w.store.oftType with
  | .adapter => x
  | .native => 0

end World

/-- what a transfer takes, and of whom -/
structure Sent (d : Deployment) (a : Send) (r : Receipt) (w w' : World) : Prop where
  debited : ∀ k, w'.bank.balance k + (if k = a.tokenSource then r.amountSentLd else 0) =
    w.bank.balance k + if k = d.tokenEscrow then w.retains r else 0
  locked : w'.store.tvlLd = w.store.tvlLd + w.locks r.amountReceivedLd
  burned : w'.supply + w.burns r.amountReceivedLd = w.supply

/-- the sender is debited what the receipt says: burned on a native store, locked on an adapter, with the fee kept -/
theorem Send.debit_sent {a : Send} {r : Receipt} (h : a.debit d w r = .ok w')
    (hadds : r.amountReceivedLd + r.oftFeeLd = r.amountSentLd) : Sent d a r w w' := by
  unfold Send.debit at h
  cases hkind : w.store.oftType with
  | adapter =>
    simp only [hkind, bind_ok, checkedAdd_ok, spl_ok, Except.ok.injEq] at h
    obtain ⟨_, ⟨-, rfl⟩, b, hb, rfl⟩ := h
    have hsupply : b.supply w.store.tokenMint = w.bank.supply w.store.tokenMint := Bank.transfer_supply hb _
    refine ⟨?_, ?_, ?_⟩
    · simpa only [World.retains, hkind] using Bank.transfer_balance hb
    · simp [World.locks, hkind]
    · rw [World.burns, hkind]
      exact hsupply
  | native =>
    simp only [hkind, bind_ok, checkedSub_ok, spl_ok, Except.ok.injEq] at h
    obtain ⟨_, ⟨-, rfl⟩, b, hb, b', hb', rfl⟩ := h
    have hburn : r.amountSentLd - r.oftFeeLd = r.amountReceivedLd := by omega
    rw [hburn] at hb
    have hpaid : ∀ k, b'.balance k + (if k = a.tokenSource then r.oftFeeLd else 0) =
        b.balance k + if k = d.tokenEscrow then r.oftFeeLd else 0 := by
      split_ifs at hb' with hfee
      · exact Bank.transfer_balance (spl_ok.1 hb')
      · cases hb'
        have hzero : r.oftFeeLd = 0 := by omega
        simp [hzero]
    have hsupply : b'.supply w.store.tokenMint = b.supply w.store.tokenMint := by
      split_ifs at hb' with hfee
      · exact Bank.transfer_supply (spl_ok.1 hb') _
      · cases hb'
        rfl
    refine ⟨fun k => ?_, ?_, ?_⟩
    · have hk := hpaid k
      have hburned := Bank.burn_balance hb k
      simp only [World.retains, hkind]
      split_ifs at hk hburned ⊢ <;> omega
    · simp [World.locks, hkind]
    · have hburned := Bank.burn_supply hb
      simp only [World.burns, hkind]
      show b'.supply w.store.tokenMint + r.amountReceivedLd = w.bank.supply w.store.tokenMint
      omega

/-- what is asked of the endpoint for a message, and what it is handed: they differ in how the amount is written -/
structure Priced (d : Deployment) (a : Send) (r : Receipt) (w : World) (price : QuoteParams) (o : Outbound) : Prop where
  sender : price.sender = d.oftStore
  dstEid : price.dstEid = o.dstEid
  receiver : price.receiver = o.receiver
  asked : price.message = encode a.toKey r.amountReceivedLd .default none
  posted : o.message = encode a.toKey (w.store.ld2sd r.amountReceivedLd) a.signer none
  size : price.message.length = o.message.length

/-- the quote that goes with a send -/
inductive Instr.Quoted (d : Deployment) (w : World) : Instr → Send → Except OFTError QuoteParams → Prop where
  | send (a : Send) (pay : Bool) :
    Quoted d w (.send a) a (QuoteSend.apply d w ⟨a.dstEid, a.toKey, a.amountLd, a.minAmountLd, a.composeMsg, pay⟩)
  | bridge (a : Send) : Quoted d w (.bridge a) (Grs.bridge a) (QuoteBridge.apply d w ⟨a.dstEid, a.toKey, a.amountLd⟩)

/-- what a transfer that commits read -/
theorem Send.apply_reads {a : Send} {o : Outbound} (h : a.apply d w = .ok (w', o)) :
    ∃ p p' r, w.peers a.dstEid = some p ∧ w.store.paused = false ∧
      computeFeeAndAdjustAmount w.store d.transferFee a.amountLd p.feeBps = .ok r ∧ a.minAmountLd ≤ r.amountReceivedLd ∧ a.composeMsg = none ∧
      (a.toKey ≠ saleMsgType ∧ a.toKey ≠ grantMsgType) ∧ p.outbound w.now r.amountReceivedLd = .ok p' ∧ Sent d a r w w' ∧
      w'.store.ld2sdRate = w.store.ld2sdRate ∧
      o = ⟨a.dstEid, p'.peerAddress, encode a.toKey (w.store.ld2sd r.amountReceivedLd) a.signer none⟩ := by
  simp only [Send.apply, bind_ok, demand_ok, require_ok, Except.ok.injEq, Prod.mk.injEq] at h
  obtain ⟨p, hp, _, -, _, -, -, hpaused, r, hr, -, hmin, p', hp', w₁, hd, -, -, -, hcompose, -, hto, rfl, rfl⟩ := h
  have hsent := Send.debit_sent hd (computeFee_ok hr).1
  have hrate : w₁.store.ld2sdRate = w.store.ld2sdRate := by
    unfold Send.debit at hd
    split at hd
    · simp only [bind_ok, Except.ok.injEq] at hd
      obtain ⟨_, -, _, -, rfl⟩ := hd
      rfl
    · simp only [bind_ok, Except.ok.injEq] at hd
      obtain ⟨_, -, _, -, _, -, rfl⟩ := hd
      rfl
  refine ⟨p, p', r, hp, hpaused, hr, hmin, hcompose, hto, hp', ⟨hsent.debited, hsent.locked, hsent.burned⟩, hrate, ?_⟩
  rw [hcompose, OFTStore.ld2sd, OFTStore.ld2sd, hrate]

theorem outbound_address {p p' : PeerConfig} {now : ℤ} (h : p.outbound now x = .ok p') : p'.peerAddress = p.peerAddress := by
  have hterms : p'.terms.peerAddress = p.terms.peerAddress := by rw [outbound_terms h]
  exact hterms

theorem quoteSend_of_reads {params : QuoteSend} {p : PeerConfig} {r : Receipt} (hp : w.peers params.dstEid = some p)
    (hpaused : w.store.paused = false) (hcompose : params.composeMsg = none)
    (hto : params.toKey ≠ saleMsgType ∧ params.toKey ≠ grantMsgType)
    (hr : computeFeeAndAdjustAmount w.store d.transferFee params.amountLd p.feeBps = .ok r) (hmin : params.minAmountLd ≤ r.amountReceivedLd) :
    params.apply d w = .ok ⟨d.oftStore, params.dstEid, p.peerAddress,
      encode params.toKey r.amountReceivedLd .default params.composeMsg, params.payInLzToken⟩ := by
  simp only [QuoteSend.apply, quoteSendInner, bind_ok, demand_ok, require_ok]
  exact ⟨p, hp, (), hpaused, (), hcompose, (), hto, r, hr, (), hmin, rfl⟩

/-- what is quoted is not refused for what the quote looked at -/
def Quotable : Set OFTError := {e | e ≠ .paused ∧ e ≠ .slippageExceeded ∧ e ≠ .composeDisabled ∧ e ≠ .invalidRecipient}

@[simp] theorem mem_quotable {e : OFTError} :
    e ∈ Quotable ↔ e ≠ .paused ∧ e ≠ .slippageExceeded ∧ e ≠ .composeDisabled ∧ e ≠ .invalidRecipient := Iff.rfl

@[simp] theorem outbound_quotable {p : PeerConfig} {now : ℤ} : Throws Quotable (p.outbound now x) :=
  outbound_throws.mono (by simp [Set.insert_subset_iff])

theorem debit_quotable {a : Send} {r : Receipt} : Throws Quotable (a.debit d w r) := by
  unfold Send.debit
  cases w.store.oftType with
  | adapter => simp
  | native =>
    refine .bind (by simp) fun _ _ => .bind (by simp) fun b _ => .bind ?_ fun _ _ => by simp
    split_ifs <;> simp

theorem Send.apply_quotable {a : Send} {pay : Bool} {price : QuoteParams}
    (h : QuoteSend.apply d w ⟨a.dstEid, a.toKey, a.amountLd, a.minAmountLd, a.composeMsg, pay⟩ = .ok price) :
    Throws Quotable (a.apply d w) := by
  simp only [QuoteSend.apply, quoteSendInner, bind_ok, demand_ok, require_ok] at h
  obtain ⟨p, hp, -, hpaused, -, hcompose, -, hto, r, hr, -, hmin, -⟩ := h
  unfold Send.apply
  refine .bind (by simp) fun p₁ hp₁ => ?_
  obtain rfl : p = p₁ := Option.some.inj (hp.symm.trans (demand_ok.1 hp₁))
  refine .bind (by simp [loadOwned, loadToken, loadTokenAccount]) fun _ _ =>
    .bind (by simp [loadOwned, loadToken, loadTokenAccount]) fun _ _ => .bind (by simp [hpaused]) fun _ _ => .bind (by simp [hr])
    fun r₁ hr₁ => ?_
  obtain rfl := Except.ok.inj (hr.symm.trans hr₁)
  refine .bind (by simp [hmin]) fun _ _ => .bind (by simp) fun _ _ => .bind debit_quotable fun _ _ =>
    .bind (by simp) fun _ _ => ?_
  exact .bind (by simp [hcompose]) fun _ _ => .bind (by simp [hto]) fun _ _ => by simp

/-- a transfer does what was quoted -/
theorem Send.apply_quoted {a : Send} {o : Outbound} (pay : Bool) (h : a.apply d w = .ok (w', o)) (hx : a.amountLd < 2 ^ 64) :
    ∃ r price, QuoteOFT.apply d w ⟨a.dstEid, a.amountLd, a.minAmountLd⟩ = .ok r.quote ∧
      QuoteSend.apply d w ⟨a.dstEid, a.toKey, a.amountLd, a.minAmountLd, a.composeMsg, pay⟩ = .ok price ∧
      Priced d a r w price o ∧ Sent d a r w w' := by
  obtain ⟨p, p', r, hp, hpaused, hr, hmin, hcompose, hto, hp', hsent, -, rfl⟩ := Send.apply_reads h
  refine ⟨r, _, quote_of_receipt hp hpaused hr hmin hx, quoteSend_of_reads hp hpaused hcompose hto hr hmin, ?_, hsent⟩
  refine ⟨rfl, rfl, (outbound_address hp').symm, ?_, rfl, ?_⟩
  · rw [hcompose]
  · simp [hcompose, encode]

/-- **A transfer does what was quoted.** Of a token that withholds nothing: in every reachable state `quote_oft` answers exactly
if the peer is there, nothing is paused and enough arrives: the amount less the dust is sent, less the fee it arrives, and
something arrives of whatever is sent. A send or a bridge that commits was quoted there: it takes what was quoted, and its
message goes where the quoted one goes and is as long. One that was quoted is not refused for the pause, the slippage, a compose
message or the recipient. The fee of the endpoint is not part of the quote of the amounts, and is not modelled: the endpoint is
asked for it with the message that is compared here. -/
theorem sends_as_quoted (g : Genesis d) (is : List Instr) :
    let w := g.after is
    (∀ (q : QuoteOFT) res, q.amountLd < 2 ^ 64 → (q.apply d w = .ok res ↔ ∃ p r, w.peers q.dstEid = some p ∧
      w.store.paused = false ∧ Charged w.store q.amountLd p.feeBps r ∧ q.minAmountLd ≤ r.amountReceivedLd ∧ r.quote = res)) ∧
    ∀ i a quote, Instr.Quoted d w i a quote →
      (∀ w' posted, a.amountLd < 2 ^ 64 → exec d w i = .ok (w', posted) → ∃ r price o, posted = some o ∧ quote = .ok price ∧
        QuoteOFT.apply d w ⟨a.dstEid, a.amountLd, a.minAmountLd⟩ = .ok r.quote ∧ Priced d a r w price o ∧ Sent d a r w w') ∧
      ∀ price e, quote = .ok price → exec d w i = .error e →
        e ≠ .paused ∧ e ≠ .slippageExceeded ∧ e ≠ .composeDisabled ∧ e ≠ .invalidRecipient := by
  have hposting : ∀ {a : Send} {k : Pubkey}, Throws Quotable (a.apply d (g.after is)) →
      Throws Quotable (checkSigner d (some k) >>= fun _ => posting (a.apply d (g.after is))) := fun ha =>
    .bind (by simp [checkSigner]) fun _ _ => .bind ha fun _ _ => by simp
  refine ⟨fun q res hx => QuoteOFT.apply_iff (g.modest is) hx, fun i a quote hquote => ?_⟩
  cases hquote with
  | send a pay =>
    refine ⟨fun w' posted hx h => ?_, fun price e hprice he => ?_⟩
    · obtain ⟨o, ho, rfl⟩ := posting_ok (exec_ok h).2
      obtain ⟨r, price, hoft, hsend, hpriced, hsent⟩ := Send.apply_quoted pay ho hx
      exact ⟨r, price, o, rfl, hsend, hoft, hpriced, hsent⟩
    · exact hposting (Send.apply_quotable hprice) e he
  | bridge a =>
    refine ⟨fun w' posted hx h => ?_, fun price e hprice he => ?_⟩
    · obtain ⟨o, ho, rfl⟩ := posting_ok (exec_ok h).2
      obtain ⟨r, price, hoft, hsend, hpriced, hsent⟩ := Send.apply_quoted false ho hx
      exact ⟨r, price, o, rfl, hsend, hoft, hpriced, hsent⟩
    · exact hposting (Send.apply_quotable (a := bridge a) hprice) e he

end Grindurus.Grs
