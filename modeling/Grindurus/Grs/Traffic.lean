/-
The traffic between a store and its peers is limited (`programs/grs/src/instructions/send.rs`, `lz_receive.rs`,
`set_peer_config.rs`).

- `Leaves`: what a computation commits, it leaves the peers alone. Most instructions do.
- `step_effect`: what an instruction does to the peers: nothing, a send, a credit, or new terms.
- `peers_limited`: so in every state of a store no limiter is overfull.
- `traffic_limited`: and while its terms stand, what goes through a limiter keeps to its token bucket, refilled by the traffic the
  other way.

A rate limiter is a token bucket that traffic in the other direction refills: what comes in may go out again. The abstract bucket
is in `TokenBucket`; here each committed send takes from the outbound bucket of its peer and gives to the inbound one, each
committed delivery the other way, and nothing else touches either. The limits are on amounts in transit, in local decimals, so
the fee that a store keeps is not counted.

Between two settings of a limiter by the admin the terms stand; a new setting starts a new bucket.
-/
import Grindurus.Grs.Limits
import Grindurus.Grs.Effects

namespace Grindurus.Grs

open Checked Machine TokenBank Function

variable {r r' : RateLimiter} {now : ℤ} {x : ℕ} {d : Deployment} {w w' : World} {α : Type}

/-! ## What leaves the peers alone -/

/-- whatever `x` commits, the peers are those of `w`, and so is the time -/
def Leaves (w : World) (x : Except OFTError World) : Prop := ∀ w', x = .ok w' → w'.peers = w.peers ∧ w'.now = w.now

@[simp] theorem leaves_ok : Leaves w (.ok w') ↔ w'.peers = w.peers ∧ w'.now = w.now :=
  ⟨fun h => h w' rfl, fun h _ he => Except.ok.inj he ▸ h⟩

@[simp] theorem leaves_error {e : OFTError} : Leaves w (.error e) := fun _ h => nomatch h

theorem Leaves.bind {x : Except OFTError α} {f : α → Except OFTError World} (h : ∀ a, Leaves w (f a)) : Leaves w (x >>= f) := by
  intro w' he
  obtain ⟨a, -, hf⟩ := bind_ok.1 he
  exact h a w' hf

theorem Leaves.seq {x : Except OFTError World} {f : World → Except OFTError World} (hx : Leaves w x) (hf : ∀ v, Leaves v (f v)) :
    Leaves w (x >>= f) := by
  intro w' he
  obtain ⟨v, hv, hw'⟩ := bind_ok.1 he
  obtain ⟨hp, hn⟩ := hx v hv
  obtain ⟨hp', hn'⟩ := hf v w' hw'
  exact ⟨hp'.trans hp, hn'.trans hn⟩

theorem leaves_creditEscrow {a : LzReceive} {dst : Pubkey} (w : World) : Leaves w (creditEscrow d w a dst x) := by
  unfold creditEscrow
  cases w.store.oftType with
  | adapter => exact .bind fun _ => .bind fun _ => leaves_ok.2 ⟨rfl, rfl⟩
  | native => exact .bind fun _ => .bind fun _ => .bind fun _ => .bind fun _ => leaves_ok.2 ⟨rfl, rfl⟩

theorem leaves_debitSaleEscrow (w : World) : Leaves w (debitSaleEscrow d w x) := by
  unfold debitSaleEscrow
  split_ifs
  · exact leaves_ok.2 ⟨rfl, rfl⟩
  · cases w.store.oftType with
    | adapter => exact .bind fun _ => .bind fun _ => leaves_ok.2 ⟨rfl, rfl⟩
    | native => exact .bind fun _ => leaves_ok.2 ⟨rfl, rfl⟩

theorem leaves_growLot {a : LzReceive} (w : World) : Leaves w (growLot d w a x) :=
  .seq (leaves_creditEscrow w) fun _ => .bind fun _ => leaves_ok.2 ⟨rfl, rfl⟩

theorem leaves_shrinkLot (w : World) : Leaves w (shrinkLot d w x) :=
  .bind fun _ => leaves_debitSaleEscrow _

/-- lots move tokens and rows, and no peer -/
theorem leaves_resizeLot {a : LzReceive} {previous : Option ℕ} (w : World) : Leaves w (resizeLot d w a previous x) := by
  unfold resizeLot
  cases previous with
  | none =>
    dsimp only
    split_ifs
    · exact leaves_growLot w
    · exact leaves_ok.2 ⟨rfl, rfl⟩
  | some previous =>
    dsimp only
    split_ifs
    · exact .bind fun _ => leaves_growLot w
    · exact .bind fun _ => leaves_shrinkLot w
    · exact leaves_ok.2 ⟨rfl, rfl⟩

theorem leaves_receiveSale {a : LzReceive} {message : List UInt8} (w : World) : Leaves w (receiveSale d w a message) := by
  unfold receiveSale
  refine .bind fun _ => .bind fun m => .bind fun _ => .bind fun _ => .bind fun _ => .bind fun previous => ?_
  split_ifs
  · exact leaves_ok.2 ⟨rfl, rfl⟩
  · refine .seq ?_ fun v => leaves_resizeLot { v with saleCount := _ }
    exact .bind fun _ => .bind fun _ => .bind fun _ => leaves_ok.2 ⟨rfl, rfl⟩

theorem leaves_ensureVestEscrow {vestEscrow : Pubkey} (w : World) : Leaves w (ensureVestEscrow d w vestEscrow) := by
  unfold ensureVestEscrow
  refine .bind fun _ => ?_
  cases w.bank.accounts d.vestEscrow with
  | some _ => exact leaves_ok.2 ⟨rfl, rfl⟩
  | none => exact .bind fun _ => .bind fun _ => leaves_ok.2 ⟨rfl, rfl⟩

theorem leaves_receiveGrant {a : LzReceive} {message : List UInt8} (w : World) : Leaves w (receiveGrant d w a message) := by
  unfold receiveGrant
  refine .bind fun _ => .bind fun m => .bind fun _ => .bind fun _ => .bind fun _ => .bind fun _ => .bind fun _ => .bind fun _ =>
    .bind fun _ => .bind fun id => .seq ?_ fun v => ?_
  · exact .bind fun _ => .bind fun _ => .bind fun _ => .bind fun _ => .bind fun _ => leaves_ok.2 ⟨rfl, rfl⟩
  · dsimp only
    split_ifs
    · exact .seq (leaves_ensureVestEscrow { v with config := _ }) fun v => leaves_creditEscrow v
    · exact leaves_ok.2 ⟨rfl, rfl⟩

theorem leaves_setSale {a : SetSale} (w : World) : Leaves w (a.apply d w) := by
  unfold SetSale.apply
  refine .bind fun _ => .bind fun b => .bind fun source => .bind fun _ => .bind fun next => ?_
  split_ifs
  · refine .bind fun _ => .bind fun _ => .bind fun _ => .bind fun _ => .bind fun _ => .bind fun _ => .bind fun _ => ?_
    refine .seq ?_ fun v => leaves_ok.2 ⟨rfl, rfl⟩
    unfold SetSale.earmark
    split_ifs
    · exact .bind fun _ => .bind fun _ => leaves_ok.2 ⟨rfl, rfl⟩
    · exact leaves_ok.2 ⟨rfl, rfl⟩
  · exact .bind fun _ => .bind fun _ => .bind fun _ => .bind fun _ => leaves_ok.2 ⟨rfl, rfl⟩
  · exact leaves_error

theorem leaves_pay {a : Buy} {asset payee : Pubkey} {cost : ℕ} (w : World) : Leaves w (a.pay w asset payee cost) := by
  unfold Buy.pay
  split_ifs
  · exact .bind fun _ => .bind fun _ => leaves_ok.2 ⟨rfl, rfl⟩
  · exact .bind fun _ => .bind fun _ => .bind fun _ => .bind fun _ => .bind fun _ => .bind fun _ => .bind fun _ => .bind fun _ =>
      .bind fun _ => .bind fun _ => .bind fun _ => .bind fun _ => leaves_ok.2 ⟨rfl, rfl⟩

theorem leaves_buy {a : Buy} (w : World) : Leaves w (a.apply d w) := by
  unfold Buy.apply
  exact .bind fun sale => .bind fun _ => .bind fun _ => .bind fun _ => .bind fun _ => .bind fun _ => .bind fun _ => .bind fun _ =>
    .bind fun cost => .bind fun _ => .bind fun _ => .bind fun _ => .bind fun _ => .bind fun _ => .bind fun _ => leaves_pay _

theorem leaves_publishSale {a : PublishSale} {o : Outbound} (h : a.apply d w = .ok (w', o)) : w'.peers = w.peers ∧ w'.now = w.now := by
  simp only [PublishSale.apply, bind_ok, Except.ok.injEq, Prod.mk.injEq] at h
  obtain ⟨_, -, _, -, sale, -, _, -, _, -, _, -, _, -, _, -, v, hv, rfl, -⟩ := h
  have hv' : v.peers = w.peers ∧ v.now = w.now := by
    split_ifs at hv
    · cases hv
      exact ⟨rfl, rfl⟩
    · simp only [PublishSale.withdraw, bind_ok, Except.ok.injEq] at hv
      obtain ⟨_, -, _, -, _, -, _, -, _, -, rfl⟩ := hv
      exact ⟨rfl, rfl⟩
  exact hv'

theorem leaves_vest {a : Vest} (w : World) : Leaves w (a.apply d w) := by
  intro w' h
  simp only [Vest.apply, bind_ok, Except.ok.injEq] at h
  obtain ⟨_, -, _, -, _, -, _, -, _, -, _, -, _, -, _, -, _, -, _, -, _, -, _, -, _, -, _, -, _, -, rfl⟩ := h
  exact ⟨rfl, rfl⟩

theorem leaves_release {a : Release} (w : World) : Leaves w (a.apply d w) := by
  intro w' h
  simp only [Release.apply, bind_ok, Except.ok.injEq] at h
  obtain ⟨_, -, _, -, _, -, _, -, _, -, _, -, _, -, _, -, _, -, rfl⟩ := h
  exact ⟨rfl, rfl⟩

theorem leaves_mintGenesis {a : MintGenesis} (w : World) : Leaves w (a.apply d w) := by
  intro w' h
  simp only [MintGenesis.apply, bind_ok, Except.ok.injEq] at h
  obtain ⟨_, -, _, -, _, -, _, -, _, -, _, -, _, -, _, -, _, -, _, -, _, -, rfl⟩ := h
  exact ⟨rfl, rfl⟩

theorem leaves_withdrawFee {a : WithdrawFee} (w : World) : Leaves w (a.apply d w) := by
  intro w' h
  simp only [WithdrawFee.apply, bind_ok, Except.ok.injEq] at h
  obtain ⟨_, -, _, -, _, -, _, -, _, -, _, -, rfl⟩ := h
  exact ⟨rfl, rfl⟩

theorem leaves_debit {a : Send} {r : Receipt} (w : World) : Leaves w (a.debit d w r) := by
  unfold Send.debit
  cases w.store.oftType with
  | adapter => exact .bind fun _ => .bind fun _ => leaves_ok.2 ⟨rfl, rfl⟩
  | native => exact .bind fun _ => .bind fun _ => .bind fun _ => leaves_ok.2 ⟨rfl, rfl⟩

/-! ## What an instruction does to the peers -/

/-- what leaves with a send -/
def Send.leaving (d : Deployment) (w : World) (a : Send) : ℕ :=
  ((w.peers a.dstEid).bind fun peer => (computeFeeAndAdjustAmount w.store d.transferFee a.amountLd peer.feeBps).toOption).elim 0
    Receipt.amountReceivedLd

/-- what arrives with a message that is an OFT credit -/
def LzReceiveParams.arriving (w : World) (params : LzReceiveParams) : ℕ :=
  if isSale params.message = true ∨ isGrant params.message = true then 0
  else (amountSd params.message >>= w.store.sd2ld).toOption.getD 0

/-- what leaves to the chain `eid` -/
def sentTo (d : Deployment) (eid : ℕ) (w : World) : Instr → ℕ
  | .send a => if a.dstEid = eid then a.leaving d w else 0
  | .bridge a => if a.dstEid = eid then a.leaving d w else 0
  | _ => 0

/-- what arrives from the chain `eid` -/
def receivedFrom (eid : ℕ) (w : World) : Instr → ℕ
  | .lzReceive _ params => if params.srcEid = eid then params.arriving w else 0
  | _ => 0

inductive PeerEffect (d : Deployment) (w : World) (i : Instr) (w' : World) : Prop where
  | idle (hpeers : w'.peers = w.peers) (hnow : w.now ≤ w'.now) (hsent : ∀ e, sentTo d e w i = 0) (hreceived : ∀ e, receivedFrom e w i = 0)
  | sent (eid : ℕ) (p p' : PeerConfig) (hp : w.peers eid = some p) (hp' : p.outbound w.now (sentTo d eid w i) = .ok p')
    (hpeers : w'.peers = update w.peers eid (some p')) (hnow : w'.now = w.now) (hsent : ∀ e, e ≠ eid → sentTo d e w i = 0)
    (hreceived : ∀ e, receivedFrom e w i = 0)
  | received (eid : ℕ) (p p' : PeerConfig) (hp : w.peers eid = some p) (hp' : p.inbound w.now (receivedFrom eid w i) = .ok p')
    (hpeers : w'.peers = update w.peers eid (some p')) (hnow : w'.now = w.now) (hsent : ∀ e, sentTo d e w i = 0)
    (hreceived : ∀ e, e ≠ eid → receivedFrom e w i = 0)
  | configured (a : SetPeerConfig) (p' : PeerConfig) (entries : List PeerEntry) (hi : i = .setPeerConfig a)
    (hp' : ((w.peers a.remoteEid).getD .empty).set w a.remoteEid a.config = .ok (p', entries))
    (hpeers : w'.peers = update w.peers a.remoteEid (some p')) (hnow : w'.now = w.now)

theorem PeerEffect.of_leaves {i : Instr} {x : Except OFTError World} {posted : Option Outbound}
    (h : silent x = .ok (w', posted)) (hx : Leaves w x) (hsent : ∀ e, sentTo d e w i = 0) (hreceived : ∀ e, receivedFrom e w i = 0) :
    PeerEffect d w i w' := by
  obtain ⟨hp, hn⟩ := hx w' (silent_ok h).1
  exact .idle hp hn.ge hsent hreceived

theorem Send.apply_peer {a : Send} {o : Outbound} (h : a.apply d w = .ok (w', o)) :
    ∃ p p', w.peers a.dstEid = some p ∧ p.outbound w.now (a.leaving d w) = .ok p' ∧
      w'.peers = update w.peers a.dstEid (some p') ∧ w'.now = w.now := by
  simp only [Send.apply, bind_ok, demand_ok, Except.ok.injEq, Prod.mk.injEq] at h
  obtain ⟨p, hp, _, -, _, -, _, -, r, hr, _, -, p', hp', v, hv, _, -, _, -, _, -, rfl, -⟩ := h
  have hleaving : a.leaving d w = r.amountReceivedLd := by simp [Send.leaving, hp, hr, Except.toOption]
  obtain ⟨hpeers, hnow⟩ := leaves_debit w v hv
  refine ⟨p, p', hp, hleaving ▸ hp', ?_, hnow⟩
  dsimp only
  rw [hpeers]

/-- of the three kinds of message only a credit goes through the limiters -/
theorem LzReceive.apply_peer {a : LzReceive} {params : LzReceiveParams} (h : a.apply d w params = .ok w') :
    (w'.peers = w.peers ∧ w'.now = w.now ∧ params.arriving w = 0) ∨
    ∃ p p', w.peers params.srcEid = some p ∧ p.inbound w.now (params.arriving w) = .ok p' ∧
      w'.peers = update w.peers params.srcEid (some p') ∧ w'.now = w.now := by
  simp only [LzReceive.apply, bind_ok, demand_ok] at h
  obtain ⟨p, hp, _, -, b, -, _, -, b', -, _, -, _, -, h⟩ := h
  split_ifs at h with hsale hgrant
  · obtain ⟨hpeers, hnow⟩ := leaves_receiveSale _ w' h
    exact .inl ⟨hpeers, hnow, if_pos (.inl hsale)⟩
  · obtain ⟨hpeers, hnow⟩ := leaves_receiveGrant _ w' h
    exact .inl ⟨hpeers, hnow, if_pos (.inr hgrant)⟩
  · simp only [receiveOft_eq, bind_ok] at h
    obtain ⟨_, -, _, -, sd, hsd, x, hx, p', hp', h⟩ := h
    have harriving : params.arriving w = x := by
      have hread : (amountSd params.message >>= w.store.sd2ld) = .ok x := bind_ok.2 ⟨sd, hsd, hx⟩
      rw [LzReceiveParams.arriving, if_neg (by simp [hsale, hgrant]), hread]
      rfl
    obtain ⟨hpeers, hnow⟩ := leaves_creditEscrow _ w' h
    exact .inr ⟨p, p', hp, harriving ▸ hp', hpeers, hnow⟩

/-- **What a step does to the peers.** -/
theorem step_effect {i : Instr} (h : step d w i = .ok w') : PeerEffect d w i w' := by
  obtain ⟨posted, he⟩ := step_ok.1 h
  obtain ⟨-, h⟩ := exec_ok he
  have hnone : ∀ e : ℕ, (0 : ℕ) = 0 := fun _ => rfl
  cases i with
  | mintGenesis a => exact .of_leaves h (leaves_mintGenesis w) hnone hnone
  | setSale a => exact .of_leaves h (leaves_setSale w) hnone hnone
  | buy a => exact .of_leaves h (leaves_buy w) hnone hnone
  | publishSale a =>
    obtain ⟨o, ho, -⟩ := posting_ok h
    obtain ⟨hp, hn⟩ := leaves_publishSale ho
    exact .idle hp hn.ge hnone hnone
  | send a =>
    obtain ⟨o, ho, -⟩ := posting_ok h
    obtain ⟨p, p', hp, hp', hpeers, hnow⟩ := Send.apply_peer ho
    refine .sent a.dstEid p p' hp ?_ hpeers hnow (fun e he => if_neg he.symm) hnone
    rwa [sentTo, if_pos rfl]
  | bridge a =>
    obtain ⟨o, ho, -⟩ := posting_ok h
    obtain ⟨p, p', hp, hp', hpeers, hnow⟩ := Send.apply_peer ho
    refine .sent a.dstEid p p' hp ?_ hpeers hnow (fun e he => if_neg he.symm) hnone
    rwa [sentTo, if_pos rfl]
  | lzReceive a params =>
    rcases LzReceive.apply_peer (silent_ok h).1 with ⟨hpeers, hnow, hzero⟩ | ⟨p, p', hp, hp', hpeers, hnow⟩
    · refine .idle hpeers hnow.ge hnone fun e => ?_
      rw [receivedFrom, hzero, ite_self]
    · refine .received params.srcEid p p' hp ?_ hpeers hnow hnone (fun e he => if_neg he.symm)
      rwa [receivedFrom, if_pos rfl]
  | vest a => exact .of_leaves h (leaves_vest w) hnone hnone
  | release a => exact .of_leaves h (leaves_release w) hnone hnone
  | withdrawFee a => exact .of_leaves h (leaves_withdrawFee w) hnone hnone
  | setPeerConfig a =>
    have ha := (silent_ok h).1
    simp only [SetPeerConfig.apply, bind_ok, Prod.exists, Except.ok.injEq] at ha
    obtain ⟨_, -, p', entries, hset, rfl⟩ := ha
    exact .configured a p' entries rfl hset rfl rfl
  | setOftConfig a => exact .of_leaves h (.bind fun _ => .bind fun _ => leaves_ok.2 ⟨rfl, rfl⟩) hnone hnone
  | transferOwnership a => exact .of_leaves h (.bind fun _ => .bind fun _ => leaves_ok.2 ⟨rfl, rfl⟩) hnone hnone
  | acceptOwnership a => exact .of_leaves h (.bind fun _ => .bind fun _ => leaves_ok.2 ⟨rfl, rfl⟩) hnone hnone
  | setPause a => exact .of_leaves h (.bind fun _ => leaves_ok.2 ⟨rfl, rfl⟩) hnone hnone
  | token signer op => exact .of_leaves h (.bind fun _ => .bind fun _ => leaves_ok.2 ⟨rfl, rfl⟩) hnone hnone
  | fund k x => exact .of_leaves h (leaves_ok.2 ⟨rfl, rfl⟩) hnone hnone
  | tick seconds =>
    have hw := (silent_ok h).1
    cases hw
    exact .idle rfl (by simp) hnone hnone

/-! ## The limiters of a store -/

/-- the two limiters of a peer -/
inductive Side where
  | outbound
  | inbound

namespace Side

def limiter : Side → PeerConfig → Option RateLimiter
  | .outbound => PeerConfig.outboundRateLimiter
  | .inbound => PeerConfig.inboundRateLimiter

/-- what a limiter does when `x` leaves -/
def leave : Side → ℕ → TokenBucket.Op
  | .outbound, x => .consume x
  | .inbound, x => .refill x

/-- what it does when `x` arrives -/
def arrive : Side → ℕ → TokenBucket.Op
  | .outbound, x => .refill x
  | .inbound, x => .consume x

/-- the traffic that uses the limiter up -/
def used (d : Deployment) : Side → ℕ → World → Instr → ℕ
  | .outbound => sentTo d
  | .inbound => receivedFrom

/-- the traffic the other way -/
def freed (d : Deployment) : Side → ℕ → World → Instr → ℕ
  | .outbound => receivedFrom
  | .inbound => sentTo d

end Side

variable {s : Side} {p p' : PeerConfig} {eid rate t₀ n k : ℕ}

/-- a limiter that is not set limits nothing -/
theorem onLimiter_ok {f : RateLimiter → Except OFTError RateLimiter} {o o' : Option RateLimiter} :
    onLimiter f o = .ok o' ↔ o = none ∧ o' = none ∨ ∃ r r', o = some r ∧ f r = .ok r' ∧ o' = some r' := by
  cases o with
  | none => simp [onLimiter, eq_comm]
  | some r =>
    simp only [onLimiter, bind_ok, Except.ok.injEq]
    constructor
    · rintro ⟨r', hf, rfl⟩
      exact .inr ⟨r, r', rfl, hf, rfl⟩
    · rintro (⟨hnone, -⟩ | ⟨r₀, r', hr, hf, rfl⟩)
      · cases hnone
      · cases hr
        exact ⟨r', hf, rfl⟩

theorem outbound_act (h : p.outbound now x = .ok p') (s : Side) : s.limiter p = none ∧ s.limiter p' = none ∨
    ∃ r r', s.limiter p = some r ∧ r.act (now, s.leave x) = .ok r' ∧ s.limiter p' = some r' := by
  simp only [PeerConfig.outbound, bind_ok, Except.ok.injEq] at h
  obtain ⟨_, hout, _, hin, rfl⟩ := h
  cases s with
  | outbound => exact onLimiter_ok.1 hout
  | inbound => exact onLimiter_ok.1 hin

theorem inbound_act (h : p.inbound now x = .ok p') (s : Side) : s.limiter p = none ∧ s.limiter p' = none ∨
    ∃ r r', s.limiter p = some r ∧ r.act (now, s.arrive x) = .ok r' ∧ s.limiter p' = some r' := by
  simp only [PeerConfig.inbound, bind_ok, Except.ok.injEq] at h
  obtain ⟨_, hin, _, hout, rfl⟩ := h
  cases s with
  | outbound => exact onLimiter_ok.1 hout
  | inbound => exact onLimiter_ok.1 hin

/-- no limiter is overfull, nor ahead of the clock -/
def World.Limited (w : World) : Prop := ∀ eid p s r, w.peers eid = some p → Side.limiter s p = some r →
  r.tokens ≤ r.capacity ∧ r.lastRefillTime ≤ w.now.toNat

theorem act_limited {op : TokenBucket.Op} (h : r.act (now, op) = .ok r') : r'.tokens ≤ r'.capacity ∧ r'.lastRefillTime ≤ now.toNat :=
  ⟨act_kept h, (RateLimiter.act_follows h).1.le⟩

/-- new terms make a new limiter, which is empty, or act on the old one -/
theorem updateRateLimiter_limited {o o' : Option RateLimiter} {params : Option RateLimitParams}
    (ho : ∀ r, o = some r → r.tokens ≤ r.capacity ∧ r.lastRefillTime ≤ now.toNat) (h : updateRateLimiter now o params = .ok o')
    (hr : o' = some r) : r.tokens ≤ r.capacity ∧ r.lastRefillTime ≤ now.toNat := by
  cases params with
  | none =>
    cases h
    cases hr
  | some params =>
    simp only [updateRateLimiter, bind_ok, Except.ok.injEq] at h
    obtain ⟨r₁, h₁, r₂, h₂, rfl⟩ := h
    cases hr
    have hold : (o.getD .default).tokens ≤ (o.getD .default).capacity ∧ (o.getD .default).lastRefillTime ≤ now.toNat := by
      cases o with
      | none => exact ⟨le_rfl, Nat.zero_le _⟩
      | some r => exact ho r rfl
    have hcap : r₁.tokens ≤ r₁.capacity ∧ r₁.lastRefillTime ≤ now.toNat := by
      cases hc : params.capacity with
      | none =>
        rw [hc] at h₁
        cases h₁
        exact hold
      | some capacity =>
        rw [hc] at h₁
        have hset : (o.getD .default).act (now, .setCapacity capacity) = .ok r₁ := h₁
        exact act_limited hset
    cases hrate : params.refillPerSecond with
    | none =>
      rw [hrate] at h₂
      cases h₂
      exact hcap
    | some rate =>
      rw [hrate] at h₂
      have hset : r₁.act (now, .setRate rate) = .ok r := h₂
      exact act_limited hset

/-- the parameter sets a limiter -/
def PeerConfigParam.limits : PeerConfigParam → Bool
  | .outboundRateLimit _ => true
  | .inboundRateLimit _ => true
  | _ => false

theorem set_limiter {c : PeerConfigParam} {entries : List PeerEntry} (h : p.set w eid c = .ok (p', entries)) (s : Side) :
    s.limiter p' = s.limiter p ∨
      c.limits = true ∧ ∃ params, updateRateLimiter w.now (s.limiter p) params = .ok (s.limiter p') := by
  cases c
  all_goals
    simp only [PeerConfig.set, bind_ok, Except.ok.injEq, Prod.mk.injEq] at h
    obtain ⟨_, hset, rfl, -⟩ := h
    cases s
    all_goals
      first
        | exact .inl rfl
        | exact .inr ⟨rfl, _, hset⟩

theorem set_limited {c : PeerConfigParam} {entries : List PeerEntry}
    (hp : ∀ s r, Side.limiter s p = some r → r.tokens ≤ r.capacity ∧ r.lastRefillTime ≤ w.now.toNat)
    (h : p.set w eid c = .ok (p', entries)) (s : Side) (hr : s.limiter p' = some r) :
    r.tokens ≤ r.capacity ∧ r.lastRefillTime ≤ w.now.toNat := by
  rcases set_limiter h s with hsame | ⟨-, params, hset⟩
  · exact hp s r (hsame ▸ hr)
  · exact updateRateLimiter_limited (hp s) hset hr

/-- a step fills no limiter above its capacity -/
theorem step_limited {i : Instr} (hw : w.Limited) (h : step d w i = .ok w') : w'.Limited := by
  intro e q s r hq hr
  cases step_effect h with
  | idle hpeers hnow =>
    rw [hpeers] at hq
    obtain ⟨hkept, hpast⟩ := hw e q s r hq hr
    exact ⟨hkept, hpast.trans (Int.toNat_le_toNat hnow)⟩
  | sent eid p p' hp hp' hpeers hnow =>
    rw [hpeers, update_apply] at hq
    rw [hnow]
    split_ifs at hq with he
    · cases hq
      rcases outbound_act hp' s with ⟨-, hnone⟩ | ⟨r₀, r', -, hact, hsome⟩
      · rw [hnone] at hr
        cases hr
      · cases hsome.symm.trans hr
        exact act_limited hact
    · exact hw e q s r hq hr
  | received eid p p' hp hp' hpeers hnow =>
    rw [hpeers, update_apply] at hq
    rw [hnow]
    split_ifs at hq with he
    · cases hq
      rcases inbound_act hp' s with ⟨-, hnone⟩ | ⟨r₀, r', -, hact, hsome⟩
      · rw [hnone] at hr
        cases hr
      · cases hsome.symm.trans hr
        exact act_limited hact
    · exact hw e q s r hq hr
  | configured a p' entries hi hp' hpeers hnow =>
    rw [hpeers, update_apply] at hq
    rw [hnow]
    split_ifs at hq with he
    · cases hq
      refine set_limited (fun s r hr => ?_) hp' s hr
      cases hold : w.peers a.remoteEid with
      | none =>
        rw [hold] at hr
        cases s <;> cases hr
      | some p =>
        rw [hold] at hr
        exact hw _ p s r hold hr
    · exact hw e q s r hq hr

theorem Init.apply_limited {a : Init} {b : Bank Pubkey} {lamports : Pubkey → ℕ} (h : a.apply d b lamports now = .ok w) :
    w.Limited := by
  intro e p s r hp hr
  simp only [Init.apply, bind_ok] at h
  obtain ⟨_, -, _, -, _, -, _, -, _, -, _, -, h⟩ := h
  split_ifs at h with hhome
  · simp only [bind_ok, Except.ok.injEq] at h
    obtain ⟨_, -, _, -, rfl⟩ := h
    cases hp
  · simp only [bind_ok] at h
    obtain ⟨_, -, _, -, entries, -, h⟩ := h
    obtain ⟨b, rfl, -⟩ := handoffSpokeMint_ok h
    dsimp only at hp
    rw [update_apply] at hp
    split_ifs at hp
    cases hp
    cases s <;> cases hr

/-- **Limited.** In every state that a store gets into, no limiter of a peer is overfull. -/
theorem peers_limited (g : Genesis d) (is : List Instr) : (g.after is).Limited :=
  run_invariant (fun _ _ _ hw h => step_limited hw h) g.world is (Init.apply_limited g.initialized)

/-! ## The traffic of a path -/

/-- the instruction sets a limiter of the peer `eid` -/
def Instr.limits (eid : ℕ) : Instr → Bool
  | .setPeerConfig a => a.remoteEid = eid ∧ a.config.limits = true
  | _ => false

/-- the limiter stands, and keeps what has gone through it since `t₀` within `n` and its rate -/
def World.Metered (w : World) (s : Side) (eid rate t₀ n k : ℕ) : Prop :=
  t₀ ≤ w.now.toNat ∧ ∃ p r, w.peers eid = some p ∧ s.limiter p = some r ∧ r.lastRefillTime ≤ w.now.toNat ∧
    r.bucket.Within rate t₀ n k

theorem World.Metered.same {n' k' : ℕ} (h : w.Metered s eid rate t₀ n k) (hpeers : w'.peers eid = w.peers eid)
    (hnow : w.now ≤ w'.now) (hn : n' = 0) (hk : k' = 0) : w'.Metered s eid rate t₀ (n + n') (k + k') := by
  obtain ⟨ht, p, r, hp, hr, hlast, hwithin⟩ := h
  have hlater : w.now.toNat ≤ w'.now.toNat := Int.toNat_le_toNat hnow
  rw [hn, hk]
  exact ⟨ht.trans hlater, p, r, hpeers.trans hp, hr, hlast.trans hlater, hwithin⟩

/-- what goes through is taken from the one bucket and given to the other -/
theorem World.Metered.act {n' k' : ℕ} {op : TokenBucket.Op} (h : w.Metered s eid rate t₀ n k) (hp : w.peers eid = some p)
    (hact : s.limiter p = none ∧ s.limiter p' = none ∨
      ∃ r r', s.limiter p = some r ∧ r.act (w.now, op) = .ok r' ∧ s.limiter p' = some r')
    (hpeers : w'.peers = update w.peers eid (some p')) (hnow : w'.now = w.now) (hop : op.keepsTerms = true) (hn : n' = op.added)
    (hk : k' = op.taken) : w'.Metered s eid rate t₀ (n + n') (k + k') := by
  obtain ⟨ht, q, r, hq, hr, hlast, hwithin⟩ := h
  obtain rfl : q = p := Option.some.inj (hq.symm.trans hp)
  rcases hact with ⟨hnone, -⟩ | ⟨r₀, r', hr₀, hact, hr'⟩
  · rw [hr] at hnone
    cases hnone
  · obtain rfl : r = r₀ := Option.some.inj (hr.symm.trans hr₀)
    have hfollows := RateLimiter.act_follows hact
    rw [hn, hk]
    refine ⟨hnow ▸ ht, p', r', ?_, hr', hnow ▸ hfollows.1.le, hwithin.follows ht hlast hop hfollows⟩
    rw [hpeers, update_self]

/-- while the terms stand a step acts on the buckets of a chain by its traffic with that chain alone -/
theorem step_metered {i : Instr} (h : w.Metered s eid rate t₀ n k) (hi : i.limits eid = false) (hs : step d w i = .ok w') :
    w'.Metered s eid rate t₀ (n + s.freed d eid w i) (k + s.used d eid w i) := by
  cases step_effect hs with
  | idle hpeers hnow hsent hreceived =>
    refine h.same (by rw [hpeers]) hnow ?_ ?_
    · cases s
      · exact hreceived eid
      · exact hsent eid
    · cases s
      · exact hsent eid
      · exact hreceived eid
  | sent e p p' hp hp' hpeers hnow hsent hreceived =>
    by_cases he : eid = e
    · subst he
      refine h.act hp (outbound_act hp' s) hpeers hnow ?_ ?_ ?_
      · cases s <;> rfl
      · cases s
        · exact hreceived eid
        · rfl
      · cases s
        · rfl
        · exact hreceived eid
    · refine h.same (by rw [hpeers, update_of_ne he]) hnow.ge ?_ ?_
      · cases s
        · exact hreceived eid
        · exact hsent eid he
      · cases s
        · exact hsent eid he
        · exact hreceived eid
  | received e p p' hp hp' hpeers hnow hsent hreceived =>
    by_cases he : eid = e
    · subst he
      refine h.act hp (inbound_act hp' s) hpeers hnow ?_ ?_ ?_
      · cases s <;> rfl
      · cases s
        · rfl
        · exact hsent eid
      · cases s
        · exact hsent eid
        · rfl
    · refine h.same (by rw [hpeers, update_of_ne he]) hnow.ge ?_ ?_
      · cases s
        · exact hreceived eid he
        · exact hsent eid
      · cases s
        · exact hsent eid
        · exact hreceived eid he
  | configured a p' entries hi' hp' hpeers hnow =>
    subst hi'
    have hidle : s.freed d eid w (.setPeerConfig a) = 0 ∧ s.used d eid w (.setPeerConfig a) = 0 := by cases s <;> exact ⟨rfl, rfl⟩
    by_cases he : eid = a.remoteEid
    · subst he
      obtain ⟨ht, p, r, hp, hr, hlast, hwithin⟩ := h
      rw [hp] at hp'
      have hsame : s.limiter p' = s.limiter p := by
        rcases set_limiter hp' s with hsame | ⟨hlimits, -⟩
        · exact hsame
        · simp [Instr.limits, hlimits] at hi
      rw [hidle.1, hidle.2]
      exact ⟨hnow ▸ ht, p', r, by rw [hpeers, update_self], hsame.trans hr, hnow ▸ hlast, hwithin⟩
    · exact h.same (by rw [hpeers, update_of_ne he]) hnow.ge hidle.1 hidle.2

/-- **The traffic of a path is limited.** From any state that a store gets into, and as long as nobody sets the limiters of a peer,
what goes through one of them comes to no more than it then holds, fills up with in the meantime, and is freed by traffic the other
way. -/
theorem traffic_limited (g : Genesis d) (before is : List Instr) (hp : (g.after before).peers eid = some p)
    (hr : s.limiter p = some r) (hterms : ∀ i ∈ is, i.limits eid = false) :
    tally (step d) (fun w i _ => s.used d eid w i) (g.after before) is ≤
      r.bucket.level (g.after before).now.toNat +
        r.refillPerSecond * ((run (step d) (g.after before) is).now.toNat - (g.after before).now.toNat) +
          tally (step d) (fun w i _ => s.freed d eid w i) (g.after before) is := by
  obtain ⟨w, hw⟩ : ∃ w, w = g.after before := ⟨_, rfl⟩
  have hlimited : w.Limited := hw ▸ peers_limited g before
  rw [← hw] at hp ⊢
  have hlast := (hlimited eid p s r hp hr).2
  have hstart : w.Metered s eid r.refillPerSecond w.now.toNat (r.bucket.level w.now.toNat) 0 :=
    ⟨le_rfl, p, r, hp, hr, hlast, .start hlast⟩
  have hstep : ∀ v i v' n k, v.Metered s eid r.refillPerSecond w.now.toNat n k → i.limits eid = false → step d v i = .ok v' →
      v'.Metered s eid r.refillPerSecond w.now.toNat (n + s.freed d eid v i) (k + s.used d eid v i) :=
    fun v i v' n k h hi hs => step_metered h hi hs
  obtain ⟨hnow, p', r', -, -, hlast', -, hwithin⟩ := run_bounded₂_of hstep w is (meets_of_mem hterms w) _ 0 hstart
  have hend := hwithin _ hnow hlast'
  omega

end Grindurus.Grs
