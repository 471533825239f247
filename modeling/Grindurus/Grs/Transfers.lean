/-
A transfer from end to end (`programs/grs/src/instructions/send.rs`, `lz_receive.rs`).

- `Landed`: what the delivery of an amount does to a store. `LzReceive.apply_lands`: what a message of a transfer does.
- `transfer_exact`: over every run of a net of stores, the message of a transfer stays what it was, and when it is delivered the
  receiver gets exactly what the sender was told; a second delivery is refused.
-/
import Grindurus.Grs.LockAndMint
import Grindurus.Grs.SendQuotes
import Grindurus.Grs.Wire

namespace Grindurus.Grs

open Checked TokenBank Machine Network Function

variable {ds : ℕ → Deployment} {d : Deployment} {w w' : World} {x : ℕ}

/-! ## Landing -/

/-- `x` arrives in the token account of `toKey` -/
structure Landed (d : Deployment) (toKey : Pubkey) (x : ℕ) (w w' : World) : Prop where
  credited : ∀ k, w'.bank.balance k + (if k = d.tokenEscrow then w.locks x else 0) =
    w.bank.balance k + if k = d.ata toKey w.store.tokenMint then x else 0
  unlocked : w'.store.tvlLd + w.locks x = w.store.tvlLd
  minted : w'.supply = w.supply + w.burns x

/-- the recipient is credited the amount, and nobody else -/
theorem creditEscrow_lands {a : LzReceive} {toKey : Pubkey} (h : creditEscrow d w a (d.ata toKey w.store.tokenMint) x = .ok w') :
    Landed d toKey x w w' := by
  unfold creditEscrow at h
  cases hkind : w.store.oftType with
  | adapter =>
    simp only [hkind, bind_ok, checkedSub_ok, spl_ok, Except.ok.injEq] at h
    obtain ⟨_, ⟨hle, rfl⟩, b, hb, rfl⟩ := h
    have hsupply : b.supply w.store.tokenMint = w.bank.supply w.store.tokenMint := Bank.transfer_supply hb _
    refine ⟨?_, ?_, ?_⟩
    · simpa only [World.locks, hkind] using Bank.transfer_balance hb
    · simpa [World.locks, hkind] using Nat.sub_add_cancel hle
    · rw [World.burns, hkind]
      exact hsupply
  | native =>
    simp only [hkind, bind_ok, checkedAdd_ok, demand_ok, require_ok, spl_ok, Except.ok.injEq] at h
    obtain ⟨_, -, _, -, -, -, b, hb, rfl⟩ := h
    have hsupply := Bank.mintTo_supply hb w.store.tokenMint
    refine ⟨?_, ?_, ?_⟩
    · simpa [World.locks, hkind] using Bank.mintTo_balance hb
    · simp [World.locks, hkind]
    · rw [if_pos rfl] at hsupply
      rw [World.burns, hkind]
      exact hsupply

/-- the message of a transfer is read as the transfer it was written for -/
theorem LzReceive.apply_lands {a : LzReceive} {params : LzReceiveParams} {toKey k : Pubkey} {sd : ℕ}
    (h : a.apply d w params = .ok w') (hmessage : params.message = encode toKey sd k none) (hsd : sd < 2 ^ 64) :
    Landed d toKey (sd * w.store.ld2sdRate) w w' := by
  have hsale : isSale params.message = false := hmessage ▸ isSale_encode ..
  have hgrant : isGrant params.message = false := hmessage ▸ isGrant_encode ..
  rcases LzReceive.apply_ok h with ⟨b, -, h', -⟩ | ⟨b, -, -, h', -⟩ | ⟨b, peer, hb, -, -, h⟩
  · exact absurd (hsale.symm.trans h') (by decide)
  · exact absurd (hgrant.symm.trans h') (by decide)
  · simp only [receiveOft_eq, OFTStore.sd2ld, bind_ok, require_ok, checkedMul_ok] at h
    obtain ⟨dest, hdest, -, hto, sd', hsd', _, ⟨-, rfl⟩, peer', -, h⟩ := h
    rw [hmessage, sendTo_of_encode] at hdest
    rw [hmessage, amountSd_of_encode _ _ _ hsd] at hsd'
    obtain rfl := Except.ok.inj hdest
    obtain rfl := Except.ok.inj hsd'
    rw [hto] at h
    have hlanded := creditEscrow_lands h
    refine ⟨?_, hlanded.unlocked, ?_⟩
    · rw [← hb.balance]
      exact hlanded.credited
    · have hsupply : b.supply w.store.tokenMint = w.bank.supply w.store.tokenMint := congrFun hb.supply _
      refine hlanded.minted.trans ?_
      show b.supply w.store.tokenMint + _ = w.bank.supply w.store.tokenMint + _
      rw [hsupply]
      rfl

/-! ## From end to end -/

def Instr.asSend : Instr → Option Send
  | .send a => some a
  | .bridge a => some (Grs.bridge a)
  | _ => none

theorem exec_send {i : Instr} {a : Send} {posted : Option Outbound} (hi : i.asSend = some a) (h : exec d w i = .ok (w', posted)) :
    ∃ o, a.apply d w = .ok (w', o) ∧ posted = some o := by
  have hp := (exec_ok h).2
  cases i with
  | send b =>
    cases hi
    exact posting_ok hp
  | bridge b =>
    cases hi
    exact posting_ok hp
  | _ => cases hi

/-- a transfer posts its message at the end of the mail -/
theorem step_send {net net' : Net ℕ World Letter} {n : ℕ} {i : Instr} {a : Send} (hi : i.asSend = some a)
    (h : Network.step (protocol ds) net (.act n i) = .ok net') :
    ∃ o, a.apply (ds n) (net.node n) = .ok (net'.node n, o) ∧ net'.mail = net.mail ++ [⟨⟨n, (ds n).oftStore, o⟩, false⟩] := by
  obtain ⟨-, w', posted, hact, rfl⟩ := step_act h
  obtain ⟨-, o, he, rfl⟩ := act_ok hact
  obtain ⟨o', ho, rfl⟩ := exec_send hi he
  exact ⟨o', by simpa using ho, rfl⟩

variable {H : Harbour ds} {evs : List (Event ℕ Instr LzReceive)}

/-- in every reachable state the stores keep the rate they were set up with -/
theorem Harbour.rate {n : ℕ} (hn : n ∈ H.nodes) : ((H.after evs).node n).store.ld2sdRate = GRS_LD2SD_RATE := by
  have hbounded : Bounded _ _ _ _ (H.after evs) := Harbour.bounded
  have hnodes : (H.after evs).nodes = H.nodes := run_nodes H.net evs
  exact (hbounded.nodes n (hnodes ▸ hn)).solvent.rate

/-- **Transfers are exact.** Between stores whose tokens withhold nothing, whatever they did before: a send or a bridge that
commits takes of its sender what `quote_oft` told, and whatever happens until its message is delivered, the delivery credits the
recipient with exactly what the quote said would arrive, and takes or mints no more; and the message is not delivered again. -/
theorem transfer_exact (H : Harbour ds) (evs : List (Event ℕ Instr LzReceive)) {n : ℕ} {i : Instr} {a : Send}
    {net : Net ℕ World Letter} (hi : i.asSend = some a) (hx : a.amountLd < 2 ^ 64)
    (h : Network.step (protocol ds) (H.after evs) (.act n i) = .ok net) :
    ∃ r, QuoteOFT.apply (ds n) ((H.after evs).node n) ⟨a.dstEid, a.amountLd, a.minAmountLd⟩ = .ok r.quote ∧
      Sent (ds n) a r ((H.after evs).node n) (net.node n) ∧
      ∀ evs' y net', Network.step (protocol ds) (Machine.run (Network.step (protocol ds)) net evs')
          (.deliver (H.after evs).mail.length y) = .ok net' →
        Landed (ds a.dstEid) a.toKey r.amountReceivedLd
          ((Machine.run (Network.step (protocol ds)) net evs').node a.dstEid) (net'.node a.dstEid) ∧
        ∀ evs'' z, Network.step (protocol ds) (Machine.run (Network.step (protocol ds)) net' evs'')
          (.deliver (H.after evs).mail.length z) = .error .notInFlight := by
  have hnodes : (H.after evs).nodes = H.nodes := run_nodes H.net evs
  have hn : n ∈ H.nodes := hnodes ▸ (step_act h).1
  obtain ⟨o, ho, hmail⟩ := step_send hi h
  obtain ⟨p, p', r, hp, hpaused, hr, hmin, -, -, -, hsent, -, hposted⟩ := Send.apply_reads ho
  obtain ⟨hadds, hle, hwhole⟩ := computeFee_ok hr
  refine ⟨r, quote_of_receipt hp hpaused hr hmin hx, hsent, fun evs' y net' hdeliver => ?_⟩
  -- the run up to the delivery starts from the genesis
  have hafter : Machine.run (Network.step (protocol ds)) net evs' = H.after (evs ++ .act n i :: evs') := by
    rw [Harbour.after, run_append, run_cons]
    exact congrArg (fun s => Machine.run _ s evs') (Machine.exec_ok h).symm
  have hletter : net.letters[(H.after evs).mail.length]? = some ⟨n, (ds n).oftStore, o⟩ := by
    simp [Net.letters, hmail]
  obtain ⟨hdest, hrec, hcleared⟩ := deliver_letter hletter evs' hdeliver
  have hdst : (protocol ds).dest ⟨n, (ds n).oftStore, o⟩ = a.dstEid := by
    rw [hposted]
    rfl
  rw [hdst] at hdest hrec
  have hrate : ((H.after evs).node n).store.ld2sdRate = GRS_LD2SD_RATE := Harbour.rate hn
  have hrate' : ((Machine.run (Network.step (protocol ds)) net evs').node a.dstEid).store.ld2sdRate = GRS_LD2SD_RATE := by
    rw [hafter]
    exact Harbour.rate (hnodes ▸ step_nodes h ▸ hdest)
  have hsd : ((H.after evs).node n).store.ld2sd r.amountReceivedLd < 2 ^ 64 := by
    have hreceived : r.amountReceivedLd ≤ a.amountLd := by omega
    exact (Nat.div_le_self ..).trans_lt (hreceived.trans_lt hx)
  have hlanded := LzReceive.apply_lands (k := a.signer) (receive_ok hrec) (congrArg Outbound.message hposted) hsd
  have hback : ((H.after evs).node n).store.ld2sd r.amountReceivedLd * GRS_LD2SD_RATE = r.amountReceivedLd := by
    rw [OFTStore.ld2sd, hrate]
    exact Nat.div_mul_cancel (hrate ▸ hwhole)
  rw [hrate', hback] at hlanded
  exact ⟨hlanded, fun evs'' z => run_cleared hcleared evs'' z⟩

/-! ## An adapter and a spoke -/

namespace Sample

/-- the store of chain 7 locks; its admin holds ten GRS -/
def lockingHome : Genesis deployment where
  bank :=
    { mints m := if m = token then some ⟨9, 10 * GRS_ONE_LD, some admin⟩ else none
      accounts k := if k = treasury then some ⟨token, admin, 10 * GRS_ONE_LD⟩ else none }
  lamports _ := 0
  now := 0
  args := ⟨admin, token, false, .adapter, 6, 0, .default⟩
  world := _
  signed := by decide +kernel
  fresh := by decide +kernel
  initialized := rfl

/-- the store of chain 8 mints, with the adapter as its peer -/
def mintingSpoke : Genesis deployment where
  bank
  lamports _ := 0
  now := 0
  args := ⟨admin, token, true, .native, 6, 7, deployment.oftStore⟩
  world := _
  signed := home.signed
  fresh := home.fresh
  initialized := rfl

def harbour : Harbour fun _ => deployment where
  nodes := {7, 8}
  genesis n := if n = 7 then lockingHome else mintingSpoke
  spokes := by decide +kernel

/-- at a fee of one per cent -/
def opening : List (Event ℕ Instr LzReceive) :=
  [.act 7 (.setPeerConfig ⟨admin, 8, .peerAddress deployment.oftStore⟩), .act 7 (.setOftConfig ⟨admin, .defaultFee 100⟩)]

/-- one GRS, and dust -/
def transfer : Send := ⟨admin, treasury, deployment.oftStore, 8, admin, 1000000500, 0, none⟩

def delivery : LzReceive := ⟨admin, .default, .default, admin, some deployment.oftStore⟩

end Sample

theorem transfer_exact_spoke : ∃ net net' : Net ℕ World Letter,
    Network.step (protocol fun _ => Sample.deployment) (Sample.harbour.after Sample.opening) (.act 7 (.send Sample.transfer)) =
      .ok net ∧
    Network.step (protocol fun _ => Sample.deployment) net (.deliver 0 Sample.delivery) = .ok net' ∧
    Landed Sample.deployment Sample.admin 990000000 (net.node 8) (net'.node 8) := by
  have hsend : Network.step (protocol fun _ => Sample.deployment) (Sample.harbour.after Sample.opening)
      (.act 7 (.send Sample.transfer)) = .ok _ := step_exec (by decide +kernel)
  have hdeliver : Network.step (protocol fun _ => Sample.deployment) (Machine.exec
      (Network.step (protocol fun _ => Sample.deployment)) (Sample.harbour.after Sample.opening) (.act 7 (.send Sample.transfer)))
      (.deliver 0 Sample.delivery) = .ok _ := step_exec (by decide +kernel)
  have hempty : (Sample.harbour.after Sample.opening).mail.length = 0 := by decide +kernel
  obtain ⟨r, hquote, -, hlands⟩ := transfer_exact Sample.harbour Sample.opening rfl (by decide) hsend
  have hreceived : r.amountReceivedLd = 990000000 := by
    have hanswer : (QuoteOFT.apply Sample.deployment ((Sample.harbour.after Sample.opening).node 7)
        ⟨8, 1000000500, 0⟩).map (·.oftReceipt.amountReceivedLd) = .ok 990000000 := by decide +kernel
    have hsame := congrArg (Except.map (·.oftReceipt.amountReceivedLd)) hquote
    exact Except.ok.inj (hsame.symm.trans hanswer)
  rw [hempty] at hlands
  rw [hreceived] at hlands
  exact ⟨_, _, hsend, hdeliver, (hlands [] _ _ hdeliver).1⟩

end Grindurus.Grs
