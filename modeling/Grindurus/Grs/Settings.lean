/-
Who sets what, and what a pause stops (`programs/grs/src/instructions/ownership.rs`, `set_oft_config.rs`, `set_pause.rs`,
`set_peer_config.rs`).

- `World.rules`: the settings of the store, the registry of its peers, and the terms on which it deals with each.
- `step_rules`: only an instruction that configures changes them. `settings_of_admin`: along every run the admin signs for it, who
  initialized the store or was handed it down; but for a successor who takes over, and the pausers, who only set the pause.
- `World.withPaused`: a store that is told it is paused, or not. `pause_gates`: a paused store is one that neither sends nor
  receives, and does everything else as if it were not paused.
-/
import Grindurus.Lib.Ownable
import Grindurus.Grs.Lockbox
import Grindurus.Grs.Traffic

namespace Grindurus.Grs

open Checked TokenBank Machine Ownable Function

variable {d : Deployment} {w w' : World} {i : Instr} {x : ℕ} {p p' : PeerConfig} {q : Bool}

/-! ## Rules -/

/-- a limiter without what runs through it -/
def RateLimiter.terms (r : RateLimiter) : RateLimiter := { r with tokens := 0, lastRefillTime := 0 }

def PeerConfig.terms (p : PeerConfig) : PeerConfig :=
  { p with
    outboundRateLimiter := p.outboundRateLimiter.map RateLimiter.terms
    inboundRateLimiter := p.inboundRateLimiter.map RateLimiter.terms }

def World.rules (w : World) : (OFTStore × List PeerEntry) × (ℕ → Option PeerConfig) :=
  (w.settings, fun eid => (w.peers eid).map PeerConfig.terms)

theorem refill_terms {r r' : RateLimiter} {now : ℤ} (h : r.refill now x = .ok r') : r'.terms = r.terms := by
  simp only [RateLimiter.refill, bind_ok, Except.ok.injEq] at h
  obtain ⟨_, -, rfl⟩ := h
  rfl

theorem tryConsume_terms {r r' : RateLimiter} {now : ℤ} (h : r.tryConsume now x = .ok r') : r'.terms = r.terms := by
  simp only [RateLimiter.tryConsume, bind_ok, Except.ok.injEq] at h
  obtain ⟨r₁, h₁, _, -, rfl⟩ := h
  have hrefilled : r₁.terms = r.terms := refill_terms h₁
  exact hrefilled

theorem onLimiter_terms {f : RateLimiter → Except OFTError RateLimiter} {o o' : Option RateLimiter}
    (hf : ∀ r r', f r = .ok r' → r'.terms = r.terms) (h : onLimiter f o = .ok o') :
    o'.map RateLimiter.terms = o.map RateLimiter.terms := by
  rcases onLimiter_ok.1 h with ⟨rfl, rfl⟩ | ⟨r, r', rfl, hr, rfl⟩
  · rfl
  · exact congrArg some (hf r r' hr)

theorem outbound_terms {now : ℤ} (h : p.outbound now x = .ok p') : p'.terms = p.terms := by
  simp only [PeerConfig.outbound, bind_ok, Except.ok.injEq] at h
  obtain ⟨_, hout, _, hin, rfl⟩ := h
  simp only [PeerConfig.terms, onLimiter_terms (fun _ _ => tryConsume_terms) hout, onLimiter_terms (fun _ _ => refill_terms) hin]

theorem inbound_terms {now : ℤ} (h : p.inbound now x = .ok p') : p'.terms = p.terms := by
  simp only [PeerConfig.inbound, bind_ok, Except.ok.injEq] at h
  obtain ⟨_, hin, _, hout, rfl⟩ := h
  simp only [PeerConfig.terms, onLimiter_terms (fun _ _ => tryConsume_terms) hin, onLimiter_terms (fun _ _ => refill_terms) hout]

/-- a peer whose limiters run keeps its terms -/
theorem terms_update {eid : ℕ} (hp : w.peers eid = some p) (hterms : p'.terms = p.terms)
    (hpeers : w'.peers = update w.peers eid (some p')) :
    (fun e => (w'.peers e).map PeerConfig.terms) = fun e => (w.peers e).map PeerConfig.terms := by
  funext e
  rw [hpeers]
  rcases eq_or_ne e eid with rfl | he
  · simp [hp, hterms]
  · simp [he]

theorem WithdrawFee.apply_settings {a : WithdrawFee} (h : a.apply d w = .ok w') : w'.settings = w.settings := by
  simp only [WithdrawFee.apply, bind_ok, Except.ok.injEq] at h
  obtain ⟨-, -, _, -, _, -, _, -, -, -, b₁, -, rfl⟩ := h
  rfl

/-- **Only configuring changes the rules.** -/
theorem step_rules (hrate : w.store.ld2sdRate = GRS_LD2SD_RATE) (hi : i.configures = false) (h : step d w i = .ok w') :
    w'.rules = w.rules := by
  have hsettings : w'.settings = w.settings := by
    obtain ⟨posted, he⟩ := step_ok.1 h
    cases exec_locks he hrate with
    | withdrawn a _ ha => exact WithdrawFee.apply_settings ha
    | configured hconf => simp [hi] at hconf
    | locked δ ha => exact ha.locks.frame
  have hpeers : (fun e => (w'.peers e).map PeerConfig.terms) = fun e => (w.peers e).map PeerConfig.terms := by
    cases step_effect h with
    | idle hpeers => rw [hpeers]
    | sent eid p p' hp hp' hpeers => exact terms_update hp (outbound_terms hp') hpeers
    | received eid p p' hp hp' hpeers => exact terms_update hp (inbound_terms hp') hpeers
    | configured a p' entries ha =>
      subst ha
      cases hi
  exact Prod.ext hsettings hpeers

/-! ## The admin -/

def World.seats (w : World) : Seats Pubkey := ⟨w.store.admin, w.store.pendingOwner⟩

/-- the admin who has to sign -/
def Instr.governor : Instr → Option Pubkey
  | .setPeerConfig a => some a.admin
  | .setOftConfig a => some a.admin
  | .transferOwnership a => some a.admin
  | _ => none

def Instr.move : Instr → Move Pubkey
  | .setOftConfig ⟨admin, .admin successor⟩ => .propose admin successor
  | .transferOwnership a => .propose a.admin a.newOwner
  | .acceptOwnership a => .accept a.pendingOwner
  | _ => .keep

/-- whoever signs for the admin is the admin -/
theorem governor_admin {k : Pubkey} (hi : i.governor = some k) (h : step d w i = .ok w') : w.store.admin = k := by
  obtain ⟨posted, he⟩ := step_ok.1 h
  obtain ⟨-, hp⟩ := exec_ok he
  cases i with
  | setPeerConfig a =>
    cases hi
    obtain ⟨_, hadmin, -⟩ := bind_ok.1 (silent_ok hp).1
    exact require_ok.1 hadmin
  | setOftConfig a =>
    cases hi
    obtain ⟨_, hadmin, -⟩ := bind_ok.1 (silent_ok hp).1
    exact require_ok.1 hadmin
  | transferOwnership a =>
    cases hi
    obtain ⟨_, hadmin, -⟩ := bind_ok.1 (silent_ok hp).1
    exact require_ok.1 hadmin
  | _ => cases hi

theorem seats_of_rules (h : w'.rules = w.rules) : w'.seats = w.seats := by
  have hadmin : w'.store.admin = w.store.admin := congrArg (fun r => r.1.1.admin) h
  have hpending : w'.store.pendingOwner = w.store.pendingOwner := congrArg (fun r => r.1.1.pendingOwner) h
  exact congrArg₂ Seats.mk hadmin hpending

/-- the admin and the proposed successor, before and after an instruction -/
theorem step_follows : Follows (step d) World.seats Instr.move (World.Solvent d) .default where
  keeps _ _ _ hw h := Solvent.step hw h
  takes w i w' hw h := by
    by_cases hi : i.configures = true
    · obtain ⟨posted, he⟩ := step_ok.1 h
      have ha := (exec_ok he).2
      cases i with
      | setPeerConfig a =>
        have ha := (silent_ok ha).1
        simp only [SetPeerConfig.apply, bind_ok, Prod.exists, Except.ok.injEq] at ha
        obtain ⟨-, -, _, _, -, rfl⟩ := ha
        rfl
      | setOftConfig a =>
        obtain ⟨admin, params⟩ := a
        have ha := (silent_ok ha).1
        simp only [SetOFTConfig.apply, bind_ok, require_ok, Except.ok.injEq] at ha
        obtain ⟨-, hadmin, s, hset, rfl⟩ := ha
        cases params with
        | admin successor =>
          simp only [OFTStore.set, proposeAdmin, bind_ok, Except.ok.injEq] at hset
          obtain ⟨-, -, rfl⟩ := hset
          exact ⟨hadmin.symm, rfl⟩
        | defaultFee bps =>
          simp only [OFTStore.set, bind_ok, Except.ok.injEq] at hset
          obtain ⟨-, -, rfl⟩ := hset
          rfl
        | delegate _ | paused _ | pauser _ | unpauser _ =>
          cases hset
          rfl
      | transferOwnership a =>
        have ha := (silent_ok ha).1
        simp only [TransferOwnership.apply, proposeAdmin, bind_ok, require_ok, Except.ok.injEq] at ha
        obtain ⟨-, hadmin, _, ⟨-, -, rfl⟩, rfl⟩ := ha
        exact ⟨hadmin.symm, rfl⟩
      | acceptOwnership a =>
        have ha := (silent_ok ha).1
        simp only [AcceptOwnership.apply, bind_ok, require_ok, Except.ok.injEq] at ha
        obtain ⟨-, hne, -, heq, rfl⟩ := ha
        exact ⟨heq, heq ▸ hne, rfl⟩
      | setPause a =>
        have ha := (silent_ok ha).1
        simp only [SetPause.apply, bind_ok, Except.ok.injEq] at ha
        obtain ⟨-, -, rfl⟩ := ha
        rfl
      | _ => cases hi
    · have hi : i.configures = false := by simpa using hi
      have hkeep : i.move = .keep := by cases i <;> first | rfl | cases hi
      rw [hkeep]
      exact seats_of_rules (step_rules hw.rate hi h)

theorem Genesis.world_seats (g : Genesis d) : g.world.seats = ⟨g.args.payer, .default⟩ := by
  have h := g.initialized
  simp only [Init.apply, bind_ok] at h
  obtain ⟨_, -, _, -, -, -, -, -, -, -, -, -, h⟩ := h
  split_ifs at h
  · simp only [bind_ok, Except.ok.injEq] at h
    obtain ⟨-, -, -, -, hw⟩ := h
    rw [← hw]
    rfl
  · simp only [bind_ok] at h
    obtain ⟨-, -, -, -, _, -, h⟩ := h
    obtain ⟨b, hw, -⟩ := handoffSpokeMint_ok h
    rw [hw]
    rfl

/-- a pauser sets the pause and nothing else -/
def Pauses (w : World) (i : Instr) (w' : World) : Prop :=
  ∃ a : SetPause, i = .setPause a ∧ w' = { w with store := { w.store with paused := a.paused } } ∧
    (if a.paused = true then w.store.pauser else w.store.unpauser) = some a.signer

theorem setPause_pauses {a : SetPause} (h : step d w (.setPause a) = .ok w') : Pauses w (.setPause a) w' := by
  obtain ⟨posted, he⟩ := step_ok.1 h
  have ha := (silent_ok (exec_ok he).2).1
  simp only [SetPause.apply, bind_ok, require_ok, Except.ok.injEq] at ha
  obtain ⟨-, hvalid, rfl⟩ := ha
  refine ⟨a, rfl, rfl, ?_⟩
  unfold isValidSigner at hvalid
  split_ifs at hvalid ⊢ <;> simpa using hvalid

/-- **The settings are the admin's.** Whatever the run: the admin initialized the store, or was handed it down by offers that were
accepted. What changes a setting, a fee, a peer or the terms of a limiter is signed by the admin; or a successor takes over what
the admin offered, and has not offered to anybody since; or a pauser sets the pause. An admin who offers the store to nobody
keeps it. -/
theorem settings_of_admin (g : Genesis d) (is : List Instr) :
    Inherits (step d) World.seats Instr.move g.world is (g.after is).store.admin ∧
    (∀ i w', step d (g.after is) i = .ok w' → w'.rules ≠ (g.after is).rules →
      i.governor = some (g.after is).store.admin ∨
      (∃ a, i = .acceptOwnership a ∧
        Offered (step d) World.seats Instr.move g.world is (g.after is).store.admin a.pendingOwner) ∨
      Pauses (g.after is) i w') ∧
    ∀ js, (g.after is).store.pendingOwner = .default →
      Meets (step d) (fun _ j => ¬ j.move.Proposes (g.after is).store.admin) (g.after is) js →
      (run (step d) (g.after is) js).store.admin = (g.after is).store.admin := by
  have hseats := g.world_seats
  have hnone : g.world.seats.pending = .default := by rw [hseats]
  have hsolvent := Init.apply_solvent g.initialized
  refine ⟨owner_handover step_follows hsolvent hnone is, fun i w' h hchange => ?_, fun js hpending hjs => ?_⟩
  · cases hgov : i.governor with
    | some k => exact .inl (by rw [governor_admin hgov h])
    | none =>
      cases i with
      | setPeerConfig a | setOftConfig a | transferOwnership a => cases hgov
      | setPause a => exact .inr (.inr (setPause_pauses h))
      | acceptOwnership a =>
        obtain ⟨hpending, hne, -⟩ := step_follows.takes _ _ w' (g.solvent is) h
        rcases pending_offered step_follows hsolvent hnone is with hnobody | hoffer
        · exact absurd (hpending.symm.trans hnobody) hne
        · refine .inr (.inl ⟨a, rfl, ?_⟩)
          rw [← hpending]
          exact hoffer
      | _ => exact absurd (step_rules (g.solvent is).rate rfl h) hchange
  · exact owner_tenure step_follows (g.solvent is) hpending hjs

/-! ## The pause -/

/-- the store, told that it is paused or that it is not -/
def World.withPaused (q : Bool) (w : World) : World := { w with store := { w.store with paused := q } }

/-- an instruction that sends to another chain, or receives from one -/
def Instr.crosses : Instr → Bool
  | .send _ | .bridge _ | .publishSale _ | .lzReceive _ _ => true
  | _ => false

def Instr.setsPause : Instr → Bool
  | .setOftConfig ⟨_, .paused _⟩ => true
  | .setPause _ => true
  | _ => false

/-- while the store is paused every instruction that crosses chains is refused, whatever its arguments -/
theorem crosses_refused (hp : w.store.paused = true) (h : step d w i = .ok w') : i.crosses = false := by
  have hrefused : ¬ w.store.paused = false := by simp [hp]
  obtain ⟨posted, he⟩ := step_ok.1 h
  have ha := (exec_ok he).2
  cases i with
  | send a =>
    obtain ⟨o, ha, -⟩ := posting_ok ha
    simp only [Send.apply, bind_ok, require_ok] at ha
    obtain ⟨_, -, _, -, _, -, -, hpaused, -⟩ := ha
    exact absurd hpaused hrefused
  | bridge a =>
    obtain ⟨o, ha, -⟩ := posting_ok ha
    simp only [Send.apply, bind_ok, require_ok] at ha
    obtain ⟨_, -, _, -, _, -, -, hpaused, -⟩ := ha
    exact absurd hpaused hrefused
  | publishSale a =>
    obtain ⟨o, ha, -⟩ := posting_ok ha
    simp only [PublishSale.apply, bind_ok, require_ok] at ha
    obtain ⟨_, -, -, -, _, -, _, -, -, -, -, hpaused, -⟩ := ha
    exact absurd hpaused hrefused
  | lzReceive a params =>
    have ha := (silent_ok ha).1
    simp only [LzReceive.apply, bind_ok, require_ok] at ha
    obtain ⟨_, -, -, -, _, -, _, -, _, -, -, -, -, hpaused, -⟩ := ha
    exact absurd hpaused hrefused
  | _ => rfl

variable {α β γ : Type}

theorem map_bind_ok (e : Except OFTError α) (f : α → Except OFTError β) (g : β → γ) :
    (e >>= f).map g = e >>= fun a => (f a).map g := by cases e <;> rfl

theorem bind_map_ok (e : Except OFTError α) (g : α → β) (f : β → Except OFTError γ) : e.map g >>= f = e >>= fun a => f (g a) := by
  cases e <;> rfl

/-- what `f` does to a store, it does whatever it is told of the pause -/
def Blind (f : World → Except OFTError World) : Prop := ∀ q w, f (w.withPaused q) = (f w).map (World.withPaused q)

theorem earmark_blind {a : SetSale} {source : TokenAccount Pubkey} : Blind fun w => a.earmark d w source := by
  intro q w
  simp only [SetSale.earmark, map_bind_ok, apply_ite (Except.map (World.withPaused q))]
  rfl

theorem append_blind {a : SetSale} {source : TokenAccount Pubkey} {id : ℕ} : Blind fun w => a.append d w source id := by
  intro q w
  have hearmark : a.earmark d (w.withPaused q) source = (a.earmark d w source).map (World.withPaused q) := earmark_blind q w
  simp only [SetSale.append, map_bind_ok, hearmark, bind_map_ok]
  rfl

theorem setSale_blind {a : SetSale} : Blind (a.apply d) := by
  intro q w
  simp only [SetSale.apply, map_bind_ok, apply_ite (Except.map (World.withPaused q))]
  refine bind_congr fun _ => bind_congr fun b => bind_congr fun source => bind_congr fun _ => bind_congr fun next => ?_
  refine congrArg₂ _ (append_blind q { w with bank := b }) ?_
  simp only [SetSale.close, map_bind_ok]
  rfl

theorem pay_blind {a : Buy} {asset payee : Pubkey} {cost : ℕ} : Blind fun w => a.pay w asset payee cost := by
  intro q w
  simp only [Buy.pay, map_bind_ok, apply_ite (Except.map (World.withPaused q))]
  rfl

theorem buy_blind {a : Buy} : Blind (a.apply d) := by
  intro q w
  simp only [Buy.apply, map_bind_ok]
  simp only [← pay_blind q]
  rfl

theorem setOftConfig_blind {a : SetOFTConfig} (h : ∀ q, a.params ≠ .paused q) : Blind a.apply := by
  obtain ⟨admin, params⟩ := a
  intro q w
  cases params with
  | paused r => exact absurd rfl (h r)
  | admin _ | delegate _ | defaultFee _ | pauser _ | unpauser _ =>
    simp only [SetOFTConfig.apply, OFTStore.set, proposeAdmin, map_bind_ok, bind_assoc]
    rfl

/-- an instruction that does not cross chains is blind to the pause -/
theorem step_blind (hi : i.crosses = false) (hs : i.setsPause = false) : Blind fun w => step d w i := by
  have hperform : ∀ f : World → Except OFTError World,
      (∀ w, perform d w i = silent (f w)) → Blind f → Blind fun w => step d w i := by
    intro f hf hblind q w
    simp only [step, exec, hf, silent, hblind q w, map_bind_ok, bind_map_ok, bind_assoc]
    rfl
  cases i with
  | send a | bridge a | publishSale a | lzReceive a params => cases hi
  | setPause a => cases hs
  | setOftConfig a =>
    refine hperform a.apply (fun _ => rfl) (setOftConfig_blind fun q hq => ?_)
    obtain ⟨admin, params⟩ := a
    cases hq
    cases hs
  | setSale a => exact hperform (a.apply d) (fun _ => rfl) setSale_blind
  | buy a => exact hperform (a.apply d) (fun _ => rfl) buy_blind
  | mintGenesis a =>
    refine hperform (a.apply d) (fun _ => rfl) fun q w => ?_
    simp only [MintGenesis.apply, map_bind_ok]
    rfl
  | vest a =>
    refine hperform (a.apply d) (fun _ => rfl) fun q w => ?_
    simp only [Vest.apply, map_bind_ok]
    rfl
  | release a =>
    refine hperform (a.apply d) (fun _ => rfl) fun q w => ?_
    simp only [Release.apply, map_bind_ok]
    rfl
  | withdrawFee a =>
    refine hperform (a.apply d) (fun _ => rfl) fun q w => ?_
    simp only [WithdrawFee.apply, map_bind_ok]
    rfl
  | setPeerConfig a =>
    refine hperform a.apply (fun _ => rfl) fun q w => ?_
    simp only [SetPeerConfig.apply, map_bind_ok]
    rfl
  | transferOwnership a =>
    refine hperform a.apply (fun _ => rfl) fun q w => ?_
    simp only [TransferOwnership.apply, proposeAdmin, map_bind_ok, bind_assoc]
    rfl
  | acceptOwnership a =>
    refine hperform a.apply (fun _ => rfl) fun q w => ?_
    simp only [AcceptOwnership.apply, map_bind_ok]
    rfl
  | token signer op =>
    refine hperform _ (fun _ => rfl) fun q w => ?_
    simp only [map_bind_ok]
    rfl
  | fund k x => exact hperform _ (fun _ => rfl) fun q w => rfl
  | tick n => exact hperform _ (fun _ => rfl) fun q w => rfl

theorem exec_blind (hi : i.crosses = false) (hs : i.setsPause = false) (q : Bool) (w : World) :
    Machine.exec (step d) (w.withPaused q) i = (Machine.exec (step d) w i).withPaused q := by
  have hblind := step_blind (d := d) hi hs q w
  dsimp only at hblind
  unfold Machine.exec
  rw [hblind]
  cases step d w i <;> rfl

/-- the run of a paused store, but for what crosses chains, is the run of one that is not paused -/
theorem run_blind (w : World) (is : List Instr) (hs : ∀ i ∈ is, i.setsPause = false) :
    run (step d) (w.withPaused true) is =
      (run (step d) (w.withPaused false) (is.filter fun i => !i.crosses)).withPaused true := by
  induction is generalizing w with
  | nil => rfl
  | cons i is ih =>
    have hrest := fun j hj => hs j (List.mem_cons_of_mem i hj)
    rw [run_cons]
    cases hi : i.crosses with
    | true =>
      -- what crosses is refused, and rolled back
      have hrefused : Machine.exec (step d) (w.withPaused true) i = w.withPaused true := by
        rcases exec_cases (step d) (w.withPaused true) i with ⟨w', hok, -⟩ | hsame
        · simp [crosses_refused rfl hok] at hi
        · exact hsame
      rw [hrefused, List.filter_cons_of_neg (by simp [hi])]
      exact ih w hrest
    | false =>
      have hexec := exec_blind (d := d) hi (hs i List.mem_cons_self)
      rw [List.filter_cons_of_pos (by simp [hi]), run_cons, hexec, hexec]
      exact ih _ hrest

/-- **The pause gates what crosses chains, and nothing else.** A paused store commits nothing that crosses. As long as nobody sets
the pause, what a run makes of it is what the run without the instructions that cross would make of it if it were not
paused.

The comparison is between whole runs, so it also says that the pause changes nothing about purchases, vestings and settings. -/
theorem pause_gates (w : World) (is : List Instr) :
    (∀ i w', w.store.paused = true → step d w i = .ok w' → i.crosses = false) ∧
    (w.store.paused = true → (∀ i ∈ is, i.setsPause = false) →
      run (step d) w is = (run (step d) (w.withPaused false) (is.filter fun i => !i.crosses)).withPaused true) := by
  refine ⟨fun i w' hp h => crosses_refused hp h, fun hp hs => ?_⟩
  have hw : w = w.withPaused true := by
    unfold World.withPaused
    rw [← hp]
  have hrun := run_blind (d := d) w is hs
  rwa [← hw] at hrun

end Grindurus.Grs
