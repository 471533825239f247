/-
The stores of several chains, and the endpoint between them.

- `Letter`, `act`, `receive`, `protocol`: a store acts on its own, or is handed a message that was sent to it. The endpoint
  delivers each message at most once, in any order, or never.
- `Live`: a store that is the mint authority of its token. `exec_live`, `LzReceive.apply_live`: what it sends it has burned, and
  it mints no more than it was sent; so `conserves`.
- `mesh_supply`: from the genesis mint on, supplies and messages never exceed the cap together, no delivery is rejected at the
  cap, and no message mints more than it burned.
-/
import Grindurus.Lib.Network
import Grindurus.Grs.Refusals

namespace Grindurus.Grs

open Checked TokenBank Machine Network Function

/-! ## The endpoint -/

/-- what the endpoint was handed, with the chain and the store it came from -/
structure Letter where
  srcEid : ℕ
  sender : Pubkey
  posted : Outbound
  deriving DecidableEq, Repr

def Letter.carried (l : Letter) : ℕ := grsCarried l.posted.message

/-- the endpoint is the only one to hand over messages -/
def Instr.delivers : Instr → Bool
  | .lzReceive _ _ => true
  | _ => false

variable (ds : ℕ → Deployment)

def act (eid : ℕ) (w : World) (i : Instr) : Except OFTError (World × Option Letter) := do
  require (i.delivers = false) .invalidSender
  let (w, o) ← exec (ds eid) w i
  .ok (w, o.map fun o => ⟨eid, (ds eid).oftStore, o⟩)

/-- the endpoint clears a message for the store it was sent to -/
def receive (eid : ℕ) (w : World) (l : Letter) (a : LzReceive) : Except OFTError World := do
  require (l.posted.receiver = (ds eid).oftStore) .invalidSender
  step (ds eid) w (.lzReceive a ⟨l.srcEid, l.sender, l.posted.message⟩)

def protocol : Protocol ℕ World Instr Letter LzReceive OFTError where
  act := act ds
  dest l := l.posted.dstEid
  receive := receive ds

variable {ds} {d : Deployment} {w w' : World} {ι : ℤ}

theorem act_ok {eid : ℕ} {i : Instr} {posted : Option Letter} (h : act ds eid w i = .ok (w', posted)) :
    i.delivers = false ∧ ∃ o, exec (ds eid) w i = .ok (w', o) ∧ posted = o.map fun o => ⟨eid, (ds eid).oftStore, o⟩ := by
  simp only [act, bind_ok, require_ok, Prod.exists, Except.ok.injEq, Prod.mk.injEq] at h
  obtain ⟨-, hi, _, o, he, rfl, rfl⟩ := h
  exact ⟨hi, o, he, rfl⟩

theorem receive_ok {eid : ℕ} {l : Letter} {a : LzReceive} (h : receive ds eid w l a = .ok w') :
    a.apply (ds eid) w ⟨l.srcEid, l.sender, l.posted.message⟩ = .ok w' := by
  simp only [receive, bind_ok, require_ok] at h
  obtain ⟨-, -, h⟩ := h
  obtain ⟨posted, he⟩ := step_ok.1 h
  exact (silent_ok (exec_ok he).2).1

/-! ## Supply -/

/-- a native store that mints its token, with the shared decimals of the mesh -/
structure Live (d : Deployment) (w : World) : Prop where
  native : w.store.oftType = .native
  rate : w.store.ld2sdRate = GRS_LD2SD_RATE
  minter : Bank.Authority d.oftStore w.store.tokenMint w.bank

theorem Live.flow {f : Pubkey → ℤ} (h : Live d w) (hs : SameStore w w') (hf : Flow d w f ι w.bank w'.bank) :
    Live d w' ∧ (w'.supply : ℤ) ≤ w.supply + ι := by
  refine ⟨⟨hs.oftType.trans h.native, hs.rate.trans h.rate, ?_⟩, ?_⟩
  · rw [hs.tokenMint]
    exact hf.authority h.minter
  · unfold World.supply
    rw [hs.tokenMint]
    exact hf.supply h.minter

theorem Send.apply_live {a : Send} {o : Outbound} (h : a.apply d w = .ok (w', o)) (ha : a.signer ∉ d.derived) (hw : Live d w) :
    Live d w' ∧ w'.supply + grsCarried o.message ≤ w.supply := by
  obtain ⟨r, hdvd, -, hmsg, hi⟩ := Send.apply_ok h ha
  rw [if_pos hw.native] at hi
  obtain ⟨hlive, hsupply⟩ := hw.flow hi.store hi.flow
  have hcarried : grsCarried o.message ≤ r.amountReceivedLd := by
    rw [hmsg]
    refine (grsCarried_encode_le ..).trans ?_
    rw [OFTStore.ld2sd, hw.rate]
    exact Nat.div_mul_le_self _ _
  exact ⟨hlive, by omega⟩

theorem PublishSale.apply_live {a : PublishSale} {o : Outbound} (h : a.apply d w = .ok (w', o)) (hw : Live d w) :
    Live d w' ∧ w'.supply + grsCarried o.message ≤ w.supply := by
  obtain ⟨row, -, -, -, hmsg, -, -, -, -, -, ht⟩ := PublishSale.apply_ok h
  obtain ⟨hlive, hsupply⟩ := hw.flow ht.store ht.flow
  have hcarried : grsCarried o.message ≤ row.grsAmount := hmsg ▸ grsCarried_encodeSale_le ..
  exact ⟨hlive, by omega⟩

theorem Live.kept {f : Pubkey → ℤ} (h : Live d w) (hs : SameStore w w') (hf : Flow d w f 0 w.bank w'.bank) :
    Live d w' ∧ w'.supply + 0 ≤ w.supply := by
  obtain ⟨hlive, hsupply⟩ := h.flow hs hf
  exact ⟨hlive, by omega⟩

/-- the accounts an instruction makes sure of mint nothing -/
theorem Live.prepared {b : Bank Pubkey} (h : Live d w) (hb : Prepared d w b) :
    Live d { w with bank := b } ∧ ({ w with bank := b } : World).supply = w.supply :=
  ⟨⟨h.native, h.rate, hb.flow.authority h.minter⟩, congrFun hb.supply _⟩

/-- what a store sends it has burned -/
theorem exec_live {i : Instr} {posted : Option Outbound} (h : exec d w i = .ok (w', posted)) (hi : i.delivers = false)
    (hw : Live d w) : Live d w' ∧ w'.supply + posted.elim 0 (fun o => grsCarried o.message) ≤ w.supply := by
  by_cases hq : i.quiet = true
  · obtain ⟨rfl, hidle⟩ := exec_quiet h hq
    exact hw.kept hidle.store hidle.flow
  obtain ⟨hs, h⟩ := exec_ok h
  cases i with
  | setSale a =>
    obtain ⟨ha, rfl⟩ := silent_ok h
    obtain ⟨-, ⟨i, row, -, -, -, -, -, -, -, -, -, δ, ht, -⟩ | ⟨row, -, -, -, -, -, ht⟩⟩ := SetSale.apply_ok ha (hs _ rfl)
    · exact hw.kept ht.store ht.flow
    · exact hw.kept ht.store ht.flow
  | buy a =>
    obtain ⟨ha, rfl⟩ := silent_ok h
    obtain ⟨row, cost, -, -, -, -, -, -, -, ht⟩ := Buy.apply_ok ha (hs _ rfl)
    exact hw.kept ht.store ht.flow
  | publishSale a =>
    obtain ⟨o, ha, rfl⟩ := posting_ok h
    exact PublishSale.apply_live ha hw
  | send a =>
    obtain ⟨o, ha, rfl⟩ := posting_ok h
    exact Send.apply_live ha (hs _ rfl) hw
  | bridge a =>
    obtain ⟨o, ha, rfl⟩ := posting_ok h
    exact Send.apply_live ha (hs _ rfl) hw
  | vest a =>
    obtain ⟨ha, rfl⟩ := silent_ok h
    obtain ⟨s, -, -, -, -, -, -, haward⟩ := Vest.apply_ok ha (hs _ rfl)
    exact hw.kept haward.store haward.flow
  | release a =>
    obtain ⟨ha, rfl⟩ := silent_ok h
    obtain ⟨v, -, -, -, -, -, -, -, haward, -⟩ := Release.apply_ok ha
    exact hw.kept haward.store haward.flow
  | lzReceive a params => cases hi
  | _ => exact absurd rfl hq

/-- a store mints no more than the message carried -/
theorem LzReceive.apply_live {a : LzReceive} {params : LzReceiveParams} (h : a.apply d w params = .ok w') (hw : Live d w) :
    Live d w' ∧ w'.supply ≤ w.supply + grsCarried params.message := by
  rcases LzReceive.apply_ok h with ⟨b, hb, -, h⟩ | ⟨b, hb, hsale, -, h⟩ | ⟨b, peer, hb, hsale, hgrant, h⟩
  · obtain ⟨m, hm, -, -, ⟨_, -, -, -, rfl⟩ | ⟨-, hr⟩⟩ := receiveSale_ok h
    · obtain ⟨hlive, hsupply⟩ := hw.prepared hb
      exact ⟨hlive, by omega⟩
    · have ht := (Resized.before hb hr).trades
      obtain ⟨hlive, hsupply⟩ := hw.flow ht.store ht.flow
      rw [grsCarried_sale hm]
      exact ⟨hlive, by omega⟩
  · obtain ⟨hready, hsupply⟩ := hw.prepared hb
    obtain ⟨m, id, s, hm, -, -, -, -, -, -, ha⟩ := receiveGrant_ok h
    obtain ⟨hlive, hsupply'⟩ := hready.flow ha.store ha.flow
    rw [grsCarried_grant hsale hm]
    exact ⟨hlive, by omega⟩
  · obtain ⟨hready, hsupply⟩ := hw.prepared hb
    obtain ⟨sd, hsd, hi⟩ := receiveOft_ok h
    obtain ⟨hlive, hsupply'⟩ := hready.flow hi.store hi.flow
    rw [hready.rate] at hsupply'
    rw [grsCarried_credit hsale hgrant hsd]
    exact ⟨hlive, by omega⟩

/-- **No inflation.** No store of the mesh creates supply: what it posts it burns, and what it mints it was sent. -/
theorem conserves : Conserves (protocol ds) (fun n => Live (ds n)) (fun _ => World.supply) Letter.carried where
  act {n w i w' posted} hw h := by
    obtain ⟨hi, o, he, rfl⟩ := act_ok h
    obtain ⟨hlive, hle⟩ := exec_live he hi hw
    refine ⟨hlive, ?_⟩
    cases o <;> exact hle
  receive {n w l a w'} hw h := LzReceive.apply_live (receive_ok h) hw

/-! ## The cap -/

/-- every error but the cap -/
def Uncapped : Set OFTError := {e | e ≠ .capExceeded}

@[simp] theorem mem_uncapped {e : OFTError} : e ∈ Uncapped ↔ e ≠ .capExceeded := Iff.rfl

theorem checks_uncapped : Checks ⊆ Uncapped := by
  rintro e he rfl
  simp at he

variable {a : LzReceive} {x : ℕ}

/-- what stays below the cap is credited, or refused for another reason -/
theorem creditEscrow_uncapped {dst : Pubkey} (h : w.supply + x ≤ GRS_MAX_SUPPLY_LD) :
    Throws Uncapped (creditEscrow d w a dst x) := by
  have hfits : w.supply + x < 2 ^ u64 := h.trans_lt (by decide)
  unfold creditEscrow
  split
  · simp
  · exact .bind (by simp) fun _ _ => .bind (throws_checkedAdd.2 (.inl hfits)) fun s hs => .bind (by
      obtain ⟨-, rfl⟩ := checkedAdd_ok.1 hs
      simp [h]) fun _ _ => by simp

/-- what a lot gives back brings nothing -/
theorem debitSaleEscrow_uncapped : Throws Uncapped (debitSaleEscrow d w x) := by
  unfold debitSaleEscrow
  split_ifs
  · simp
  · split <;> simp

theorem resizeLot_uncapped {previous : Option ℕ} (h : w.supply + x ≤ GRS_MAX_SUPPLY_LD) :
    Throws Uncapped (resizeLot d w a previous x) :=
  resizeLot_throws (by simp) (fun _ hy => creditEscrow_uncapped ((Nat.add_le_add_left hy _).trans h))
    fun _ _ _ _ => debitSaleEscrow_uncapped

theorem receiveSale_uncapped {message : List UInt8} (h : w.supply + grsCarried message ≤ GRS_MAX_SUPPLY_LD) :
    Throws Uncapped (receiveSale d w a message) := by
  refine receiveSale_throws checks_uncapped fun m previous w' hm _ hbank hstore _ => resizeLot_uncapped ?_
  rw [grsCarried_sale hm] at h
  rwa [World.supply, hbank, hstore]

theorem receiveGrant_uncapped {message : List UInt8} (hsale : isSale message = false)
    (h : w.supply + grsCarried message ≤ GRS_MAX_SUPPLY_LD) : Throws Uncapped (receiveGrant d w a message) := by
  refine receiveGrant_throws checks_uncapped fun m w' hm hstore _ hsupply => creditEscrow_uncapped ?_
  rw [grsCarried_grant hsale hm] at h
  rwa [World.supply, hstore, hsupply]

theorem receiveOft_uncapped {srcEid : ℕ} {peer : PeerConfig} {message : List UInt8} (hsale : isSale message = false)
    (hgrant : isGrant message = false) (hrate : w.store.ld2sdRate = GRS_LD2SD_RATE)
    (h : w.supply + grsCarried message ≤ GRS_MAX_SUPPLY_LD) : Throws Uncapped (receiveOft d w a srcEid peer message) := by
  refine receiveOft_throws checks_uncapped fun sd x w' dst hsd hx hbank hstore => creditEscrow_uncapped ?_
  obtain ⟨-, rfl⟩ := checkedMul_ok.1 hx
  rw [grsCarried_credit hsale hgrant hsd] at h
  rwa [World.supply, hbank, hstore, hrate]

/-- a message that fits below the cap is not rejected at it -/
theorem LzReceive.apply_uncapped {params : LzReceiveParams} (hrate : w.store.ld2sdRate = GRS_LD2SD_RATE)
    (h : w.supply + grsCarried params.message ≤ GRS_MAX_SUPPLY_LD) : Throws Uncapped (a.apply d w params) := by
  refine apply_throws checks_uncapped fun b peer _ hsupply => ?_
  replace h : ({ w with bank := b } : World).supply + grsCarried params.message ≤ GRS_MAX_SUPPLY_LD := by
    rwa [World.supply, hsupply]
  split_ifs with hsale hgrant
  · exact receiveSale_uncapped h
  · exact receiveGrant_uncapped (by simpa using hsale) h
  · exact receiveOft_uncapped (by simpa using hsale) (by simpa using hgrant) hrate h

theorem receive_uncapped {eid : ℕ} {l : Letter} (hrate : w.store.ld2sdRate = GRS_LD2SD_RATE)
    (h : w.supply + l.carried ≤ GRS_MAX_SUPPLY_LD) : Throws Uncapped (receive ds eid w l a) := by
  refine .bind (by simp) fun _ _ => .bind (.bind (by simp [checkSigner, Instr.signer]) fun _ _ => ?_) fun _ _ => by simp
  exact .bind (LzReceive.apply_uncapped hrate h) fun _ _ => by simp

/-! ## Launch -/

/-- the genesis mint brings the supply to the cap and hands the mint over to the store -/
theorem MintGenesis.apply_ok {a : MintGenesis} (h : a.apply d w = .ok w') :
    w.store.oftType = .native ∧ w.config.homeEid = 0 ∧ w'.store = w.store ∧ w'.supply = GRS_MAX_SUPPLY_LD ∧
      Bank.Authority d.oftStore w'.store.tokenMint w'.bank := by
  simp only [MintGenesis.apply, loadMint, bind_ok, demand_ok, require_ok, Except.ok.injEq] at h
  obtain ⟨-, -, -, hnative, -, hhome, -, -, mint, hmint, _, -, -, hzero, -, -, -, -, b₁, hb₁, b₂, hb₂, rfl⟩ := h
  have hbefore : w.bank.supply w.store.tokenMint = 0 := by simp [Bank.supply, hmint, hzero]
  have hminted := Bank.mintTo_supply (spl_ok.1 hb₁) w.store.tokenMint
  rw [if_pos rfl, hbefore, Nat.zero_add] at hminted
  have hset := spl_ok.1 hb₂
  simp only [Bank.setMintAuthority, bind_ok, demand_ok, require_ok, Except.ok.injEq] at hset
  obtain ⟨t, ht, -, -, rfl⟩ := hset
  refine ⟨hnative, hhome, rfl, ?_, _, update_self .., rfl⟩
  rw [Bank.supply, ht] at hminted
  simpa [World.supply, Bank.putMint_supply] using hminted

variable (ds)

/-- the stores of a mesh, all native and just initialized: one home, and spokes -/
structure Stores where
  home : ℕ
  spokes : Finset ℕ
  apart : home ∉ spokes
  genesis : ∀ n, Genesis (ds n)
  native : ∀ n ∈ insert home spokes, (genesis n).world.store.oftType = .native
  homeEid : (genesis home).world.config.homeEid = 0
  spokeEid : ∀ n ∈ spokes, (genesis n).world.config.homeEid ≠ 0

/-- the mesh right after the genesis mint: nothing is sent, and the spokes have no supply -/
structure Launch extends Stores ds where
  before : List Instr
  mint : MintGenesis
  world : World
  minted : mint.apply (ds home) ((genesis home).after before) = .ok world
  empty : ∀ n ∈ spokes, (genesis n).world.supply = 0

variable {ds}

def Launch.net (L : Launch ds) : Net ℕ World Letter where
  nodes := insert L.home L.spokes
  node n := if n = L.home then L.world else (L.genesis n).world
  mail := []

theorem Launch.node_home (L : Launch ds) : L.net.node L.home = L.world := if_pos rfl

theorem Launch.node_spoke (L : Launch ds) {n : ℕ} (hn : n ∈ L.spokes) : L.net.node n = (L.genesis n).world := by
  have hne : n ≠ L.home := by
    rintro rfl
    exact L.apart hn
  exact if_neg hne

theorem Launch.live (L : Launch ds) : ∀ n ∈ L.net.nodes, Live (ds n) (L.net.node n) := by
  intro n hn
  have hblank := (L.genesis n).blank
  rcases Finset.mem_insert.1 hn with rfl | hspoke
  · obtain ⟨hnative, -, hstore, -, hminter⟩ := MintGenesis.apply_ok L.minted
    have hsame := (L.genesis L.home).after_store L.before
    rw [L.node_home]
    exact ⟨by rw [hstore]; exact hnative, by rw [hstore, hsame.rate]; exact hblank.rate, hminter⟩
  · rw [L.node_spoke hspoke]
    exact ⟨L.native n hn, hblank.rate, hblank.minter (L.spokeEid n hspoke)⟩

theorem Launch.total (L : Launch ds) : L.net.total (fun _ => World.supply) Letter.carried = GRS_MAX_SUPPLY_LD := by
  have hspokes : ∑ n ∈ L.spokes, (L.net.node n).supply = 0 :=
    Finset.sum_eq_zero fun n hn => by rw [L.node_spoke hn, L.empty n hn]
  calc L.net.total (fun _ => World.supply) Letter.carried
      = ∑ n ∈ insert L.home L.spokes, (L.net.node n).supply + 0 := rfl
    _ = (L.net.node L.home).supply := by rw [Finset.sum_insert L.apart, hspokes, Nat.add_zero]
    _ = GRS_MAX_SUPPLY_LD := by rw [L.node_home, (MintGenesis.apply_ok L.minted).2.2.2.1]

/-- every state the mesh can get into -/
def Launch.after (L : Launch ds) (evs : List (Event ℕ Instr LzReceive)) : Net ℕ World Letter :=
  Machine.run (Network.step (protocol ds)) L.net evs

theorem Launch.capped (L : Launch ds) (evs : List (Event ℕ Instr LzReceive)) :
    Bounded (fun n => Live (ds n)) (fun _ => World.supply) Letter.carried GRS_MAX_SUPPLY_LD (L.after evs) :=
  conserves.run ⟨L.live, L.total.le⟩ evs

/-- what a piece of mail mints where it arrives is no more than what was burned to post it -/
theorem minted_le_burned {net net₁ net₂ net₃ : Net ℕ World Letter} {c n : ℕ} {i : Instr} {a : LzReceive} {m : Mail Letter}
    (hnet : Bounded (fun n => Live (ds n)) (fun _ => World.supply) Letter.carried c net)
    (hpost : Network.step (protocol ds) net (.act n i) = .ok net₁) (hmail : net₁.mail[net.mail.length]? = some m)
    (rest : List (Event ℕ Instr LzReceive)) (hrun : Machine.run (Network.step (protocol ds)) net₁ rest = net₂)
    (hdeliver : Network.step (protocol ds) net₂ (.deliver net.mail.length a) = .ok net₃) :
    (net₃.node m.letter.posted.dstEid).supply + (net₁.node n).supply ≤
      (net₂.node m.letter.posted.dstEid).supply + (net.node n).supply := by
  have hnet₁ := conserves.step hnet hpost
  have hnet₂ := conserves.run hnet₁ rest
  rw [hrun] at hnet₂
  obtain ⟨hn, s, posted, hact, rfl⟩ := step_act hpost
  obtain ⟨l, s', hl, hdst, hrec, rfl⟩ := step_deliver hdeliver
  have hposted : (Net.letters _)[net.mail.length]? = some m.letter :=
    (List.getElem?_map ..).trans (congrArg (Option.map Mail.letter) hmail)
  have hletter : (Machine.run (Network.step (protocol ds)) _ rest).letters[net.mail.length]? = some m.letter :=
    run_letter hposted rest
  rw [hrun, Net.letters, List.getElem?_map, hl] at hletter
  cases Option.some.inj hletter
  have hburned := (conserves.act (hnet.nodes n hn) hact).2
  have hminted := (conserves.receive (hnet₂.nodes _ hdst) hrec).2
  rw [List.getElem?_append_right le_rfl] at hmail
  cases posted with
  | none => simp at hmail
  | some p =>
    simp at hmail
    subst hmail
    simp only [update_self, Option.elim_some] at hburned hminted ⊢
    have hcarried := Nat.add_le_add hminted hburned
    dsimp only [protocol] at hcarried ⊢
    simp only [update_self]
    omega

/-- **Mesh supply.** From the genesis mint on, whatever the stores do and however their messages are delivered: the supplies and
what the undelivered messages carry never exceed the cap together; no delivery is rejected at the cap; and what a message mints
where it arrives is no more than what its source burned. What is counted is the supply of each chain and the amount each
undelivered message is good for. A message is burned for before it is posted, and delivered once, so the sum does not grow; some
of it may stay in flight for ever. -/
theorem mesh_supply (L : Launch ds) (evs : List (Event ℕ Instr LzReceive)) :
    (L.after evs).total (fun _ => World.supply) Letter.carried ≤ GRS_MAX_SUPPLY_LD ∧
    (∀ k a, Network.step (protocol ds) (L.after evs) (.deliver k a) ≠ .error (.node .capExceeded)) ∧
    ∀ n i net₁ m rest a net₃, Network.step (protocol ds) (L.after evs) (.act n i) = .ok net₁ →
      net₁.mail[(L.after evs).mail.length]? = some m →
      Network.step (protocol ds) (Machine.run (Network.step (protocol ds)) net₁ rest) (.deliver (L.after evs).mail.length a) = .ok net₃ →
      (net₃.node m.letter.posted.dstEid).supply + (net₁.node n).supply ≤
        ((Machine.run (Network.step (protocol ds)) net₁ rest).node m.letter.posted.dstEid).supply + ((L.after evs).node n).supply := by
  have hcapped := L.capped evs
  refine ⟨hcapped.total, fun k a h => ?_, fun n i net₁ m rest a net₃ hpost hmail hdeliver => ?_⟩
  · obtain ⟨l, hl, hdst, hrec⟩ := step_deliver_error h
    have hroom : ((L.after evs).node l.posted.dstEid).supply + l.carried ≤ GRS_MAX_SUPPLY_LD :=
      (Net.le_total (fun _ => World.supply) hdst hl).trans hcapped.total
    have hlive : Live (ds l.posted.dstEid) ((L.after evs).node l.posted.dstEid) := hcapped.nodes _ hdst
    exact receive_uncapped hlive.rate hroom _ hrec rfl
  · exact minted_le_burned hcapped hpost hmail rest rfl hdeliver

end Grindurus.Grs
