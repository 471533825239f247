/-
Publishing sales to spokes, over a network that delivers late, out of order, or never.

- `Rows`: what an instruction of a store does to the rows of its sales, and which sale message it posts. `exec_rows`.
- `World.Sold`: a row that holds nothing. It stays so, on the home and on a spoke.
- `publication_safe`: for each id at most one message that carries GRS is ever sent; after a close was processed a spoke never
  mints for the id again; and once a spoke has sold out, what was minted for the id was bought there or burned.

The home chain publishes a lot by a message and forgets what it held, a close publishes a zero, and messages of one id may
overtake each other. What makes this safe is a rule of the receiving side: a row that holds nothing is never filled again. So an
open that arrives after its close is dropped, and what was burned for it at home is gone, which errs on the safe side.

Nothing is assumed of the network but that it invents no message and delivers none twice.
-/
import Grindurus.Grs.Mesh

namespace Grindurus.Grs

open Checked TokenBank Machine Network Function

/-! ## Rows -/

/-- the row of the sale is there and holds nothing -/
def World.Sold (w : World) (id : ℕ) : Prop := ∃ row, w.sales id = some row ∧ row.grsAmount = 0

/-- what is bought of the sale -/
def Instr.bought (id : ℕ) : Instr → ℕ
  | .buy a => if a.id = id then a.amountLd else 0
  | _ => 0

/-- what an instruction does to the rows of the sales, with the message it posts -/
inductive Rows (w w' : World) : Instr → Option Outbound → Prop where
  | kept {i : Instr} {posted : Option Outbound} (h : w'.sales = w.sales) (hi : ∀ id, i.bought id = 0)
      (hp : ∀ o, posted = some o → isSale o.message = false) : Rows w w' i posted
  | listed {i : Instr} (id : ℕ) (row : SaleAccount) (home : w.config.homeEid = 0) (hid : 0 < id ∧ id < 2 ^ 64)
      (hnone : w.sales id = none) (h : w'.sales = update w.sales id (some row)) (hi : ∀ id, i.bought id = 0) : Rows w w' i none
  | closed {i : Instr} (id : ℕ) (row row' : SaleAccount) (home : w.config.homeEid = 0) (hrow : w.sales id = some row)
      (h : w'.sales = update w.sales id (some row')) (hzero : row'.grsAmount = 0) (hi : ∀ id, i.bought id = 0) : Rows w w' i none
  | bought (a : Buy) (row row' : SaleAccount) (hrow : w.sales a.id = some row) (hpos : 0 < a.amountLd)
      (hle : row'.grsAmount + a.amountLd = row.grsAmount) (h : w'.sales = update w.sales a.id (some row')) :
      Rows w w' (.buy a) none
  | published {i : Instr} (id : ℕ) (row row' : SaleAccount) (o : Outbound) (home : w.config.homeEid = 0)
      (hrow : w.sales id = some row) (h : w'.sales = update w.sales id (some row')) (hzero : row'.grsAmount = 0)
      (hi : ∀ id, i.bought id = 0)
      (hmsg : o.message = encodeSale id row.asset row.assetAmount row.grsAmount row.recipient) : Rows w w' i (some o)

variable {ds : ℕ → Deployment} {d : Deployment} {w w' : World} {id : ℕ} {i : Instr} {posted : Option Outbound}

/-- an instruction of a store, as a row step: who opens, who sells, who closes, and which message it posts -/
theorem exec_rows (h : exec d w i = .ok (w', posted)) (hi : i.delivers = false) : Rows w w' i posted := by
  by_cases hq : i.quiet = true
  · obtain ⟨rfl, hidle⟩ := exec_quiet h hq
    refine .kept hidle.lots.sales (fun id => ?_) (fun o ho => by cases ho)
    cases i <;> first | rfl | cases hq
  obtain ⟨hs, h⟩ := exec_ok h
  cases i with
  | setSale a =>
    obtain ⟨ha, rfl⟩ := silent_ok h
    obtain ⟨hhome, ⟨id, row, hid, hlt, hnone, -, -, hsales, -⟩ | ⟨row, hrow, -, hsales, -⟩⟩ := SetSale.apply_ok ha (hs _ rfl)
    · exact .listed id row hhome ⟨by omega, hlt⟩ hnone hsales fun _ => rfl
    · exact .closed a.id row _ hhome hrow hsales rfl fun _ => rfl
  | buy a =>
    obtain ⟨ha, rfl⟩ := silent_ok h
    obtain ⟨row, cost, hrow, hcost, -, -, hsales, -⟩ := Buy.apply_ok ha (hs _ rfl)
    obtain ⟨hpos, hle, -⟩ := quoteCost_ok hcost
    exact .bought a row _ hrow hpos (Nat.sub_add_cancel hle) hsales
  | publishSale a =>
    obtain ⟨o, ha, rfl⟩ := posting_ok h
    obtain ⟨row, hrow, hhome, -, hmsg, -, -, hsales, -⟩ := PublishSale.apply_ok ha
    exact .published a.id row _ o hhome hrow hsales rfl (fun _ => rfl) hmsg
  | send a =>
    obtain ⟨o, ha, rfl⟩ := posting_ok h
    obtain ⟨r, -, -, hmsg, hidle⟩ := Send.apply_ok ha (hs _ rfl)
    refine .kept hidle.lots.sales (fun _ => rfl) fun o' ho => ?_
    cases ho
    rw [hmsg]
    exact isSale_encode ..
  | bridge a =>
    obtain ⟨o, ha, rfl⟩ := posting_ok h
    obtain ⟨r, -, -, hmsg, hidle⟩ := Send.apply_ok ha (hs _ rfl)
    refine .kept hidle.lots.sales (fun _ => rfl) fun o' ho => ?_
    cases ho
    rw [hmsg]
    exact isSale_encode ..
  | vest a =>
    obtain ⟨ha, rfl⟩ := silent_ok h
    obtain ⟨s, -, -, -, -, -, -, haward⟩ := Vest.apply_ok ha (hs _ rfl)
    exact .kept haward.lots.sales (fun _ => rfl) fun o ho => by cases ho
  | release a =>
    obtain ⟨ha, rfl⟩ := silent_ok h
    obtain ⟨v, -, -, -, -, -, -, -, haward, -⟩ := Release.apply_ok ha
    exact .kept haward.lots.sales (fun _ => rfl) fun o ho => by cases ho
  | lzReceive a params => cases hi
  | _ => exact absurd rfl hq

/-! ## Sold out -/

theorem Sold.update {k : ℕ} {row : SaleAccount} (h : w.Sold id) (hw : w'.sales = Function.update w.sales k (some row))
    (hk : k = id → row.grsAmount = 0) : w'.Sold id := by
  by_cases hik : k = id
  · subst hik
    exact ⟨row, by rw [hw, update_self], hk rfl⟩
  · obtain ⟨old, hold, hzero⟩ := h
    exact ⟨old, by rw [hw, update_of_ne (Ne.symm hik), hold], hzero⟩

/-- no instruction brings a lot back that holds nothing -/
theorem Rows.sold (h : Rows w w' i posted) (hs : w.Sold id) : w'.Sold id := by
  obtain ⟨old, hold, hzero⟩ := hs
  cases h with
  | kept h => exact ⟨old, by rw [h, hold], hzero⟩
  | listed k row home hid hnone h => exact Sold.update ⟨old, hold, hzero⟩ h fun hk => by simp [← hk, hnone] at hold
  | closed k row row' home hrow h hz => exact Sold.update ⟨old, hold, hzero⟩ h fun _ => hz
  | bought a row row' hrow hpos hle h =>
    refine Sold.update ⟨old, hold, hzero⟩ h fun hk => ?_
    rw [hk, hold] at hrow
    cases hrow
    omega
  | published k row row' o home hrow h hz => exact Sold.update ⟨old, hold, hzero⟩ h fun _ => hz

/-- ids are given in order, and fit -/
def World.Numbered (w : World) : Prop := ∀ id row, w.sales id = some row → 0 < id ∧ id < 2 ^ 64

theorem Numbered.update {k : ℕ} {row : SaleAccount} (h : w.Numbered) (hw : w'.sales = Function.update w.sales k (some row))
    (hk : 0 < k ∧ k < 2 ^ 64) : w'.Numbered := by
  intro id row' hrow
  rw [hw] at hrow
  by_cases hik : id = k
  · exact hik ▸ hk
  · rw [update_of_ne hik] at hrow
    exact h id row' hrow

theorem Rows.numbered (h : Rows w w' i posted) (hn : w.Numbered) : w'.Numbered := by
  cases h with
  | kept h => exact fun id row hrow => hn id row (h ▸ hrow)
  | listed k row home hid hnone h => exact Numbered.update hn h hid
  | closed k row row' home hrow h hz => exact Numbered.update hn h (hn k row hrow)
  | bought a row row' hrow hpos hle h => exact Numbered.update hn h (hn a.id row hrow)
  | published k row row' o home hrow h hz => exact Numbered.update hn h (hn k row hrow)

/-- a message that carries GRS for a sale empties its row, which was open -/
theorem Rows.posts {o : Outbound} {m : SaleMsg} (h : Rows w w' i (some o)) (hn : w.Numbered)
    (hm : decodeSale o.message = .ok m) : w.config.homeEid = 0 ∧ m.grsAmount ≤ w.onSale m.id ∧ w'.Sold m.id := by
  cases h with
  | kept h hi hp =>
    have hsale := (decodeSale_ok hm).1
    rw [hp o rfl] at hsale
    cases hsale
  | published k row row' o home hrow h hz hi hmsg =>
    rw [hmsg] at hm
    have hid : m.id = k := decodeSale_encodeSale_id (hn k row hrow).2 hm
    rw [hid]
    refine ⟨home, ?_, row', by rw [h, update_self], hz⟩
    simpa [World.onSale, hrow] using decodeSale_encodeSale_le hm

theorem onSale_sold (h : w.Sold id) : w.onSale id = 0 := by
  obtain ⟨row, hrow, hzero⟩ := h
  simp [World.onSale, hrow, hzero]

/-! ## Receiving on a spoke -/

variable {a : LzReceive} {params : LzReceiveParams} {m : SaleMsg}

/-- a message leaves every row but its own alone; that of a closed lot stays empty -/
theorem LzReceive.apply_sales (h : a.apply d w params = .ok w') :
    w'.sales = w.sales ∨ ∃ m row, decodeSale params.message = .ok m ∧ w.config.homeEid ≠ 0 ∧
      w'.sales = Function.update w.sales m.id (some row) ∧ row.grsAmount = m.grsAmount ∧ (w.Sold m.id → m.grsAmount = 0) := by
  rcases LzReceive.apply_ok h with ⟨b, -, -, h⟩ | ⟨b, -, -, -, h⟩ | ⟨b, peer, -, -, -, h⟩
  · obtain ⟨m, hm, hspoke, -, ⟨_, -, -, -, rfl⟩ | ⟨hopen, hr⟩⟩ := receiveSale_ok h
    · exact .inl rfl
    · exact .inr ⟨m, _, hm, hspoke, hr.sales, rfl, fun ⟨row, hrow, hz⟩ => hopen row hrow hz⟩
  · obtain ⟨m, id, s, -, -, -, -, -, -, -, ha⟩ := receiveGrant_ok h
    exact .inl ha.lots.sales
  · obtain ⟨sd, -, hi⟩ := receiveOft_ok h
    exact .inl hi.lots.sales

theorem LzReceive.apply_sold (h : a.apply d w params = .ok w') (hs : w.Sold id) : w'.Sold id := by
  rcases LzReceive.apply_sales h with hsame | ⟨m, row, -, -, hsales, hgrs, hopen⟩
  · obtain ⟨row, hrow, hzero⟩ := hs
    exact ⟨row, by rw [hsame, hrow], hzero⟩
  · refine Sold.update hs hsales fun hid => ?_
    subst hid
    rw [hgrs, hopen hs]

theorem LzReceive.apply_numbered (h : a.apply d w params = .ok w') (hn : w.Numbered) : w'.Numbered := by
  rcases LzReceive.apply_sales h with hsame | ⟨m, row, hm, -, hsales, -⟩
  · exact fun id row hrow => hn id row (hsame ▸ hrow)
  · exact Numbered.update hn hsales ⟨(decodeSale_ok hm).2.1, (decodeSale_ok hm).2.2.1⟩

/-- what a message mints or burns for its sale is what the row gains or loses -/
theorem LzReceive.apply_resized (h : a.apply d w params = .ok w') (hnative : w.store.oftType = .native)
    (hm : decodeSale params.message = .ok m) : w'.supply + w.onSale m.id = w.supply + w'.onSale m.id := by
  rcases LzReceive.apply_ok h with ⟨b, hb, -, h⟩ | ⟨b, -, hsale, -, -⟩ | ⟨b, peer, -, hsale, -, -⟩
  · have hsupply : ({ w with bank := b } : World).supply = w.supply := congrFun hb.supply _
    obtain ⟨m', hm', -, -, ⟨_, -, -, -, rfl⟩ | ⟨-, hr⟩⟩ := receiveSale_ok h
    · rw [hsupply]
      rfl
    · cases hm.symm.trans hm'
      have hresized := (Resized.before hb hr).supply hnative
      have honsale : w'.onSale m.id = m.grsAmount := by simp [World.onSale, hr.sales]
      rw [hresized, honsale]
  · rw [(decodeSale_ok hm).1] at hsale
    cases hsale
  · rw [(decodeSale_ok hm).1] at hsale
    cases hsale

/-- a close that is processed leaves an empty row -/
theorem LzReceive.apply_close (h : a.apply d w params = .ok w') (hm : decodeSale params.message = .ok m)
    (hzero : m.grsAmount = 0) : w'.Sold m.id := by
  rcases LzReceive.apply_ok h with ⟨b, -, -, h⟩ | ⟨b, -, hsale, -, -⟩ | ⟨b, peer, -, hsale, -, -⟩
  · obtain ⟨m', hm', -, -, ⟨_, -, -, hopen, -⟩ | ⟨-, hr⟩⟩ := receiveSale_ok h
    · cases hm.symm.trans hm'
      exact absurd hzero hopen
    · cases hm.symm.trans hm'
      exact ⟨_, by rw [hr.sales, update_self], hzero⟩
  · rw [(decodeSale_ok hm).1] at hsale
    cases hsale
  · rw [(decodeSale_ok hm).1] at hsale
    cases hsale

/-! ## The mesh -/

def Stores.net (M : Stores ds) : Net ℕ World Letter where
  nodes := insert M.home M.spokes
  node n := (M.genesis n).world
  mail := []

/-- every state the stores get into from their initialization on -/
def Stores.after (M : Stores ds) (evs : List (Event ℕ Instr LzReceive)) : Net ℕ World Letter :=
  Machine.run (Network.step (protocol ds)) M.net evs

/-- the sale message a letter is, if it is one -/
def Letter.sale (l : Letter) : Option SaleMsg := (decodeSale l.posted.message).toOption

/-- a message that opens the lot of the sale: it carries GRS -/
def Letter.opens (id : ℕ) (l : Letter) : Bool := l.sale.any fun m => m.id = id ∧ m.grsAmount ≠ 0

/-- a message that closes it -/
def Letter.closes (id : ℕ) (l : Letter) : Bool := l.sale.any fun m => m.id = id ∧ m.grsAmount = 0

theorem sale_some {l : Letter} {m : SaleMsg} : l.sale = some m ↔ decodeSale l.posted.message = .ok m := by
  unfold Letter.sale
  cases decodeSale l.posted.message <;> simp [Except.toOption]

theorem any_true {α : Type} {o : Option α} {p : α → Bool} : o.any p = true ↔ ∃ x, o = some x ∧ p x = true := by
  cases o <;> simp

theorem opens_true {l : Letter} : l.opens id = true ↔ ∃ m, l.sale = some m ∧ m.id = id ∧ m.grsAmount ≠ 0 := by
  simp [Letter.opens, any_true]

theorem closes_true {l : Letter} : l.closes id = true ↔ ∃ m, l.sale = some m ∧ m.id = id ∧ m.grsAmount = 0 := by
  simp [Letter.closes, any_true]

/-- every node keeps what it was initialized with, and its rows are numbered -/
structure Kept (M : Stores ds) (net : Net ℕ World Letter) : Prop where
  nodes : net.nodes = insert M.home M.spokes
  store : ∀ n ∈ net.nodes, SameStore (M.genesis n).world (net.node n)
  numbered : ∀ n ∈ net.nodes, (net.node n).Numbered

variable {M : Stores ds} {net net' : Net ℕ World Letter} {ev : Event ℕ Instr LzReceive} {s : ℕ}

theorem Kept.step (h : Kept M net) (hs : Network.step (protocol ds) net ev = .ok net') : Kept M net' := by
  have hnodes := step_nodes hs
  refine ⟨hnodes.trans h.nodes, fun n hn => ?_, fun n hn => ?_⟩
  · rw [hnodes] at hn
    rcases step_node hs n with hsame | ⟨-, ⟨i, posted, hact⟩ | ⟨l, a, -, hrec⟩⟩
    · rw [hsame]
      exact h.store n hn
    · obtain ⟨-, o, he, -⟩ := act_ok hact
      exact (h.store n hn).trans (exec_store he)
    · exact (h.store n hn).trans (LzReceive.apply_store (receive_ok hrec))
  · rw [hnodes] at hn
    rcases step_node hs n with hsame | ⟨-, ⟨i, posted, hact⟩ | ⟨l, a, -, hrec⟩⟩
    · rw [hsame]
      exact h.numbered n hn
    · obtain ⟨hi, o, he, -⟩ := act_ok hact
      exact (exec_rows he hi).numbered (h.numbered n hn)
    · exact LzReceive.apply_numbered (receive_ok hrec) (h.numbered n hn)

theorem Stores.kept (M : Stores ds) (evs : List (Event ℕ Instr LzReceive)) : Kept M (M.after evs) := by
  refine run_invariant (fun _ _ _ h hs => h.step hs) M.net evs ⟨rfl, fun n _ => .refl _, fun n _ id row hrow => ?_⟩
  have hblank := (M.genesis n).blank
  rw [Stores.net, hblank.sales id] at hrow
  cases hrow

/-- no event brings a lot back that holds nothing -/
theorem step_sold (hs : Network.step (protocol ds) net ev = .ok net') (hsold : (net.node s).Sold id) : (net'.node s).Sold id := by
  rcases step_node hs s with hsame | ⟨-, ⟨i, posted, hact⟩ | ⟨l, a, -, hrec⟩⟩
  · rwa [hsame]
  · obtain ⟨hi, o, he, -⟩ := act_ok hact
    exact (exec_rows he hi).sold hsold
  · exact LzReceive.apply_sold (receive_ok hrec) hsold

theorem run_sold (net : Net ℕ World Letter) (evs : List (Event ℕ Instr LzReceive)) (h : (net.node s).Sold id) :
    ((Machine.run (Network.step (protocol ds)) net evs).node s).Sold id :=
  run_invariant (P := fun net => (net.node s).Sold id) (fun _ _ _ h hs => step_sold hs h) net evs h

/-! ## One opening -/

/-- at most one message opens the sale, and once there is one the home row is empty -/
structure Once (M : Stores ds) (id : ℕ) (net : Net ℕ World Letter) : Prop where
  kept : Kept M net
  once : net.letters.countP (Letter.opens id) ≤ 1
  sold : 0 < net.letters.countP (Letter.opens id) → (net.node M.home).Sold id

theorem Kept.home (h : Kept M net) {n : ℕ} (hn : n ∈ net.nodes) (heid : (net.node n).config.homeEid = 0) : n = M.home := by
  rcases Finset.mem_insert.1 (h.nodes ▸ hn) with rfl | hspoke
  · rfl
  · rw [(h.store n hn).homeEid] at heid
    exact absurd heid (M.spokeEid n hspoke)

/-- an id carries GRS in one message at most -/
theorem Once.step (h : Once M id net) (hs : Network.step (protocol ds) net ev = .ok net') : Once M id net' := by
  have hkept := h.kept.step hs
  have hsold : (net.node M.home).Sold id → (net'.node M.home).Sold id := step_sold hs
  cases ev with
  | deliver k a =>
    obtain ⟨l, w', hl, -, -, rfl⟩ := step_deliver hs
    refine ⟨hkept, ?_, fun hpos => hsold (h.sold ?_)⟩
    · rw [letters_deliver hl]
      exact h.once
    · rwa [letters_deliver hl] at hpos
  | act n i =>
    obtain ⟨hn, w', posted, hact, rfl⟩ := step_act hs
    obtain ⟨hi, o, he, rfl⟩ := act_ok hact
    have hcount : ∀ l : List Letter, (net.letters ++ l).countP (Letter.opens id) =
        net.letters.countP (Letter.opens id) + l.countP (Letter.opens id) := fun l => List.countP_append
    by_cases hopens : ∃ o', o = some o' ∧ Letter.opens id ⟨n, (ds n).oftStore, o'⟩ = true
    · -- the message is the first to open the sale: before it the row was open
      obtain ⟨o', rfl, hopens⟩ := hopens
      obtain ⟨m, hm, rfl, hgrs⟩ := opens_true.1 hopens
      obtain ⟨heid, hle, hempty⟩ := (exec_rows he hi).posts (h.kept.numbered n hn) (sale_some.1 hm)
      have hhome := h.kept.home hn heid
      have hzero : net.letters.countP (Letter.opens m.id) = 0 := by
        by_contra hpos
        have hsold := onSale_sold (h.sold (Nat.pos_of_ne_zero hpos))
        rw [← hhome] at hsold
        omega
      refine ⟨hkept, ?_, fun _ => ?_⟩
      · rw [letters_act, hcount, hzero]
        simp [hopens]
      · rw [hhome]
        simpa using hempty
    · have hnone : (o.map fun o' => (⟨n, (ds n).oftStore, o'⟩ : Letter)).toList.countP (Letter.opens id) = 0 := by
        cases o with
        | none => rfl
        | some o' =>
          have hnot : Letter.opens id ⟨n, (ds n).oftStore, o'⟩ ≠ true := fun ho => hopens ⟨o', rfl, ho⟩
          simpa using hnot
      refine ⟨hkept, ?_, fun hpos => hsold (h.sold ?_)⟩
      · rw [letters_act, hcount, hnone]
        exact h.once
      · rwa [letters_act, hcount, hnone] at hpos

theorem Stores.once (M : Stores ds) (id : ℕ) (evs : List (Event ℕ Instr LzReceive)) : Once M id (M.after evs) :=
  run_invariant (fun _ _ _ h hs => h.step hs) M.net evs ⟨M.kept [], Nat.zero_le _, fun h => absurd h (Nat.lt_irrefl 0)⟩

/-! ## What a spoke mints for a sale -/

/-- the event delivers a message of the sale to the spoke -/
def deliversSale (s id : ℕ) (net : Net ℕ World Letter) : Event ℕ Instr LzReceive → Bool
  | .act _ _ => false
  | .deliver k _ => net.letters[k]?.any fun l => l.posted.dstEid = s ∧ l.sale.any fun m => m.id = id

/-- what the event mints on the spoke for the sale -/
def minted (s id : ℕ) (net : Net ℕ World Letter) (ev : Event ℕ Instr LzReceive) (net' : Net ℕ World Letter) : ℕ :=
  if deliversSale s id net ev then (net'.node s).supply - (net.node s).supply else 0

/-- what it burns there -/
def burned (s id : ℕ) (net : Net ℕ World Letter) (ev : Event ℕ Instr LzReceive) (net' : Net ℕ World Letter) : ℕ :=
  if deliversSale s id net ev then (net.node s).supply - (net'.node s).supply else 0

/-- what is bought there -/
def bought (s id : ℕ) (_ : Net ℕ World Letter) (ev : Event ℕ Instr LzReceive) (_ : Net ℕ World Letter) : ℕ :=
  match ev with
  | .act n i => if n = s then i.bought id else 0
  | .deliver _ _ => 0

theorem deliversSale_true {k : ℕ} {l : Letter} (hl : net.mail[k]? = some ⟨l, false⟩) :
    deliversSale s id net (.deliver k a) = true ↔ l.posted.dstEid = s ∧ ∃ m, l.sale = some m ∧ m.id = id := by
  have hletter : net.letters[k]? = some l := by simp [Net.letters, hl]
  simp [deliversSale, hletter, any_true]

theorem onSale_of_sales (h : w'.sales = w.sales) : w'.onSale id = w.onSale id := by simp [World.onSale, h]

/-- on a spoke only a purchase takes from a row -/
theorem Rows.spoke (h : Rows w w' i posted) (hspoke : w.config.homeEid ≠ 0) : w'.onSale id + i.bought id = w.onSale id := by
  cases h with
  | kept h hi => rw [hi, onSale_of_sales h, Nat.add_zero]
  | listed _ _ home => exact absurd home hspoke
  | closed _ _ _ home => exact absurd home hspoke
  | published _ _ _ _ home => exact absurd home hspoke
  | bought a row row' hrow hpos hle h =>
    by_cases hid : a.id = id
    · subst hid
      simpa [World.onSale, h, hrow, Instr.bought] using hle
    · simp [World.onSale, h, Instr.bought, hid, Ne.symm hid]

/-- a message of another kind, or of another sale, leaves the row alone -/
theorem LzReceive.apply_elsewhere (h : a.apply d w params = .ok w')
    (hother : ∀ m, decodeSale params.message = .ok m → m.id ≠ id) : w'.onSale id = w.onSale id := by
  rcases LzReceive.apply_sales h with hsame | ⟨m, row, hm, -, hsales, -⟩
  · exact onSale_of_sales hsame
  · simp [World.onSale, hsales, Ne.symm (hother m hm)]

/-- what a row gains is minted, and what it loses is bought or burned -/
theorem Kept.balance (h : Kept M net) (hspoke : s ∈ M.spokes) (hs : Network.step (protocol ds) net ev = .ok net') :
    (net'.node s).onSale id + (bought s id net ev net' + burned s id net ev net') =
      (net.node s).onSale id + minted s id net ev net' := by
  have hstore : SameStore (M.genesis s).world (net.node s) := h.store s (h.nodes ▸ Finset.mem_insert_of_mem hspoke)
  cases ev with
  | act n i =>
    have hnone : deliversSale s id net (.act n i) = false := rfl
    simp only [minted, burned, hnone, bought, Bool.false_eq_true, if_false, Nat.add_zero]
    obtain ⟨-, w', posted, hact, rfl⟩ := step_act hs
    obtain ⟨hi, o, he, -⟩ := act_ok hact
    by_cases hn : n = s
    · subst hn
      have heid : (net.node n).config.homeEid ≠ 0 := hstore.homeEid ▸ M.spokeEid n hspoke
      simpa using (exec_rows he hi).spoke heid
    · simp only [update_of_ne (Ne.symm hn), if_neg hn, Nat.add_zero]
  | deliver k a =>
    obtain ⟨l, w', hl, -, hrec, rfl⟩ := step_deliver hs
    have happly := receive_ok hrec
    simp only [minted, burned, bought, Nat.zero_add]
    by_cases hdst : s = (protocol ds).dest l
    · subst hdst
      simp only [update_self]
      split_ifs with hsale
      · obtain ⟨-, m, hm, rfl⟩ := (deliversSale_true hl).1 hsale
        have hnative : (net.node ((protocol ds).dest l)).store.oftType = .native :=
          hstore.oftType.trans (M.native _ (Finset.mem_insert_of_mem hspoke))
        have hresized := LzReceive.apply_resized happly hnative (sale_some.1 hm)
        omega
      · refine LzReceive.apply_elsewhere happly fun m hm hid => hsale ?_
        exact (deliversSale_true hl).2 ⟨rfl, m, sale_some.2 hm, hid⟩
    · have hnot : deliversSale s id net (.deliver k a) = false := by
        by_contra hsale
        exact hdst ((deliversSale_true hl).1 (by simpa using hsale)).1.symm
      simp only [hnot, Bool.false_eq_true, if_false, Nat.add_zero, update_of_ne hdst]

/-- what is minted on the spoke for the sale is bought there, burned, or still for sale -/
theorem Stores.balance (M : Stores ds) {s : ℕ} (hspoke : s ∈ M.spokes) (id : ℕ) (evs : List (Event ℕ Instr LzReceive)) :
    ((M.after evs).node s).onSale id + (tally (Network.step (protocol ds)) (bought s id) M.net evs +
      tally (Network.step (protocol ds)) (burned s id) M.net evs) = tally (Network.step (protocol ds)) (minted s id) M.net evs := by
  have hbalance : ((M.after evs).node s).onSale id + tally (Network.step (protocol ds))
      (fun net ev net' => bought s id net ev net' + burned s id net ev net') M.net evs =
      (M.net.node s).onSale id + tally (Network.step (protocol ds)) (minted s id) M.net evs :=
    tally_balance (P := Kept M) (f := fun net => (net.node s).onSale id) (fun _ _ _ h hs => h.step hs)
      (fun _ _ _ h hs => h.balance hspoke hs) M.net evs (M.kept [])
  have hfirst : (M.net.node s).onSale id = 0 := by simp [World.onSale, Stores.net, (M.genesis s).blank.sales id]
  rwa [tally_add, hfirst, Nat.zero_add] at hbalance

/-- nothing is minted for a sale whose row is empty -/
theorem minted_sold (h : Kept M net) (hspoke : s ∈ M.spokes) (hsold : (net.node s).Sold id)
    (hs : Network.step (protocol ds) net ev = .ok net') : minted s id net ev net' = 0 := by
  have hbalance : _ + (bought s id net ev net' + burned s id net ev net') = _ := h.balance hspoke hs
  have hempty := onSale_sold (step_sold hs hsold)
  rw [hempty, onSale_sold hsold] at hbalance
  cases ev with
  | act n i => rfl
  | deliver k a =>
    have hbought : bought s id net (.deliver k a) net' = 0 := rfl
    rw [hbought] at hbalance
    unfold minted burned at hbalance
    unfold minted
    split_ifs at hbalance ⊢ <;> omega

/-- **Publication.** Whatever the home lists, sells, closes, publishes and publishes again, and in whatever order its messages
reach a spoke: at most one of them opens the sale; once a close was processed the row of the spoke stays empty and nothing is
minted for the sale; and when the row is empty, what was minted for the sale was bought there or burned. Nothing is assumed of
the order of delivery, nor that a message arrives at all. The home posts and burns in one transaction, so what a message carries
was burned when it was posted. -/
theorem publication_safe (M : Stores ds) (id : ℕ) (evs : List (Event ℕ Instr LzReceive)) :
    (M.after evs).letters.countP (Letter.opens id) ≤ 1 ∧
    (∀ k a l net, (M.after evs).letters[k]? = some l → l.closes id = true → l.posted.dstEid ∈ M.spokes →
      Network.step (protocol ds) (M.after evs) (.deliver k a) = .ok net →
      ∀ rest, ((Machine.run (Network.step (protocol ds)) net rest).node l.posted.dstEid).Sold id ∧
        tally (Network.step (protocol ds)) (minted l.posted.dstEid id) net rest = 0) ∧
    ∀ s ∈ M.spokes, ((M.after evs).node s).onSale id = 0 →
      tally (Network.step (protocol ds)) (minted s id) M.net evs =
        tally (Network.step (protocol ds)) (bought s id) M.net evs +
          tally (Network.step (protocol ds)) (burned s id) M.net evs := by
  refine ⟨(M.once id evs).once, fun k a l net hl hcloses hspoke hs rest => ?_, fun s hspoke hempty => ?_⟩
  · have hkept := (M.kept evs).step hs
    have hsold : (net.node l.posted.dstEid).Sold id := by
      obtain ⟨l', w', hl', -, hrec, rfl⟩ := step_deliver hs
      rw [Net.letters, List.getElem?_map, hl'] at hl
      cases hl
      obtain ⟨m, hm, rfl, hzero⟩ := closes_true.1 hcloses
      simpa [protocol] using LzReceive.apply_close (receive_ok hrec) (sale_some.1 hm) hzero
    refine ⟨run_sold net rest hsold, ?_⟩
    exact tally_eq_zero (P := fun net => Kept M net ∧ (net.node l.posted.dstEid).Sold id)
      (fun _ _ _ h hs => ⟨h.1.step hs, step_sold hs h.2⟩) (fun _ _ _ h hs => minted_sold h.1 hspoke h.2 hs) net rest ⟨hkept, hsold⟩
  · have hbalance := M.balance hspoke id evs
    rw [hempty, Nat.zero_add] at hbalance
    exact hbalance.symm

end Grindurus.Grs
