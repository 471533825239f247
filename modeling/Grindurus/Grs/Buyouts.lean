/-
Buying a lot out, part by part, over the runs of a store.

- `RowStep`: what an instruction does to the row of a sale. `exec_rowStep`. `World.Filed`: a row carries its own id.
- `Remainder`: what is left of a lot after some payments. `Remainder.run`: it is so after every run that does not write the row
  anew, whatever the parts are.
- `Buy.Ready`: a buyer who asks for the whole remainder and can pay. `Buy.Ready.ends_iff`: he gets it if and only if the counter
  `token_sales_spent` still fits.
- `buyout`: both, from any lot. `buyout_refused`: the counter can stop the last purchase.
-/
import Grindurus.Lib.ProRata
import Grindurus.Grs.Inventory

namespace Grindurus.Grs

open Checked TokenBank Machine Function ProRata

variable {d : Deployment} {w w' : World} {b b' : Bank Pubkey} {i : Instr} {id x cost : ℕ} {row start : SaleAccount}

/-! ## Rows -/

/-- the instruction writes the row of the sale anew: it closes or publishes the lot, or brings a message about it -/
def Instr.rewrites (id : ℕ) : Instr → Bool
  | .setSale a => a.id = id
  | .publishSale a => a.id = id
  | .lzReceive _ params => (decodeSale params.message).toOption.any fun m => m.id = id
  | _ => false

/-- what a purchase of the sale costs -/
def Instr.paid (id : ℕ) (w : World) : Instr → ℕ
  | .buy a => if a.id = id then (w.sales id).elim 0 fun row =>
      (quoteCost a.amountLd row.grsAmount row.assetAmount).toOption.getD 0 else 0
  | _ => 0

/-- what an instruction does to the row of the sale -/
inductive RowStep (id : ℕ) (w w' : World) (i : Instr) : Prop where
  | kept (h : w'.sales id = w.sales id) (hi : i.paid id w = 0)
  | written (row : SaleAccount) (h : w'.sales id = some row)
      (hid : row.id = id ∨ ∃ old, w.sales id = some old ∧ row.id = old.id) (hi : i.rewrites id = true ∨ w.sales id = none)
  | bought (a : Buy) (row : SaleAccount) (cost : ℕ) (hi : i = .buy a) (hid : a.id = id) (hrow : w.sales id = some row)
      (hcost : quoteCost a.amountLd row.grsAmount row.assetAmount = .ok cost)
      (h : w'.sales id = some { row with grsAmount := row.grsAmount - a.amountLd, assetAmount := row.assetAmount - cost })

/-- one row is written, which is that of the sale or not -/
theorem RowStep.of_update {k : ℕ} (h : w'.sales = update w.sales k (some row))
    (hid : row.id = k ∨ ∃ old, w.sales k = some old ∧ row.id = old.id) (hi : i.rewrites k = true ∨ w.sales k = none)
    (hpaid : i.paid id w = 0) : RowStep id w w' i := by
  rcases eq_or_ne id k with rfl | hk
  · exact .written row (by rw [h, update_self]) hid hi
  · exact .kept (by rw [h, update_of_ne hk]) hpaid

/-- to a row an instruction is a purchase of a part of it, a rewriting, or nothing -/
theorem exec_rowStep {posted : Option Outbound} (h : exec d w i = .ok (w', posted)) (id : ℕ) : RowStep id w w' i := by
  by_cases hq : i.quiet = true
  · obtain ⟨-, hidle⟩ := exec_quiet h hq
    refine .kept (congrFun hidle.lots.sales id) ?_
    cases i <;> first | rfl | cases hq
  obtain ⟨hs, h⟩ := exec_ok h
  cases i with
  | setSale a =>
    obtain ⟨-, ⟨k, row, -, -, hnone, hid, -, hsales, -⟩ | ⟨row, hrow, -, hsales, -⟩⟩ := SetSale.apply_ok (silent_ok h).1 (hs _ rfl)
    · exact .of_update hsales (.inl hid) (.inr hnone) rfl
    · exact .of_update hsales (.inr ⟨row, hrow, rfl⟩) (.inl (by simp [Instr.rewrites])) rfl
  | buy a =>
    obtain ⟨row, cost, hrow, hcost, -, -, hsales, -⟩ := Buy.apply_ok (silent_ok h).1 (hs _ rfl)
    rcases eq_or_ne id a.id with rfl | hne
    · exact .bought a row cost rfl rfl hrow hcost (by rw [hsales, update_self])
    · exact .kept (by rw [hsales, update_of_ne hne]) (if_neg (Ne.symm hne))
  | publishSale a =>
    obtain ⟨o, h, -⟩ := posting_ok h
    obtain ⟨row, hrow, -, -, -, -, -, hsales, -⟩ := PublishSale.apply_ok h
    exact .of_update hsales (.inr ⟨row, hrow, rfl⟩) (.inl (by simp [Instr.rewrites])) rfl
  | send a =>
    obtain ⟨o, h, -⟩ := posting_ok h
    obtain ⟨r, -, -, -, hidle⟩ := Send.apply_ok h (hs _ rfl)
    exact .kept (congrFun hidle.lots.sales id) rfl
  | bridge a =>
    obtain ⟨o, h, -⟩ := posting_ok h
    obtain ⟨r, -, -, -, hidle⟩ := Send.apply_ok h (hs _ rfl)
    exact .kept (congrFun hidle.lots.sales id) rfl
  | lzReceive a params =>
    rcases LzReceive.apply_ok (silent_ok h).1 with ⟨b, -, -, h⟩ | ⟨b, -, -, -, h⟩ | ⟨b, peer, -, -, -, h⟩
    · obtain ⟨m, hm, -, -, ⟨_, -, -, -, rfl⟩ | ⟨-, hr⟩⟩ := receiveSale_ok h
      · exact .kept rfl rfl
      · exact .of_update hr.sales (.inl rfl) (.inl (by simp [Instr.rewrites, hm, Except.toOption])) rfl
    · obtain ⟨m, k, s, -, -, -, -, -, -, -, haward⟩ := receiveGrant_ok h
      exact .kept (congrFun haward.lots.sales id) rfl
    · obtain ⟨sd, -, hidle⟩ := receiveOft_ok h
      exact .kept (congrFun hidle.lots.sales id) rfl
  | vest a =>
    obtain ⟨s, -, -, -, -, -, -, haward⟩ := Vest.apply_ok (silent_ok h).1 (hs _ rfl)
    exact .kept (congrFun haward.lots.sales id) rfl
  | release a =>
    obtain ⟨v, -, -, -, -, -, -, -, haward, -⟩ := Release.apply_ok (silent_ok h).1
    exact .kept (congrFun haward.lots.sales id) rfl
  | _ => exact absurd rfl hq

/-- each row carries the id it is kept under -/
def World.Filed (w : World) : Prop := ∀ id row, w.sales id = some row → row.id = id

/-- a row lies under its own id -/
theorem Filed.step (h : w.Filed) (hs : step d w i = .ok w') : w'.Filed := by
  intro id row hrow
  obtain ⟨posted, he⟩ := step_ok.1 hs
  cases exec_rowStep he id with
  | kept hsame => exact h id row (hsame ▸ hrow)
  | written row' hsome hid =>
    cases hsome.symm.trans hrow
    rcases hid with hid | ⟨old, hold, hid⟩
    · exact hid
    · exact hid.trans (h id old hold)
  | bought a row' cost hi hid hrow' hcost hsome =>
    cases hsome.symm.trans hrow
    exact h id row' hrow'

theorem Genesis.filed (g : Genesis d) (is : List Instr) : (g.after is).Filed := by
  refine run_invariant (fun _ _ _ h hs => Filed.step h hs) g.world is fun id row hrow => ?_
  rw [g.blank.sales id] at hrow
  cases hrow

/-! ## Parts of a lot -/

/-- a part costs its pro-rata share, and the whole remainder all of the price -/
theorem quoteCost_share {grs asset : ℕ} (h : quoteCost x grs asset = .ok cost) : cost = share asset grs x := by
  obtain ⟨hx, -, -, rfl⟩ := quoteCost_ok h
  unfold share
  split_ifs with hall
  · rw [hall, Nat.mul_div_cancel asset (hall ▸ hx)]
  · rw [Nat.mul_comm]

/-- what is left of a lot after `paid` was paid for parts of it -/
structure Remainder (start row : SaleAccount) (paid : ℕ) : Prop where
  asset : row.asset = start.asset
  recipient : row.recipient = start.recipient
  open_iff : 0 < row.grsAmount ↔ 0 < row.assetAmount
  paid : row.assetAmount + paid = start.assetAmount
  dearer : Dearer start.assetAmount start.grsAmount row.assetAmount row.grsAmount

theorem Remainder.refl (h : 0 < row.grsAmount ↔ 0 < row.assetAmount) : Remainder row row 0 :=
  ⟨rfl, rfl, h, rfl, Dearer.refl _ _⟩

/-- a part that is not all of the lot leaves something to pay -/
theorem quoteCost_open {grs asset : ℕ} (h : quoteCost x grs asset = .ok cost) : 0 < grs - x ↔ 0 < asset - cost := by
  obtain ⟨hx, hle, hasset, hcost⟩ := quoteCost_ok h
  rcases Nat.eq_or_lt_of_le hle with rfl | hlt
  · rw [if_pos rfl] at hcost
    simp [hcost]
  · rw [if_neg hlt.ne] at hcost
    have hless : cost < asset := by
      rw [hcost]
      refine Nat.div_lt_of_lt_mul ?_
      exact Nat.mul_lt_mul_of_pos_right hlt hasset
    exact iff_of_true (Nat.sub_pos_of_lt hlt) (Nat.sub_pos_of_lt hless)

theorem Remainder.buy {k : ℕ} (h : Remainder start row k) (hcost : quoteCost x row.grsAmount row.assetAmount = .ok cost) :
    Remainder start { row with grsAmount := row.grsAmount - x, assetAmount := row.assetAmount - cost } (k + cost) := by
  have hshare := quoteCost_share hcost
  have hle : cost ≤ row.assetAmount := hshare.le.trans (share_le (quoteCost_ok hcost).2.1)
  refine ⟨h.asset, h.recipient, quoteCost_open hcost, ?_, h.dearer.trans ?_⟩
  · calc row.assetAmount - cost + (k + cost) = row.assetAmount - cost + cost + k := by ring
      _ = row.assetAmount + k := by rw [Nat.sub_add_cancel hle]
      _ = start.assetAmount := h.paid
  · rw [hshare]
    exact Dearer.redeem ..

/-- a purchase takes from what is left and from what is asked for it, in proportion and rounded up -/
theorem Remainder.step {k : ℕ} (hrow : w.sales id = some row) (h : Remainder start row k) (hi : i.rewrites id = false)
    (hs : step d w i = .ok w') : ∃ row', w'.sales id = some row' ∧ Remainder start row' (k + i.paid id w) := by
  obtain ⟨posted, he⟩ := step_ok.1 hs
  cases exec_rowStep he id with
  | kept hsame hpaid => exact ⟨row, hsame.trans hrow, hpaid ▸ h⟩
  | written row' hsome hid hwrites =>
    rw [hi, hrow] at hwrites
    simp at hwrites
  | bought a row' cost hbuy hid hrow' hcost hsome =>
    cases hrow.symm.trans hrow'
    have hpaid : i.paid id w = cost := by simp [hbuy, Instr.paid, hid, hrow, hcost, Except.toOption]
    rw [hpaid]
    exact ⟨_, hsome, h.buy hcost⟩

/-- what a purchase costs goes from the buyer to the payee, in lamports or in tokens between accounts of the two -/
theorem Buy.apply_pays {a : Buy} (h : a.apply d w = .ok w') :
    ∃ row cost, w.sales a.id = some row ∧ quoteCost a.amountLd row.grsAmount row.assetAmount = .ok cost ∧
      (Instr.buy a).paid a.id w = cost ∧
      (row.asset = .default → cost ≤ w.lamports a.buyer ∧ ∃ debited, debited = update w.lamports a.buyer (w.lamports a.buyer - cost) ∧
        w'.lamports = update debited a.payee (debited a.payee + cost)) ∧
      (row.asset ≠ .default → ∃ (b : Bank Pubkey) (source dest : Pubkey) (t : TokenAccount Pubkey), b.accounts dest = some t ∧
        t.mint = row.asset ∧ t.owner = a.payee ∧ b.transfer source dest a.buyer cost = .ok w'.bank) := by
  simp only [Buy.apply, bind_ok, demand_ok, require_ok, checkedAdd_ok, checkedSub_ok] at h
  obtain ⟨row, hrow, -, -, _, -, b₁, -, _, -, _, -, _, -, -, -, cost, hcost, -, hpayee, _, -, _, -, _, -, _, -, b₂, -, hpay⟩ := h
  refine ⟨row, cost, hrow, hcost, by simp [Instr.paid, hrow, hcost, Except.toOption], fun hnative => ?_, fun hnative => ?_⟩
  · rw [Buy.pay, if_pos hnative] at hpay
    simp only [bind_ok, require_ok, Except.ok.injEq] at hpay
    obtain ⟨-, -, -, hfunds, rfl⟩ := hpay
    exact ⟨hfunds, _, rfl, rfl⟩
  · rw [Buy.pay, if_neg hnative] at hpay
    simp only [loadTokenAccount, bind_ok, demand_ok, require_ok, Except.ok.injEq] at hpay
    obtain ⟨_, -, source, -, dest, -, -, -, -, -, s, -, -, -, t, ht, -, htmint, -, -, -, howner, b, hb, rfl⟩ := hpay
    exact ⟨_, source, dest, t, ht, htmint, howner.trans hpayee.symm, spl_ok.1 hb⟩

/-- **Remainder.** However the purchases split a lot, what is left of it and what was paid make up its price, and it got no
cheaper. -/
theorem Remainder.run (hrow : w.sales id = some row) (hopen : 0 < row.grsAmount ↔ 0 < row.assetAmount) (is : List Instr)
    (hi : ∀ i ∈ is, i.rewrites id = false) :
    ∃ row', (Machine.run (Grs.step d) w is).sales id = some row' ∧
      Remainder row row' (tally (Grs.step d) (fun w i _ => i.paid id w) w is) := by
  have hstep : ∀ w i w' k, (∃ row', World.sales w id = some row' ∧ Remainder row row' k) → Instr.rewrites id i = false →
      Grs.step d w i = .ok w' → ∃ row', w'.sales id = some row' ∧ Remainder row row' (k + i.paid id w) :=
    fun w i w' k ⟨row', hrow', h⟩ hi hs => h.step hrow' hi hs
  have hrun := run_bounded_of hstep w is (meets_of_mem hi w) 0 ⟨row, hrow, .refl hopen⟩
  rwa [Nat.zero_add] at hrun

/-! ## The last purchase -/

/-- who is paid for the lot -/
def SaleAccount.payee (row : SaleAccount) (w : World) : Pubkey := if row.recipient = .default then w.store.admin else row.recipient

/-- the buyer asks for all of the lot, names who is paid and an account the GRS fits into, and has what the lot costs: lamports, or
tokens in an account of his and room for them in one of the payee -/
structure Buy.Ready (d : Deployment) (w : World) (row : SaleAccount) (a : Buy) : Prop where
  whole : a.amountLd = row.grsAmount
  signs : a.buyer ∉ d.derived
  recipient : a.toKey ≠ .default
  payee : a.payee = row.payee w
  opens : Succeeds (initAta d w.bank a.toKey w.store.tokenMint)
  room : w.bank.balance (d.ata a.toKey w.store.tokenMint) + row.grsAmount < 2 ^ 64
  lamports : row.asset = .default → a.quoteMint = none ∧ a.quoteSource = none ∧ a.quoteDest = none ∧ a.hasQuoteProgram = false ∧
    row.assetAmount ≤ w.lamports a.buyer
  tokens : row.asset ≠ .default → a.quoteMint = some row.asset ∧ a.hasQuoteProgram = true ∧ (∃ t, w.bank.mints row.asset = some t) ∧
    ∃ source dest s t, a.quoteSource = some source ∧ w.bank.accounts source = some s ∧ s.mint = row.asset ∧ s.owner = a.buyer ∧
      row.assetAmount ≤ s.amount ∧ a.quoteDest = some dest ∧ w.bank.accounts dest = some t ∧ t.mint = row.asset ∧
      t.owner = row.payee w ∧ (source = dest ∨
        t.amount + (if dest = d.ata a.toKey w.store.tokenMint then row.grsAmount else 0) + row.assetAmount < 2 ^ 64)

variable {a : Buy} {S : Set OFTError}

theorem spl_throws {α : Type} {r : Except (TokenError Pubkey) α} (h : Throws (∅ : Set (TokenError Pubkey)) r) : Throws S (spl r) := by
  obtain ⟨x, rfl⟩ := h.succeeds
  exact throws_ok x

theorem initAta_keeps {owner mint k : Pubkey} {t : TokenAccount Pubkey} (h : initAta d b owner mint = .ok b')
    (hk : b.accounts k = some t) : b'.accounts k = some t := by
  rcases initTokenAccount_ok h with ⟨rfl, -⟩ | h
  · exact hk
  · obtain ⟨hnone, -, -, rfl⟩ := Bank.openAccount_ok h
    have hne : k ≠ d.ata owner mint := by
      rintro rfl
      simp [hnone] at hk
    rw [Bank.put_accounts, update_of_ne hne, hk]

theorem initAta_mints {owner mint : Pubkey} (h : initAta d b owner mint = .ok b') : b'.mints = b.mints := by
  rcases initTokenAccount_ok h with ⟨rfl, -⟩ | h
  · rfl
  · obtain ⟨-, -, -, rfl⟩ := Bank.openAccount_ok h
    rfl

/-- a lot that sells something has its tokens in an account of the program -/
theorem Stocked.escrow (h : Stocked d w) (hrow : w.sales id = some row) (hpos : 0 < row.grsAmount) :
    ∃ e, w.bank.accounts d.saleEscrow = some e ∧ e.mint = w.store.tokenMint ∧ e.owner = d.grsConfig ∧ row.grsAmount ≤ e.amount := by
  have hheld : row.grsAmount ≤ w.bank.balance d.saleEscrow := onSale_some hrow ▸ h.sound.lot_held id
  cases he : w.bank.accounts d.saleEscrow with
  | none =>
    simp only [Bank.balance, he] at hheld
    omega
  | some e =>
    obtain ⟨howner, hmint⟩ := h.escrowed _ _ (custody_sale _) e he
    rw [Bank.balance_some he] at hheld
    exact ⟨e, rfl, hmint, howner, hheld⟩

/-- what a ready buyer pays with is still there when the GRS was handed over -/
theorem Buy.Ready.pay_throws (h : a.Ready d w row) {w₂ : World} (hb : initAta d w.bank a.toKey w.store.tokenMint = .ok b)
    (hb₂ : b.transfer d.saleEscrow (d.ata a.toKey w.store.tokenMint) d.grsConfig row.grsAmount = .ok w₂.bank)
    (hlamports : w₂.lamports = w.lamports) (hown : ∀ e, w.bank.accounts d.saleEscrow = some e → e.owner = d.grsConfig) :
    Throws S (a.pay w₂ row.asset (row.payee w) row.assetAmount) := by
  unfold Buy.pay
  split_ifs with hnative
  · obtain ⟨hm, hs, ht, hp, hfunds⟩ := h.lamports hnative
    simp [hm, hs, ht, hp, hlamports, hfunds]
  · obtain ⟨hm, hp, -, source, dest, s, t, hs, hsource, hsmint, hsowner, hfunds, ht, hdest, htmint, htowner, hroom⟩ := h.tokens hnative
    have hne : source ≠ d.saleEscrow := by
      rintro rfl
      exact (not_derived h.signs).2.1 (hsowner.symm.trans (hown s hsource))
    obtain ⟨s₂, hs₂, hsmint₂, hsowner₂⟩ := Bank.transfer_stands hb₂ (initAta_keeps hb hsource)
    obtain ⟨t₂, ht₂, htmint₂, htowner₂⟩ := Bank.transfer_stands hb₂ (initAta_keeps hb hdest)
    have hfunds₂ : row.assetAmount ≤ s₂.amount := by
      calc row.assetAmount ≤ s.amount := hfunds
        _ = b.balance source := (Bank.balance_some (initAta_keeps hb hsource)).symm
        _ ≤ w₂.bank.balance source := Bank.transfer_mono hb₂ hne
        _ = s₂.amount := Bank.balance_some hs₂
    have hroom₂ : source = dest ∨ t₂.amount + row.assetAmount < 2 ^ 64 := by
      refine hroom.imp_right fun hroom => ?_
      have hmoved := Bank.transfer_balance hb₂ dest
      rw [Bank.balance_some ht₂, Bank.balance_some (initAta_keeps hb hdest)] at hmoved
      omega
    rw [hm, hs, ht]
    refine .bind (by simp [demand]) fun m hm => .bind (by simp [demand]) fun source' hs' => .bind (by simp [demand]) fun dest' ht' => ?_
    cases demand_ok.1 hm
    cases demand_ok.1 hs'
    cases demand_ok.1 ht'
    refine .bind (by simp [hp]) fun _ _ => .bind (by simp) fun _ _ => ?_
    simp only [loadTokenAccount, hs₂, ht₂]
    refine .bind (by simp [demand]) fun s' hs' => .bind (by cases demand_ok.1 hs'; simp [hsmint₂, hsmint]) fun _ _ => ?_
    refine .bind (by simp [demand]) fun t' ht' => .bind (by cases demand_ok.1 ht'; simp [htmint₂, htmint]) fun _ _ => ?_
    refine .bind (by cases demand_ok.1 hs'; simp [hsowner₂, hsowner]) fun _ _ => ?_
    refine .bind (by cases demand_ok.1 ht'; simp [htowner₂, htowner]) fun _ _ => ?_
    refine .bind (spl_throws ?_) fun _ _ => throws_ok _
    exact Bank.transfer_passes hs₂ ht₂ hfunds₂ (by rw [hsmint₂, hsmint, htmint₂, htmint]) (hsowner₂.trans hsowner) hroom₂

theorem loadOptional_throws {α : Type} {load : Pubkey → Except OFTError α} {k : Option Pubkey}
    (h : ∀ k', k = some k' → ∃ x, load k' = .ok x) : Throws S (loadOptional load k) := by
  cases k with
  | none => exact throws_ok _
  | some k =>
    obtain ⟨x, hx⟩ := h k rfl
    simp [loadOptional, hx]

/-- the accounts a ready buyer pays with are there -/
theorem Buy.Ready.loads (h : a.Ready d w row) (hb : initAta d w.bank a.toKey w.store.tokenMint = .ok b) :
    Throws S (loadOptional (loadMint b) a.quoteMint) ∧ Throws S (loadOptional (loadTokenAccount b) a.quoteSource) ∧
      Throws S (loadOptional (loadTokenAccount b) a.quoteDest) := by
  by_cases hnative : row.asset = .default
  · obtain ⟨hm, hs, ht, -, -⟩ := h.lamports hnative
    rw [hm, hs, ht]
    exact ⟨throws_ok _, throws_ok _, throws_ok _⟩
  · obtain ⟨hm, -, ⟨m, hmint⟩, source, dest, s, t, hs, hsource, -, -, -, ht, hdest, -⟩ := h.tokens hnative
    have hmint' : b.mints row.asset = some m := by rw [initAta_mints hb, hmint]
    refine ⟨loadOptional_throws fun k hk => ⟨m, ?_⟩, loadOptional_throws fun k hk => ⟨s, ?_⟩, loadOptional_throws fun k hk => ⟨t, ?_⟩⟩
    · cases hm.symm.trans hk
      rw [loadMint, hmint', demand]
    · cases hs.symm.trans hk
      rw [loadTokenAccount, initAta_keeps hb hsource, demand]
    · cases ht.symm.trans hk
      rw [loadTokenAccount, initAta_keeps hb hdest, demand]

/-- a ready buyer is refused for the counter or not at all -/
theorem Buy.Ready.throws (h : a.Ready d w row) (hrow : w.sales a.id = some row) (hid : row.id = a.id)
    (hgrs : 0 < row.grsAmount) (hasset : 0 < row.assetAmount) (hs : Stocked d w) :
    Throws {e | e = .bucketExceeded ∧ 2 ^ 64 ≤ w.config.tokenSalesSpent + row.grsAmount} (a.apply d w) := by
  obtain ⟨e, he, hemint, heowner, hheld⟩ := hs.escrow hrow hgrs
  have hescrow : loadOwned w.bank d.saleEscrow w.store.tokenMint d.grsConfig = .ok e := by
    simp [loadOwned, loadToken, loadTokenAccount, he, demand, require, hemint, heowner, bind, Except.bind]
  have hquote : quoteCost row.grsAmount row.grsAmount row.assetAmount = .ok row.assetAmount := by
    simp [quoteCost, require, hgrs, hasset, bind, Except.bind]
  have hreserved : row.grsAmount ≤ w.config.salesReserved := onSale_some hrow ▸ hs.sound.lot_le a.id
  obtain ⟨b₁, hb₁⟩ := h.opens
  obtain ⟨hloadMint, hloadSource, hloadDest⟩ := h.loads (S := _) hb₁
  unfold Buy.apply
  rw [hrow, hescrow, hb₁, h.whole, h.payee]
  refine .bind (by simp [demand]) fun row' hrow' => ?_
  cases demand_ok.1 hrow'
  refine .bind (by simp [h.recipient]) fun _ _ => .bind (throws_ok _) fun _ _ => .bind (throws_ok _) fun b hb => ?_
  cases hb
  refine .bind hloadMint fun _ _ => .bind hloadSource fun _ _ => .bind hloadDest fun _ _ => ?_
  refine .bind (by simp [hid]) fun _ _ => ?_
  rw [hquote]
  refine .bind (throws_ok _) fun cost hcost => ?_
  cases hcost
  refine .bind (by simp [SaleAccount.payee]) fun _ _ => ?_
  -- the counter is all that can stop him
  refine .bind (throws_checkedAdd.2 ?_) fun spent _ => ?_
  · rcases Nat.lt_or_ge (w.config.tokenSalesSpent + row.grsAmount) (2 ^ 64) with hlt | hge
    · exact .inl hlt
    · exact .inr ⟨rfl, hge⟩
  refine .bind (by simp [hreserved]) fun _ _ => .bind (by simp) fun _ _ => .bind (by simp) fun _ _ => ?_
  refine .bind (spl_throws ?_) fun b₂ hb₂ => ?_
  · obtain ⟨t, ht, htmint, -⟩ := initTokenAccount_stands hb₁
    refine Bank.transfer_passes (initAta_keeps hb₁ he) ht hheld (hemint.trans htmint.symm) heowner (.inr ?_)
    rw [← Bank.balance_some ht, (initAta_balance hb₁).1]
    exact h.room
  · refine h.pay_throws hb₁ (spl_ok.1 hb₂) rfl fun e' he' => ?_
    cases he.symm.trans he'
    exact heowner

theorem Buy.apply_spent (h : a.apply d w = .ok w') : w.config.tokenSalesSpent + a.amountLd < 2 ^ 64 := by
  simp only [Buy.apply, bind_ok, checkedAdd_ok] at h
  obtain ⟨_, -, -, -, _, -, _, -, _, -, _, -, _, -, -, -, _, -, -, -, _, ⟨hlt, -⟩, -⟩ := h
  exact hlt

theorem step_buy (ha : a.buyer ∉ d.derived) : step d w (.buy a) = a.apply d w := by
  unfold step exec
  rw [Instr.signer, checkSigner, require_bind ha, perform, silent]
  cases a.apply d w <;> rfl

/-- the purchase goes through and leaves nothing of the lot -/
def Buy.Ends (d : Deployment) (w : World) (a : Buy) : Prop :=
  ∃ w' row, step d w (.buy a) = .ok w' ∧ w'.sales a.id = some row ∧ row.grsAmount = 0 ∧ row.assetAmount = 0

/-- **Last purchase.** Who can pay for the remainder of a lot gets it if and only if the counter of what was sold still fits. -/
theorem Buy.Ready.ends_iff (h : a.Ready d w row) (hrow : w.sales a.id = some row) (hid : row.id = a.id)
    (hgrs : 0 < row.grsAmount) (hasset : 0 < row.assetAmount) (hs : Stocked d w) :
    a.Ends d w ↔ w.config.tokenSalesSpent + row.grsAmount < 2 ^ 64 := by
  constructor
  · rintro ⟨w', row', hstep, -⟩
    rw [step_buy h.signs] at hstep
    exact h.whole ▸ Buy.apply_spent hstep
  · intro hfits
    have hpasses : Throws ∅ (a.apply d w) := fun e he => absurd hfits (not_lt.2 (h.throws hrow hid hgrs hasset hs e he).2)
    obtain ⟨w', hw'⟩ := hpasses.succeeds
    obtain ⟨row', cost, hrow', hcost, -, -, hsales, -⟩ := Buy.apply_ok hw' h.signs
    cases hrow.symm.trans hrow'
    obtain ⟨-, -, -, rfl⟩ := quoteCost_ok hcost
    refine ⟨w', _, (step_buy h.signs).trans hw', by rw [hsales, update_self], ?_, ?_⟩
    · simp [h.whole]
    · simp [h.whole]

/-! ## Runs -/

/-- **Buyout.** From a lot with GRS and a price, however its parts are bought and whatever else happens in between but a
rewriting of its row: it sells something exactly as long as it asks something, what it asks and what was paid make up its price,
what it asks for a unit never falls, who exhausts it have paid its price, and who can pay for the remainder ends it if and only
if the counter of what was sold still fits. A lot priced in tokens is priced in tokens that withhold nothing of a transfer: the
payee of another is paid less than the price, which the row does not show. -/
theorem buyout (g : Genesis d) (is₀ is₁ is₂ : List Instr) {id : ℕ} {row : SaleAccount} (hrow : (g.after is₀).sales id = some row)
    (hasset : 0 < row.assetAmount) (hgrs : 0 < row.grsAmount) (hi : ∀ i ∈ is₁ ++ is₂, i.rewrites id = false) :
    ∃ row₁ row₂, (g.after (is₀ ++ is₁)).sales id = some row₁ ∧ (g.after (is₀ ++ is₁ ++ is₂)).sales id = some row₂ ∧
      (0 < row₁.grsAmount ↔ 0 < row₁.assetAmount) ∧
      row₁.assetAmount + tally (step d) (fun w i _ => i.paid id w) (g.after is₀) is₁ = row.assetAmount ∧
      row₁.assetAmount * row₂.grsAmount ≤ row₂.assetAmount * row₁.grsAmount ∧
      (row₁.grsAmount = 0 → tally (step d) (fun w i _ => i.paid id w) (g.after is₀) is₁ = row.assetAmount) ∧
      ∀ a : Buy, a.id = id → 0 < row₁.grsAmount → a.Ready d (g.after (is₀ ++ is₁)) row₁ →
        (a.Ends d (g.after (is₀ ++ is₁)) ↔ (g.after (is₀ ++ is₁)).config.tokenSalesSpent + row₁.grsAmount < 2 ^ 64) := by
  have hafter : ∀ is js, g.after (is ++ js) = run (step d) (g.after is) js := fun is js => run_append ..
  obtain ⟨row₁, hrow₁, h₁⟩ := Remainder.run (d := d) hrow (iff_of_true hgrs hasset) is₁ fun i hi₁ => hi i (List.mem_append_left _ hi₁)
  obtain ⟨row₂, hrow₂, h₂⟩ := Remainder.run (d := d) hrow₁ h₁.open_iff is₂ fun i hi₂ => hi i (List.mem_append_right _ hi₂)
  rw [← hafter] at hrow₁ hrow₂
  refine ⟨row₁, row₂, hrow₁, hafter _ _ ▸ hrow₂, h₁.open_iff, h₁.paid, h₂.dearer.price, fun hzero => ?_, fun a hid hpos hready => ?_⟩
  · have hpaid := h₁.paid
    have hopen := h₁.open_iff
    omega
  · subst hid
    exact hready.ends_iff hrow₁ (g.filed _ _ _ hrow₁) hpos (h₁.open_iff.1 hpos) (g.stocked.run _)

namespace Sample

/-- the admin lists GRS for lamports: the first time what genesis gave him, then what he bought back -/
def offer (id asset grs : ℕ) : Instr :=
  .setSale ⟨admin, deployment.sale id, if id = 1 then treasury else deployment.ata admin token, 0, .default, asset, grs, admin⟩

/-- he buys a part of it -/
def part (id x : ℕ) : Buy := ⟨admin, admin, admin, none, none, none, false, id, x⟩

/-- genesis, and a lot of 3 GRS for 10 lamports -/
def listed : List Instr := [.mintGenesis ⟨admin, treasury⟩, .fund admin 10, offer 1 10 3]

/-- genesis, and all GRS sold and bought back `n` times -/
def rounds (n : ℕ) : List Instr :=
  [.mintGenesis ⟨admin, treasury⟩, .fund admin 1] ++
    (List.range' 1 n).flatMap fun id => [offer id 1 GRS_MAX_SUPPLY_LD, .buy (part id GRS_MAX_SUPPLY_LD)]

end Sample

/-- one GRS of three costs 3 lamports of 10; then the other two can be had, and both together cost 10 -/
theorem buyout_parts :
    (Sample.part 1 2).Ends Sample.deployment (Sample.home.after (Sample.listed ++ [.buy (Sample.part 1 1)])) ∧
      tally (step Sample.deployment) (fun w i _ => i.paid 1 w) (Sample.home.after Sample.listed)
        [.buy (Sample.part 1 1), .buy (Sample.part 1 2)] = 10 := by
  have hlisted : (Sample.home.after Sample.listed).sales 1 = some ⟨1, .default, 10, 3, Sample.admin⟩ := by decide +kernel
  have hthird : (Sample.home.after (Sample.listed ++ [.buy (Sample.part 1 1)])).sales 1 = some ⟨1, .default, 7, 2, Sample.admin⟩ := by
    decide +kernel
  have hall : (Sample.home.after (Sample.listed ++ [.buy (Sample.part 1 1), .buy (Sample.part 1 2)])).sales 1 =
      some ⟨1, .default, 0, 0, Sample.admin⟩ := by decide +kernel
  constructor
  · obtain ⟨row₁, -, hrow₁, -, -, -, -, -, hends⟩ :=
      buyout Sample.home Sample.listed [.buy (Sample.part 1 1)] [] hlisted (by decide) (by decide) (by simp [Instr.rewrites])
    cases hthird.symm.trans hrow₁
    refine (hends _ rfl (by decide) ⟨rfl, by decide +kernel, by decide +kernel, rfl, ?_, ?_, fun _ => ?_, fun hne => ?_⟩).2 ?_
    · exact succeeds_toBool.2 (by decide +kernel)
    · decide +kernel
    · exact ⟨rfl, rfl, rfl, rfl, by decide +kernel⟩
    · exact absurd rfl hne
    · decide +kernel
  · obtain ⟨row₁, -, hrow₁, -, -, -, -, hpaid, -⟩ :=
      buyout Sample.home Sample.listed [.buy (Sample.part 1 1), .buy (Sample.part 1 2)] [] hlisted (by decide) (by decide)
        (by simp [Instr.rewrites])
    cases hall.symm.trans hrow₁
    exact hpaid rfl

/-- after 18 rounds nobody gets the lot: the counter of what was sold does not fit a 19th -/
theorem buyout_refused : ¬ ∀ is id row, (Sample.home.after is).sales id = some row → 0 < row.assetAmount → 0 < row.grsAmount →
    ∃ a : Buy, a.id = id ∧ a.amountLd = row.grsAmount ∧ Succeeds (step Sample.deployment (Sample.home.after is) (.buy a)) := by
  intro h
  obtain ⟨a, -, hall, w', hs⟩ := h (Sample.rounds 18 ++ [Sample.offer 19 1 GRS_MAX_SUPPLY_LD]) 19
    ⟨19, .default, 1, GRS_MAX_SUPPLY_LD, Sample.admin⟩ (by decide +kernel) (by decide) (by decide)
  obtain ⟨posted, he⟩ := step_ok.1 hs
  have hspent := Buy.apply_spent (silent_ok (exec_ok he).2).1
  have hcounter : (Sample.home.after (Sample.rounds 18 ++ [Sample.offer 19 1 GRS_MAX_SUPPLY_LD])).config.tokenSalesSpent =
      18 * GRS_MAX_SUPPLY_LD := by decide +kernel
  rw [hcounter, hall] at hspent
  exact absurd hspent (by decide)

end Grindurus.Grs
