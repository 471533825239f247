/-
The sale inventory of a store: what its open lots are good for.

- `World.inventory`: the rows of the sales, `sales_reserved` and the sale escrow, as a stock.
- `exec_moves`: what an instruction does to the inventory is a move of the stock. `Stocked.run`: so it stays sound on any run.
- `inventory_sound`: the earmark is the sum of the rows, and the escrow covers it; no purchase, close or publication of a lot
  ever fails for lack of either.

A lot is a row with an amount, and three things have to agree about it: the row, the earmark of the store, and the tokens in the
sale escrow. A listing earmarks and tops up, a purchase takes from all three, a close releases the earmark and leaves the tokens,
a publication burns or locks them, and on a spoke a sale message sets the row to what it says and mints or burns the difference.
The abstract stock has the same moves. The steps shown never to run short include the close that a sale message makes.
-/
import Grindurus.Lib.Stock
import Grindurus.Grs.Refusals

namespace Grindurus.Grs

open Checked TokenBank Machine Tally Function

variable (d : Deployment)

/-- the lots of a store, what is earmarked for them, and what lies in the sale escrow -/
def World.inventory (w : World) : Stock ℕ := ⟨w.onSale, w.config.salesReserved, w.bank.balance d.saleEscrow⟩

structure Stocked (w : World) : Prop where
  escrowed : w.Escrowed d
  sound : (w.inventory d).Sound

variable {d} {w w' : World} {δ ι : ℤ} {b : Bank Pubkey} {id x : ℕ}

/-! ## Moves -/

theorem onSale_update {row : SaleAccount} (h : w'.sales = update w.sales id (some row)) :
    w'.onSale = update w.onSale id row.grsAmount := by
  funext k
  unfold World.onSale
  rw [h]
  by_cases hk : k = id
  · subst hk
    simp
  · simp [hk]

theorem SameLots.moves (h : SameLots w w') (hheld : w.bank.balance d.saleEscrow ≤ w'.bank.balance d.saleEscrow) :
    Stock.Moves (w.inventory d) (w'.inventory d) := by
  refine .hold ?_ h.reserved hheld
  funext id
  simp [World.inventory, World.onSale, h.sales]

theorem onSale_some {row : SaleAccount} (h : w.sales id = some row) : w.onSale id = row.grsAmount := by
  simp [World.onSale, h]

theorem onSale_none (h : w.sales id = none) : w.onSale id = 0 := by simp [World.onSale, h]

@[simp] theorem inventory_lots : (w.inventory d).lots = w.onSale := rfl

@[simp] theorem inventory_reserved : (w.inventory d).reserved = w.config.salesReserved := rfl

@[simp] theorem inventory_held : (w.inventory d).held = w.bank.balance d.saleEscrow := rfl

/-- a listing moves the stock by what it earmarks, a close by what it releases -/
theorem SetSale.apply_moves {a : SetSale} (h : a.apply d w = .ok w') (ha : a.admin ∉ d.derived) (he : w.Escrowed d) :
    w'.Escrowed d ∧ Stock.Moves (w.inventory d) (w'.inventory d) := by
  obtain ⟨-, hcase⟩ := SetSale.apply_ok h ha
  rcases hcase with ⟨i, row, -, -, hnone, -, -, hsales, -, hres, -, δ, ht, hheld⟩ | ⟨row, hrow, hle, hsales, -, hres, ht⟩
  · have hflow := ht.flow.sale he
    rw [Pi.single_eq_same] at hflow
    have hlots : w'.onSale = update w.onSale i (w.onSale i + row.grsAmount) := by
      rw [onSale_none hnone, Nat.zero_add]
      exact onSale_update hsales
    refine ⟨ht.store.escrowed ht.flow he, .list hlots hres ?_⟩
    simp only [inventory_reserved, inventory_held]
    omega
  · have hflow := ht.flow.sale he
    rw [Pi.single_eq_same, add_zero, Nat.cast_le] at hflow
    have hsold := onSale_some hrow
    have hlots : w'.onSale = update w.onSale a.id (w.onSale a.id - row.grsAmount) := by
      rw [hsold, Nat.sub_self]
      exact onSale_update hsales
    exact ⟨ht.store.escrowed ht.flow he, .release hsold.ge hlots hres hflow⟩

theorem Buy.apply_moves {a : Buy} (h : a.apply d w = .ok w') (ha : a.buyer ∉ d.derived) (he : w.Escrowed d) :
    w'.Escrowed d ∧ Stock.Moves (w.inventory d) (w'.inventory d) := by
  obtain ⟨row, cost, hrow, hcost, -, -, hsales, -, hres, ht⟩ := Buy.apply_ok h ha
  obtain ⟨-, hle, -⟩ := quoteCost_ok hcost
  have hflow := ht.flow.sale he
  rw [Pi.single_eq_same] at hflow
  have hsold := onSale_some hrow
  have hlots : w'.onSale = update w.onSale a.id (w.onSale a.id - a.amountLd) := hsold ▸ onSale_update hsales
  refine ⟨ht.store.escrowed ht.flow he, .sell (hle.trans hsold.ge) hlots hres ?_⟩
  simp only [inventory_held]
  omega

theorem PublishSale.apply_moves {a : PublishSale} {o : Outbound} (h : a.apply d w = .ok (w', o)) (he : w.Escrowed d) :
    w'.Escrowed d ∧ Stock.Moves (w.inventory d) (w'.inventory d) := by
  obtain ⟨row, hrow, -, -, -, -, -, hsales, -, hres, ht⟩ := PublishSale.apply_ok h
  have hflow := ht.flow.sale he
  rw [Pi.single_eq_same] at hflow
  have hsold := onSale_some hrow
  have hlots : w'.onSale = update w.onSale a.id (w.onSale a.id - row.grsAmount) := by
    rw [hsold, Nat.sub_self]
    exact onSale_update hsales
  refine ⟨ht.store.escrowed ht.flow he, .sell hsold.ge hlots hres ?_⟩
  simp only [inventory_held]
  omega

/-- a sale message moves it to what it names -/
theorem Resized.moves {m : SaleMsg} (h : Resized d m w w') (he : w.Escrowed d) :
    w'.Escrowed d ∧ Stock.Moves (w.inventory d) (w'.inventory d) := by
  have hflow := h.trades.flow.sale he
  rw [Pi.single_eq_same] at hflow
  have hres := h.reserved
  have hsales : w'.onSale = update w.onSale m.id m.grsAmount := onSale_update h.sales
  refine ⟨h.trades.store.escrowed h.trades.flow he, ?_⟩
  rcases Nat.le_total (w.onSale m.id) m.grsAmount with hle | hle
  · have hlots : w'.onSale = update w.onSale m.id (w.onSale m.id + (m.grsAmount - w.onSale m.id)) := by
      rw [Nat.add_sub_cancel' hle, hsales]
    refine .list hlots ?_ ?_ <;> simp only [inventory_reserved, inventory_held] <;> omega
  · have hlots : w'.onSale = update w.onSale m.id (w.onSale m.id - (w.onSale m.id - m.grsAmount)) := by
      rw [Nat.sub_sub_self hle, hsales]
    refine .sell (Nat.sub_le ..) hlots ?_ ?_ <;> simp only [inventory_lots, inventory_reserved, inventory_held] <;> omega

/-- what does not trade leaves the sale escrow no less -/
theorem SameLots.moves_of_flow {f : Pubkey → ℤ} (hs : SameStore w w') (hl : SameLots w w') (hf : Flow d w f ι w.bank w'.bank)
    (hpos : 0 ≤ f d.saleEscrow) (he : w.Escrowed d) :
    w'.Escrowed d ∧ Stock.Moves (w.inventory d) (w'.inventory d) := by
  have hflow := hf.sale he
  exact ⟨hs.escrowed hf he, hl.moves (by omega)⟩

theorem Idle.moves (h : Idle d ι w w') (he : w.Escrowed d) :
    w'.Escrowed d ∧ Stock.Moves (w.inventory d) (w'.inventory d) := h.lots.moves_of_flow h.store h.flow le_rfl he

theorem Awards.moves (h : Awards d δ ι w w') (he : w.Escrowed d) :
    w'.Escrowed d ∧ Stock.Moves (w.inventory d) (w'.inventory d) := by
  refine h.lots.moves_of_flow h.store h.flow ?_ he
  rw [Pi.single_eq_of_ne d.addresses.1]

/-- the accounts an instruction makes sure of move nothing -/
theorem Prepared.moves (h : Prepared d w b) (he : w.Escrowed d) :
    ({ w with bank := b } : World).Escrowed d ∧ Stock.Moves (w.inventory d) (({ w with bank := b } : World).inventory d) :=
  (Idle.of_bank h.flow).moves he

/-- the other messages leave the sale escrow no less -/
theorem LzReceive.apply_moves {a : LzReceive} {params : LzReceiveParams} (h : a.apply d w params = .ok w') (he : w.Escrowed d) :
    w'.Escrowed d ∧ Stock.Moves (w.inventory d) (w'.inventory d) := by
  rcases LzReceive.apply_ok h with ⟨b, hb, -, h⟩ | ⟨b, hb, -, -, h⟩ | ⟨b, peer, hb, -, -, h⟩
  · obtain ⟨he₁, hm₁⟩ := hb.moves he
    obtain ⟨m, -, -, -, ⟨_, -, -, -, rfl⟩ | ⟨-, hr⟩⟩ := receiveSale_ok h
    · exact ⟨he₁, hm₁⟩
    · exact (Resized.before hb hr).moves he
  · obtain ⟨he₁, hm₁⟩ := hb.moves he
    obtain ⟨m, id, s, -, -, -, -, -, -, -, ha⟩ := receiveGrant_ok h
    exact (ha.moves he₁).imp_right hm₁.trans
  · obtain ⟨he₁, hm₁⟩ := hb.moves he
    obtain ⟨sd, -, hi⟩ := receiveOft_ok h
    exact (hi.moves he₁).imp_right hm₁.trans

/-- **Inventory moves.** Whatever an instruction does, the inventory moves as a stock. -/
theorem exec_moves {i : Instr} {posted : Option Outbound} (h : exec d w i = .ok (w', posted)) (he : w.Escrowed d) :
    w'.Escrowed d ∧ Stock.Moves (w.inventory d) (w'.inventory d) := by
  by_cases hq : i.quiet = true
  · exact (exec_quiet h hq).2.moves he
  obtain ⟨hs, h⟩ := exec_ok h
  cases i with
  | setSale a => exact SetSale.apply_moves (silent_ok h).1 (hs _ rfl) he
  | buy a => exact Buy.apply_moves (silent_ok h).1 (hs _ rfl) he
  | publishSale a =>
    obtain ⟨o, h, -⟩ := posting_ok h
    exact PublishSale.apply_moves h he
  | send a =>
    obtain ⟨o, h, -⟩ := posting_ok h
    obtain ⟨r, -, -, -, hi⟩ := Send.apply_ok h (hs _ rfl)
    exact hi.moves he
  | bridge a =>
    obtain ⟨o, h, -⟩ := posting_ok h
    obtain ⟨r, -, -, -, hi⟩ := Send.apply_ok h (hs _ rfl)
    exact hi.moves he
  | lzReceive a params => exact LzReceive.apply_moves (silent_ok h).1 he
  | vest a =>
    obtain ⟨s, -, -, -, -, -, -, ha⟩ := Vest.apply_ok (silent_ok h).1 (hs _ rfl)
    exact ha.moves he
  | release a =>
    obtain ⟨v, -, -, -, -, -, -, -, ha, -⟩ := Release.apply_ok (silent_ok h).1
    exact ha.moves he
  | _ => exact absurd rfl hq

theorem Stocked.step {i : Instr} (h : Stocked d w) (hs : step d w i = .ok w') : Stocked d w' := by
  obtain ⟨posted, he⟩ := step_ok.1 hs
  obtain ⟨hescrowed, hmoves⟩ := exec_moves he h.escrowed
  exact ⟨hescrowed, h.sound.moves hmoves⟩

/-! ## Nothing fails for lack of inventory -/

/-- every error but a lack of inventory: of the earmark, or of tokens in the sale escrow -/
def InStock (d : Deployment) : Set OFTError := {e | e ≠ .insufficientInventory ∧ e ≠ .token (.insufficientFunds d.saleEscrow)}

@[simp] theorem mem_inStock {e : OFTError} :
    e ∈ InStock d ↔ e ≠ .insufficientInventory ∧ e ≠ .token (.insufficientFunds d.saleEscrow) := Iff.rfl

theorem checks_inStock : Checks ⊆ InStock d := by
  intro e he
  constructor <;> rintro rfl <;> simp at he

theorem spl_inStock {α : Type} {r : Except (TokenError Pubkey) α} (h : Throws (Bank.Funded d.saleEscrow) r) :
    Throws (InStock d) (spl r) := throws_spl.2 (h.mono fun e he => by simpa using he)

@[simp] theorem loadTokenAccount_inStock {k : Pubkey} : Throws (InStock d) (loadTokenAccount b k) := by simp [loadTokenAccount]

@[simp] theorem loadMint_inStock {k : Pubkey} : Throws (InStock d) (loadMint b k) := by simp [loadMint]

@[simp] theorem loadOwned_inStock {k m o : Pubkey} : Throws (InStock d) (loadOwned b k m o) :=
  checks checks_inStock loadOwned_throws (by simp)

@[simp] theorem loadOptional_inStock {α : Type} {load : Pubkey → Except OFTError α} {k : Option Pubkey}
    (h : ∀ k, Throws (InStock d) (load k)) : Throws (InStock d) (loadOptional load k) := by
  cases k <;> simp [loadOptional, h]

@[simp] theorem initTokenAccount_inStock {k m o : Pubkey} : Throws (InStock d) (initTokenAccount b k m o) :=
  checks checks_inStock initTokenAccount_throws (by simp)

@[simp] theorem initAta_inStock {o m : Pubkey} : Throws (InStock d) (initAta d b o m) := initTokenAccount_inStock

@[simp] theorem quoteCost_inStock {amountLd remainingLd assetAmount : ℕ} :
    Throws (InStock d) (quoteCost amountLd remainingLd assetAmount) := by
  unfold quoteCost
  refine .bind (by simp) fun _ _ => .bind (by simp) fun _ _ => .bind (by simp) fun _ _ => ?_
  split_ifs <;> simp

/-- what a buyer pays with is no escrow -/
theorem Buy.pay_inStock {a : Buy} {asset payee : Pubkey} {cost : ℕ} (he : w.Escrowed d) (ha : a.buyer ∉ d.derived) :
    Throws (InStock d) (a.pay w asset payee cost) := by
  unfold Buy.pay
  split_ifs
  · simp
  · refine .bind (by simp) fun mint _ => .bind (by simp) fun source _ => .bind (by simp) fun dest _ =>
      .bind (by simp) fun _ _ => .bind (by simp) fun _ _ => .bind (by simp) fun s hs => .bind (by simp) fun _ _ =>
      .bind (by simp) fun t _ => .bind (by simp) fun _ _ => .bind (by simp) fun _ hs' => .bind (by simp) fun _ _ =>
      .bind (spl_inStock (Bank.transfer_throws fun hsrc => ?_)) fun _ _ => by simp
    rw [loadTokenAccount, demand_ok, hsrc] at hs
    have howner := (he _ _ (custody_sale _) s hs).1
    exact absurd ((require_ok.1 hs').symm.trans howner) (not_derived ha).2.1

/-- the only debit of the sale escrow is the amount bought; what the buyer pays with is no escrow -/
theorem Buy.apply_inStock {a : Buy} (h : Stocked d w) (ha : a.buyer ∉ d.derived) : Throws (InStock d) (a.apply d w) := by
  unfold Buy.apply
  refine .bind (by simp) fun row hrow => .bind (by simp) fun _ _ => .bind (by simp) fun _ _ => .bind (by simp) fun b₁ hb₁ => ?_
  refine .bind (by simp) fun _ _ => .bind (by simp) fun _ _ => .bind (by simp) fun _ _ => .bind (by simp) fun _ _ => ?_
  refine .bind (by simp) fun cost hcost => .bind (by simp) fun _ _ => .bind (by simp) fun _ _ => ?_
  -- the amount is part of a lot, so it is earmarked and lies in the escrow
  have hle : a.amountLd ≤ w.onSale a.id := onSale_some (demand_ok.1 hrow) ▸ (quoteCost_ok hcost).2.1
  have hreserved : a.amountLd ≤ w.config.salesReserved := hle.trans (h.sound.lot_le a.id)
  have hheld : a.amountLd ≤ w.bank.balance d.saleEscrow := hle.trans (h.sound.lot_held a.id)
  refine .bind (throws_checkedSub.2 (.inl hreserved)) fun _ _ => .bind (by simp) fun _ _ => .bind (by simp) fun _ _ => ?_
  refine .bind (spl_inStock (Bank.transfer_throws fun _ => ?_)) fun b₂ hb₂ => ?_
  · rwa [(initAta_balance hb₁).1]
  · refine Buy.pay_inStock ?_ ha
    have hfirst : Flow d w 0 0 w.bank b₁ := initAta_flow hb₁
    have hsecond : Flow d w _ 0 b₁ b₂ := Bank.transfer_flows (spl_ok.1 hb₂)
    exact hsecond.owned (hfirst.owned h.escrowed)

/-- the whole lot is withdrawn, which is earmarked -/
theorem PublishSale.apply_inStock {a : PublishSale} (h : Stocked d w) : Throws (InStock d) (a.apply d w) := by
  unfold PublishSale.apply
  refine .bind (by simp) fun _ _ => .bind (by simp) fun _ _ => .bind (by simp) fun row hrow => .bind (by simp) fun _ _ => ?_
  refine .bind (by simp) fun _ _ => .bind (by simp) fun _ _ => .bind (by simp) fun _ _ => .bind (by simp) fun _ _ => ?_
  refine .bind ?_ fun _ _ => by simp
  split_ifs
  · simp
  · have hsold := onSale_some (demand_ok.1 hrow)
    have hreserved : row.grsAmount ≤ w.config.salesReserved := hsold ▸ h.sound.lot_le a.id
    have hheld : row.grsAmount ≤ w.bank.balance d.saleEscrow := hsold ▸ h.sound.lot_held a.id
    unfold PublishSale.withdraw
    refine .bind (by simp) fun _ _ => .bind (by simp) fun _ _ => .bind (by simp) fun _ _ => ?_
    refine .bind (throws_checkedSub.2 (.inl hreserved)) fun _ _ => ?_
    exact .bind (spl_inStock (Bank.burn_throws fun _ => hheld)) fun _ _ => by simp

/-- closing a lot needs no inventory either -/
theorem SetSale.close_inStock {a : SetSale} (h : Stocked d w) : Throws (InStock d) (a.close d w) := by
  unfold SetSale.close
  refine .bind (by simp) fun _ _ => .bind (by simp) fun row hrow => .bind (by simp) fun _ _ => .bind ?_ fun _ _ => by simp
  have hreserved : row.grsAmount ≤ w.config.salesReserved := onSale_some (demand_ok.1 hrow) ▸ h.sound.lot_le a.id
  split_ifs
  · exact throws_checkedSub.2 (.inl hreserved)
  · exact throws_ok _

/-- a request that names a listed lot closes it -/
theorem SetSale.apply_inStock {a : SetSale} (h : Stocked d w) (hid : 0 < a.id) (hid' : a.id ≤ w.saleCount) :
    Throws (InStock d) (a.apply d w) := by
  unfold SetSale.apply
  refine .bind (by simp) fun _ _ => .bind (by simp) fun b hb => .bind (by simp [loadToken]) fun _ _ => ?_
  refine .bind (by simp) fun _ _ => .bind (by simp) fun next hnext => ?_
  obtain ⟨-, rfl⟩ := checkedAdd_ok.1 hnext
  rw [if_neg (by dsimp only; omega), if_pos ⟨hid, hid'⟩]
  have hidle : Idle d 0 w { w with bank := b } := .of_bank (initEscrow_flow hb)
  obtain ⟨he, hm⟩ := hidle.moves h.escrowed
  exact SetSale.close_inStock ⟨he, h.sound.moves hm⟩

/-- what a lot gives back lies in the sale escrow -/
theorem debitSaleEscrow_inStock (h : x ≤ w.bank.balance d.saleEscrow) : Throws (InStock d) (debitSaleEscrow d w x) := by
  unfold debitSaleEscrow
  split_ifs
  · simp
  · split
    · exact .bind (by simp) fun _ _ => .bind (spl_inStock (Bank.transfer_throws fun _ => h)) fun _ _ => by simp
    · exact .bind (spl_inStock (Bank.burn_throws fun _ => h)) fun _ _ => by simp

/-- a lot that does not grow gives back no more than it held, which is earmarked and lies in the escrow -/
theorem resizeLot_inStock {a : LzReceive} {previous : Option ℕ} (hle : x ≤ previous.getD 0)
    (hreserved : previous.getD 0 ≤ w.config.salesReserved) (hheld : previous.getD 0 ≤ w.bank.balance d.saleEscrow) :
    Throws (InStock d) (resizeLot d w a previous x) := by
  unfold resizeLot
  cases previous with
  | none =>
    rw [if_neg (by simpa using hle)]
    exact throws_ok _
  | some previous =>
    rw [Option.getD_some] at hle hreserved hheld
    dsimp only
    rw [if_neg (by omega)]
    split_ifs with hless
    · refine .bind (throws_checkedSub.2 (.inl hle)) fun y hy => ?_
      obtain ⟨-, rfl⟩ := checkedSub_ok.1 hy
      exact .bind (throws_checkedSub.2 (.inl (by omega))) fun _ _ => debitSaleEscrow_inStock (by dsimp only; omega)
    · exact throws_ok _

/-- the close that a sale message makes on a spoke, or a cut of the lot, takes from what the row holds -/
theorem LzReceive.apply_inStock {a : LzReceive} {params : LzReceiveParams} {m : SaleMsg} (h : Stocked d w)
    (hm : decodeSale params.message = .ok m) (hle : m.grsAmount ≤ w.onSale m.id) : Throws (InStock d) (a.apply d w params) := by
  have hsale : isSale params.message = true := (decodeSale_ok hm).1
  refine apply_throws checks_inStock fun b peer hb _ => ?_
  rw [if_pos hsale]
  refine receiveSale_throws checks_inStock fun m' previous w' hm' hprevious hbank _ hconfig => ?_
  cases hm.symm.trans hm'
  have hrow : previous.getD 0 = w.onSale m.id := by
    obtain ⟨-, rfl⟩ := peekSaleAccount_ok hprevious
    cases hrow : w.sales m.id <;> simp [World.onSale, hrow]
  refine resizeLot_inStock (hrow ▸ hle) ?_ ?_
  · rw [hrow, hconfig]
    exact h.sound.lot_le m.id
  · rw [hrow, hbank, hb]
    exact h.sound.lot_held m.id

theorem silent_inStock {x : Except OFTError World} (h : Throws (InStock d) x) : Throws (InStock d) (silent x) := by
  simpa [silent] using h

theorem step_inStock {i : Instr} (h : (∀ s, i.signer = some s → s ∉ d.derived) → Throws (InStock d) (perform d w i)) :
    Throws (InStock d) (step d w i) := by
  have hsigned : Throws (InStock d) (checkSigner d i.signer) := by
    unfold checkSigner
    split <;> simp
  refine .bind (.bind hsigned fun _ hcheck => h fun s hs => ?_) fun _ _ => by simp
  rw [hs] at hcheck
  exact require_ok.1 hcheck

/-! ## Runs -/

theorem Genesis.stocked (g : Genesis d) : Stocked d g.world := by
  have hb := g.blank
  have hreserved : (g.world.inventory d).reserved = 0 := hb.reserved
  have hlots : (g.world.inventory d).lots = fun _ => 0 := funext fun id => onSale_none (hb.sales id)
  refine ⟨hb.escrowed, ⟨?_, ?_⟩⟩
  · rw [hlots, hreserved]
    exact hasTotal_zero
  · rw [hreserved]
    exact Nat.zero_le _

/-- **Stocked runs.** The inventory is sound whatever the store, its holders and the endpoint do. -/
theorem Stocked.run (h : Stocked d w) (is : List Instr) : Stocked d (Machine.run (Grs.step d) w is) :=
  run_invariant (fun _ _ _ h hs => h.step hs) w is h

/-- **Sale inventory.** After every run the earmark is the sum of the rows and lies in the escrow; so no purchase of any part of
a lot, no close and no publication fails for lack of either, nor does a sale message that closes a lot or cuts it. Failing for
lack of inventory means one of two errors: the program's own `InsufficientInventory`, or the token program's lack of funds at the
sale escrow. Everything else, a wrong price or a missing account, is left to the checks that are there for it. -/
theorem inventory_sound (g : Genesis d) (is : List Instr) :
    HasTotal (g.after is).onSale (g.after is).config.salesReserved ∧
    (g.after is).config.salesReserved ≤ (g.after is).bank.balance d.saleEscrow ∧
    (∀ a : Buy, Throws (InStock d) (step d (g.after is) (.buy a))) ∧
    (∀ a : SetSale, 0 < a.id → a.id ≤ (g.after is).saleCount → Throws (InStock d) (step d (g.after is) (.setSale a))) ∧
    (∀ a : PublishSale, Throws (InStock d) (step d (g.after is) (.publishSale a))) ∧
    ∀ (a : LzReceive) params m, decodeSale params.message = .ok m → m.grsAmount ≤ (g.after is).onSale m.id →
      Throws (InStock d) (step d (g.after is) (.lzReceive a params)) := by
  have h : Stocked d (g.after is) := g.stocked.run is
  refine ⟨h.sound.total, h.sound.covered, fun a => ?_, fun a hid hid' => ?_, fun a => ?_, fun a params m hm hle => ?_⟩
  · exact step_inStock fun hs => silent_inStock (Buy.apply_inStock h (hs _ rfl))
  · exact step_inStock fun _ => silent_inStock (SetSale.apply_inStock h hid hid')
  · exact step_inStock fun _ => by simpa [perform, posting] using PublishSale.apply_inStock h
  · exact step_inStock fun _ => silent_inStock (LzReceive.apply_inStock h hm hle)

end Grindurus.Grs
