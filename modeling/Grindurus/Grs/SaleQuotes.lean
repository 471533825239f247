/-
Quotes of a sale (`QuoteBuy` in `programs/grs/src/instructions/buy.rs`, `QuoteSale` in `publish_sale.rs`).

- `QuoteBuy.apply`: what part of a lot costs. `QuoteSale.apply`: what the endpoint is asked to price for a publication.
- `Remains`: a lot after some purchases of its parts. `Remains.run`: it is so after every run that does not write the row anew.
- `purchases_as_quoted`: a purchase pays what is quoted at the time. A quote never falls, and between two of them every purchase
  of the lot raises it by one unit at most.
- `PublishSale.apply_quoted`, `PublishSale.apply_publishable`: a publication sends the message that was priced, and is not refused
  for what was priced.
-/
import Grindurus.Grs.Buyouts
import Grindurus.Grs.SendQuotes

namespace Grindurus.Grs

open Checked TokenBank Machine Function ProRata

variable (d : Deployment)

/-! ## The quotes -/

def QuoteBuy.apply (w : World) (id amountLd : ℕ) : Except OFTError ℕ := do
  let sale ← demand (.accountNotInitialized (d.sale id)) (w.sales id)
  require (sale.id = id) .unknownSale
  quoteCost amountLd sale.grsAmount sale.assetAmount

/-- a closed lot is published as it is, an open one only in whole shared units -/
def QuoteSale.check (sale : SaleAccount) : Except OFTError Unit :=
  if sale.grsAmount = 0 ∧ sale.assetAmount = 0 then .ok ()
  else do
    require (0 < sale.grsAmount ∧ 0 < sale.assetAmount) .saleClosed
    require (sale.grsAmount % GRS_LD2SD_RATE = 0) .invalidSaleMessage

/-- up to what it asks of the endpoint -/
def QuoteSale.apply (w : World) (dstEid id : ℕ) : Except OFTError QuoteParams := do
  let peer ← demand (.accountNotInitialized (d.peer dstEid)) (w.peers dstEid)
  let sale ← demand (.accountNotInitialized (d.sale id)) (w.sales id)
  require (w.config.isHome = true) .notHome
  require (w.store.paused = false) .paused
  require (sale.id = id) .unknownSale
  QuoteSale.check sale
  .ok ⟨d.oftStore, dstEid, peer.peerAddress, encodeSale id sale.asset sale.assetAmount sale.grsAmount sale.recipient, false⟩

/-! ## Between two quotes -/

variable {d} {w w' : World} {i : Instr} {id x cost n : ℕ} {row start : SaleAccount}

/-- purchases of the sale -/
def Instr.purchases (id : ℕ) : Instr → ℕ
  | .buy a => if a.id = id then 1 else 0
  | _ => 0

/-- what is left of a lot after `n` purchases of its parts -/
structure Remains (start row : SaleAccount) (n : ℕ) : Prop where
  open_iff : 0 < row.grsAmount ↔ 0 < row.assetAmount
  asset_le : row.assetAmount ≤ start.assetAmount
  aged : Aged start.assetAmount start.grsAmount row.assetAmount row.grsAmount n

theorem Remains.refl (h : 0 < row.grsAmount ↔ 0 < row.assetAmount) : Remains row row 0 := ⟨h, le_rfl, .refl _ _⟩

theorem Remains.buy (h : Remains start row n) (hcost : quoteCost x row.grsAmount row.assetAmount = .ok cost) :
    Remains start { row with grsAmount := row.grsAmount - x, assetAmount := row.assetAmount - cost } (n + 1) := by
  obtain ⟨hx, hle, -, -⟩ := quoteCost_ok hcost
  refine ⟨quoteCost_open hcost, (Nat.sub_le _ _).trans h.asset_le, ?_⟩
  rw [quoteCost_share hcost]
  exact h.aged.redeem (hx.trans_le hle) hle

theorem Remains.step (hrow : w.sales id = some row) (h : Remains start row n) (hi : i.rewrites id = false)
    (hs : step d w i = .ok w') : ∃ row', w'.sales id = some row' ∧ Remains start row' (n + i.purchases id) := by
  obtain ⟨posted, he⟩ := step_ok.1 hs
  cases exec_rowStep he id with
  | kept hsame _ => exact ⟨row, hsame.trans hrow, h.open_iff, h.asset_le, h.aged.mono (Nat.le_add_right ..)⟩
  | written row' hsome hid hwrites =>
    rw [hi, hrow] at hwrites
    simp at hwrites
  | bought a row' cost hbuy hid hrow' hcost hsome =>
    cases hrow.symm.trans hrow'
    have hone : i.purchases id = 1 := by simp [hbuy, Instr.purchases, hid]
    rw [hone]
    exact ⟨_, hsome, h.buy hcost⟩

theorem Remains.run (hrow : w.sales id = some row) (hopen : 0 < row.grsAmount ↔ 0 < row.assetAmount) (is : List Instr)
    (hi : ∀ i ∈ is, i.rewrites id = false) :
    ∃ row', (Machine.run (Grs.step d) w is).sales id = some row' ∧
      Remains row row' (tally (Grs.step d) (fun _ i _ => i.purchases id) w is) := by
  have hstep : ∀ w i w' k, (∃ row', World.sales w id = some row' ∧ Remains row row' k) → Instr.rewrites id i = false →
      Grs.step d w i = .ok w' → ∃ row', w'.sales id = some row' ∧ Remains row row' (k + i.purchases id) :=
    fun w i w' k ⟨row', hrow', h⟩ hi hs => h.step hrow' hi hs
  have hrun := run_bounded_of hstep w is (meets_of_mem hi w) 0 ⟨row, hrow, .refl hopen⟩
  rwa [Nat.zero_add] at hrun

/-! ## Prices -/

/-- what is quoted: the part is there, and its price is its share -/
theorem quoteBuy_ok (h : QuoteBuy.apply d w id x = .ok cost) : ∃ row, w.sales id = some row ∧ row.id = id ∧
    quoteCost x row.grsAmount row.assetAmount = .ok cost := by
  simp only [QuoteBuy.apply, bind_ok, demand_ok, require_ok] at h
  obtain ⟨row, hrow, -, hid, hcost⟩ := h
  exact ⟨row, hrow, hid, hcost⟩

theorem quoteBuy_read (hrow : w.sales id = some row) (hid : row.id = id) :
    QuoteBuy.apply d w id x = quoteCost x row.grsAmount row.assetAmount := by
  unfold QuoteBuy.apply
  rw [hrow]
  exact require_bind hid _ _

theorem quoteCost_pos {grs asset : ℕ} (h : quoteCost x grs asset = .ok cost) : 0 < cost := by
  simp only [quoteCost, bind_ok, require_ok] at h
  obtain ⟨-, ⟨hasset, -⟩, -, -, -, -, h⟩ := h
  split_ifs at h
  · exact Except.ok.inj h ▸ hasset
  · simp only [bind_ok, checkedMul_ok, narrow_ok, require_ok] at h
    obtain ⟨_, -, -, hpos, -, rfl⟩ := h
    exact hpos

/-- the product fits for the whole lot, and for a part of it -/
theorem quoteCost_fits {grs asset : ℕ} (h : quoteCost x grs asset = .ok cost) : x = grs ∨ x * asset < 2 ^ 128 := by
  simp only [quoteCost, bind_ok, require_ok] at h
  obtain ⟨-, -, -, -, -, -, h⟩ := h
  split_ifs at h with hall
  · exact .inl hall
  · simp only [bind_ok, checkedMul_ok] at h
    obtain ⟨_, ⟨hfits, -⟩, -⟩ := h
    exact .inr hfits

/-- a part that is worth something has a price -/
theorem quoteCost_total {grs asset : ℕ} (hx : 0 < x) (hle : x ≤ grs) (hasset : asset < 2 ^ 64) (hworth : 0 < share asset grs x)
    (hfits : x = grs ∨ x * asset < 2 ^ 128) : quoteCost x grs asset = .ok (share asset grs x) := by
  have hpos : 0 < asset := Nat.pos_of_ne_zero fun hzero => by simp [hzero, share] at hworth
  unfold quoteCost
  rw [require_bind ⟨hpos, hx.trans_le hle⟩, require_bind hx, require_bind hle]
  split_ifs with hall
  · rw [hall, share, Nat.mul_div_cancel asset (hall ▸ hx)]
  · have hproduct : x * asset < 2 ^ 128 := hfits.resolve_left hall
    have hshare : x * asset / grs = share asset grs x := by rw [Nat.mul_comm, share]
    simp only [bind_ok, checkedMul_ok, require_ok, narrow_ok]
    refine ⟨_, ⟨hproduct, rfl⟩, (), hshare ▸ hworth, ?_, hshare⟩
    exact hshare ▸ (share_le hle).trans_lt hasset

/-- the cost goes from the buyer to the payee: lamports, or tokens between accounts of the two; `b` is the bank before that -/
structure Buy.Settles (a : Buy) (w w' : World) (b : Bank Pubkey) (asset : Pubkey) (cost : ℕ) : Prop where
  lamports : asset = .default → w'.bank = b ∧ cost ≤ w.lamports a.buyer ∧ ∃ debited,
    debited = update w.lamports a.buyer (w.lamports a.buyer - cost) ∧
      w'.lamports = update debited a.payee (debited a.payee + cost)
  tokens : asset ≠ .default → w'.lamports = w.lamports ∧ ∃ source dest s t,
    a.quoteSource = some source ∧ b.accounts source = some s ∧ s.mint = asset ∧ s.owner = a.buyer ∧
      a.quoteDest = some dest ∧ b.accounts dest = some t ∧ t.mint = asset ∧ t.owner = a.payee ∧
        b.transfer source dest a.buyer cost = .ok w'.bank

/-- what a purchase does: its part of the lot is delivered out of the sale escrow, and paid for -/
structure Buy.Pays (d : Deployment) (a : Buy) (w w' : World) (row : SaleAccount) (cost : ℕ) : Prop where
  part : w'.onSale a.id + a.amountLd = row.grsAmount
  payee : a.payee = row.payee w
  delivers : ∃ b₁ b₂, initAta d w.bank a.toKey w.store.tokenMint = .ok b₁ ∧
    b₁.transfer d.saleEscrow (d.ata a.toKey w.store.tokenMint) d.grsConfig a.amountLd = .ok b₂ ∧
      a.Settles w w' b₂ row.asset cost

theorem Buy.pay_settles {a : Buy} {asset payee : Pubkey} (h : a.pay w asset payee cost = .ok w') (hpayee : a.payee = payee) :
    a.Settles w w' w.bank asset cost := by
  refine ⟨fun hnative => ?_, fun hnative => ?_⟩
  · rw [Buy.pay, if_pos hnative] at h
    simp only [bind_ok, require_ok, Except.ok.injEq] at h
    obtain ⟨-, -, -, hfunds, rfl⟩ := h
    exact ⟨rfl, hfunds, _, rfl, rfl⟩
  · rw [Buy.pay, if_neg hnative] at h
    simp only [loadTokenAccount, bind_ok, demand_ok, require_ok, Except.ok.injEq] at h
    obtain ⟨_, -, source, hsource, dest, hdest, -, -, -, -, s, hs, -, hsmint, t, ht, -, htmint, -, hsowner, -, htowner, b, hb,
      rfl⟩ := h
    exact ⟨rfl, source, dest, s, t, hsource, hs, hsmint, hsowner, hdest, ht, htmint, htowner.trans hpayee.symm, spl_ok.1 hb⟩

/-- a purchase that commits was quoted, and pays that -/
theorem Buy.apply_quoted {a : Buy} (h : a.apply d w = .ok w') (hb : a.buyer ∉ d.derived) :
    ∃ row cost, w.sales a.id = some row ∧ QuoteBuy.apply d w a.id a.amountLd = .ok cost ∧ a.Pays d w w' row cost := by
  obtain ⟨row₁, _, hrow₁, -, -, -, hsales, -⟩ := Buy.apply_ok h hb
  simp only [Buy.apply, bind_ok, demand_ok, require_ok, checkedAdd_ok, checkedSub_ok] at h
  obtain ⟨row, hrow, -, -, _, -, b₁, hb₁, _, -, _, -, _, -, -, hid, cost, hcost, -, hpayee, _, -, _, -, _, -, _, -, b₂, hb₂,
    hpay⟩ := h
  obtain rfl : row = row₁ := Option.some.inj (hrow.symm.trans hrow₁)
  refine ⟨row, cost, hrow, (quoteBuy_read hrow hid).trans hcost, ?_, hpayee, b₁, b₂, hb₁, spl_ok.1 hb₂, ?_⟩
  · rw [onSale_some (by rw [hsales, update_self])]
    exact Nat.sub_add_cancel (quoteCost_ok hcost).2.1
  · have hsettles := Buy.pay_settles hpay hpayee
    exact ⟨hsettles.lamports, hsettles.tokens⟩

/-- **Quotes of a lot.** A part of a lot was quoted, in any reachable state. However parts of the lot are bought since, and
whatever else happens but a rewriting of its row: as long as the part is there it is quoted again, at no less, and at no more
than a unit for each purchase since; a purchase of it pays what is quoted at the time, and one that is not quoted is refused.
When the part is not there any more, that is what the quote says. What is paid in tokens is paid in tokens that withhold nothing
of a transfer. -/
theorem purchases_as_quoted (g : Genesis d) (is₀ is₁ : List Instr) {id x cost : ℕ} {row : SaleAccount}
    (hrow : (g.after is₀).sales id = some row) (hfits : row.assetAmount < 2 ^ 64)
    (hquote : QuoteBuy.apply d (g.after is₀) id x = .ok cost) (hi : ∀ i ∈ is₁, i.rewrites id = false) :
    let w := g.after (is₀ ++ is₁)
    let n := tally (step d) (fun _ i _ => i.purchases id) (g.after is₀) is₁
    (x ≤ w.onSale id → ∃ cost', QuoteBuy.apply d w id x = .ok cost' ∧ cost ≤ cost' ∧ cost' ≤ cost + n) ∧
    (w.onSale id < x → QuoteBuy.apply d w id x = .error (if w.onSale id = 0 then .saleClosed else .saleExceeded)) ∧
    ∀ a : Buy, a.id = id → a.amountLd = x →
      (∀ w', step d w (.buy a) = .ok w' → ∃ row' cost', w.sales id = some row' ∧ QuoteBuy.apply d w id x = .ok cost' ∧
        a.Pays d w w' row' cost') := by
  have hafter : g.after (is₀ ++ is₁) = run (step d) (g.after is₀) is₁ := run_append ..
  obtain ⟨row₀, hrow₀, hid, hcost⟩ := quoteBuy_ok hquote
  cases hrow.symm.trans hrow₀
  obtain ⟨hx, hle, hasset, -⟩ := quoteCost_ok hcost
  obtain ⟨row', hrow', h⟩ := Remains.run (d := d) hrow (iff_of_true (hx.trans_le hle) hasset) is₁ hi
  rw [← hafter] at hrow'
  have honsale : (g.after (is₀ ++ is₁)).onSale id = row'.grsAmount := onSale_some hrow'
  have hid' : row'.id = id := g.filed _ id row' hrow'
  intro w n
  rw [honsale]
  refine ⟨fun hpart => ?_, fun hshort => ?_, fun a ha hamount w' hs => ?_⟩
  · have hpos : 0 < row'.grsAmount := hx.trans_le hpart
    have hge : cost ≤ share row'.assetAmount row'.grsAmount x := by
      rw [quoteCost_share hcost]
      exact h.aged.toDearer.share_mono hpos x
    have hle' : share row'.assetAmount row'.grsAmount x ≤ cost + n := by
      rw [quoteCost_share hcost]
      exact h.aged.share_le (hx.trans_le hle) hpos hpart
    have hproduct : x = row'.grsAmount ∨ x * row'.assetAmount < 2 ^ 128 := by
      rcases quoteCost_fits hcost with hall | hlt
      · exact .inl (le_antisymm hpart (hall ▸ h.aged.shares))
      · exact .inr ((Nat.mul_le_mul_left x h.asset_le).trans_lt hlt)
    have htotal := quoteCost_total hx hpart (h.asset_le.trans_lt hfits) ((quoteCost_pos hcost).trans_le hge) hproduct
    exact ⟨_, (quoteBuy_read hrow' hid').trans htotal, hge, hle'⟩
  · rw [quoteBuy_read hrow' hid', quoteCost]
    rcases Nat.eq_zero_or_pos row'.grsAmount with hsold | hpos
    · simp only [hsold, lt_irrefl, and_false, require, if_false, if_true]
      rfl
    · rw [require_bind ⟨h.open_iff.1 hpos, hpos⟩, require_bind hx]
      simp only [require, not_le.2 hshort, hpos.ne', if_false]
      rfl
  · subst ha hamount
    obtain ⟨posted, he⟩ := step_ok.1 hs
    obtain ⟨hsigns, he⟩ := exec_ok he
    exact Buy.apply_quoted (silent_ok he).1 (hsigns _ rfl)

/-- two GRS of three are quoted at 6 lamports of 10; after one GRS was sold, at a lamport more -/
theorem purchases_as_quoted_part :
    QuoteBuy.apply Sample.deployment (Sample.home.after Sample.listed) 1 2 = .ok 6 ∧
      ∃ cost, QuoteBuy.apply Sample.deployment (Sample.home.after (Sample.listed ++ [.buy (Sample.part 1 1)])) 1 2 = .ok cost ∧
        6 ≤ cost ∧ cost ≤ 7 := by
  have hlisted : (Sample.home.after Sample.listed).sales 1 = some ⟨1, .default, 10, 3, Sample.admin⟩ := by decide +kernel
  have hquote : QuoteBuy.apply Sample.deployment (Sample.home.after Sample.listed) 1 2 = .ok 6 := by decide +kernel
  obtain ⟨hagain, -, -⟩ := purchases_as_quoted Sample.home Sample.listed [.buy (Sample.part 1 1)] hlisted (by decide) hquote
    (by simp [Instr.rewrites])
  obtain ⟨cost, hcost, hge, hle⟩ := hagain (by decide +kernel)
  exact ⟨hquote, cost, hcost, hge, hle.trans (by decide +kernel)⟩

/-! ## Publications -/

/-- a publication sends the message that was priced -/
theorem PublishSale.apply_quoted {a : PublishSale} {o : Outbound} (h : a.apply d w = .ok (w', o)) :
    QuoteSale.apply d w a.dstEid a.id = .ok ⟨d.oftStore, o.dstEid, o.receiver, o.message, false⟩ := by
  simp only [PublishSale.apply, bind_ok, demand_ok, require_ok, Except.ok.injEq, Prod.mk.injEq] at h
  obtain ⟨peer, hpeer, -, -, row, hrow, _, -, -, hhome, -, hpaused, -, hid, -, -, w₁, hw, -, rfl⟩ := h
  simp only [QuoteSale.apply, bind_ok, demand_ok, require_ok]
  refine ⟨peer, hpeer, row, hrow, (), hhome, (), hpaused, (), hid, (), ?_, rfl⟩
  unfold QuoteSale.check
  split_ifs at hw ⊢ with hclosed
  · rfl
  · simp only [PublishSale.withdraw, bind_ok, require_ok] at hw
    obtain ⟨-, hopen, -, hwhole, -⟩ := hw
    simp only [bind_ok, require_ok]
    exact ⟨(), hopen, hwhole⟩

/-- the errors of a publication that its quote does not look for -/
def Publishable : Set OFTError :=
  {e | e ≠ .notHome ∧ e ≠ .paused ∧ e ≠ .unknownSale ∧ e ≠ .saleClosed ∧ e ≠ .invalidSaleMessage}

@[simp] theorem mem_publishable {e : OFTError} : e ∈ Publishable ↔
    e ≠ .notHome ∧ e ≠ .paused ∧ e ≠ .unknownSale ∧ e ≠ .saleClosed ∧ e ≠ .invalidSaleMessage := Iff.rfl

theorem spl_publishable {α : Type} (y : Except (TokenError Pubkey) α) : Throws Publishable (spl y) := by
  cases y <;> simp [spl, Except.mapError]

/-- and one that was priced is not refused for anything its quote looks for -/
theorem PublishSale.apply_publishable {a : PublishSale} {price : QuoteParams} (h : QuoteSale.apply d w a.dstEid a.id = .ok price) :
    Throws Publishable (a.apply d w) := by
  simp only [QuoteSale.apply, bind_ok, demand_ok, require_ok] at h
  obtain ⟨peer, hpeer, row, hrow, -, hhome, -, hpaused, -, hid, _, hopen, -⟩ := h
  unfold PublishSale.apply
  refine .bind (by simp) fun peer₁ _ => .bind (by simp) fun _ _ => .bind (by simp) fun row₁ hrow₁ => ?_
  obtain rfl : row = row₁ := Option.some.inj (hrow.symm.trans (demand_ok.1 hrow₁))
  refine .bind (by simp [loadOwned, loadToken, loadTokenAccount]) fun _ _ => .bind (by simp [hhome]) fun _ _ =>
    .bind (by simp [hpaused]) fun _ _ => .bind (by simp [hid]) fun _ _ => .bind (by simp) fun _ _ => .bind ?_ fun _ _ => by simp
  by_cases hclosed : row.grsAmount = 0 ∧ row.assetAmount = 0
  · rw [if_pos hclosed]
    simp
  · rw [QuoteSale.check, if_neg hclosed] at hopen
    simp only [bind_ok, require_ok] at hopen
    rw [if_neg hclosed, PublishSale.withdraw]
    obtain ⟨-, hsells, hwhole⟩ := hopen
    refine .bind (by simp [hsells]) fun _ _ => .bind (by simp [hwhole]) fun _ _ => .bind (by simp) fun _ _ =>
      .bind (by simp) fun _ _ => .bind (spl_publishable _) fun _ _ => by simp

end Grindurus.Grs
