/-
What an instruction does to the escrows, the supply, the lots and the awards of a store.

- `SameStore`, `SameLots`, `SameAwards`: what is left alone. `Flow`: what happens to the two escrows of `grs_config`, and to the
  supply under the mint authority of the store.
- `Idle`: nothing but tokens outside the escrows moves, and the clock. Most instructions are idle.
- The other ones have an inversion lemma each: `SetSale.apply_ok`, `Buy.apply_ok`, `PublishSale.apply_ok`, `Vest.apply_ok`,
  `Release.apply_ok`, `receiveSale_ok`, `receiveGrant_ok`, `receiveOft_ok`.

Every later invariant of a store is proved from these lemmas and not from the code: the lots (`Inventory`), the awards (`Awards`),
the supply (`Mesh`), the lockbox and the lot prices all ask the same question of an instruction, what it did to the two escrows and
to the supply. An inversion lemma therefore says everything the instruction did there, with the checks it passed.

Amounts are those that are booked. A transfer credits what it debits, which is the standing assumption on the mints (`Types`).
-/
import Grindurus.Lib.Escrow
import Grindurus.Grs.Program

namespace Grindurus.Grs

open Checked TokenBank Machine Function

/-! ## What is left alone -/

/-- what is fixed when a store is initialized -/
structure SameStore (w w' : World) : Prop where
  tokenMint : w'.store.tokenMint = w.store.tokenMint
  oftType : w'.store.oftType = w.store.oftType
  rate : w'.store.ld2sdRate = w.store.ld2sdRate
  homeEid : w'.config.homeEid = w.config.homeEid

structure SameLots (w w' : World) : Prop where
  sales : w'.sales = w.sales
  reserved : w'.config.salesReserved = w.config.salesReserved
  count : w'.saleCount = w.saleCount

structure SameAwards (w w' : World) : Prop where
  vestings : w'.vestings = w.vestings
  count : w'.config.vestingCount = w.config.vestingCount

theorem SameStore.refl (w : World) : SameStore w w := ⟨rfl, rfl, rfl, rfl⟩

theorem SameStore.trans {w₁ w₂ w₃ : World} (h : SameStore w₁ w₂) (h' : SameStore w₂ w₃) : SameStore w₁ w₃ :=
  ⟨h'.tokenMint.trans h.tokenMint, h'.oftType.trans h.oftType, h'.rate.trans h.rate, h'.homeEid.trans h.homeEid⟩

/-- the token accounts of `grs_config`, and the mint they are for -/
def Deployment.custody (d : Deployment) (mint k : Pubkey) : Option Pubkey :=
  if k = d.saleEscrow ∨ k = d.vestEscrow then some mint else none

/-- from `b` to `b'` the escrows of the store `w` gain `δ` at least, and the supply `ι` at most -/
def Flow (d : Deployment) (w : World) (δ : Pubkey → ℤ) (ι : ℤ) (b b' : Bank Pubkey) : Prop :=
  Bank.Flows d.grsConfig (d.custody w.store.tokenMint) d.oftStore w.store.tokenMint δ ι b b'

/-- only tokens outside the escrows move, and the clock; of the supply, `ι` at most is new -/
structure Idle (d : Deployment) (ι : ℤ) (w w' : World) : Prop where
  store : SameStore w w'
  lots : SameLots w w'
  awards : SameAwards w w'
  clock : w.now ≤ w'.now
  flow : Flow d w 0 ι w.bank w'.bank

/-! ## The addresses of the program -/

variable {d : Deployment} {w w' : World} {b b' : Bank Pubkey} {k : Pubkey} {x : ℕ}

theorem Deployment.addresses (d : Deployment) :
    d.saleEscrow ≠ d.vestEscrow ∧ d.tokenEscrow ≠ d.saleEscrow ∧ d.tokenEscrow ≠ d.vestEscrow ∧ d.grsConfig ≠ d.oftStore := by
  have h := d.distinct
  simp only [List.nodup_cons, List.mem_cons, List.not_mem_nil, or_false, not_or, List.nodup_nil, not_false_eq_true, and_true] at h
  obtain ⟨⟨h₁, -⟩, -, ⟨h₂, h₃⟩, h₄⟩ := h
  exact ⟨h₄, h₂, h₃, Ne.symm h₁⟩

theorem not_derived (h : k ∉ d.derived) :
    k ≠ d.oftStore ∧ k ≠ d.grsConfig ∧ k ≠ d.tokenEscrow ∧ k ≠ d.saleEscrow ∧ k ≠ d.vestEscrow := by
  simpa [Deployment.derived] using h

theorem ata_not_derived (d : Deployment) (owner mint : Pubkey) : d.ata owner mint ∉ d.derived := d.ata_fresh owner mint

theorem custody_some {mint j : Pubkey} (h : d.custody mint k = some j) : (k = d.saleEscrow ∨ k = d.vestEscrow) ∧ j = mint := by
  unfold Deployment.custody at h
  split_ifs at h with hk
  exact ⟨hk, (Option.some.inj h).symm⟩

theorem custody_none {mint : Pubkey} (h : k ∉ d.derived) : d.custody mint k = none := by
  obtain ⟨-, -, -, hs, hv⟩ := not_derived h
  simp [Deployment.custody, hs, hv]

@[simp] theorem custody_sale (mint : Pubkey) : d.custody mint d.saleEscrow = some mint := by simp [Deployment.custody]

@[simp] theorem custody_vest (mint : Pubkey) : d.custody mint d.vestEscrow = some mint := by simp [Deployment.custody]

theorem custody_token (mint : Pubkey) : d.custody mint d.tokenEscrow = none := by
  obtain ⟨-, hs, hv, -⟩ := d.addresses
  simp [Deployment.custody, hs, hv]

/-! ## Bank operations -/

/-- an amount is sent where no escrow is -/
theorem single_elsewhere {mint : Pubkey} {δ : Pubkey → ℤ} (hk : d.custody mint k = none) (j i : Pubkey)
    (hj : d.custody mint j = some i) : (Pi.single k (x : ℤ) + δ : Pubkey → ℤ) j = δ j := by
  have hne : j ≠ k := by
    rintro rfl
    simp [hk] at hj
  simp [hne]

/-- an escrow pays an account that is none -/
theorem transfer_flow_out {src dst auth : Pubkey} (h : b.transfer src dst auth x = .ok b')
    (hdst : d.custody w.store.tokenMint dst = none) : Flow d w (-Pi.single src x) 0 b b' :=
  (Bank.transfer_flows h).mono (fun j i hj => by rw [sub_eq_add_neg, single_elsewhere hdst j i hj]) le_rfl

/-- somebody else than the program pays -/
theorem transfer_flow_in {src dst auth : Pubkey} (h : b.transfer src dst auth x = .ok b') (ha : auth ∉ d.derived) :
    Flow d w (Pi.single dst x) 0 b b' :=
  Bank.transfer_in_flows h (not_derived ha).2.1

/-- somebody else than the program pays somebody -/
theorem transfer_flow_idle {src dst auth : Pubkey} (h : b.transfer src dst auth x = .ok b') (ha : auth ≠ d.grsConfig) :
    Flow d w 0 0 b b' :=
  Bank.Flows.mono (Bank.transfer_in_flows h ha) (fun j i _ => by
    simp only [Pi.zero_apply, Pi.single_apply]
    split_ifs <;> omega) le_rfl

theorem initTokenAccount_ok {mint owner : Pubkey} (h : initTokenAccount b k mint owner = .ok b') :
    (b' = b ∧ ∃ a, b.accounts k = some a ∧ a.mint = mint ∧ a.owner = owner) ∨ b.openAccount k mint owner = .ok b' := by
  unfold initTokenAccount at h
  cases ha : b.accounts k with
  | none =>
    rw [ha] at h
    exact .inr (spl_ok.1 h)
  | some a =>
    simp only [ha, bind_ok, require_ok, Except.ok.injEq] at h
    obtain ⟨-, ⟨hm, ho⟩, rfl⟩ := h
    exact .inl ⟨rfl, a, rfl, hm, ho⟩

/-- after it, the account is there -/
theorem initTokenAccount_stands {mint owner : Pubkey} (h : initTokenAccount b k mint owner = .ok b') :
    ∃ a, b'.accounts k = some a ∧ a.mint = mint ∧ a.owner = owner := by
  rcases initTokenAccount_ok h with ⟨rfl, hk⟩ | h
  · exact hk
  · obtain ⟨-, -, -, rfl⟩ := Bank.openAccount_ok h
    exact ⟨⟨mint, owner, 0⟩, by simp, rfl, rfl⟩

theorem initTokenAccount_balance {mint owner : Pubkey} (h : initTokenAccount b k mint owner = .ok b') :
    b'.balance = b.balance ∧ b'.supply = b.supply := by
  rcases initTokenAccount_ok h with ⟨rfl, -⟩ | h
  · exact ⟨rfl, rfl⟩
  · exact ⟨funext (Bank.openAccount_balance h), funext (Bank.openAccount_supply h)⟩

/-- another address keeps its account -/
theorem initTokenAccount_frame {mint owner j : Pubkey} (h : initTokenAccount b k mint owner = .ok b') (hj : j ≠ k) :
    b'.accounts j = b.accounts j := by
  rcases initTokenAccount_ok h with ⟨rfl, -⟩ | h
  · rfl
  · obtain ⟨-, -, -, rfl⟩ := Bank.openAccount_ok h
    rw [Bank.put_accounts, update_of_ne hj]

theorem initEscrow_flow (h : initTokenAccount b k w.store.tokenMint d.grsConfig = .ok b') : Flow d w 0 0 b b' := by
  rcases initTokenAccount_ok h with ⟨rfl, -⟩ | h
  · exact Bank.Flows.refl _
  · exact Bank.openAccount_flows h fun i hi => ⟨(custody_some hi).2.symm, rfl⟩

theorem initAta_flow {owner mint : Pubkey} (h : initAta d b owner mint = .ok b') : Flow d w 0 0 b b' := by
  rcases initTokenAccount_ok h with ⟨rfl, -⟩ | h
  · exact Bank.Flows.refl _
  · exact Bank.openAccount_flows h fun i hi => by simp [custody_none (ata_not_derived d owner mint)] at hi

theorem initAta_balance {owner mint : Pubkey} (h : initAta d b owner mint = .ok b') :
    b'.balance = b.balance ∧ b'.supply = b.supply := initTokenAccount_balance h

theorem loadToken_ok {mint : Pubkey} {a : TokenAccount Pubkey} (h : loadToken b k mint = .ok a) :
    b.accounts k = some a ∧ a.mint = mint := by
  simp only [loadToken, loadTokenAccount, bind_ok, demand_ok, require_ok, Except.ok.injEq] at h
  obtain ⟨_, ha, -, hm, rfl⟩ := h
  exact ⟨ha, hm⟩

theorem loadOwned_ok {mint owner : Pubkey} {a : TokenAccount Pubkey} (h : loadOwned b k mint owner = .ok a) :
    b.accounts k = some a ∧ a.mint = mint ∧ a.owner = owner := by
  simp only [loadOwned, bind_ok, require_ok, Except.ok.injEq] at h
  obtain ⟨_, ha, -, ho, rfl⟩ := h
  exact ⟨(loadToken_ok ha).1, (loadToken_ok ha).2, ho⟩

/-! ## Idle instructions -/

theorem Idle.of_bank {ι : ℤ} (hb : Flow d w 0 ι w.bank b) : Idle d ι w { w with bank := b } :=
  ⟨⟨rfl, rfl, rfl, rfl⟩, ⟨rfl, rfl, rfl⟩, ⟨rfl, rfl⟩, le_rfl, hb⟩

theorem MintGenesis.apply_idle {a : MintGenesis} (h : a.apply d w = .ok w') (ha : a.admin ∉ d.derived) : Idle d 0 w w' := by
  simp only [MintGenesis.apply, bind_ok, require_ok, Except.ok.injEq] at h
  obtain ⟨-, -, -, -, -, -, -, -, mint, -, _, -, -, -, -, -, -, -, b₁, hb₁, b₂, hb₂, rfl⟩ := h
  have hstore := (not_derived ha).1
  refine ⟨⟨rfl, rfl, rfl, rfl⟩, ⟨rfl, rfl, rfl⟩, ⟨rfl, rfl⟩, le_rfl, ?_⟩
  exact Bank.Flows.before (Bank.mintTo_out_flows (spl_ok.1 hb₁) hstore) (Bank.setMintAuthority_flows (spl_ok.1 hb₂) hstore)

theorem WithdrawFee.apply_idle {a : WithdrawFee} (h : a.apply d w = .ok w') : Idle d 0 w w' := by
  simp only [WithdrawFee.apply, bind_ok, require_ok, Except.ok.injEq] at h
  obtain ⟨-, -, _, -, _, -, _, -, -, -, b₁, hb₁, rfl⟩ := h
  exact .of_bank (transfer_flow_idle (spl_ok.1 hb₁) (Ne.symm d.addresses.2.2.2))

theorem SetPeerConfig.apply_idle {a : SetPeerConfig} (h : a.apply w = .ok w') : Idle d 0 w w' := by
  simp only [SetPeerConfig.apply, bind_ok, require_ok, Prod.exists, Except.ok.injEq] at h
  obtain ⟨-, -, _, _, -, rfl⟩ := h
  exact ⟨⟨rfl, rfl, rfl, rfl⟩, ⟨rfl, rfl, rfl⟩, ⟨rfl, rfl⟩, le_rfl, Bank.Flows.refl _⟩

theorem OFTStore.set_same {s s' : OFTStore} {p : SetOFTConfigParams} (h : s.set p = .ok s') :
    s'.tokenMint = s.tokenMint ∧ s'.oftType = s.oftType ∧ s'.ld2sdRate = s.ld2sdRate := by
  cases p with
  | admin k =>
    simp only [OFTStore.set, proposeAdmin, bind_ok, Except.ok.injEq] at h
    obtain ⟨-, -, rfl⟩ := h
    exact ⟨rfl, rfl, rfl⟩
  | defaultFee bps =>
    simp only [OFTStore.set, bind_ok, Except.ok.injEq] at h
    obtain ⟨-, -, rfl⟩ := h
    exact ⟨rfl, rfl, rfl⟩
  | delegate _ | paused _ | pauser _ | unpauser _ =>
    cases h
    exact ⟨rfl, rfl, rfl⟩

/-- only the owner's settings of the store change -/
theorem Idle.of_store {s : OFTStore} (h : s.tokenMint = w.store.tokenMint ∧ s.oftType = w.store.oftType ∧
    s.ld2sdRate = w.store.ld2sdRate) : Idle d 0 w { w with store := s } :=
  ⟨⟨h.1, h.2.1, h.2.2, rfl⟩, ⟨rfl, rfl, rfl⟩, ⟨rfl, rfl⟩, le_rfl, Bank.Flows.refl _⟩

theorem SetOFTConfig.apply_idle {a : SetOFTConfig} (h : a.apply w = .ok w') : Idle d 0 w w' := by
  simp only [SetOFTConfig.apply, bind_ok, Except.ok.injEq] at h
  obtain ⟨-, -, s, hs, rfl⟩ := h
  exact .of_store (OFTStore.set_same hs)

theorem TransferOwnership.apply_idle {a : TransferOwnership} (h : a.apply w = .ok w') : Idle d 0 w w' := by
  simp only [TransferOwnership.apply, proposeAdmin, bind_ok, Except.ok.injEq] at h
  obtain ⟨-, -, s, ⟨-, -, rfl⟩, rfl⟩ := h
  exact .of_store ⟨rfl, rfl, rfl⟩

theorem AcceptOwnership.apply_idle {a : AcceptOwnership} (h : a.apply w = .ok w') : Idle d 0 w w' := by
  simp only [AcceptOwnership.apply, bind_ok, Except.ok.injEq] at h
  obtain ⟨-, -, -, -, rfl⟩ := h
  exact .of_store ⟨rfl, rfl, rfl⟩

theorem SetPause.apply_idle {a : SetPause} (h : a.apply w = .ok w') : Idle d 0 w w' := by
  simp only [SetPause.apply, bind_ok, Except.ok.injEq] at h
  obtain ⟨-, -, rfl⟩ := h
  exact .of_store ⟨rfl, rfl, rfl⟩

/-- a native store burns what is sent, but for the fee -/
theorem Send.debit_idle {a : Send} {r : Receipt} (h : a.debit d w r = .ok w') (ha : a.signer ∉ d.derived)
    (hr : r.amountReceivedLd + r.oftFeeLd = r.amountSentLd) :
    Idle d (if w.store.oftType = .native then -r.amountReceivedLd else 0) w w' := by
  have hgrs := (not_derived ha).2.1
  unfold Send.debit at h
  split at h
  · rename_i hkind
    simp only [bind_ok, Except.ok.injEq] at h
    obtain ⟨_, -, b, hb, rfl⟩ := h
    rw [if_neg (by simp [hkind])]
    exact ⟨⟨rfl, rfl, rfl, rfl⟩, ⟨rfl, rfl, rfl⟩, ⟨rfl, rfl⟩, le_rfl, transfer_flow_idle (spl_ok.1 hb) hgrs⟩
  · rename_i hkind
    simp only [bind_ok, checkedSub_ok, Except.ok.injEq] at h
    obtain ⟨_, ⟨hle, rfl⟩, b₁, hb₁, b₂, hb₂, rfl⟩ := h
    have hburn : Flow d w 0 (-r.amountReceivedLd) w.bank b₁ := by
      have hflow : Flow d w 0 _ w.bank b₁ := Bank.burn_out_flows (spl_ok.1 hb₁) hgrs
      rw [if_pos rfl] at hflow
      exact Bank.Flows.mono hflow (fun _ _ _ => le_rfl) (by omega)
    have hfee : Flow d w 0 0 b₁ b₂ := by
      split_ifs at hb₂
      · exact transfer_flow_idle (spl_ok.1 hb₂) hgrs
      · cases hb₂
        exact Bank.Flows.refl _
    rw [if_pos hkind]
    exact .of_bank (Bank.Flows.after hburn hfee)

/-- what is sent asks for as much where it arrives -/
theorem Send.apply_ok {a : Send} {o : Outbound} (h : a.apply d w = .ok (w', o)) (ha : a.signer ∉ d.derived) :
    ∃ r : Receipt, w.store.ld2sdRate ∣ r.amountReceivedLd ∧ o.dstEid = a.dstEid ∧
      o.message = encode a.toKey (w.store.ld2sd r.amountReceivedLd) a.signer none ∧
      Idle d (if w.store.oftType = .native then -r.amountReceivedLd else 0) w w' := by
  simp only [Send.apply, bind_ok, demand_ok, require_ok, Except.ok.injEq, Prod.mk.injEq] at h
  obtain ⟨peer, -, _, -, _, -, -, -, r, hr, -, -, peer', -, w₁, hd, -, -, -, hcompose, -, -, rfl, rfl⟩ := h
  obtain ⟨hsum, -, hdvd⟩ := computeFee_ok hr
  have hidle := Send.debit_idle hd ha hsum
  rw [hcompose]
  refine ⟨r, hdvd, rfl, ?_, ⟨?_, ?_, ?_, hidle.clock, hidle.flow⟩⟩
  · rw [OFTStore.ld2sd, hidle.store.rate]
    rfl
  · exact ⟨hidle.store.tokenMint, hidle.store.oftType, hidle.store.rate, hidle.store.homeEid⟩
  · exact ⟨hidle.lots.sales, hidle.lots.reserved, hidle.lots.count⟩
  · exact ⟨hidle.awards.vestings, hidle.awards.count⟩

/-! ## Lots -/

/-- lots may change, and the sale escrow; the vest escrow is not debited -/
structure Trades (d : Deployment) (δ ι : ℤ) (w w' : World) : Prop where
  store : SameStore w w'
  awards : SameAwards w w'
  clock : w.now ≤ w'.now
  flow : Flow d w (Pi.single d.saleEscrow δ) ι w.bank w'.bank

theorem Flow.refl (d : Deployment) (w : World) (b : Bank Pubkey) : Flow d w 0 0 b b := Bank.Flows.refl b

/-- afterwards the escrow covers the earmark and the lot, or it was brought all of the lot -/
theorem SetSale.topUp_ok {a : SetSale} {source : TokenAccount Pubkey} (h : a.topUp d w source = .ok b)
    (ha : a.admin ∉ d.derived) :
    ∃ δ : ℕ, Flow d w (Pi.single d.saleEscrow δ) 0 w.bank b ∧
      (w.config.salesReserved + a.grsAmount ≤ w.bank.balance d.saleEscrow + δ ∨ a.grsAmount ≤ δ) := by
  unfold SetSale.topUp GrsConfig.freeSaleInventory at h
  dsimp only at h
  split_ifs at h with hfree
  · simp only [bind_ok, checkedSub_ok, require_ok] at h
    obtain ⟨need, ⟨-, rfl⟩, -, -, hb⟩ := h
    exact ⟨_, transfer_flow_in (spl_ok.1 hb) ha, by omega⟩
  · cases h
    exact ⟨0, by simpa using Flow.refl d w w.bank, by omega⟩

/-- what is listed is earmarked, and topped up from the seller where the escrow is short of it -/
theorem SetSale.earmark_ok {a : SetSale} {source : TokenAccount Pubkey} (h : a.earmark d w source = .ok w')
    (ha : a.admin ∉ d.derived) :
    ∃ δ : ℕ, Trades d δ 0 w w' ∧ w'.sales = w.sales ∧ w'.config.salesReserved = w.config.salesReserved + a.grsAmount ∧
      (w.config.salesReserved < 2 ^ 64 → w'.config.salesReserved < 2 ^ 64) ∧
      (w.config.salesReserved + a.grsAmount ≤ w.bank.balance d.saleEscrow + δ ∨ a.grsAmount ≤ δ) := by
  unfold SetSale.earmark at h
  split_ifs at h with hg
  · simp only [bind_ok, checkedAdd_ok, Except.ok.injEq] at h
    obtain ⟨b, hb, _, ⟨hlt, rfl⟩, rfl⟩ := h
    obtain ⟨δ, hflow, hheld⟩ := SetSale.topUp_ok hb ha
    exact ⟨δ, ⟨⟨rfl, rfl, rfl, rfl⟩, ⟨rfl, rfl⟩, le_rfl, hflow⟩, rfl, rfl, fun _ => hlt, hheld⟩
  · cases h
    have hzero : a.grsAmount = 0 := by omega
    exact ⟨0, ⟨⟨rfl, rfl, rfl, rfl⟩, ⟨rfl, rfl⟩, le_rfl, by simpa using Flow.refl d w w.bank⟩, rfl, by omega, fun h => h, by omega⟩

/-- a new lot: the next id, its row, the earmark, and the tokens that were missing -/
theorem SetSale.append_ok {a : SetSale} {source : TokenAccount Pubkey} {id : ℕ} (h : a.append d w source id = .ok w')
    (ha : a.admin ∉ d.derived) :
    w.sales id = none ∧ (0 < a.grsAmount → 0 < a.assetAmount) ∧
      w'.sales = update w.sales id (some ⟨id, a.asset, a.assetAmount, a.grsAmount, a.recipient⟩) ∧ w'.saleCount = id ∧
      w'.config.salesReserved = w.config.salesReserved + a.grsAmount ∧
      (w.config.salesReserved < 2 ^ 64 → w'.config.salesReserved < 2 ^ 64) ∧
      ∃ δ : ℕ, Trades d δ 0 w w' ∧
        (w.config.salesReserved + a.grsAmount ≤ w.bank.balance d.saleEscrow + δ ∨ a.grsAmount ≤ δ) := by
  simp only [SetSale.append, createAccount, bind_ok, require_ok, Except.ok.injEq] at h
  obtain ⟨-, -, -, -, -, -, -, hasset, -, -, -, hnone, -, -, w₁, he, rfl⟩ := h
  obtain ⟨δ, htrade, hsales, hres, hfit, hheld⟩ := SetSale.earmark_ok he ha
  have hopen : 0 < a.grsAmount → 0 < a.assetAmount := fun hg => by
    by_contra h0
    exact hasset ⟨hg, by omega⟩
  refine ⟨hnone, hopen, by rw [hsales], rfl, hres, hfit, δ, ⟨?_, ?_, htrade.clock, htrade.flow⟩, hheld⟩
  · exact ⟨htrade.store.tokenMint, htrade.store.oftType, htrade.store.rate, htrade.store.homeEid⟩
  · exact ⟨htrade.awards.vestings, htrade.awards.count⟩

/-- a closed lot keeps its row, with nothing in it; its earmark is released and the tokens stay -/
theorem SetSale.close_ok {a : SetSale} (h : a.close d w = .ok w') :
    ∃ row, w.sales a.id = some row ∧ row.grsAmount ≤ w.config.salesReserved ∧
      w'.sales = update w.sales a.id (some { row with assetAmount := 0, grsAmount := 0 }) ∧ w'.saleCount = w.saleCount ∧
      w'.config.salesReserved = w.config.salesReserved - row.grsAmount ∧ Trades d 0 0 w w' := by
  simp only [SetSale.close, bind_ok, require_ok, demand_ok, Except.ok.injEq] at h
  obtain ⟨-, -, row, hrow, -, -, r, hr, rfl⟩ := h
  have hreserved : row.grsAmount ≤ w.config.salesReserved ∧ r = w.config.salesReserved - row.grsAmount := by
    split_ifs at hr with h0
    · rw [checkedSub_ok] at hr
      exact ⟨hr.1, hr.2.symm⟩
    · cases hr
      omega
  refine ⟨row, hrow, hreserved.1, rfl, rfl, hreserved.2, ⟨rfl, rfl, rfl, rfl⟩, ⟨rfl, rfl⟩, le_rfl, ?_⟩
  simpa using Flow.refl d w w.bank

/-- a trade after the escrow is made sure of -/
theorem Trades.before {δ ι : ℤ} (hb : Flow d w 0 0 w.bank b) (h : Trades d δ ι { w with bank := b } w') : Trades d δ ι w w' :=
  ⟨⟨h.store.tokenMint, h.store.oftType, h.store.rate, h.store.homeEid⟩, ⟨h.awards.vestings, h.awards.count⟩, h.clock,
    Bank.Flows.before hb h.flow⟩

/-- a lot is listed under the next id, or one that is listed is closed -/
theorem SetSale.apply_ok {a : SetSale} (h : a.apply d w = .ok w') (ha : a.admin ∉ d.derived) :
    w.config.homeEid = 0 ∧
    ((∃ id row, id = w.saleCount + 1 ∧ id < 2 ^ 64 ∧ w.sales id = none ∧ row.id = id ∧ (0 < row.grsAmount → 0 < row.assetAmount) ∧
        w'.sales = update w.sales id (some row) ∧ w'.saleCount = id ∧
        w'.config.salesReserved = w.config.salesReserved + row.grsAmount ∧
        (w.config.salesReserved < 2 ^ 64 → w'.config.salesReserved < 2 ^ 64) ∧
        ∃ δ : ℕ, Trades d δ 0 w w' ∧
          (w.config.salesReserved + row.grsAmount ≤ w.bank.balance d.saleEscrow + δ ∨ row.grsAmount ≤ δ)) ∨
      ∃ row, w.sales a.id = some row ∧ row.grsAmount ≤ w.config.salesReserved ∧
        w'.sales = update w.sales a.id (some { row with assetAmount := 0, grsAmount := 0 }) ∧ w'.saleCount = w.saleCount ∧
        w'.config.salesReserved = w.config.salesReserved - row.grsAmount ∧ Trades d 0 0 w w') := by
  simp only [SetSale.apply, bind_ok, require_ok, checkedAdd_ok] at h
  obtain ⟨-, -, b, hb, _, -, -, hhome, _, ⟨hlt, rfl⟩, h⟩ := h
  have hbal : b.balance = w.bank.balance := (initTokenAccount_balance hb).1
  have hflow : Flow d w 0 0 w.bank b := initEscrow_flow hb
  refine ⟨by simpa [GrsConfig.isHome] using hhome, ?_⟩
  split_ifs at h with hnew hold
  · obtain ⟨hnone, hopen, hsales, hcount, hres, hfit, δ, htrade, hheld⟩ := SetSale.append_ok h ha
    dsimp only at hheld
    rw [hbal] at hheld
    exact .inl ⟨_, _, rfl, hlt, hnone, rfl, hopen, hsales, hcount, hres, hfit, δ, htrade.before hflow, hheld⟩
  · obtain ⟨row, hrow, hle, hsales, hcount, hres, htrade⟩ := SetSale.close_ok h
    exact .inr ⟨row, hrow, hle, hsales, hcount, hres, htrade.before hflow⟩

/-- a part of the lot, for a part of the price -/
theorem quoteCost_ok {amountLd remainingLd assetAmount cost : ℕ} (h : quoteCost amountLd remainingLd assetAmount = .ok cost) :
    0 < amountLd ∧ amountLd ≤ remainingLd ∧ 0 < assetAmount ∧
      cost = if amountLd = remainingLd then assetAmount else amountLd * assetAmount / remainingLd := by
  simp only [quoteCost, bind_ok, require_ok] at h
  obtain ⟨-, ⟨ha, -⟩, -, hx, -, hle, h⟩ := h
  refine ⟨hx, hle, ha, ?_⟩
  split_ifs at h ⊢ with heq
  · exact (Except.ok.inj h).symm
  · simp only [bind_ok, checkedMul_ok, narrow_ok, require_ok] at h
    obtain ⟨_, ⟨-, rfl⟩, -, -, -, rfl⟩ := h
    rfl

/-- the payment leaves the lots alone -/
theorem Buy.pay_idle {a : Buy} {asset payee : Pubkey} {cost : ℕ} (h : a.pay w asset payee cost = .ok w') (ha : a.buyer ∉ d.derived) :
    Idle d 0 w w' := by
  unfold Buy.pay at h
  split_ifs at h
  · simp only [bind_ok, Except.ok.injEq] at h
    obtain ⟨-, -, -, -, rfl⟩ := h
    exact ⟨⟨rfl, rfl, rfl, rfl⟩, ⟨rfl, rfl, rfl⟩, ⟨rfl, rfl⟩, le_rfl, Flow.refl d w _⟩
  · simp only [bind_ok, Except.ok.injEq] at h
    obtain ⟨_, -, source, -, dest, -, -, -, -, -, _, -, -, -, _, -, -, -, -, -, -, -, b, hb, rfl⟩ := h
    exact .of_bank (transfer_flow_idle (spl_ok.1 hb) (not_derived ha).2.1)

/-- a purchase takes its part from the row, the earmark and the escrow, and pays what the row asks for it -/
theorem Buy.apply_ok {a : Buy} (h : a.apply d w = .ok w') (ha : a.buyer ∉ d.derived) :
    ∃ row cost, w.sales a.id = some row ∧ quoteCost a.amountLd row.grsAmount row.assetAmount = .ok cost ∧
      cost ≤ row.assetAmount ∧ a.amountLd ≤ w.config.salesReserved ∧
      w'.sales = update w.sales a.id
        (some { row with grsAmount := row.grsAmount - a.amountLd, assetAmount := row.assetAmount - cost }) ∧
      w'.saleCount = w.saleCount ∧ w'.config.salesReserved = w.config.salesReserved - a.amountLd ∧
      Trades d (-a.amountLd) 0 w w' := by
  simp only [Buy.apply, bind_ok, demand_ok, require_ok, checkedAdd_ok, checkedSub_ok] at h
  obtain ⟨row, hrow, -, -, _, -, b₁, hb₁, _, -, _, -, _, -, -, -, cost, hcost, -, -, _, ⟨-, rfl⟩, _, ⟨hres, rfl⟩, _, ⟨-, rfl⟩,
    _, ⟨hle, rfl⟩, b₂, hb₂, hpay⟩ := h
  have hidle := Buy.pay_idle hpay ha
  have hout : Flow d w (-Pi.single d.saleEscrow a.amountLd) 0 b₁ b₂ :=
    transfer_flow_out (spl_ok.1 hb₂) (custody_none (ata_not_derived _ _ _))
  have hflow : Flow d w (-Pi.single d.saleEscrow (a.amountLd : ℤ)) 0 w.bank w'.bank :=
    Bank.Flows.after (Bank.Flows.before (initAta_flow hb₁) hout) hidle.flow
  refine ⟨row, cost, hrow, hcost, hle, hres, hidle.lots.sales, hidle.lots.count, hidle.lots.reserved, ?_, ?_, hidle.clock, ?_⟩
  · exact ⟨hidle.store.tokenMint, hidle.store.oftType, hidle.store.rate, hidle.store.homeEid⟩
  · exact ⟨hidle.awards.vestings, hidle.awards.count⟩
  · rwa [Pi.single_neg]

/-- what is published is burned, and the row is left empty -/
theorem PublishSale.apply_ok {a : PublishSale} {o : Outbound} (h : a.apply d w = .ok (w', o)) :
    ∃ row, w.sales a.id = some row ∧ w.config.homeEid = 0 ∧ o.dstEid = a.dstEid ∧
      o.message = encodeSale a.id row.asset row.assetAmount row.grsAmount row.recipient ∧
      row.grsAmount % GRS_LD2SD_RATE = 0 ∧ row.grsAmount ≤ w.config.salesReserved ∧
      w'.sales = update w.sales a.id (some { row with grsAmount := 0, assetAmount := 0 }) ∧ w'.saleCount = w.saleCount ∧
      w'.config.salesReserved = w.config.salesReserved - row.grsAmount ∧ Trades d (-row.grsAmount) (-row.grsAmount) w w' := by
  simp only [PublishSale.apply, bind_ok, demand_ok, require_ok, Except.ok.injEq, Prod.mk.injEq] at h
  obtain ⟨peer, -, -, -, row, hrow, _, -, -, hhome, -, -, -, hid, -, -, w₁, hw, rfl, rfl⟩ := h
  refine ⟨row, hrow, by simpa [GrsConfig.isHome] using hhome, rfl, rfl, ?_⟩
  split_ifs at hw with hclosed
  · cases hw
    obtain ⟨hg, -⟩ := hclosed
    rw [hg]
    refine ⟨rfl, Nat.zero_le _, rfl, rfl, rfl, ⟨rfl, rfl, rfl, rfl⟩, ⟨rfl, rfl⟩, le_rfl, ?_⟩
    simpa using Flow.refl d w w.bank
  · simp only [PublishSale.withdraw, bind_ok, require_ok, checkedAdd_ok, checkedSub_ok, Except.ok.injEq] at hw
    obtain ⟨-, -, -, hdust, _, ⟨-, rfl⟩, _, ⟨hres, rfl⟩, b, hb, rfl⟩ := hw
    refine ⟨hdust, hres, rfl, rfl, rfl, ⟨rfl, rfl, rfl, rfl⟩, ⟨rfl, rfl⟩, le_rfl, ?_⟩
    have hflow : Flow d w (-Pi.single d.saleEscrow (row.grsAmount : ℤ)) _ w.bank b := Bank.burn_flows (spl_ok.1 hb)
    rwa [if_pos rfl, ← Pi.single_neg] at hflow

/-! ## Awards -/

/-- awards may change, and the vest escrow; the sale escrow is not debited -/
structure Awards (d : Deployment) (δ ι : ℤ) (w w' : World) : Prop where
  store : SameStore w w'
  lots : SameLots w w'
  clock : w.now ≤ w'.now
  flow : Flow d w (Pi.single d.vestEscrow δ) ι w.bank w'.bank

theorem unixTime_ok {now : ℤ} {e : OFTError} {t : ℕ} (h : unixTime now e = .ok t) : 0 ≤ now ∧ t = now.toNat := by
  simp only [unixTime, bind_ok, require_ok, Except.ok.injEq] at h
  obtain ⟨-, hnow, rfl⟩ := h
  exact ⟨hnow, rfl⟩

theorem schedule_ok {start cliff duration : ℕ} {s : Schedule} (h : schedule w start cliff duration = .ok s) :
    s.cliffEnd ≤ s.endAt := by
  simp only [schedule, bind_ok, checkedAdd_ok, Except.ok.injEq] at h
  obtain ⟨_, -, _, ⟨-, rfl⟩, _, ⟨-, rfl⟩, rfl⟩ := h
  exact Nat.le_add_right ..

/-- an award of the funder: the next id, its schedule, and the allocation moved into the escrow -/
theorem Vest.apply_ok {a : Vest} (h : a.apply d w = .ok w') (ha : a.funder ∉ d.derived) :
    ∃ s : Schedule, w.vestings a.id = none ∧ a.id = w.config.vestingCount + 1 ∧ s.cliffEnd ≤ s.endAt ∧ a.amountLd < 2 ^ 64 ∧
      w'.vestings = update w.vestings a.id (some ⟨a.id, a.funder, a.toKey, a.amountLd, 0, s.start, s.cliffEnd, s.endAt⟩) ∧
      w'.config.vestingCount = a.id ∧ Awards d a.amountLd 0 w w' := by
  simp only [Vest.apply, bind_ok, require_ok, checkedAdd_ok, Except.ok.injEq] at h
  obtain ⟨-, hnone, b₁, hb₁, source, hsource, -, -, -, -, -, -, -, -, -, -, -, -, -, -, -, -, _, ⟨-, rfl⟩, -, hid, s, hs, b₂, hb₂,
    rfl⟩ := h
  have hne : a.tokenSource ≠ d.vestEscrow := by
    intro heq
    obtain ⟨e, he, -, howner⟩ := initTokenAccount_stands hb₁
    obtain ⟨hsrc, -, hfunder⟩ := loadOwned_ok hsource
    rw [heq, he, Option.some.injEq] at hsrc
    subst hsrc
    exact (not_derived ha).2.1 (hfunder.symm.trans howner)
  have hfits := Bank.transfer_fits (spl_ok.1 hb₂) hne
  refine ⟨s, hnone, hid, schedule_ok hs, by omega, rfl, hid.symm, ⟨rfl, rfl, rfl, rfl⟩, ⟨rfl, rfl, rfl⟩, le_rfl, ?_⟩
  exact Bank.Flows.before (initEscrow_flow hb₁) (transfer_flow_in (spl_ok.1 hb₂) ha)

/-- what is vested and not yet released goes from the escrow to the beneficiary -/
theorem Release.apply_ok {a : Release} (h : a.apply d w = .ok w') :
    ∃ v, w.vestings a.id = some v ∧ v.id = a.id ∧ a.beneficiary = v.beneficiary ∧ 0 ≤ w.now ∧
      0 < v.releasableAt w.now.toNat ∧
      w'.vestings = update w.vestings a.id (some { v with releasedLd := v.releasedLd + v.releasableAt w.now.toNat }) ∧
      w'.config = w.config ∧ Awards d (-(v.releasableAt w.now.toNat)) 0 w w' ∧
      w'.bank.balance (d.ata v.beneficiary w.store.tokenMint) =
        w.bank.balance (d.ata v.beneficiary w.store.tokenMint) + v.releasableAt w.now.toNat := by
  simp only [Release.apply, bind_ok, demand_ok, require_ok, checkedAdd_ok, Except.ok.injEq] at h
  obtain ⟨v, hv, -, hid, _, -, -, hben, b₁, hb₁, t, ht, -, hpos, _, ⟨-, rfl⟩, b₂, hb₂, rfl⟩ := h
  obtain ⟨hnow, rfl⟩ := unixTime_ok ht
  have hne : d.vestEscrow ≠ d.ata a.beneficiary w.store.tokenMint := fun heq =>
    (not_derived (ata_not_derived d a.beneficiary w.store.tokenMint)).2.2.2.2 heq.symm
  have hpaid := Bank.transfer_dst (spl_ok.1 hb₂) hne
  have hflow : Flow d w (-Pi.single d.vestEscrow (v.releasableAt w.now.toNat : ℤ)) 0 b₁ b₂ :=
    transfer_flow_out (spl_ok.1 hb₂) (custody_none (ata_not_derived _ _ _))
  rw [← Pi.single_neg] at hflow
  refine ⟨v, hv, hid, hben, hnow, hpos, rfl, rfl, ⟨⟨rfl, rfl, rfl, rfl⟩, ⟨rfl, rfl, rfl⟩, le_rfl, ?_⟩, ?_⟩
  · exact Bank.Flows.before (initAta_flow hb₁) hflow
  · rw [← hben, hpaid, (initAta_balance hb₁).1]

/-! ## Messages -/

/-- what the row of a sale still sells; a missing row sells nothing -/
def World.onSale (w : World) (id : ℕ) : ℕ := (w.sales id).elim 0 SaleAccount.grsAmount

/-- `dst` is credited by the store -/
structure Credited (d : Deployment) (dst : Pubkey) (x : ℕ) (w w' : World) : Prop where
  store : SameStore w w'
  lots : SameLots w w'
  awards : SameAwards w w'
  clock : w.now ≤ w'.now
  flow : Flow d w (Pi.single dst x) x w.bank w'.bank
  supply : w.store.oftType = .native → w'.supply = w.supply + x

/-- an adapter unlocks, a native store mints below the cap; either way the escrow grows by the amount -/
theorem creditEscrow_ok {a : LzReceive} {dst : Pubkey} (h : creditEscrow d w a dst x = .ok w') : Credited d dst x w w' := by
  unfold creditEscrow at h
  split at h
  · rename_i hkind
    simp only [bind_ok, Except.ok.injEq] at h
    obtain ⟨_, -, b, hb, rfl⟩ := h
    have hflow : Flow d w (Pi.single dst (x : ℤ) - Pi.single d.tokenEscrow (x : ℤ)) 0 w.bank b :=
      Bank.transfer_flows (spl_ok.1 hb)
    refine ⟨⟨rfl, rfl, rfl, rfl⟩, ⟨rfl, rfl, rfl⟩, ⟨rfl, rfl⟩, le_rfl, hflow.mono (fun k j hk => ?_) (by omega), fun h => ?_⟩
    · have hne : k ≠ d.tokenEscrow := by
        rintro rfl
        simp [custody_token] at hk
      simp [hne]
    · simp [hkind] at h
  · simp only [bind_ok, Except.ok.injEq] at h
    obtain ⟨_, -, _, -, -, -, b, hb, rfl⟩ := h
    have hflow : Flow d w (Pi.single dst (x : ℤ)) _ w.bank b := Bank.mintTo_flows (spl_ok.1 hb)
    rw [if_pos rfl] at hflow
    refine ⟨⟨rfl, rfl, rfl, rfl⟩, ⟨rfl, rfl, rfl⟩, ⟨rfl, rfl⟩, le_rfl, hflow, fun _ => ?_⟩
    have hsupply := Bank.mintTo_supply (spl_ok.1 hb) w.store.tokenMint
    rwa [if_pos rfl] at hsupply

/-- the lot of a sale message is made as large as the message says -/
structure Resized (d : Deployment) (m : SaleMsg) (w w' : World) : Prop where
  sales : w'.sales = update w.sales m.id (some ⟨m.id, m.asset, m.assetAmount, m.grsAmount, m.recipient⟩)
  count : w'.saleCount = max w.saleCount m.id
  reserved : w'.config.salesReserved + w.onSale m.id = w.config.salesReserved + m.grsAmount
  fits : w.config.salesReserved < 2 ^ 64 → w'.config.salesReserved < 2 ^ 64
  covered : w.onSale m.id ≤ w.config.salesReserved + m.grsAmount
  trades : Trades d (m.grsAmount - w.onSale m.id) m.grsAmount w w'
  supply : w.store.oftType = .native → w'.supply + w.onSale m.id = w.supply + m.grsAmount

theorem growLot_ok {a : LzReceive} (h : growLot d w a x = .ok w') :
    w'.sales = w.sales ∧ w'.saleCount = w.saleCount ∧ w'.config.salesReserved = w.config.salesReserved + x ∧
      w'.config.salesReserved < 2 ^ 64 ∧ Trades d x x w w' ∧ (w.store.oftType = .native → w'.supply = w.supply + x) := by
  simp only [growLot, bind_ok, checkedAdd_ok, Except.ok.injEq] at h
  obtain ⟨w₁, h₁, _, ⟨hlt, rfl⟩, rfl⟩ := h
  have hc : Credited d d.saleEscrow x w w₁ := creditEscrow_ok h₁
  refine ⟨hc.lots.sales, hc.lots.count, ?_, hlt, ⟨?_, ?_, hc.clock, hc.flow⟩, hc.supply⟩
  · rw [← hc.lots.reserved]
  · exact ⟨hc.store.tokenMint, hc.store.oftType, hc.store.rate, hc.store.homeEid⟩
  · exact ⟨hc.awards.vestings, hc.awards.count⟩

/-- the reverse: an adapter locks again, a native store burns -/
theorem debitSaleEscrow_ok (h : debitSaleEscrow d w x = .ok w') :
    Trades d (-x) 0 w w' ∧ SameLots w w' ∧ (w.store.oftType = .native → w'.supply + x = w.supply) := by
  unfold debitSaleEscrow at h
  split_ifs at h with hx
  · cases h
    subst hx
    refine ⟨⟨⟨rfl, rfl, rfl, rfl⟩, ⟨rfl, rfl⟩, le_rfl, ?_⟩, ⟨rfl, rfl, rfl⟩, fun _ => rfl⟩
    simpa using Flow.refl d w w.bank
  split at h
  · rename_i hkind
    simp only [bind_ok, Except.ok.injEq] at h
    obtain ⟨_, -, b, hb, rfl⟩ := h
    have hflow : Flow d w (-Pi.single d.saleEscrow (x : ℤ)) 0 w.bank b := transfer_flow_out (spl_ok.1 hb) (custody_token _)
    rw [← Pi.single_neg] at hflow
    exact ⟨⟨⟨rfl, rfl, rfl, rfl⟩, ⟨rfl, rfl⟩, le_rfl, hflow⟩, ⟨rfl, rfl, rfl⟩, fun h => by simp [hkind] at h⟩
  · simp only [bind_ok, Except.ok.injEq] at h
    obtain ⟨b, hb, rfl⟩ := h
    have hflow : Flow d w (-Pi.single d.saleEscrow (x : ℤ)) _ w.bank b := Bank.burn_flows (spl_ok.1 hb)
    rw [if_pos rfl, ← Pi.single_neg] at hflow
    refine ⟨⟨⟨rfl, rfl, rfl, rfl⟩, ⟨rfl, rfl⟩, le_rfl, hflow.mono (fun _ _ _ => le_rfl) (by omega)⟩, ⟨rfl, rfl, rfl⟩, fun _ => ?_⟩
    exact Bank.burn_supply (spl_ok.1 hb)

theorem shrinkLot_ok (h : shrinkLot d w x = .ok w') :
    w'.sales = w.sales ∧ w'.saleCount = w.saleCount ∧ w'.config.salesReserved + x = w.config.salesReserved ∧
      Trades d (-x) 0 w w' ∧ (w.store.oftType = .native → w'.supply + x = w.supply) := by
  simp only [shrinkLot, bind_ok, checkedSub_ok] at h
  obtain ⟨_, ⟨hle, rfl⟩, h⟩ := h
  obtain ⟨ht, hl, hs⟩ := debitSaleEscrow_ok h
  refine ⟨hl.sales, hl.count, ?_, ⟨?_, ?_, ht.clock, ht.flow⟩, hs⟩
  · rw [hl.reserved]
    exact Nat.sub_add_cancel hle
  · exact ⟨ht.store.tokenMint, ht.store.oftType, ht.store.rate, ht.store.homeEid⟩
  · exact ⟨ht.awards.vestings, ht.awards.count⟩

theorem Trades.mono {δ δ' ι ι' : ℤ} (h : Trades d δ ι w w') (hδ : δ' ≤ δ) (hι : ι ≤ ι') : Trades d δ' ι' w w' :=
  ⟨h.store, h.awards, h.clock, h.flow.mono (fun k _ _ => by
    simp only [Pi.single_apply]
    split_ifs <;> omega) hι⟩

/-- the row is read under its id, and a row that is not there reads as none -/
theorem peekSaleAccount_ok {sale : Pubkey} {id : ℕ} {previous : Option ℕ} (h : peekSaleAccount d w sale id = .ok previous) :
    0 < id ∧ previous = (w.sales id).map SaleAccount.grsAmount := by
  simp only [peekSaleAccount, bind_ok, require_ok] at h
  obtain ⟨-, hid, -, -, h⟩ := h
  refine ⟨hid, ?_⟩
  cases hrow : w.sales id with
  | none =>
    rw [hrow] at h
    exact (Except.ok.inj h).symm
  | some row =>
    simp only [hrow, bind_ok, require_ok, Except.ok.injEq] at h
    obtain ⟨-, -, rfl⟩ := h
    rfl

/-- the escrow follows the row: it grows, shrinks or stays with the amount the message names -/
theorem resizeLot_ok {a : LzReceive} {previous : Option ℕ} (h : resizeLot d w a previous x = .ok w') :
    w'.sales = w.sales ∧ w'.saleCount = w.saleCount ∧
      w'.config.salesReserved + previous.getD 0 = w.config.salesReserved + x ∧
      (w.config.salesReserved < 2 ^ 64 → w'.config.salesReserved < 2 ^ 64) ∧
      Trades d (x - previous.getD 0) x w w' ∧
      (w.store.oftType = .native → w'.supply + previous.getD 0 = w.supply + x) := by
  have hsame : Trades d 0 0 w w :=
    ⟨SameStore.refl w, ⟨rfl, rfl⟩, le_rfl, by simpa using Flow.refl d w w.bank⟩
  unfold resizeLot at h
  split at h
  · split_ifs at h with hx
    · obtain ⟨hsales, hcount, hres, hlt, ht, hs⟩ := growLot_ok h
      exact ⟨hsales, hcount, hres, fun _ => hlt, ht.mono (by simp) le_rfl, hs⟩
    · cases h
      exact ⟨rfl, rfl, by simp; omega, fun h => h, hsame.mono (by simp; omega) (by omega), fun _ => by simp; omega⟩
  · rename_i previous
    simp only [Option.getD_some]
    split_ifs at h with hgrow hshrink
    · simp only [bind_ok, checkedSub_ok] at h
      obtain ⟨_, ⟨hle, rfl⟩, h⟩ := h
      obtain ⟨hsales, hcount, hres, hlt, ht, hs⟩ := growLot_ok h
      exact ⟨hsales, hcount, by omega, fun _ => hlt, ht.mono (by omega) (by omega), fun hn => by have := hs hn; omega⟩
    · simp only [bind_ok, checkedSub_ok] at h
      obtain ⟨_, ⟨hle, rfl⟩, h⟩ := h
      obtain ⟨hsales, hcount, hres, ht, hs⟩ := shrinkLot_ok h
      exact ⟨hsales, hcount, by omega, by omega, ht.mono (by omega) (by omega), fun hn => by have := hs hn; omega⟩
    · cases h
      have heq : x = previous := by omega
      subst heq
      exact ⟨rfl, rfl, rfl, fun h => h, hsame.mono (by omega) (by omega), fun _ => rfl⟩

/-- a late open of a lot that is closed is dropped; any other message makes the lot as large as it says -/
theorem receiveSale_ok {a : LzReceive} {message : List UInt8} (h : receiveSale d w a message = .ok w') :
    ∃ m, decodeSale message = .ok m ∧ w.config.homeEid ≠ 0 ∧ 0 < m.id ∧
      ((∃ row, w.sales m.id = some row ∧ row.grsAmount = 0 ∧ m.grsAmount ≠ 0 ∧ w' = w) ∨
        ((∀ row, w.sales m.id = some row → row.grsAmount = 0 → m.grsAmount = 0) ∧ Resized d m w w')) := by
  simp only [receiveSale, bind_ok, require_ok] at h
  obtain ⟨-, hhome, m, hm, -, -, -, -, -, -, previous, hpeek, h⟩ := h
  obtain ⟨hid, rfl⟩ := peekSaleAccount_ok hpeek
  refine ⟨m, hm, by simpa [GrsConfig.isHome] using hhome, hid, ?_⟩
  split_ifs at h with hdrop
  · obtain ⟨hzero, hg⟩ := hdrop
    obtain ⟨row, hrow, h0⟩ := Option.map_eq_some_iff.1 hzero
    cases h
    exact .inl ⟨row, hrow, h0, hg, rfl⟩
  · right
    refine ⟨fun row hrow h0 => ?_, ?_⟩
    · by_contra hg
      exact hdrop ⟨by simp [hrow, h0], hg⟩
    simp only [bind_ok, upsertSaleAccount, require_ok, Except.ok.injEq] at h
    obtain ⟨_, ⟨-, -, -, -, -, -, rfl⟩, h⟩ := h
    obtain ⟨hsales, hcount, hres, hfit, ht, hs⟩ := resizeLot_ok h
    have hprev : ((w.sales m.id).map SaleAccount.grsAmount).getD 0 = w.onSale m.id := by
      unfold World.onSale
      cases w.sales m.id <;> rfl
    rw [hprev] at hres ht hs
    refine ⟨hsales, hcount, hres, hfit, Nat.le.intro ((Nat.add_comm _ _).trans hres), ⟨?_, ?_, ht.clock, ht.flow⟩, hs⟩
    · exact ⟨ht.store.tokenMint, ht.store.oftType, ht.store.rate, ht.store.homeEid⟩
    · exact ⟨ht.awards.vestings, ht.awards.count⟩

theorem decodeGrant_ok {message : List UInt8} {m : GrantMsg} (h : decodeGrant message = .ok m) : m.amountLd < 2 ^ 64 := by
  simp only [decodeGrant, bind_ok, require_ok, checkedMul_ok, Except.ok.injEq] at h
  obtain ⟨-, -, k, -, sd, -, x, ⟨hlt, rfl⟩, start, -, cliff, -, duration, -, bucket, -, -, -, rfl⟩ := h
  exact hlt

theorem ensureVestEscrow_ok {vestEscrow : Pubkey} (h : ensureVestEscrow d w vestEscrow = .ok w') : Idle d 0 w w' := by
  simp only [ensureVestEscrow, bind_ok, require_ok] at h
  obtain ⟨-, -, h⟩ := h
  split at h
  · cases h
    exact ⟨SameStore.refl w, ⟨rfl, rfl, rfl⟩, ⟨rfl, rfl⟩, le_rfl, Flow.refl d w w.bank⟩
  · simp only [bind_ok, Except.ok.injEq] at h
    obtain ⟨-, -, b, hb, rfl⟩ := h
    exact .of_bank (Bank.openAccount_flows (spl_ok.1 hb) fun i hi => ⟨(custody_some hi).2.symm, rfl⟩)

/-- a grant opens the next award, and the vest escrow is credited with all of it -/
theorem receiveGrant_ok {a : LzReceive} {message : List UInt8} (h : receiveGrant d w a message = .ok w') :
    ∃ m id, ∃ s : Schedule, decodeGrant message = .ok m ∧ w.config.homeEid ≠ 0 ∧ id = w.config.vestingCount + 1 ∧
      w.vestings id = none ∧ s.cliffEnd ≤ s.endAt ∧
      w'.vestings = update w.vestings id (some ⟨id, d.oftStore, m.toKey, m.amountLd, 0, s.start, s.cliffEnd, s.endAt⟩) ∧
      w'.config.vestingCount = id ∧ Awards d m.amountLd m.amountLd w w' := by
  simp only [receiveGrant, initGrantVesting, bind_ok, require_ok, checkedAdd_ok, Except.ok.injEq] at h
  obtain ⟨-, hhome, m, hm, -, -, -, -, -, -, -, -, -, -, -, -, -, -, _, ⟨-, rfl⟩, _, ⟨-, -, -, -, -, hnone, s, hs, -, -, rfl⟩, h⟩ := h
  refine ⟨m, _, s, hm, by simpa [GrsConfig.isHome] using hhome, rfl, hnone, schedule_ok hs, ?_⟩
  split_ifs at h with hx
  · simp only [bind_ok] at h
    obtain ⟨w₂, h₂, h⟩ := h
    have hi := ensureVestEscrow_ok h₂
    have hc : Credited d d.vestEscrow m.amountLd w₂ w' := creditEscrow_ok h
    have hstore := hi.store.trans hc.store
    have hmint : w₂.store.tokenMint = w.store.tokenMint := hi.store.tokenMint
    have hflow := hc.flow
    unfold Flow at hflow
    rw [hmint] at hflow
    refine ⟨hc.awards.vestings.trans hi.awards.vestings, hc.awards.count.trans hi.awards.count,
      ⟨hstore.tokenMint, hstore.oftType, hstore.rate, hstore.homeEid⟩, ⟨?_, ?_, ?_⟩, hi.clock.trans hc.clock, ?_⟩
    · exact hc.lots.sales.trans hi.lots.sales
    · exact hc.lots.reserved.trans hi.lots.reserved
    · exact hc.lots.count.trans hi.lots.count
    · exact Bank.Flows.before hi.flow hflow
  · cases h
    have h0 : m.amountLd = 0 := by omega
    refine ⟨rfl, rfl, ⟨rfl, rfl, rfl, rfl⟩, ⟨rfl, rfl, rfl⟩, le_rfl, ?_⟩
    rw [h0]
    simpa using Flow.refl d w w.bank

/-- a credit moves tokens outside the escrows and the buckets of the peer -/
theorem receiveOft_ok {a : LzReceive} {srcEid : ℕ} {peer : PeerConfig} {message : List UInt8}
    (h : receiveOft d w a srcEid peer message = .ok w') :
    ∃ sd, amountSd message = .ok sd ∧ Idle d (sd * w.store.ld2sdRate : ℕ) w w' := by
  simp only [receiveOft_eq, OFTStore.sd2ld, bind_ok, require_ok, checkedMul_ok] at h
  obtain ⟨_, -, -, -, sd, hsd, _, ⟨-, rfl⟩, peer', -, h⟩ := h
  have hc := creditEscrow_ok h
  refine ⟨sd, hsd, ⟨?_, ?_, ?_, hc.clock, ?_⟩⟩
  · exact ⟨hc.store.tokenMint, hc.store.oftType, hc.store.rate, hc.store.homeEid⟩
  · exact ⟨hc.lots.sales, hc.lots.reserved, hc.lots.count⟩
  · exact ⟨hc.awards.vestings, hc.awards.count⟩
  · refine hc.flow.mono (fun k j hk => ?_) le_rfl
    have hdst : d.custody w.store.tokenMint (d.ata a.toAddress w.store.tokenMint) = none :=
      custody_none (ata_not_derived _ _ _)
    have hzero : (Pi.single _ ((sd * w.store.ld2sdRate : ℕ) : ℤ) + 0 : Pubkey → ℤ) k = 0 := single_elsewhere hdst k j hk
    rw [add_zero] at hzero
    exact hzero.ge

/-! ## Receiving -/

/-- the accounts an instruction makes sure of hold what they held -/
structure Prepared (d : Deployment) (w : World) (b : Bank Pubkey) : Prop where
  flow : Flow d w 0 0 w.bank b
  balance : b.balance = w.bank.balance
  supply : b.supply = w.bank.supply
  vestEscrow : b.accounts d.vestEscrow = w.bank.accounts d.vestEscrow

variable {a : LzReceive} {params : LzReceiveParams} {m : SaleMsg}

theorem Resized.before (hb : Prepared d w b) (h : Resized d m { w with bank := b } w') : Resized d m w w' := by
  refine ⟨h.sales, h.count, h.reserved, h.fits, h.covered, h.trades.before hb.flow, fun hn => ?_⟩
  have hs := h.supply hn
  have hsame : ({ w with bank := b } : World).supply = w.supply := congrFun hb.supply _
  rwa [hsame] at hs

/-- a message is a sale, a grant or a credit -/
theorem LzReceive.apply_ok (h : a.apply d w params = .ok w') :
    (∃ b, Prepared d w b ∧ isSale params.message = true ∧ receiveSale d { w with bank := b } a params.message = .ok w') ∨
    (∃ b, Prepared d w b ∧ isSale params.message = false ∧ isGrant params.message = true ∧
      receiveGrant d { w with bank := b } a params.message = .ok w') ∨
    ∃ b peer, Prepared d w b ∧ isSale params.message = false ∧ isGrant params.message = false ∧
      receiveOft d { w with bank := b } a params.srcEid peer params.message = .ok w' := by
  simp only [LzReceive.apply, bind_ok] at h
  obtain ⟨peer, -, -, -, b₁, hb₁, _, -, b₂, hb₂, -, -, -, -, h⟩ := h
  have hata : d.vestEscrow ≠ d.ata a.toAddress w.store.tokenMint := fun heq =>
    (not_derived (ata_not_derived d a.toAddress w.store.tokenMint)).2.2.2.2 heq.symm
  have hprepared : Prepared d w b₂ :=
    ⟨Bank.Flows.before (initEscrow_flow hb₁) (initAta_flow hb₂),
      (initAta_balance hb₂).1.trans (initTokenAccount_balance hb₁).1,
      (initAta_balance hb₂).2.trans (initTokenAccount_balance hb₁).2,
      (initTokenAccount_frame hb₂ hata).trans (initTokenAccount_frame hb₁ (Ne.symm d.addresses.1))⟩
  split_ifs at h with hsale hgrant
  · exact .inl ⟨b₂, hprepared, hsale, h⟩
  · exact .inr (.inl ⟨b₂, hprepared, by simpa using hsale, hgrant, h⟩)
  · exact .inr (.inr ⟨b₂, peer, hprepared, by simpa using hsale, by simpa using hgrant, h⟩)

/-! ## Instructions -/

/-- an instruction that neither trades, awards, sends nor receives -/
def Instr.quiet : Instr → Bool
  | .setSale _ | .buy _ | .publishSale _ | .send _ | .bridge _ | .lzReceive _ _ | .vest _ | .release _ => false
  | _ => true

theorem Idle.of_clock {n : ℕ} : Idle d 0 w { w with now := w.now + n } :=
  ⟨⟨rfl, rfl, rfl, rfl⟩, ⟨rfl, rfl, rfl⟩, ⟨rfl, rfl⟩, by simp, Flow.refl d w w.bank⟩

theorem token_idle {signer : Pubkey} {op : Bank.Op Pubkey} (h : w.bank.apply signer op = .ok b) (hs : signer ∉ d.derived)
    (hop : permitted d op = true) : Idle d 0 w { w with bank := b } := by
  obtain ⟨hstore, hgrs, -⟩ := not_derived hs
  refine .of_bank (Bank.apply_flows h hgrs hstore fun k hk => custody_none ?_)
  simpa [permitted, hk] using hop

/-- the instructions that are idle, by their kind -/
theorem exec_quiet {i : Instr} {posted : Option Outbound} (h : exec d w i = .ok (w', posted)) (hq : i.quiet = true) :
    posted = none ∧ Idle d 0 w w' := by
  obtain ⟨hs, h⟩ := exec_ok h
  cases i with
  | mintGenesis a =>
    obtain ⟨ha, rfl⟩ := silent_ok h
    exact ⟨rfl, MintGenesis.apply_idle ha (hs _ rfl)⟩
  | withdrawFee a =>
    obtain ⟨ha, rfl⟩ := silent_ok h
    exact ⟨rfl, WithdrawFee.apply_idle ha⟩
  | setPeerConfig a =>
    obtain ⟨ha, rfl⟩ := silent_ok h
    exact ⟨rfl, SetPeerConfig.apply_idle ha⟩
  | setOftConfig a =>
    obtain ⟨ha, rfl⟩ := silent_ok h
    exact ⟨rfl, SetOFTConfig.apply_idle ha⟩
  | transferOwnership a =>
    obtain ⟨ha, rfl⟩ := silent_ok h
    exact ⟨rfl, TransferOwnership.apply_idle ha⟩
  | acceptOwnership a =>
    obtain ⟨ha, rfl⟩ := silent_ok h
    exact ⟨rfl, AcceptOwnership.apply_idle ha⟩
  | setPause a =>
    obtain ⟨ha, rfl⟩ := silent_ok h
    exact ⟨rfl, SetPause.apply_idle ha⟩
  | token signer op =>
    obtain ⟨ha, rfl⟩ := silent_ok h
    simp only [bind_ok, require_ok, Except.ok.injEq] at ha
    obtain ⟨-, hop, b, hb, rfl⟩ := ha
    exact ⟨rfl, token_idle (spl_ok.1 hb) (hs _ rfl) hop⟩
  | fund k x =>
    obtain ⟨ha, rfl⟩ := silent_ok h
    cases ha
    exact ⟨rfl, ⟨rfl, rfl, rfl, rfl⟩, ⟨rfl, rfl, rfl⟩, ⟨rfl, rfl⟩, le_rfl, Flow.refl d w w.bank⟩
  | tick n =>
    obtain ⟨ha, rfl⟩ := silent_ok h
    cases ha
    exact ⟨rfl, .of_clock⟩
  | _ => cases hq

theorem LzReceive.apply_store (h : a.apply d w params = .ok w') : SameStore w w' := by
  rcases LzReceive.apply_ok h with ⟨b, -, -, h⟩ | ⟨b, -, -, -, h⟩ | ⟨b, peer, -, -, -, h⟩
  · obtain ⟨m, -, -, -, ⟨_, -, -, -, rfl⟩ | ⟨-, hr⟩⟩ := receiveSale_ok h
    · exact ⟨rfl, rfl, rfl, rfl⟩
    · exact ⟨hr.trades.store.tokenMint, hr.trades.store.oftType, hr.trades.store.rate, hr.trades.store.homeEid⟩
  · obtain ⟨m, id, s, -, -, -, -, -, -, -, ha⟩ := receiveGrant_ok h
    exact ⟨ha.store.tokenMint, ha.store.oftType, ha.store.rate, ha.store.homeEid⟩
  · obtain ⟨sd, -, hi⟩ := receiveOft_ok h
    exact ⟨hi.store.tokenMint, hi.store.oftType, hi.store.rate, hi.store.homeEid⟩

/-- what is fixed at initialization stays -/
theorem exec_store {i : Instr} {posted : Option Outbound} (h : exec d w i = .ok (w', posted)) : SameStore w w' := by
  by_cases hq : i.quiet = true
  · exact (exec_quiet h hq).2.store
  obtain ⟨hs, h⟩ := exec_ok h
  cases i with
  | setSale a =>
    obtain ⟨-, ⟨i, row, -, -, -, -, -, -, -, -, -, δ, ht, -⟩ | ⟨row, -, -, -, -, -, ht⟩⟩ :=
      SetSale.apply_ok (silent_ok h).1 (hs _ rfl)
    · exact ht.store
    · exact ht.store
  | buy a =>
    obtain ⟨row, cost, -, -, -, -, -, -, -, ht⟩ := Buy.apply_ok (silent_ok h).1 (hs _ rfl)
    exact ht.store
  | publishSale a =>
    obtain ⟨o, h, -⟩ := posting_ok h
    obtain ⟨row, -, -, -, -, -, -, -, -, -, ht⟩ := PublishSale.apply_ok h
    exact ht.store
  | send a =>
    obtain ⟨o, h, -⟩ := posting_ok h
    obtain ⟨r, -, -, -, hi⟩ := Send.apply_ok h (hs _ rfl)
    exact hi.store
  | bridge a =>
    obtain ⟨o, h, -⟩ := posting_ok h
    obtain ⟨r, -, -, -, hi⟩ := Send.apply_ok h (hs _ rfl)
    exact hi.store
  | lzReceive a params => exact LzReceive.apply_store (silent_ok h).1
  | vest a =>
    obtain ⟨s, -, -, -, -, -, -, ha⟩ := Vest.apply_ok (silent_ok h).1 (hs _ rfl)
    exact ha.store
  | release a =>
    obtain ⟨v, -, -, -, -, -, -, -, ha, -⟩ := Release.apply_ok (silent_ok h).1
    exact ha.store
  | _ => exact absurd rfl hq

theorem step_store {i : Instr} (h : step d w i = .ok w') : SameStore w w' := by
  obtain ⟨posted, he⟩ := step_ok.1 h
  exact exec_store he

/-! ## Escrows stay escrows -/

/-- the escrows are accounts of `grs_config` -/
def World.Escrowed (d : Deployment) (w : World) : Prop := Bank.Owned d.grsConfig (d.custody w.store.tokenMint) w.bank

variable {ι : ℤ}

theorem SameStore.escrowed {f : Pubkey → ℤ} (hs : SameStore w w') (hf : Flow d w f ι w.bank w'.bank) (h : w.Escrowed d) :
    w'.Escrowed d := by
  unfold World.Escrowed
  rw [hs.tokenMint]
  exact hf.owned h

/-- what a flow says of the sale escrow -/
theorem Flow.sale {f : Pubkey → ℤ} {b b' : Bank Pubkey} (hf : Flow d w f ι b b')
    (h : Bank.Owned d.grsConfig (d.custody w.store.tokenMint) b) :
    (b.balance d.saleEscrow : ℤ) + f d.saleEscrow ≤ b'.balance d.saleEscrow := hf.balance h _ _ (custody_sale _)

theorem Flow.vest {f : Pubkey → ℤ} {b b' : Bank Pubkey} (hf : Flow d w f ι b b')
    (h : Bank.Owned d.grsConfig (d.custody w.store.tokenMint) b) :
    (b.balance d.vestEscrow : ℤ) + f d.vestEscrow ≤ b'.balance d.vestEscrow := hf.balance h _ _ (custody_vest _)

/-! ## The first state -/

/-- what an initialization leaves: nothing listed or awarded, no account in the escrows, and a spoke mints -/
structure Blank (d : Deployment) (w : World) : Prop where
  rate : w.store.ld2sdRate = GRS_LD2SD_RATE
  reserved : w.config.salesReserved = 0
  count : w.saleCount = 0
  sales : ∀ id, w.sales id = none
  awarded : w.config.vestingCount = 0
  vestings : ∀ id, w.vestings id = none
  escrows : ∀ k, k = d.saleEscrow ∨ k = d.vestEscrow → w.bank.accounts k = none
  minter : w.config.homeEid ≠ 0 → Bank.Authority d.oftStore w.store.tokenMint w.bank

theorem Blank.escrowed (h : Blank d w) : w.Escrowed d := by
  intro k m hk a ha
  rw [h.escrows k (custody_some hk).1] at ha
  cases ha

theorem handoffSpokeMint_ok {payer : Pubkey} (h : handoffSpokeMint d w payer = .ok w') :
    ∃ b, w' = { w with bank := b } ∧ b.accounts = w.bank.accounts ∧ Bank.Authority d.oftStore w.store.tokenMint b := by
  simp only [handoffSpokeMint, loadMint, bind_ok, demand_ok] at h
  obtain ⟨mint, hmint, h⟩ := h
  split_ifs at h with hstore hpayer
  · cases h
    exact ⟨w.bank, rfl, rfl, mint, hmint, hstore⟩
  · simp only [bind_ok, Except.ok.injEq] at h
    obtain ⟨b, hb, rfl⟩ := h
    have hset := spl_ok.1 hb
    simp only [Bank.setMintAuthority, bind_ok, demand_ok, require_ok, Except.ok.injEq] at hset
    obtain ⟨t, -, -, -, rfl⟩ := hset
    exact ⟨_, rfl, rfl, _, update_self .., rfl⟩

/-- a store begins with no row, no award, and nothing earmarked -/
theorem Init.apply_blank {a : Init} {lamports : Pubkey → ℕ} {now : ℤ} (h : a.apply d b lamports now = .ok w)
    (hfresh : ∀ k ∈ d.derived, b.accounts k = none) : Blank d w := by
  simp only [Init.apply, loadMint, bind_ok, demand_ok, require_ok] at h
  obtain ⟨mint, -, b₁, hb₁, -, -, -, -, -, hrate, -, -, h⟩ := h
  obtain ⟨-, -, -, rfl⟩ := Bank.openAccount_ok (spl_ok.1 hb₁)
  have hescrows : ∀ k, k = d.saleEscrow ∨ k = d.vestEscrow →
      (b.put d.tokenEscrow ⟨a.tokenMint, d.oftStore, 0⟩).accounts k = none := by
    intro k hk
    obtain ⟨-, hsale, hvest, -⟩ := d.addresses
    have hne : k ≠ d.tokenEscrow := by
      rintro rfl
      exact hk.elim hsale hvest
    rw [Bank.put_accounts, update_of_ne hne]
    refine hfresh k ?_
    rcases hk with rfl | rfl <;> simp [Deployment.derived]
  split_ifs at h with hhome
  · simp only [bind_ok, require_ok, Except.ok.injEq] at h
    obtain ⟨-, hzero, -, -, rfl⟩ := h
    exact ⟨hrate, rfl, rfl, fun _ => rfl, rfl, fun _ => rfl, hescrows, fun hne => absurd hzero hne⟩
  · simp only [bind_ok, require_ok] at h
    obtain ⟨-, -, -, -, peers, -, h⟩ := h
    obtain ⟨b₂, rfl, hacc, hauth⟩ := handoffSpokeMint_ok h
    refine ⟨hrate, rfl, rfl, fun _ => rfl, rfl, fun _ => rfl, fun k hk => ?_, fun _ => hauth⟩
    rw [hacc]
    exact hescrows k hk

theorem Genesis.blank (g : Genesis d) : Blank d g.world := Init.apply_blank g.initialized g.fresh

theorem Genesis.after_store (g : Genesis d) (is : List Instr) : SameStore g.world (g.after is) :=
  run_invariant (P := SameStore g.world) (fun _ _ _ hs h => hs.trans (step_store h)) g.world is (.refl _)

end Grindurus.Grs
