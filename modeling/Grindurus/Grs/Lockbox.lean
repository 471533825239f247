/-
The lockbox of an adapter: what it has locked lies in the token escrow.

- `Deposits d mint δ b b'`: the token escrow stays the store's, and gains `δ` at least. `Locks d δ w w'`: so it does, `tvl_ld`
  moves by `δ`, and the settings stay.
- `LockEffect`: what an instruction is to the lockbox; one lemma for each instruction, `exec_locks` for all.
- `World.Solvent`, `Solvent.step`: the escrow covers `tvl_ld`. `lockbox_solvent`: in every reachable state, so that no delivery
  and no withdrawal of fees finds the escrow short, and no withdrawal underflows.

An adapter holds tokens of a mint that is not its own, and what its messages promise to the other chains is `tvl_ld`. The fee that
it keeps of a send stays in the same escrow without being locked, and only that part can be withdrawn. The two failures that this
excludes are a delivery that cannot be paid, which would leave a message undeliverable, and a withdrawal of fees that takes what
is locked, which `withdraw_fee` guards by a subtraction that would panic.

The result is one of mints that withhold nothing of a transfer. With a withheld part `tvl_ld` would run ahead of the escrow, since
the code books what it asks for.
-/
import Grindurus.Grs.Mesh
import Grindurus.Grs.Standing

namespace Grindurus.Grs

open Checked TokenBank Machine Function

variable {d : Deployment} {w w' w₁ w₂ w₃ : World} {b b' b₁ b₂ b₃ : Bank Pubkey} {mint k src dst auth owner : Pubkey} {x : ℕ}
  {δ δ' : ℤ}

/-! ## The bank -/

/-- from `b` to `b'` the token escrow stays the store's, and gains `δ` at least -/
def Deposits (d : Deployment) (mint : Pubkey) (δ : ℤ) (b b' : Bank Pubkey) : Prop :=
  Bank.Owned d.oftStore (d.vault mint) b →
    Bank.Owned d.oftStore (d.vault mint) b' ∧ (b.balance d.tokenEscrow : ℤ) + δ ≤ b'.balance d.tokenEscrow

theorem vault_escrow (d : Deployment) (mint : Pubkey) : d.vault mint d.tokenEscrow = some mint := if_pos rfl

theorem Deposits.refl : Deposits d mint 0 b b := fun ho => ⟨ho, by simp⟩

theorem Deposits.trans (h : Deposits d mint δ b₁ b₂) (h' : Deposits d mint δ' b₂ b₃) : Deposits d mint (δ + δ') b₁ b₃ := by
  intro ho
  obtain ⟨ho₂, hle⟩ := h ho
  obtain ⟨ho₃, hle'⟩ := h' ho₂
  exact ⟨ho₃, by omega⟩

theorem Deposits.before (h : Deposits d mint 0 b₁ b₂) (h' : Deposits d mint δ b₂ b₃) : Deposits d mint δ b₁ b₃ := by
  simpa using h.trans h'

theorem Deposits.mono (h : Deposits d mint δ b b') (hδ : δ' ≤ δ) : Deposits d mint δ' b b' := fun ho =>
  (h ho).imp_right fun hle => by omega

/-- what a flow says of the token escrow -/
theorem Deposits.of_flows {q m : Pubkey} {f : Pubkey → ℤ} {ι : ℤ} (h : Bank.Flows d.oftStore (d.vault mint) q m f ι b b') :
    Deposits d mint (f d.tokenEscrow) b b' := fun ho => ⟨h.owned ho, h.balance ho _ _ (vault_escrow d mint)⟩

/-- somebody else than the store pays -/
theorem transfer_deposits (h : b.transfer src dst auth x = .ok b') (ha : auth ≠ d.oftStore) : Deposits d mint 0 b b' := by
  have hflow : Bank.Flows d.oftStore (d.vault mint) mint mint _ 0 b b' := Bank.transfer_in_flows h ha
  refine (Deposits.of_flows hflow).mono ?_
  simp only [Pi.single_apply]
  split_ifs <;> omega

theorem transfer_in_deposits (h : b.transfer src d.tokenEscrow auth x = .ok b') (ha : auth ≠ d.oftStore) :
    Deposits d mint x b b' := by
  have hflow : Bank.Flows d.oftStore (d.vault mint) mint mint _ 0 b b' := Bank.transfer_in_flows h ha
  simpa using Deposits.of_flows hflow

theorem transfer_out_deposits (h : b.transfer d.tokenEscrow dst auth x = .ok b') : Deposits d mint (-x) b b' := by
  have hflow : Bank.Flows d.oftStore (d.vault mint) mint mint _ 0 b b' := Bank.transfer_flows h
  refine (Deposits.of_flows hflow).mono ?_
  simp only [Pi.sub_apply, Pi.single_apply]
  split_ifs <;> omega

theorem mintTo_deposits (h : b.mintTo k dst auth x = .ok b') : Deposits d mint 0 b b' := by
  have hflow : Bank.Flows d.oftStore (d.vault mint) mint mint _ _ b b' := Bank.mintTo_flows h
  refine (Deposits.of_flows hflow).mono ?_
  simp only [Pi.single_apply]
  split_ifs <;> omega

theorem burn_deposits (h : b.burn k src auth x = .ok b') (ha : auth ≠ d.oftStore) : Deposits d mint 0 b b' := by
  have hflow : Bank.Flows d.oftStore (d.vault mint) mint mint 0 _ b b' := Bank.burn_out_flows h ha
  exact Deposits.of_flows hflow

theorem openAccount_deposits {m : Pubkey} (h : b.openAccount k m owner = .ok b') (hk : k ≠ d.tokenEscrow) :
    Deposits d mint 0 b b' := by
  have hflow : Bank.Flows d.oftStore (d.vault mint) d.oftStore mint 0 0 b b' :=
    Bank.openAccount_flows h fun i hi => by simp [vault_none hk] at hi
  exact Deposits.of_flows hflow

theorem initTokenAccount_deposits {m : Pubkey} (h : initTokenAccount b k m owner = .ok b') (hk : k ≠ d.tokenEscrow) :
    Deposits d mint 0 b b' := by
  rcases initTokenAccount_ok h with ⟨rfl, -⟩ | h
  · exact .refl
  · exact openAccount_deposits h hk

theorem initAta_deposits {m : Pubkey} (h : initAta d b owner m = .ok b') : Deposits d mint 0 b b' :=
  initTokenAccount_deposits h (not_derived (ata_not_derived d owner m)).2.2.1

theorem initSale_deposits {m : Pubkey} (h : initTokenAccount b d.saleEscrow m owner = .ok b') : Deposits d mint 0 b b' :=
  initTokenAccount_deposits h (Ne.symm d.addresses.2.1)

theorem initVest_deposits {m : Pubkey} (h : initTokenAccount b d.vestEscrow m owner = .ok b') : Deposits d mint 0 b b' :=
  initTokenAccount_deposits h (Ne.symm d.addresses.2.2.1)

theorem setMintAuthority_deposits {m : Pubkey} {auth' : Option Pubkey} (h : b.setMintAuthority m auth auth' = .ok b') :
    Deposits d mint 0 b b' := by
  simp only [Bank.setMintAuthority, bind_ok, Except.ok.injEq] at h
  obtain ⟨_, -, -, -, rfl⟩ := h
  exact .refl

theorem token_deposits {signer : Pubkey} {op : Bank.Op Pubkey} (h : b.apply signer op = .ok b') (hs : signer ∉ d.derived)
    (hop : permitted d op = true) : Deposits d mint 0 b b' := by
  obtain ⟨hstore, -⟩ := not_derived hs
  have hflow : Bank.Flows d.oftStore (d.vault mint) d.oftStore mint 0 0 b b' := by
    refine Bank.apply_flows h hstore hstore fun k hk => vault_none ?_
    have hfresh : k ∉ d.derived := by simpa [permitted, hk] using hop
    exact (not_derived hfresh).2.2.1
  exact Deposits.of_flows hflow

/-! ## Locking -/

/-- what the admin and the pausers set: the store but for `tvl_ld`, and the registry of its peers -/
def World.settings (w : World) : OFTStore × List PeerEntry := ({ w.store with tvlLd := 0 }, w.peerRegistry)

theorem settings_mint (h : w'.settings = w.settings) : w'.store.tokenMint = w.store.tokenMint :=
  congrArg (fun s => s.1.tokenMint) h

/-- `tvl_ld` moves by `δ`, and what lies in the token escrow by `δ` at least; the settings stay -/
structure Locks (d : Deployment) (δ : ℤ) (w w' : World) : Prop where
  frame : w'.settings = w.settings
  tvl : (w'.store.tvlLd : ℤ) = w.store.tvlLd + δ
  fits : w.store.tvlLd < 2 ^ 64 → w'.store.tvlLd < 2 ^ 64
  held : Deposits d w.store.tokenMint δ w.bank w'.bank

theorem Locks.trans (h : Locks d δ w₁ w₂) (h' : Locks d δ' w₂ w₃) : Locks d (δ + δ') w₁ w₃ := by
  have htvl := h.tvl
  have htvl' := h'.tvl
  have hheld := h'.held
  rw [settings_mint h.frame] at hheld
  exact ⟨h'.frame.trans h.frame, by omega, fun hlt => h'.fits (h.fits hlt), h.held.trans hheld⟩

/-- the bank moves, or what the lockbox does not read -/
theorem Locks.of_deposits (hstore : w'.store = w.store ∧ w'.peerRegistry = w.peerRegistry)
    (hb : Deposits d w.store.tokenMint 0 w.bank w'.bank) : Locks d 0 w w' :=
  ⟨by simp [World.settings, hstore], by simp [hstore.1], by simp [hstore.1], hb⟩

theorem Locks.refl (d : Deployment) (w : World) : Locks d 0 w w := .of_deposits ⟨rfl, rfl⟩ .refl

theorem Locks.before (hb : Deposits d w.store.tokenMint 0 w.bank b) (h : Locks d δ { w with bank := b } w') : Locks d δ w w' :=
  ⟨h.frame, h.tvl, h.fits, hb.before h.held⟩

theorem SetSale.topUp_deposits {a : SetSale} {source : TokenAccount Pubkey} (h : a.topUp d w source = .ok b)
    (ha : a.admin ∉ d.derived) : Deposits d mint 0 w.bank b := by
  unfold SetSale.topUp at h
  dsimp only at h
  split_ifs at h
  · simp only [bind_ok] at h
    obtain ⟨_, -, -, -, hb⟩ := h
    exact transfer_deposits (spl_ok.1 hb) (not_derived ha).1
  · cases h
    exact .refl

theorem SetSale.append_locks {a : SetSale} {source : TokenAccount Pubkey} {id : ℕ} (h : a.append d w source id = .ok w')
    (ha : a.admin ∉ d.derived) : Locks d 0 w w' := by
  simp only [SetSale.append, bind_ok, Except.ok.injEq] at h
  obtain ⟨-, -, -, -, -, -, -, -, -, -, -, -, -, -, w₁, hw₁, rfl⟩ := h
  unfold SetSale.earmark at hw₁
  split_ifs at hw₁
  · simp only [bind_ok, Except.ok.injEq] at hw₁
    obtain ⟨b₂, hb₂, _, -, rfl⟩ := hw₁
    exact .of_deposits ⟨rfl, rfl⟩ (SetSale.topUp_deposits hb₂ ha)
  · cases hw₁
    exact .of_deposits ⟨rfl, rfl⟩ .refl

theorem SetSale.apply_locks {a : SetSale} (h : a.apply d w = .ok w') (ha : a.admin ∉ d.derived) : Locks d 0 w w' := by
  simp only [SetSale.apply, bind_ok] at h
  obtain ⟨-, -, b₁, hb₁, source, -, -, -, _, -, h⟩ := h
  refine Locks.before (initSale_deposits hb₁) ?_
  split_ifs at h
  · exact SetSale.append_locks h ha
  · simp only [SetSale.close, bind_ok, Except.ok.injEq] at h
    obtain ⟨-, -, row, -, -, -, _, -, rfl⟩ := h
    exact .of_deposits ⟨rfl, rfl⟩ .refl

theorem Buy.pay_locks {a : Buy} {asset payee : Pubkey} {cost : ℕ} (h : a.pay w asset payee cost = .ok w')
    (ha : a.buyer ∉ d.derived) : Locks d 0 w w' := by
  unfold Buy.pay at h
  split_ifs at h
  · simp only [bind_ok, Except.ok.injEq] at h
    obtain ⟨-, -, -, -, rfl⟩ := h
    exact .of_deposits ⟨rfl, rfl⟩ .refl
  · simp only [bind_ok, Except.ok.injEq] at h
    obtain ⟨_, -, source, -, dest, -, -, -, -, -, _, -, -, -, _, -, -, -, -, -, -, -, b₃, hb₃, rfl⟩ := h
    exact .of_deposits ⟨rfl, rfl⟩ (transfer_deposits (spl_ok.1 hb₃) (not_derived ha).1)

theorem Buy.apply_locks {a : Buy} (h : a.apply d w = .ok w') (ha : a.buyer ∉ d.derived) : Locks d 0 w w' := by
  simp only [Buy.apply, bind_ok] at h
  obtain ⟨row, -, -, -, _, -, b₁, hb₁, _, -, _, -, _, -, -, -, cost, -, -, -, _, -, _, -, _, -, _, -, b₂, hb₂, hpay⟩ := h
  have hsold : Deposits d w.store.tokenMint 0 b₁ b₂ := transfer_deposits (spl_ok.1 hb₂) d.addresses.2.2.2
  have hpaid := Buy.pay_locks hpay ha
  exact ⟨hpaid.frame, hpaid.tvl, hpaid.fits, (initAta_deposits hb₁).before (hsold.before hpaid.held)⟩

theorem PublishSale.apply_locks {a : PublishSale} {o : Outbound} (h : a.apply d w = .ok (w', o)) : Locks d 0 w w' := by
  simp only [PublishSale.apply, bind_ok, Except.ok.injEq, Prod.mk.injEq] at h
  obtain ⟨peer, -, -, -, row, -, _, -, -, -, -, -, -, -, -, -, w₁, hw, rfl, -⟩ := h
  split_ifs at hw
  · cases hw
    exact .of_deposits ⟨rfl, rfl⟩ .refl
  · simp only [PublishSale.withdraw, bind_ok, Except.ok.injEq] at hw
    obtain ⟨-, -, -, -, _, -, _, -, b₁, hb₁, rfl⟩ := hw
    exact .of_deposits ⟨rfl, rfl⟩ (burn_deposits (spl_ok.1 hb₁) d.addresses.2.2.2)

/-- an adapter locks what it sends, a native store nothing -/
theorem Send.debit_locks {a : Send} {r : Receipt} (h : a.debit d w r = .ok w') (ha : a.signer ∉ d.derived)
    (hr : r.amountReceivedLd + r.oftFeeLd = r.amountSentLd) :
    Locks d (if w.store.oftType = .adapter then r.amountReceivedLd else 0) w w' := by
  have hstore := (not_derived ha).1
  unfold Send.debit at h
  split at h
  · rename_i hkind
    simp only [bind_ok, checkedAdd_ok, Except.ok.injEq] at h
    obtain ⟨_, ⟨hlt, rfl⟩, b, hb, rfl⟩ := h
    rw [if_pos hkind]
    exact ⟨rfl, by push_cast; rfl, fun _ => hlt, (transfer_in_deposits (spl_ok.1 hb) hstore).mono (by omega)⟩
  · rename_i hkind
    simp only [bind_ok, Except.ok.injEq] at h
    obtain ⟨_, -, b₁, hb₁, b₂, hb₂, rfl⟩ := h
    rw [if_neg (by simp [hkind])]
    refine .of_deposits ⟨rfl, rfl⟩ ((burn_deposits (spl_ok.1 hb₁) hstore).before ?_)
    split_ifs at hb₂
    · exact transfer_deposits (spl_ok.1 hb₂) hstore
    · cases hb₂
      exact .refl

theorem Send.apply_locks {a : Send} {o : Outbound} (h : a.apply d w = .ok (w', o)) (ha : a.signer ∉ d.derived) :
    ∃ r : Receipt, o.message = encode a.toKey (w.store.ld2sd r.amountReceivedLd) a.signer none ∧
      Locks d (if w.store.oftType = .adapter then r.amountReceivedLd else 0) w w' := by
  simp only [Send.apply, bind_ok, require_ok, Except.ok.injEq, Prod.mk.injEq] at h
  obtain ⟨peer, -, _, -, _, -, -, -, r, hr, -, -, peer', -, w₁, hd, -, -, -, hcompose, -, -, rfl, rfl⟩ := h
  obtain ⟨hsum, -, -⟩ := computeFee_ok hr
  have hlocks := Send.debit_locks hd ha hsum
  refine ⟨r, ?_, ⟨hlocks.frame, hlocks.tvl, hlocks.fits, hlocks.held⟩⟩
  rw [hcompose, OFTStore.ld2sd, (Send.debit_idle hd ha hsum).store.rate]
  rfl

/-! ## Unlocking -/

/-- an adapter unlocks what it credits, a native store nothing -/
theorem creditEscrow_locks {a : LzReceive} (h : creditEscrow d w a dst x = .ok w') :
    Locks d (if w.store.oftType = .adapter then -x else 0) w w' := by
  unfold creditEscrow at h
  split at h
  · rename_i hkind
    simp only [bind_ok, checkedSub_ok, Except.ok.injEq] at h
    obtain ⟨_, ⟨hle, rfl⟩, b₁, hb₁, rfl⟩ := h
    rw [if_pos hkind]
    exact ⟨rfl, by dsimp only; omega, by dsimp only; omega, transfer_out_deposits (spl_ok.1 hb₁)⟩
  · rename_i hkind
    simp only [bind_ok, Except.ok.injEq] at h
    obtain ⟨_, -, _, -, -, -, b₁, hb₁, rfl⟩ := h
    rw [if_neg (by simp [hkind])]
    exact .of_deposits ⟨rfl, rfl⟩ (mintTo_deposits (spl_ok.1 hb₁))

/-- what a lot gives back on an adapter comes into the token escrow and is locked again -/
theorem debitSaleEscrow_locks (h : debitSaleEscrow d w x = .ok w') :
    Locks d (if w.store.oftType = .adapter then x else 0) w w' := by
  have hgrs := d.addresses.2.2.2
  unfold debitSaleEscrow at h
  split_ifs at h with hx
  · cases h
    subst hx
    simpa using Locks.refl d w
  · split at h
    · rename_i hkind
      simp only [bind_ok, checkedAdd_ok, Except.ok.injEq] at h
      obtain ⟨_, ⟨hlt, rfl⟩, b₁, hb₁, rfl⟩ := h
      rw [if_pos hkind]
      exact ⟨rfl, by push_cast; rfl, fun _ => hlt, transfer_in_deposits (spl_ok.1 hb₁) hgrs⟩
    · rename_i hkind
      simp only [bind_ok, Except.ok.injEq] at h
      obtain ⟨b₁, hb₁, rfl⟩ := h
      rw [if_neg (by simp [hkind])]
      exact .of_deposits ⟨rfl, rfl⟩ (burn_deposits (spl_ok.1 hb₁) hgrs)

theorem growLot_locks {a : LzReceive} (h : growLot d w a x = .ok w') :
    Locks d (if w.store.oftType = .adapter then -x else 0) w w' := by
  simp only [growLot, bind_ok, Except.ok.injEq] at h
  obtain ⟨w₁, h₁, _, -, rfl⟩ := h
  have hcredit : Locks d _ w w₁ := creditEscrow_locks h₁
  exact ⟨hcredit.frame, hcredit.tvl, hcredit.fits, hcredit.held⟩

theorem shrinkLot_locks (h : shrinkLot d w x = .ok w') : Locks d (if w.store.oftType = .adapter then x else 0) w w' := by
  simp only [shrinkLot, bind_ok] at h
  obtain ⟨_, -, h⟩ := h
  have hdebit : Locks d _ _ w' := debitSaleEscrow_locks h
  exact ⟨hdebit.frame, hdebit.tvl, hdebit.fits, hdebit.held⟩

/-- a lot that grows is unlocked, a lot that shrinks is locked again: `x` at most is unlocked -/
theorem resizeLot_locks {a : LzReceive} {previous : Option ℕ} (h : resizeLot d w a previous x = .ok w') :
    ∃ δ : ℤ, -x ≤ δ ∧ (w.store.oftType = .native → δ = 0) ∧ Locks d δ w w' := by
  have hadapter : w.store.oftType = .native → w.store.oftType ≠ .adapter := fun hn => by simp [hn]
  have hsame : Locks d 0 w w := .refl d w
  unfold resizeLot at h
  split at h
  · split_ifs at h
    · refine ⟨_, ?_, fun hn => if_neg (hadapter hn), growLot_locks h⟩
      split_ifs <;> omega
    · cases h
      exact ⟨0, by omega, fun _ => rfl, hsame⟩
  · split_ifs at h
    · simp only [bind_ok, checkedSub_ok] at h
      obtain ⟨_, ⟨hle, rfl⟩, h⟩ := h
      refine ⟨_, ?_, fun hn => if_neg (hadapter hn), growLot_locks h⟩
      split_ifs <;> omega
    · simp only [bind_ok] at h
      obtain ⟨_, -, h⟩ := h
      refine ⟨_, ?_, fun hn => if_neg (hadapter hn), shrinkLot_locks h⟩
      split_ifs <;> omega
    · cases h
      exact ⟨0, by omega, fun _ => rfl, hsame⟩

/-- a message unlocks no more than it carries -/
theorem receiveSale_locks {a : LzReceive} {message : List UInt8} (h : receiveSale d w a message = .ok w') :
    ∃ δ : ℤ, -grsCarried message ≤ δ ∧ (w.store.oftType = .native → δ = 0) ∧ Locks d δ w w' := by
  simp only [receiveSale, bind_ok] at h
  obtain ⟨-, -, m, hm, -, -, -, -, -, -, previous, -, h⟩ := h
  rw [grsCarried_sale hm]
  split_ifs at h
  · cases h
    exact ⟨0, by omega, fun _ => rfl, .of_deposits ⟨rfl, rfl⟩ .refl⟩
  · simp only [upsertSaleAccount, bind_ok, Except.ok.injEq] at h
    obtain ⟨_, ⟨-, -, -, -, -, -, rfl⟩, h⟩ := h
    obtain ⟨δ, hle, hnative, hl⟩ := resizeLot_locks h
    exact ⟨δ, hle, hnative, ⟨hl.frame, hl.tvl, hl.fits, hl.held⟩⟩

theorem ensureVestEscrow_locks {vestEscrow : Pubkey} (h : ensureVestEscrow d w vestEscrow = .ok w') :
    w'.store = w.store ∧ Locks d 0 w w' := by
  simp only [ensureVestEscrow, bind_ok] at h
  obtain ⟨-, -, h⟩ := h
  split at h
  · cases h
    exact ⟨rfl, .of_deposits ⟨rfl, rfl⟩ .refl⟩
  · simp only [bind_ok, Except.ok.injEq] at h
    obtain ⟨-, -, b₁, hb₁, rfl⟩ := h
    exact ⟨rfl, .of_deposits ⟨rfl, rfl⟩ (openAccount_deposits (spl_ok.1 hb₁) (Ne.symm d.addresses.2.2.1))⟩

/-- a grant on an adapter is unlocked into the vest escrow -/
theorem receiveGrant_locks {a : LzReceive} {message : List UInt8} (hsale : isSale message = false)
    (h : receiveGrant d w a message = .ok w') :
    ∃ δ : ℤ, -grsCarried message ≤ δ ∧ (w.store.oftType = .native → δ = 0) ∧ Locks d δ w w' := by
  simp only [receiveGrant, initGrantVesting, bind_ok, Except.ok.injEq] at h
  obtain ⟨-, -, m, hm, -, -, -, -, -, -, -, -, -, -, -, -, -, -, id, -, _, ⟨-, -, -, -, -, -, sched, -, -, -, rfl⟩, h⟩ := h
  rw [grsCarried_grant hsale hm]
  split_ifs at h
  · simp only [bind_ok] at h
    obtain ⟨w₁, h₁, h⟩ := h
    obtain ⟨hstore, hready⟩ := ensureVestEscrow_locks h₁
    have hcredit : Locks d _ w₁ w' := creditEscrow_locks h
    rw [hstore] at hcredit
    have hl := hready.trans hcredit
    rw [zero_add] at hl
    refine ⟨_, ?_, fun hn => if_neg (by simp [hn]), ⟨hl.frame, hl.tvl, hl.fits, hl.held⟩⟩
    split_ifs <;> omega
  · cases h
    exact ⟨0, by omega, fun _ => rfl, .of_deposits ⟨rfl, rfl⟩ .refl⟩

/-- a credit on an adapter is unlocked for its receiver -/
theorem receiveOft_locks {a : LzReceive} {srcEid : ℕ} {peer : PeerConfig} {message : List UInt8}
    (hsale : isSale message = false) (hgrant : isGrant message = false) (hrate : w.store.ld2sdRate = GRS_LD2SD_RATE)
    (h : receiveOft d w a srcEid peer message = .ok w') :
    ∃ δ : ℤ, -grsCarried message ≤ δ ∧ (w.store.oftType = .native → δ = 0) ∧ Locks d δ w w' := by
  simp only [receiveOft_eq, OFTStore.sd2ld, bind_ok, checkedMul_ok] at h
  obtain ⟨_, -, -, -, sd, hsd, _, ⟨-, rfl⟩, peer', -, h⟩ := h
  have hl := creditEscrow_locks h
  rw [grsCarried_credit hsale hgrant hsd]
  dsimp only at hl
  rw [hrate] at hl
  refine ⟨_, ?_, fun hn => if_neg (by simp [hn]), ⟨hl.frame, hl.tvl, hl.fits, hl.held⟩⟩
  split_ifs <;> omega

/-- a delivery unlocks no more than the message carries -/
theorem LzReceive.apply_locks {a : LzReceive} {params : LzReceiveParams} (h : a.apply d w params = .ok w')
    (hrate : w.store.ld2sdRate = GRS_LD2SD_RATE) :
    ∃ δ : ℤ, -grsCarried params.message ≤ δ ∧ (w.store.oftType = .native → δ = 0) ∧ Locks d δ w w' := by
  simp only [LzReceive.apply, bind_ok] at h
  obtain ⟨peer, -, -, -, b₁, hb₁, _, -, b₂, hb₂, -, -, -, -, h⟩ := h
  have hready : Deposits d w.store.tokenMint 0 w.bank b₂ := (initSale_deposits hb₁).before (initAta_deposits hb₂)
  split_ifs at h with hsale hgrant
  · obtain ⟨δ, hle, hnative, hl⟩ := receiveSale_locks h
    exact ⟨δ, hle, hnative, hl.before hready⟩
  · obtain ⟨δ, hle, hnative, hl⟩ := receiveGrant_locks (by simpa using hsale) h
    exact ⟨δ, hle, hnative, hl.before hready⟩
  · obtain ⟨δ, hle, hnative, hl⟩ := receiveOft_locks (by simpa using hsale) (by simpa using hgrant) (by exact hrate) h
    exact ⟨δ, hle, hnative, hl.before hready⟩

/-! ## Instructions -/

/-- what an instruction takes off sale to send it away -/
def World.published (w : World) : Instr → ℕ
  | .publishSale a => w.onSale a.id
  | _ => 0

/-- what a delivery brings -/
def Instr.brings : Instr → ℕ
  | .lzReceive _ params => grsCarried params.message
  | _ => 0

/-- what a message that is posted carries -/
def carried (posted : Option Outbound) : ℕ := posted.elim 0 fun o => grsCarried o.message

/-- an instruction of the admin or a pauser that changes settings -/
def Instr.configures : Instr → Bool
  | .setPeerConfig _ | .setOftConfig _ | .transferOwnership _ | .acceptOwnership _ | .setPause _ => true
  | _ => false

theorem OFTStore.set_tvl {s s' : OFTStore} {p : SetOFTConfigParams} (h : s.set p = .ok s') : s'.tvlLd = s.tvlLd := by
  cases p with
  | admin k =>
    simp only [OFTStore.set, proposeAdmin, bind_ok, Except.ok.injEq] at h
    obtain ⟨-, -, rfl⟩ := h
    rfl
  | defaultFee bps =>
    simp only [OFTStore.set, bind_ok, Except.ok.injEq] at h
    obtain ⟨-, -, rfl⟩ := h
    rfl
  | delegate _ | paused _ | pauser _ | unpauser _ =>
    cases h
    rfl

/-- an adapter locks what it sends, but for the lots it publishes, and unlocks no more than it is brought -/
structure Anchors (d : Deployment) (w : World) (i : Instr) (posted : Option Outbound) (δ : ℤ) (w' : World) : Prop where
  locks : Locks d δ w w'
  native : w.store.oftType = .native → δ = 0
  adapter : w.store.oftType = .adapter → (carried posted : ℤ) ≤ δ + w.published i + i.brings

inductive LockEffect (d : Deployment) (w : World) (i : Instr) (posted : Option Outbound) (w' : World) : Prop where
  | withdrawn (a : WithdrawFee) (hi : i = .withdrawFee a) (h : a.apply d w = .ok w')
  | configured (hi : i.configures = true) (hposted : posted = none) (hbank : w'.bank = w.bank)
    (htvl : w'.store.tvlLd = w.store.tvlLd)
  | locked (δ : ℤ) (h : Anchors d w i posted δ w')

theorem LockEffect.silent {i : Instr} (h : Locks d 0 w w') : LockEffect d w i none w' :=
  .locked 0 ⟨h, fun _ => rfl, fun _ => by simp [carried]; omega⟩

theorem Send.apply_effect {a : Send} {i : Instr} {o : Outbound} (h : a.apply d w = .ok (w', o)) (ha : a.signer ∉ d.derived)
    (hrate : w.store.ld2sdRate = GRS_LD2SD_RATE) : LockEffect d w i (some o) w' := by
  obtain ⟨r, hmsg, hl⟩ := Send.apply_locks h ha
  refine .locked _ ⟨hl, fun hn => if_neg (by simp [hn]), fun hadapter => ?_⟩
  have hcarried : grsCarried o.message ≤ r.amountReceivedLd := by
    rw [hmsg]
    refine (grsCarried_encode_le ..).trans ?_
    rw [OFTStore.ld2sd, hrate]
    exact Nat.div_mul_le_self _ _
  rw [if_pos hadapter]
  simp only [carried, Option.elim_some]
  omega

theorem PublishSale.apply_effect {a : PublishSale} {o : Outbound} (h : a.apply d w = .ok (w', o)) :
    LockEffect d w (.publishSale a) (some o) w' := by
  obtain ⟨row, hrow, -, -, hmsg, -⟩ := PublishSale.apply_ok h
  refine .locked 0 ⟨PublishSale.apply_locks h, fun _ => rfl, fun _ => ?_⟩
  have hcarried : grsCarried o.message ≤ row.grsAmount := hmsg ▸ grsCarried_encodeSale_le ..
  have hsold := onSale_some hrow
  simp only [carried, Option.elim_some, World.published]
  omega

theorem LzReceive.apply_effect {a : LzReceive} {params : LzReceiveParams} (h : a.apply d w params = .ok w')
    (hrate : w.store.ld2sdRate = GRS_LD2SD_RATE) : LockEffect d w (.lzReceive a params) none w' := by
  obtain ⟨δ, hle, hnative, hl⟩ := LzReceive.apply_locks h hrate
  refine .locked δ ⟨hl, hnative, fun _ => ?_⟩
  simp only [carried, Option.elim_none, Instr.brings]
  omega

theorem MintGenesis.apply_locks {a : MintGenesis} (h : a.apply d w = .ok w') : Locks d 0 w w' := by
  simp only [MintGenesis.apply, bind_ok, Except.ok.injEq] at h
  obtain ⟨-, -, -, -, -, -, -, -, t, -, _, -, -, -, -, -, -, -, b₁, hb₁, b₂, hb₂, rfl⟩ := h
  exact .of_deposits ⟨rfl, rfl⟩ ((mintTo_deposits (spl_ok.1 hb₁)).before (setMintAuthority_deposits (spl_ok.1 hb₂)))

theorem Vest.apply_locks {a : Vest} (h : a.apply d w = .ok w') (ha : a.funder ∉ d.derived) : Locks d 0 w w' := by
  simp only [Vest.apply, bind_ok, Except.ok.injEq] at h
  obtain ⟨-, -, b₁, hb₁, _, -, -, -, -, -, -, -, -, -, -, -, -, -, -, -, -, -, _, -, -, -, sched, -, b₂, hb₂, rfl⟩ := h
  have hfunded : Deposits d w.store.tokenMint 0 b₁ b₂ := transfer_deposits (spl_ok.1 hb₂) (not_derived ha).1
  exact .of_deposits ⟨rfl, rfl⟩ ((initVest_deposits hb₁).before hfunded)

theorem Release.apply_locks {a : Release} (h : a.apply d w = .ok w') : Locks d 0 w w' := by
  simp only [Release.apply, bind_ok, Except.ok.injEq] at h
  obtain ⟨v, -, -, -, _, -, -, -, b₁, hb₁, t, -, -, -, _, -, b₂, hb₂, rfl⟩ := h
  have hreleased : Deposits d w.store.tokenMint 0 b₁ b₂ := transfer_deposits (spl_ok.1 hb₂) d.addresses.2.2.2
  exact .of_deposits ⟨rfl, rfl⟩ ((initAta_deposits hb₁).before hreleased)

/-- a change of settings moves no token -/
theorem exec_configures {i : Instr} {posted : Option Outbound} (hi : i.configures = true) (h : exec d w i = .ok (w', posted)) :
    posted = none ∧ w'.bank = w.bank ∧ w'.store.tvlLd = w.store.tvlLd := by
  obtain ⟨-, h⟩ := exec_ok h
  cases i with
  | setPeerConfig a =>
    obtain ⟨ha, rfl⟩ := silent_ok h
    simp only [SetPeerConfig.apply, bind_ok, Prod.exists, Except.ok.injEq] at ha
    obtain ⟨-, -, _, _, -, rfl⟩ := ha
    exact ⟨rfl, rfl, rfl⟩
  | setOftConfig a =>
    obtain ⟨ha, rfl⟩ := silent_ok h
    simp only [SetOFTConfig.apply, bind_ok, Except.ok.injEq] at ha
    obtain ⟨-, -, s, hset, rfl⟩ := ha
    exact ⟨rfl, rfl, OFTStore.set_tvl hset⟩
  | transferOwnership a =>
    obtain ⟨ha, rfl⟩ := silent_ok h
    simp only [TransferOwnership.apply, proposeAdmin, bind_ok, Except.ok.injEq] at ha
    obtain ⟨-, -, _, ⟨-, -, rfl⟩, rfl⟩ := ha
    exact ⟨rfl, rfl, rfl⟩
  | acceptOwnership a =>
    obtain ⟨ha, rfl⟩ := silent_ok h
    simp only [AcceptOwnership.apply, bind_ok, Except.ok.injEq] at ha
    obtain ⟨-, -, -, -, rfl⟩ := ha
    exact ⟨rfl, rfl, rfl⟩
  | setPause a =>
    obtain ⟨ha, rfl⟩ := silent_ok h
    simp only [SetPause.apply, bind_ok, Except.ok.injEq] at ha
    obtain ⟨-, -, rfl⟩ := ha
    exact ⟨rfl, rfl, rfl⟩
  | _ => cases hi

/-- **What a step does to the lockbox.** -/
theorem exec_locks {i : Instr} {posted : Option Outbound} (h : exec d w i = .ok (w', posted))
    (hrate : w.store.ld2sdRate = GRS_LD2SD_RATE) : LockEffect d w i posted w' := by
  by_cases hi : i.configures = true
  · obtain ⟨hposted, hbank, htvl⟩ := exec_configures hi h
    exact .configured hi hposted hbank htvl
  obtain ⟨hs, h⟩ := exec_ok h
  cases i with
  | withdrawFee a => exact .withdrawn a rfl (silent_ok h).1
  | setSale a =>
    obtain ⟨ha, rfl⟩ := silent_ok h
    exact .silent (SetSale.apply_locks ha (hs _ rfl))
  | buy a =>
    obtain ⟨ha, rfl⟩ := silent_ok h
    exact .silent (Buy.apply_locks ha (hs _ rfl))
  | publishSale a =>
    obtain ⟨o, ha, rfl⟩ := posting_ok h
    exact PublishSale.apply_effect ha
  | send a =>
    obtain ⟨o, ha, rfl⟩ := posting_ok h
    exact Send.apply_effect ha (hs _ rfl) hrate
  | bridge a =>
    obtain ⟨o, ha, rfl⟩ := posting_ok h
    exact Send.apply_effect ha (hs _ rfl) hrate
  | lzReceive a params =>
    obtain ⟨ha, rfl⟩ := silent_ok h
    exact LzReceive.apply_effect ha hrate
  | mintGenesis a =>
    obtain ⟨ha, rfl⟩ := silent_ok h
    exact .silent (MintGenesis.apply_locks ha)
  | vest a =>
    obtain ⟨ha, rfl⟩ := silent_ok h
    exact .silent (Vest.apply_locks ha (hs _ rfl))
  | release a =>
    obtain ⟨ha, rfl⟩ := silent_ok h
    exact .silent (Release.apply_locks ha)
  | token signer op =>
    obtain ⟨ha, rfl⟩ := silent_ok h
    simp only [bind_ok, require_ok, Except.ok.injEq] at ha
    obtain ⟨-, hop, b₁, hb₁, rfl⟩ := ha
    exact .silent (.of_deposits ⟨rfl, rfl⟩ (token_deposits (spl_ok.1 hb₁) (hs _ rfl) hop))
  | fund k x =>
    obtain ⟨ha, rfl⟩ := silent_ok h
    cases ha
    exact .silent (.of_deposits ⟨rfl, rfl⟩ .refl)
  | tick n =>
    obtain ⟨ha, rfl⟩ := silent_ok h
    cases ha
    exact .silent (.of_deposits ⟨rfl, rfl⟩ .refl)
  | _ => exact absurd rfl hi

/-! ## Solvency -/

/-- what an adapter has locked lies in the token escrow, and a native store locks nothing -/
structure World.Solvent (d : Deployment) (w : World) : Prop where
  vaulted : w.Vaulted d
  rate : w.store.ld2sdRate = GRS_LD2SD_RATE
  native : w.store.oftType = .native → w.store.tvlLd = 0
  fits : w.store.tvlLd < 2 ^ 64
  covered : w.store.tvlLd ≤ w.bank.balance d.tokenEscrow

/-- the escrow gains what is locked at least, so it still covers it -/
theorem Locks.solvent (h : Locks d δ w w') (hs : SameStore w w') (hnative : w.store.oftType = .native → δ = 0)
    (hw : w.Solvent d) : w'.Solvent d := by
  obtain ⟨howned, hle⟩ := h.held hw.vaulted
  have htvl := h.tvl
  have hcovered := hw.covered
  refine ⟨?_, hs.rate.trans hw.rate, fun hn => ?_, h.fits hw.fits, by omega⟩
  · unfold World.Vaulted
    rwa [settings_mint h.frame]
  · rw [hs.oftType] at hn
    have hzero := hw.native hn
    have hδ := hnative hn
    omega

/-- only what lies there beyond what is locked is withdrawn -/
theorem WithdrawFee.apply_solvent {a : WithdrawFee} (h : a.apply d w = .ok w') (hw : w.Solvent d) : w'.Solvent d := by
  simp only [WithdrawFee.apply, bind_ok, require_ok, checkedSub_ok, Except.ok.injEq] at h
  obtain ⟨-, -, escrow, hescrow, _, -, _, ⟨hle, rfl⟩, -, hfee, b₁, hb₁, rfl⟩ := h
  have hbalance := Bank.balance_some (loadOwned_ok hescrow).1
  have hpaid : Deposits d w.store.tokenMint (-a.feeLd) w.bank b₁ := transfer_out_deposits (spl_ok.1 hb₁)
  obtain ⟨howned, hkept⟩ := hpaid hw.vaulted
  exact ⟨howned, hw.rate, hw.native, hw.fits, by dsimp only; omega⟩

/-- one step of the invariant, over the kinds of effect -/
theorem Solvent.step {i : Instr} (h : w.Solvent d) (hs : step d w i = .ok w') : w'.Solvent d := by
  obtain ⟨posted, he⟩ := step_ok.1 hs
  have hsame := exec_store he
  cases exec_locks he h.rate with
  | withdrawn a hi ha => exact WithdrawFee.apply_solvent ha h
  | configured hi hposted hbank htvl =>
    refine ⟨?_, hsame.rate.trans h.rate, ?_, ?_, ?_⟩
    · unfold World.Vaulted
      rw [hbank, hsame.tokenMint]
      exact h.vaulted
    · rw [hsame.oftType, htvl]
      exact h.native
    · rw [htvl]
      exact h.fits
    · rw [hbank, htvl]
      exact h.covered
  | locked δ ha => exact ha.locks.solvent hsame ha.native h

theorem Init.apply_solvent {a : Init} {lamports : Pubkey → ℕ} {now : ℤ} (h : a.apply d b lamports now = .ok w) : w.Solvent d := by
  have hvaulted : w.Vaulted d := Init.apply_vaulted h
  simp only [Init.apply, bind_ok, require_ok] at h
  obtain ⟨t, -, b₁, -, -, -, -, -, -, hrate, -, -, h⟩ := h
  split_ifs at h
  · simp only [bind_ok, Except.ok.injEq] at h
    obtain ⟨-, -, -, -, rfl⟩ := h
    exact ⟨hvaulted, hrate, fun _ => rfl, Nat.two_pow_pos 64, Nat.zero_le _⟩
  · simp only [bind_ok] at h
    obtain ⟨-, -, -, -, peers, -, h⟩ := h
    obtain ⟨b₂, rfl, -, -⟩ := handoffSpokeMint_ok h
    exact ⟨hvaulted, hrate, fun _ => rfl, Nat.two_pow_pos 64, Nat.zero_le _⟩

theorem Genesis.solvent (g : Genesis d) (is : List Instr) : (g.after is).Solvent d :=
  run_invariant (fun _ _ _ h hs => Solvent.step h hs) g.world is (Init.apply_solvent g.initialized)

/-! ## Nothing fails for lack of tokens -/

/-- every error but a lack of tokens in the token escrow -/
def Backed (d : Deployment) : Set OFTError := {e | e ≠ .token (.insufficientFunds d.tokenEscrow)}

@[simp] theorem mem_backed {e : OFTError} : e ∈ Backed d ↔ e ≠ .token (.insufficientFunds d.tokenEscrow) := Iff.rfl

theorem checks_backed : Checks ⊆ Backed d := by
  rintro e he rfl
  simp at he

theorem spl_backed {α : Type} {r : Except (TokenError Pubkey) α} (h : Throws (Bank.Funded d.tokenEscrow) r) :
    Throws (Backed d) (spl r) := throws_spl.2 (h.mono fun e he => by simpa using he)

/-- what is unlocked was locked, and what is locked lies in the escrow -/
theorem creditEscrow_backed {a : LzReceive} (h : w.store.tvlLd ≤ w.bank.balance d.tokenEscrow) :
    Throws (Backed d) (creditEscrow d w a dst x) := by
  unfold creditEscrow
  split
  · refine .bind (by simp) fun _ hsub => .bind (spl_backed (Bank.transfer_throws fun _ => ?_)) fun _ _ => by simp
    exact (checkedSub_ok.1 hsub).1.trans h
  · refine .bind (by simp) fun _ _ => .bind (by simp) fun _ _ => .bind (by simp) fun _ _ => ?_
    exact .bind (spl_backed (by simp [Bank.mintTo])) fun _ _ => by simp

/-- what a lot gives back comes from the sale escrow -/
theorem debitSaleEscrow_backed : Throws (Backed d) (debitSaleEscrow d w x) := by
  have hne : d.saleEscrow ≠ d.tokenEscrow := Ne.symm d.addresses.2.1
  unfold debitSaleEscrow
  split_ifs
  · simp
  · split
    · exact .bind (by simp) fun _ _ => .bind (spl_backed (Bank.transfer_throws fun hk => absurd hk hne)) fun _ _ => by simp
    · exact .bind (spl_backed (Bank.burn_throws fun hk => absurd hk hne)) fun _ _ => by simp

theorem resizeLot_backed {a : LzReceive} {previous : Option ℕ} (h : w.store.tvlLd ≤ w.bank.balance d.tokenEscrow) :
    Throws (Backed d) (resizeLot d w a previous x) :=
  resizeLot_throws (by simp) (fun _ _ => creditEscrow_backed h) fun _ _ _ _ => debitSaleEscrow_backed

theorem receiveSale_backed {a : LzReceive} {message : List UInt8} (h : w.store.tvlLd ≤ w.bank.balance d.tokenEscrow) :
    Throws (Backed d) (receiveSale d w a message) := by
  refine receiveSale_throws checks_backed fun m previous w' _ _ hbank hstore _ => resizeLot_backed ?_
  rwa [hbank, hstore]

theorem receiveGrant_backed {a : LzReceive} {message : List UInt8} (h : w.store.tvlLd ≤ w.bank.balance d.tokenEscrow) :
    Throws (Backed d) (receiveGrant d w a message) := by
  refine receiveGrant_throws checks_backed fun m w' _ hstore hbalance _ => creditEscrow_backed ?_
  rwa [hstore, hbalance]

theorem receiveOft_backed {a : LzReceive} {srcEid : ℕ} {peer : PeerConfig} {message : List UInt8}
    (h : w.store.tvlLd ≤ w.bank.balance d.tokenEscrow) : Throws (Backed d) (receiveOft d w a srcEid peer message) := by
  refine receiveOft_throws checks_backed fun sd x w' dst _ _ hbank hstore => creditEscrow_backed ?_
  rwa [hbank, hstore]

theorem LzReceive.apply_backed {a : LzReceive} {params : LzReceiveParams} (h : w.store.tvlLd ≤ w.bank.balance d.tokenEscrow) :
    Throws (Backed d) (a.apply d w params) := by
  refine apply_throws checks_backed fun b peer hb _ => ?_
  have hready : ({ w with bank := b } : World).store.tvlLd ≤ b.balance d.tokenEscrow := hb ▸ h
  split_ifs
  · exact receiveSale_backed hready
  · exact receiveGrant_backed hready
  · exact receiveOft_backed hready

/-- every error but an underflow, or a lack of tokens in the token escrow -/
def Withdrawable (d : Deployment) : Set OFTError := {e | e ≠ .panicked ∧ e ≠ .token (.insufficientFunds d.tokenEscrow)}

/-- the subtraction finds the escrow above what is locked, and the transfer takes at most the difference -/
theorem WithdrawFee.apply_withdrawable {a : WithdrawFee} (h : w.store.tvlLd ≤ w.bank.balance d.tokenEscrow) :
    Throws (Withdrawable d) (a.apply d w) := by
  unfold WithdrawFee.apply
  refine .bind (by simp [Withdrawable]) fun _ _ =>
    .bind (by simp [Withdrawable, loadOwned, loadToken, loadTokenAccount]) fun escrow hescrow => ?_
  have hbalance := Bank.balance_some (loadOwned_ok hescrow).1
  refine .bind (by simp [Withdrawable, loadToken, loadTokenAccount]) fun _ _ =>
    .bind (throws_checkedSub.2 (.inl (by omega))) fun free hfree => ?_
  obtain ⟨-, rfl⟩ := checkedSub_ok.1 hfree
  refine .bind (by simp [Withdrawable]) fun _ hfee => .bind ?_ fun _ _ => by simp
  have hheld : a.feeLd ≤ w.bank.balance d.tokenEscrow := (require_ok.1 hfee).trans (by omega)
  have hfunded : Throws (Bank.Funded d.tokenEscrow) (w.bank.transfer d.tokenEscrow a.tokenDest d.oftStore a.feeLd) :=
    Bank.transfer_throws fun _ => hheld
  intro e he
  cases hx : w.bank.transfer d.tokenEscrow a.tokenDest d.oftStore a.feeLd with
  | ok b =>
    rw [hx] at he
    cases he
  | error e' =>
    rw [hx] at he
    cases he
    have he' := hfunded e' hx
    simpa [Withdrawable] using he'

/-- **Solvency.** In every reachable state of a store whose token withholds nothing of a transfer, all that is locked lies in its
token escrow, whatever fees were withdrawn, and a native store locks nothing; so no delivery and no withdrawal finds the escrow
short, and no withdrawal underflows. The escrow may hold more: fees that were kept, and what anybody sent there. All of that, and
no more, can be withdrawn by the admin. -/
theorem lockbox_solvent (g : Genesis d) (is : List Instr) :
    (g.after is).store.tvlLd ≤ (g.after is).bank.balance d.tokenEscrow ∧
    ((g.after is).store.oftType = .native → (g.after is).store.tvlLd = 0) ∧
    (∀ a params, step d (g.after is) (.lzReceive a params) ≠ .error (.token (.insufficientFunds d.tokenEscrow))) ∧
    ∀ a, step d (g.after is) (.withdrawFee a) ≠ .error .panicked ∧
      step d (g.after is) (.withdrawFee a) ≠ .error (.token (.insufficientFunds d.tokenEscrow)) := by
  have h := g.solvent is
  refine ⟨h.covered, h.native, fun a params he => ?_, fun a => ?_⟩
  · have hthrows : Throws (Backed d) (step d (g.after is) (.lzReceive a params)) := by
      refine .bind (.bind (by simp [checkSigner, Instr.signer]) fun _ _ => ?_) fun _ _ => by simp
      exact .bind (LzReceive.apply_backed h.covered) fun _ _ => by simp
    exact hthrows _ he rfl
  · have hthrows : Throws (Withdrawable d) (step d (g.after is) (.withdrawFee a)) := by
      refine .bind (.bind (by simp [checkSigner, Instr.signer, Withdrawable]) fun _ _ => ?_) fun _ _ => by simp
      exact .bind (WithdrawFee.apply_withdrawable h.covered) fun _ _ => by simp
    exact ⟨fun he => (hthrows _ he).1 rfl, fun he => (hthrows _ he).2 rfl⟩

end Grindurus.Grs
