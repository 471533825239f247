/-
What stands at the addresses of a store.

- `World.Dense`: no award stands above the count. `World.Vaulted`: what stands at the token escrow is the store's, for its mint.
- `Genesis.dense`, `Genesis.vaulted`: so it is on every run.

An award is created at the next id of the counter, and by nothing else, so the addresses above it are free: the account that a
grant is given for its row cannot be taken. The token escrow is opened by `init` for the store, and the store signs for it in
`lz_receive` and `withdraw_fee` only, which move tokens but change no owner; so later instructions load what `init` left there.

One lemma for each instruction says that it guards what stands at the token escrow (`Guards`). A token program request of anybody
else is stopped by the owner check of the bank, and by `permitted` where it would create an account.
-/
import Grindurus.Grs.Awards

namespace Grindurus.Grs

open Checked Bytes TokenBank Machine Function

/-! ## Awards are dense -/

/-- no award stands above the count -/
def World.Dense (w : World) : Prop := ∀ id, w.config.vestingCount < id → w.vestings id = none

variable {d : Deployment} {w w' : World}

theorem Dense.same (h : w.Dense) (ha : SameAwards w w') : w'.Dense := by
  intro id hid
  rw [ha.count] at hid
  rw [ha.vestings]
  exact h id hid

/-- the next award is opened -/
theorem Dense.next {id : ℕ} {v : Vesting} (h : w.Dense) (hid : id = w.config.vestingCount + 1)
    (hw : w'.vestings = update w.vestings id (some v)) (hcount : w'.config.vestingCount = id) : w'.Dense := by
  intro k hk
  have hne : k ≠ id := by omega
  rw [hw, update_of_ne hne]
  exact h k (by omega)

/-- an instruction that writes an award writes the next one, and moves the count to it -/
theorem Dense.step {i : Instr} (h : w.Dense) (hs : step d w i = .ok w') : w'.Dense := by
  obtain ⟨posted, he⟩ := step_ok.1 hs
  by_cases hq : i.quiet = true
  · exact Dense.same h (exec_quiet he hq).2.awards
  obtain ⟨hsig, he⟩ := exec_ok he
  cases i with
  | setSale a =>
    obtain ⟨-, ⟨k, row, -, -, -, -, -, -, -, -, -, δ, ht, -⟩ | ⟨row, -, -, -, -, -, ht⟩⟩ :=
      SetSale.apply_ok (silent_ok he).1 (hsig _ rfl)
    · exact Dense.same h ht.awards
    · exact Dense.same h ht.awards
  | buy a =>
    obtain ⟨row, cost, -, -, -, -, -, -, -, ht⟩ := Buy.apply_ok (silent_ok he).1 (hsig _ rfl)
    exact Dense.same h ht.awards
  | publishSale a =>
    obtain ⟨o, he, -⟩ := posting_ok he
    obtain ⟨row, -, -, -, -, -, -, -, -, -, ht⟩ := PublishSale.apply_ok he
    exact Dense.same h ht.awards
  | send a =>
    obtain ⟨o, he, -⟩ := posting_ok he
    obtain ⟨r, -, -, -, hi⟩ := Send.apply_ok he (hsig _ rfl)
    exact Dense.same h hi.awards
  | bridge a =>
    obtain ⟨o, he, -⟩ := posting_ok he
    obtain ⟨r, -, -, -, hi⟩ := Send.apply_ok he (hsig _ rfl)
    exact Dense.same h hi.awards
  | lzReceive a params =>
    rcases LzReceive.apply_ok (silent_ok he).1 with ⟨b, -, -, he⟩ | ⟨b, -, -, -, he⟩ | ⟨b, peer, -, -, -, he⟩
    · obtain ⟨m, -, -, -, ⟨_, -, -, -, rfl⟩ | ⟨-, hr⟩⟩ := receiveSale_ok he
      · exact h
      · exact Dense.same h ⟨hr.trades.awards.vestings, hr.trades.awards.count⟩
    · obtain ⟨m, id, sched, -, -, hid, -, -, hv, hcount, -⟩ := receiveGrant_ok he
      exact Dense.next h hid hv hcount
    · obtain ⟨sd, -, hi⟩ := receiveOft_ok he
      exact Dense.same h ⟨hi.awards.vestings, hi.awards.count⟩
  | vest a =>
    obtain ⟨sched, -, hid, -, -, hv, hcount, -⟩ := Vest.apply_ok (silent_ok he).1 (hsig _ rfl)
    exact Dense.next h hid hv hcount
  | release a =>
    obtain ⟨v, hrow, -, -, -, -, hv, hconfig, -⟩ := Release.apply_ok (silent_ok he).1
    intro k hk
    rw [hconfig] at hk
    have hne : k ≠ a.id := by
      rintro rfl
      simp [h _ hk] at hrow
    rw [hv, update_of_ne hne]
    exact h k hk
  | _ => exact absurd rfl hq

theorem Genesis.dense (g : Genesis d) (is : List Instr) : (g.after is).Dense :=
  run_invariant (fun _ _ _ h hs => Dense.step h hs) g.world is fun id _ => g.blank.vestings id

/-! ## The token escrow is the store's -/

/-- the account of the store, and the mint it is for -/
def Deployment.vault (d : Deployment) (mint k : Pubkey) : Option Pubkey := if k = d.tokenEscrow then some mint else none

/-- what stands at the token escrow is an account of the store for its mint -/
def World.Vaulted (d : Deployment) (w : World) : Prop := Bank.Owned d.oftStore (d.vault w.store.tokenMint) w.bank

/-- from `b` to `b'` it stays so -/
def Guards (d : Deployment) (mint : Pubkey) (b b' : Bank Pubkey) : Prop :=
  Bank.Owned d.oftStore (d.vault mint) b → Bank.Owned d.oftStore (d.vault mint) b'

variable {b b' : Bank Pubkey} {mint k src dst auth owner : Pubkey} {x : ℕ}

theorem Guards.refl : Guards d mint b b := fun ho => ho

theorem transfer_guards (h : b.transfer src dst auth x = .ok b') : Guards d mint b b' := fun ho => ho.shape (Bank.transfer_shape h)

theorem mintTo_guards (h : b.mintTo k dst auth x = .ok b') : Guards d mint b b' := fun ho => ho.shape (Bank.mintTo_shape h)

theorem burn_guards (h : b.burn k src auth x = .ok b') : Guards d mint b b' := fun ho => ho.shape (Bank.burn_shape h)

theorem vault_none (h : k ≠ d.tokenEscrow) : d.vault mint k = none := if_neg h

theorem openAccount_guards {m : Pubkey} (h : b.openAccount k m owner = .ok b') (hk : k ≠ d.tokenEscrow) : Guards d mint b b' := by
  have hflow : Bank.Flows d.oftStore (d.vault mint) d.oftStore mint 0 0 b b' :=
    Bank.openAccount_flows h fun i hi => by simp [vault_none hk] at hi
  exact hflow.owned

theorem initTokenAccount_guards {m : Pubkey} (h : initTokenAccount b k m owner = .ok b') (hk : k ≠ d.tokenEscrow) :
    Guards d mint b b' := by
  rcases initTokenAccount_ok h with ⟨rfl, -⟩ | h
  · exact .refl
  · exact openAccount_guards h hk

theorem initAta_guards {m : Pubkey} (h : initAta d b owner m = .ok b') : Guards d mint b b' :=
  initTokenAccount_guards h (not_derived (ata_not_derived d owner m)).2.2.1

theorem initSale_guards {m : Pubkey} (h : initTokenAccount b d.saleEscrow m owner = .ok b') : Guards d mint b b' :=
  initTokenAccount_guards h (Ne.symm d.addresses.2.1)

theorem initVest_guards {m : Pubkey} (h : initTokenAccount b d.vestEscrow m owner = .ok b') : Guards d mint b b' :=
  initTokenAccount_guards h (Ne.symm d.addresses.2.2.1)

theorem setMintAuthority_guards {m : Pubkey} {auth' : Option Pubkey} (h : b.setMintAuthority m auth auth' = .ok b') :
    Guards d mint b b' := by
  simp only [Bank.setMintAuthority, bind_ok, Except.ok.injEq] at h
  obtain ⟨_, -, -, -, rfl⟩ := h
  exact .refl

theorem token_guards {signer : Pubkey} {op : Bank.Op Pubkey} (h : b.apply signer op = .ok b') (hs : signer ∉ d.derived)
    (hop : permitted d op = true) : Guards d mint b b' := by
  refine fun ho => ho.respects (Bank.apply_respects h (not_derived hs).1 fun k hk ⟨m, hm⟩ => ?_)
  have hfresh : k ∉ d.derived := by simpa [permitted, hk] using hop
  rw [vault_none (not_derived hfresh).2.2.1] at hm
  cases hm

theorem SetSale.topUp_guards {a : SetSale} {source : TokenAccount Pubkey} (h : a.topUp d w source = .ok b) :
    Guards d mint w.bank b := by
  unfold SetSale.topUp at h
  dsimp only at h
  split_ifs at h
  · simp only [bind_ok] at h
    obtain ⟨_, -, -, -, hb⟩ := h
    exact transfer_guards (spl_ok.1 hb)
  · cases h
    exact .refl

theorem SetSale.append_guards {a : SetSale} {source : TokenAccount Pubkey} {id : ℕ} (h : a.append d w source id = .ok w') :
    Guards d mint w.bank w'.bank := by
  simp only [SetSale.append, bind_ok, Except.ok.injEq] at h
  obtain ⟨-, -, -, -, -, -, -, -, -, -, -, -, -, -, w₁, hw₁, rfl⟩ := h
  unfold SetSale.earmark at hw₁
  split_ifs at hw₁
  · simp only [bind_ok, Except.ok.injEq] at hw₁
    obtain ⟨b₂, hb₂, _, -, rfl⟩ := hw₁
    exact SetSale.topUp_guards hb₂
  · cases hw₁
    exact .refl

theorem SetSale.apply_guards {a : SetSale} (h : a.apply d w = .ok w') : Guards d mint w.bank w'.bank := by
  simp only [SetSale.apply, bind_ok] at h
  obtain ⟨-, -, b₁, hb₁, source, -, -, -, _, -, h⟩ := h
  refine fun ho => ?_
  have ho₁ := initSale_guards hb₁ ho
  split_ifs at h
  · exact SetSale.append_guards h ho₁
  · simp only [SetSale.close, bind_ok, Except.ok.injEq] at h
    obtain ⟨-, -, row, -, -, -, _, -, rfl⟩ := h
    exact ho₁

theorem Buy.pay_guards {a : Buy} {asset payee : Pubkey} {cost : ℕ} (h : a.pay w asset payee cost = .ok w') :
    Guards d mint w.bank w'.bank := by
  unfold Buy.pay at h
  split_ifs at h
  · simp only [bind_ok, Except.ok.injEq] at h
    obtain ⟨-, -, -, -, rfl⟩ := h
    exact .refl
  · simp only [bind_ok, Except.ok.injEq] at h
    obtain ⟨_, -, source, -, dest, -, -, -, -, -, _, -, -, -, _, -, -, -, -, -, -, -, b₃, hb₃, rfl⟩ := h
    exact transfer_guards (spl_ok.1 hb₃)

theorem Buy.apply_guards {a : Buy} (h : a.apply d w = .ok w') : Guards d mint w.bank w'.bank := by
  simp only [Buy.apply, bind_ok] at h
  obtain ⟨row, -, -, -, _, -, b₁, hb₁, _, -, _, -, _, -, -, -, cost, -, -, -, _, -, _, -, _, -, _, -, b₂, hb₂, hpay⟩ := h
  exact fun ho => Buy.pay_guards hpay (transfer_guards (spl_ok.1 hb₂) (initAta_guards hb₁ ho))

theorem PublishSale.apply_guards {a : PublishSale} {o : Outbound} (h : a.apply d w = .ok (w', o)) :
    Guards d mint w.bank w'.bank := by
  simp only [PublishSale.apply, bind_ok, Except.ok.injEq, Prod.mk.injEq] at h
  obtain ⟨peer, -, -, -, row, -, _, -, -, -, -, -, -, -, -, -, w₁, hw, rfl, -⟩ := h
  split_ifs at hw
  · cases hw
    exact .refl
  · simp only [PublishSale.withdraw, bind_ok, Except.ok.injEq] at hw
    obtain ⟨-, -, -, -, _, -, _, -, b₁, hb₁, rfl⟩ := hw
    exact burn_guards (spl_ok.1 hb₁)

/-- a transfer moves tokens, and opens nothing at the token escrow -/
theorem Send.apply_guards {a : Send} {o : Outbound} (h : a.apply d w = .ok (w', o)) : Guards d mint w.bank w'.bank := by
  simp only [Send.apply, bind_ok, Except.ok.injEq, Prod.mk.injEq] at h
  obtain ⟨peer, -, _, -, _, -, -, -, r, -, -, -, peer', -, w₁, hd, -, -, -, -, -, -, rfl, -⟩ := h
  unfold Send.debit at hd
  split at hd
  · simp only [bind_ok, Except.ok.injEq] at hd
    obtain ⟨_, -, b₁, hb₁, rfl⟩ := hd
    exact transfer_guards (spl_ok.1 hb₁)
  · simp only [bind_ok, Except.ok.injEq] at hd
    obtain ⟨_, -, b₁, hb₁, b₂, hb₂, rfl⟩ := hd
    refine fun ho => ?_
    have ho₁ := burn_guards (spl_ok.1 hb₁) ho
    split_ifs at hb₂
    · exact transfer_guards (spl_ok.1 hb₂) ho₁
    · cases hb₂
      exact ho₁

theorem creditEscrow_guards {a : LzReceive} (h : creditEscrow d w a k x = .ok w') : Guards d mint w.bank w'.bank := by
  unfold creditEscrow at h
  split at h
  · simp only [bind_ok, Except.ok.injEq] at h
    obtain ⟨_, -, b₁, hb₁, rfl⟩ := h
    exact transfer_guards (spl_ok.1 hb₁)
  · simp only [bind_ok, Except.ok.injEq] at h
    obtain ⟨_, -, _, -, -, -, b₁, hb₁, rfl⟩ := h
    exact mintTo_guards (spl_ok.1 hb₁)

theorem growLot_guards {a : LzReceive} (h : growLot d w a x = .ok w') : Guards d mint w.bank w'.bank := by
  simp only [growLot, bind_ok, Except.ok.injEq] at h
  obtain ⟨w₁, h₁, _, -, rfl⟩ := h
  have hcredit : Guards d mint w.bank w₁.bank := creditEscrow_guards h₁
  exact hcredit

/-- an adapter locks again what it takes back -/
theorem shrinkLot_guards (h : shrinkLot d w x = .ok w') : Guards d mint w.bank w'.bank := by
  simp only [shrinkLot, bind_ok] at h
  obtain ⟨_, -, h⟩ := h
  unfold debitSaleEscrow at h
  split_ifs at h
  · cases h
    exact .refl
  · split at h
    · simp only [bind_ok, Except.ok.injEq] at h
      obtain ⟨_, -, b₁, hb₁, rfl⟩ := h
      exact transfer_guards (spl_ok.1 hb₁)
    · simp only [bind_ok, Except.ok.injEq] at h
      obtain ⟨b₁, hb₁, rfl⟩ := h
      exact burn_guards (spl_ok.1 hb₁)

/-- the tokens of a lot move between the two escrows, and none of them changes hands -/
theorem resizeLot_guards {a : LzReceive} {previous : Option ℕ} (h : resizeLot d w a previous x = .ok w') :
    Guards d mint w.bank w'.bank := by
  unfold resizeLot at h
  split at h
  · split_ifs at h
    · exact growLot_guards h
    · cases h
      exact .refl
  · split_ifs at h
    · simp only [bind_ok] at h
      obtain ⟨_, -, h⟩ := h
      exact growLot_guards h
    · simp only [bind_ok] at h
      obtain ⟨_, -, h⟩ := h
      exact shrinkLot_guards h
    · cases h
      exact .refl

theorem receiveSale_guards {a : LzReceive} {message : List UInt8} (h : receiveSale d w a message = .ok w') :
    Guards d mint w.bank w'.bank := by
  simp only [receiveSale, bind_ok] at h
  obtain ⟨-, -, m, -, -, -, -, -, -, -, previous, -, h⟩ := h
  split_ifs at h
  · cases h
    exact .refl
  · simp only [upsertSaleAccount, bind_ok, Except.ok.injEq] at h
    obtain ⟨_, ⟨-, -, -, -, -, -, rfl⟩, h⟩ := h
    have hresize : Guards d mint _ w'.bank := resizeLot_guards h
    exact hresize

/-- the vest escrow may be opened on the way, at another address -/
theorem receiveGrant_guards {a : LzReceive} {message : List UInt8} (h : receiveGrant d w a message = .ok w') :
    Guards d mint w.bank w'.bank := by
  simp only [receiveGrant, initGrantVesting, bind_ok, Except.ok.injEq] at h
  obtain ⟨-, -, m, -, -, -, -, -, -, -, -, -, -, -, -, -, -, -, id, -, _, ⟨-, -, -, -, -, -, sched, -, -, -, rfl⟩, h⟩ := h
  split_ifs at h
  · simp only [ensureVestEscrow, bind_ok] at h
    obtain ⟨w₁, ⟨-, -, h₁⟩, h⟩ := h
    refine fun ho => creditEscrow_guards h ?_
    split at h₁
    · cases h₁
      exact ho
    · simp only [bind_ok, Except.ok.injEq] at h₁
      obtain ⟨-, -, b₁, hb₁, rfl⟩ := h₁
      exact openAccount_guards (spl_ok.1 hb₁) (Ne.symm d.addresses.2.2.1) ho
  · cases h
    exact .refl

theorem LzReceive.apply_guards {a : LzReceive} {params : LzReceiveParams} (h : a.apply d w params = .ok w') :
    Guards d mint w.bank w'.bank := by
  simp only [LzReceive.apply, bind_ok] at h
  obtain ⟨peer, -, -, -, b₁, hb₁, _, -, b₂, hb₂, -, -, -, -, h⟩ := h
  refine fun ho => ?_
  have ho₂ := initAta_guards hb₂ (initSale_guards hb₁ ho)
  split_ifs at h
  · exact receiveSale_guards h ho₂
  · exact receiveGrant_guards h ho₂
  · simp only [receiveOft_eq, bind_ok] at h
    obtain ⟨_, -, -, -, sd, -, _, -, peer', -, h⟩ := h
    exact creditEscrow_guards h ho₂

theorem MintGenesis.apply_guards {a : MintGenesis} (h : a.apply d w = .ok w') : Guards d mint w.bank w'.bank := by
  simp only [MintGenesis.apply, bind_ok, Except.ok.injEq] at h
  obtain ⟨-, -, -, -, -, -, -, -, t, -, _, -, -, -, -, -, -, -, b₁, hb₁, b₂, hb₂, rfl⟩ := h
  exact fun ho => setMintAuthority_guards (spl_ok.1 hb₂) (mintTo_guards (spl_ok.1 hb₁) ho)

theorem Vest.apply_guards {a : Vest} (h : a.apply d w = .ok w') : Guards d mint w.bank w'.bank := by
  simp only [Vest.apply, bind_ok, Except.ok.injEq] at h
  obtain ⟨-, -, b₁, hb₁, _, -, -, -, -, -, -, -, -, -, -, -, -, -, -, -, -, -, _, -, -, -, sched, -, b₂, hb₂, rfl⟩ := h
  exact fun ho => transfer_guards (spl_ok.1 hb₂) (initVest_guards hb₁ ho)

theorem Release.apply_guards {a : Release} (h : a.apply d w = .ok w') : Guards d mint w.bank w'.bank := by
  simp only [Release.apply, bind_ok, Except.ok.injEq] at h
  obtain ⟨v, -, -, -, _, -, -, -, b₁, hb₁, t, -, -, -, _, -, b₂, hb₂, rfl⟩ := h
  exact fun ho => transfer_guards (spl_ok.1 hb₂) (initAta_guards hb₁ ho)

theorem WithdrawFee.apply_guards {a : WithdrawFee} (h : a.apply d w = .ok w') : Guards d mint w.bank w'.bank := by
  simp only [WithdrawFee.apply, bind_ok, Except.ok.injEq] at h
  obtain ⟨-, -, _, -, _, -, _, -, -, -, b₁, hb₁, rfl⟩ := h
  exact transfer_guards (spl_ok.1 hb₁)

/-- no instruction takes the token escrow from the store -/
theorem exec_guards {i : Instr} {posted : Option Outbound} (h : exec d w i = .ok (w', posted)) : Guards d mint w.bank w'.bank := by
  obtain ⟨hs, h⟩ := exec_ok h
  cases i with
  | setSale a => exact SetSale.apply_guards (silent_ok h).1
  | buy a => exact Buy.apply_guards (silent_ok h).1
  | publishSale a =>
    obtain ⟨o, h, -⟩ := posting_ok h
    exact PublishSale.apply_guards h
  | send a =>
    obtain ⟨o, h, -⟩ := posting_ok h
    exact Send.apply_guards h
  | bridge a =>
    obtain ⟨o, h, -⟩ := posting_ok h
    exact Send.apply_guards h
  | lzReceive a params => exact LzReceive.apply_guards (silent_ok h).1
  | mintGenesis a => exact MintGenesis.apply_guards (silent_ok h).1
  | vest a => exact Vest.apply_guards (silent_ok h).1
  | release a => exact Release.apply_guards (silent_ok h).1
  | withdrawFee a => exact WithdrawFee.apply_guards (silent_ok h).1
  | token signer op =>
    have h := (silent_ok h).1
    simp only [bind_ok, require_ok, Except.ok.injEq] at h
    obtain ⟨-, hop, b₁, hb₁, rfl⟩ := h
    exact token_guards (spl_ok.1 hb₁) (hs _ rfl) hop
  | setPeerConfig a =>
    have h := (silent_ok h).1
    simp only [SetPeerConfig.apply, bind_ok, Prod.exists, Except.ok.injEq] at h
    obtain ⟨-, -, _, _, -, rfl⟩ := h
    exact .refl
  | setOftConfig a =>
    have h := (silent_ok h).1
    simp only [SetOFTConfig.apply, bind_ok, Except.ok.injEq] at h
    obtain ⟨-, -, _, -, rfl⟩ := h
    exact .refl
  | transferOwnership a =>
    have h := (silent_ok h).1
    simp only [TransferOwnership.apply, bind_ok, Except.ok.injEq] at h
    obtain ⟨-, -, _, -, rfl⟩ := h
    exact .refl
  | acceptOwnership a =>
    have h := (silent_ok h).1
    simp only [AcceptOwnership.apply, bind_ok, Except.ok.injEq] at h
    obtain ⟨-, -, -, -, rfl⟩ := h
    exact .refl
  | setPause a =>
    have h := (silent_ok h).1
    simp only [SetPause.apply, bind_ok, Except.ok.injEq] at h
    obtain ⟨-, -, rfl⟩ := h
    exact .refl
  | fund k x =>
    cases (silent_ok h).1
    exact .refl
  | tick n =>
    cases (silent_ok h).1
    exact .refl

theorem Vaulted.step {i : Instr} (h : w.Vaulted d) (hs : step d w i = .ok w') : w'.Vaulted d := by
  obtain ⟨posted, he⟩ := step_ok.1 hs
  unfold World.Vaulted
  rw [(exec_store he).tokenMint]
  exact exec_guards he h

/-- the token escrow is opened for the store, and for its mint -/
theorem Init.apply_vaulted {a : Init} {lamports : Pubkey → ℕ} {now : ℤ} (h : a.apply d b lamports now = .ok w) : w.Vaulted d := by
  have hopened : Bank.Owned d.oftStore (d.vault a.tokenMint) (b.put d.tokenEscrow ⟨a.tokenMint, d.oftStore, 0⟩) := by
    intro k m hk t ht
    have hvault : k = d.tokenEscrow := by
      by_contra hne
      simp [vault_none hne] at hk
    subst hvault
    rw [Deployment.vault, if_pos rfl] at hk
    cases hk
    rw [Bank.put_accounts, update_self] at ht
    cases ht
    exact ⟨rfl, rfl⟩
  simp only [Init.apply, bind_ok] at h
  obtain ⟨t, -, b₁, hb₁, -, -, -, -, -, -, -, -, h⟩ := h
  obtain ⟨-, -, -, rfl⟩ := Bank.openAccount_ok (spl_ok.1 hb₁)
  split_ifs at h
  · simp only [bind_ok, Except.ok.injEq] at h
    obtain ⟨-, -, -, -, rfl⟩ := h
    exact hopened
  · simp only [bind_ok] at h
    obtain ⟨-, -, -, -, peers, -, h⟩ := h
    obtain ⟨b₂, rfl, hacc, -⟩ := handoffSpokeMint_ok h
    intro k m hk t ht
    exact hopened k m hk t (hacc ▸ ht)

theorem Genesis.vaulted (g : Genesis d) (is : List Instr) : (g.after is).Vaulted d :=
  run_invariant (fun _ _ _ h hs => Vaulted.step h hs) g.world is (Init.apply_vaulted g.initialized)

end Grindurus.Grs
