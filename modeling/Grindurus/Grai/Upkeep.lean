/-
What every instruction keeps up of the accounts it works with.

- `World.Sound`: a listing names its mint and its vault stands, and the escrow of a stake carries its bump.
- `Upkeep T w w'`: between `w` and `w'` tokens circulate, and what is listed or staked anew is sound. `step_upkeep`: it holds of
  every instruction.
- `after_sound`, `after_backed`: after every run the accounts are sound, and the shares in all accounts are at most their
  supply.

These are the facts that a success theorem needs and a safety theorem does not: an instruction can only go through if the accounts
it loads are there, and are what they are taken for. They are proved like the invariants of `World.WF`, one lemma for each
instruction, but separately, because `T` names accounts that a delisting closes: the treasuries of `T` stand as long as no
instruction delists them.
-/
import Grindurus.Lib.Circulation
import Grindurus.Grai.Lineage

namespace Grindurus.Grai

open Checked TokenBank Machine Function

/-! ## Tokens -/

/-- the vaults of the program, and the treasuries of the mints `T` -/
def Staying (T : Key → Prop) (k : Key) : Prop := (∃ m, k = .vault m) ∨ ∃ m, T m ∧ k = .treasury m

/-- tokens circulate, and the vaults of the program and the treasuries of `T` stay -/
def Circulates (T : Key → Prop) (b b' : Bank Key) : Prop := Bank.Circulates .protocol (Staying T) .nativeMint b b'

variable {T : Key → Prop} {w w' w₀ w₁ w₂ : World} {b b' b₁ b₂ : Bank Key} {src dst k m u : Key} {x : ℕ} {e e' : Escrow}

theorem Circulates.refl (b : Bank Key) : Circulates T b b := Bank.Circulates.refl b

theorem Circulates.trans (h : Circulates T b b₁) (h' : Circulates T b₁ b₂) : Circulates T b b₂ := Bank.Circulates.trans h h'

theorem circulates_of (h : Bank.Moved .protocol (Staying T) .nativeMint b b') : Circulates T b b' := h.circulates

theorem transferFromVault_circulates (h : transferFromVault b src dst x = .ok b') : Circulates T b b' := by
  unfold transferFromVault at h
  split_ifs at h
  · cases h
    exact .refl b
  · exact circulates_of (.transfer (spl_ok.1 h))

theorem transferFromSigner_circulates {s : Signer} (h : transferFromSigner b src dst s x = .ok b') : Circulates T b b' := by
  unfold transferFromSigner at h
  split_ifs at h
  · cases h
    exact .refl b
  · exact circulates_of (.transfer (spl_ok.1 h))

theorem initTokenAccount_circulates {mint owner : Key} (h : initTokenAccount b k mint owner = .ok b') : Circulates T b b' := by
  rcases initTokenAccount_ok h with ⟨rfl, -⟩ | h
  · exact .refl b'
  · exact circulates_of (.openAccount h)

theorem initAta_circulates {owner mint : Key} (h : initAta b owner mint = .ok b') : Circulates T b b' :=
  initTokenAccount_circulates h

theorem initVault_circulates {mint : Key} (h : initVault b mint = .ok b') : Circulates T b b' := initTokenAccount_circulates h

theorem fundCuts_circulates {asset asset' : AssetConfig} {pool : ℕ} (h : fundCuts w asset m pool = .ok (asset', b)) :
    Circulates T w.bank b ∧ asset'.assetMint = asset.assetMint := by
  simp only [fundCuts, bind_ok, Prod.exists, Except.ok.injEq, Prod.mk.injEq] at h
  obtain ⟨_, _, -, asset₁, _, haccrue, _, -, b₁, hb, rfl, rfl⟩ := h
  obtain ⟨_, _, -, -, -, -, rfl⟩ := accrueCut_ok haccrue
  exact ⟨transferFromVault_circulates hb, rfl⟩

/-! ## Upkeep -/

/-- a listing names its mint and its vault stands; the escrow of a stake carries its bump -/
structure World.Sound (w : World) : Prop where
  listing : ∀ m a, w.assets m = some a → a.assetMint = m ∧ Bank.Stands .protocol m w.bank (.vault m)
  escrow : ∀ u e, w.escrows u = some e → 0 < e.amount → e.bump = ESCROW_BUMP

/-- the escrow `e` of `u` carries its bump if it holds a stake: the canonical one, or the one of the stake it had in `w` -/
def Bumped (w : World) (u : Key) (e : Escrow) : Prop :=
  0 < e.amount → e.bump = ESCROW_BUMP ∨ ∃ e₀, w.escrows u = some e₀ ∧ 0 < e₀.amount ∧ e.bump = e₀.bump

structure Upkeep (T : Key → Prop) (w w' : World) : Prop where
  grai : w'.state.graiMint = w.state.graiMint
  bank : Circulates T w.bank w'.bank
  listing : ∀ m a', w'.assets m = some a' → (∃ a, w.assets m = some a ∧ a'.assetMint = a.assetMint) ∨
    (a'.assetMint = m ∧ Bank.Stands .protocol m w'.bank (.vault m) ∧ (T m → Bank.Stands .protocol m w'.bank (.treasury m)))
  escrow : ∀ u e', w'.escrows u = some e' → Bumped w u e'

theorem bumped_of_some (he : w.escrows u = some e) : Bumped w u e := fun hpos => .inr ⟨e, he, hpos, rfl⟩

theorem initEscrow_bumped (w : World) (u : Key) : Bumped w u (initEscrow w u) := by
  intro hpos
  unfold initEscrow at hpos ⊢
  cases he : w.escrows u with
  | none => simp [he, Escrow.empty] at hpos
  | some e =>
    rw [he] at hpos
    exact .inr ⟨e, rfl, hpos, rfl⟩

/-- shrinking a stake keeps its bump -/
theorem Bumped.shrink (h : Bumped w u e) (ha : e'.amount ≤ e.amount) (hb : e'.bump = e.bump) : Bumped w u e' := by
  intro hpos
  rw [hb]
  exact h (by omega)

theorem Upkeep.of_bank (hb : Circulates T w.bank w'.bank) (hm : w'.state.graiMint = w.state.graiMint)
    (ha : w'.assets = w.assets) (he : w'.escrows = w.escrows) : Upkeep T w w' := by
  refine ⟨hm, hb, fun m a' h => .inl ⟨a', ha ▸ h, rfl⟩, fun u e' h => ?_⟩
  rw [he] at h
  exact bumped_of_some h

theorem Upkeep.refl (w : World) : Upkeep T w w := .of_bank (.refl _) rfl rfl rfl

theorem Upkeep.trans (h : Upkeep T w w₁) (h' : Upkeep T w₁ w₂) : Upkeep T w w₂ := by
  refine ⟨h'.grai.trans h.grai, h.bank.trans h'.bank, fun m a₂ h₂ => ?_, fun u e₂ h₂ hpos => ?_⟩
  · rcases h'.listing m a₂ h₂ with ⟨a₁, h₁, hmint⟩ | hnew
    · rcases h.listing m a₁ h₁ with ⟨a, ha, hmint'⟩ | ⟨hmint', hstands, htreasury⟩
      · exact .inl ⟨a, ha, hmint.trans hmint'⟩
      · exact .inr ⟨hmint.trans hmint', Bank.Circulates.stands h'.bank (.inl ⟨m, rfl⟩) hstands,
          fun hm => Bank.Circulates.stands h'.bank (.inr ⟨m, hm, rfl⟩) (htreasury hm)⟩
    · exact .inr hnew
  · rcases h'.escrow u e₂ h₂ hpos with hbump | ⟨e₁, h₁, hpos₁, hbump⟩
    · exact .inl hbump
    · rw [hbump]
      exact h.escrow u e₁ h₁ hpos₁

theorem Upkeep.storeEscrow (h : Upkeep T w w') (he : Bumped w u e) : Upkeep T w (w'.storeEscrow u e) := by
  refine ⟨h.grai, h.bank, h.listing, fun v e' hv => ?_⟩
  rcases eq_or_ne v u with rfl | hne
  · simp only [World.storeEscrow, update_self, Option.some.injEq] at hv
    subst hv
    exact he
  · simp only [World.storeEscrow, update_of_ne hne] at hv
    exact h.escrow v e' hv

theorem Upkeep.storeAsset {asset asset' : AssetConfig} (h : Upkeep T w w') (ha : w.assets m = some asset)
    (hmint : asset'.assetMint = asset.assetMint) : Upkeep T w (w'.storeAsset m asset') := by
  refine ⟨h.grai, h.bank, fun n a' hn => ?_, h.escrow⟩
  rcases eq_or_ne n m with rfl | hne
  · simp only [World.storeAsset, update_self, Option.some.injEq] at hn
    subst hn
    exact .inl ⟨asset, ha, hmint⟩
  · simp only [World.storeAsset, update_of_ne hne] at hn
    exact h.listing n a' hn

theorem Upkeep.storePosition (h : Upkeep T w w') (u m : Key) (position : Position) : Upkeep T w (w'.storePosition u m position) :=
  ⟨h.grai, h.bank, h.listing, h.escrow⟩

theorem Upkeep.quiet (hq : Quiet w w') (hb : Circulates T w.bank w'.bank) : Upkeep T w w' := .of_bank hb hq.graiMint hq.assets hq.escrows

/-- upkeep is soundness kept -/
theorem Upkeep.sound (h : Upkeep T w w') (hs : w.Sound) : w'.Sound := by
  refine ⟨fun m a' ha' => ?_, fun u e' he' hpos => ?_⟩
  · rcases h.listing m a' ha' with ⟨a, ha, hmint⟩ | hnew
    · obtain ⟨hm, hstands⟩ := hs.listing m a ha
      exact ⟨hmint.trans hm, Bank.Circulates.stands h.bank (.inl ⟨m, rfl⟩) hstands⟩
    · exact ⟨hnew.1, hnew.2.1⟩
  · rcases h.escrow u e' he' hpos with hbump | ⟨e, he, hpos', hbump⟩
    · exact hbump
    · exact hbump.trans (hs.escrow u e he hpos')

/-! ## Stakes -/

/-- a lock opens the escrow of the account, with its bump, or enlarges the one that is there -/
theorem performLock_upkeep {source : Key} {owner : Signer} {remaining : List Key} (hn : w.state.assetMints.Nodup)
    (h : performLock w e x source owner remaining = .ok (w', e')) :
    Upkeep T w w' ∧ (e'.bump = ESCROW_BUMP ∨ 0 < e.amount ∧ e'.bump = e.bump) := by
  simp only [performLock, bind_ok] at h
  obtain ⟨-, -, n, -, w₁, hs, h⟩ := h
  obtain ⟨ps, rfl, -⟩ := settleAllPairs_ok hn hs
  unfold pushLocker reallocGraiState at h
  split_ifs at h with h0
  · simp only [Except.ok.injEq, Prod.mk.injEq] at h
    obtain ⟨_, -, b, hb, rfl, rfl⟩ := h
    exact ⟨.of_bank (transferFromSigner_circulates hb) rfl rfl rfl, .inl rfl⟩
  · simp only [Except.ok.injEq, Prod.mk.injEq] at h
    obtain ⟨_, -, b, hb, rfl, rfl⟩ := h
    exact ⟨.of_bank (transferFromSigner_circulates hb) rfl rfl rfl, .inr ⟨by omega, rfl⟩⟩

theorem Bumped.grow (h : Bumped w₀ u e) (hb : e'.bump = ESCROW_BUMP ∨ 0 < e.amount ∧ e'.bump = e.bump) : Bumped w₀ u e' := by
  intro _
  rcases hb with hb | ⟨hpos, hb⟩
  · exact .inl hb
  · rw [hb]
    exact h hpos

theorem pushVoter_bumped {n : ℕ} (h : Bumped w₀ u e) : Bumped w₀ u { (pushVoter w e u).2 with voted := n } := by
  unfold pushVoter
  split_ifs
  · exact fun _ => .inl rfl
  · exact h.shrink le_rfl rfl

theorem executeLock_upkeep {a : Lock} (hw : w.WF) (h : executeLock w a = .ok w') : Upkeep T w w' := by
  obtain ⟨b, w₁, e₁, hb, hlock, rfl⟩ := executeLock_locks h
  obtain ⟨hup, hbump⟩ := performLock_upkeep (hw.bank (initVault_moves w.state.graiMint hb)).nodup hlock
  have hinit : Upkeep T w { w with bank := b } := .of_bank (initVault_circulates hb) rfl rfl rfl
  exact (hinit.trans hup).storeEscrow ((initEscrow_bumped w _).grow hbump)

/-- a vote may lock first, and then lists the voter in the same escrow -/
theorem executeVote_upkeep {a : Vote} (hw : w.WF) (h : executeVote w a = .ok w') : Upkeep T w w' := by
  obtain ⟨b, w₁, e₁, w₂, e₂, hb, hauto, hvote, rfl⟩ := executeVote_votes h
  have hwf := hw.bank (initVault_moves w.state.graiMint hb)
  have hinit : Upkeep T w { w with bank := b } := .of_bank (initVault_circulates hb) rfl rfl rfl
  have hauto : w₁.state.assetMints.Nodup ∧ Upkeep T w w₁ ∧ Bumped w a.voter.key e₁ := by
    rcases hauto with ⟨rfl, rfl⟩ | ⟨x, hlock⟩
    · exact ⟨hw.nodup, hinit, initEscrow_bumped w _⟩
    · obtain ⟨hup, hbump⟩ := performLock_upkeep hwf.nodup hlock
      exact ⟨(performLock_step hwf hlock).1.nodup, hinit.trans hup, (initEscrow_bumped w _).grow hbump⟩
  obtain ⟨hn, hup, hbump⟩ := hauto
  obtain ⟨-, -, -, -, _, _, _, -, hw₂⟩ := performVote_ok hn hvote
  have he₂ : Bumped w a.voter.key e₂ := by
    simp only [performVote, bind_ok, Except.ok.injEq, Prod.mk.injEq] at hvote
    obtain ⟨-, -, n, -, -, -, w₃, -, _, -, -, rfl⟩ := hvote
    have h := pushVoter_bumped (w := w₃) (n := n) hbump
    exact fun hpos => h hpos
  refine Upkeep.storeEscrow (hup.trans ?_) he₂
  rw [hw₂]
  exact .of_bank (.refl _) rfl rfl rfl

theorem clampVote_bump {s s' : GraiState} (h : clampVote s e u = .ok (s', e')) : e'.bump = e.bump := by
  unfold clampVote at h
  by_cases h0 : e.voted = 0 ∨ e.voted ≤ e.amount
  · rw [if_pos h0] at h
    cases h
    rfl
  · rw [if_neg h0] at h
    simp only [bind_ok, Except.ok.injEq, Prod.mk.injEq] at h
    obtain ⟨_, -, -, rfl⟩ := h
    rfl

theorem executeUnlock_upkeep {a : Unlock} (hw : w.WF) (h : executeUnlock w a = .ok w') : Upkeep T w w' := by
  obtain ⟨e, b, x, penalty, ps, s, e', b₁, b₂, he, hb, -, -, -, -, -, hclamp, hb₁, hb₂, rfl⟩ := executeUnlock_releases hw h
  obtain ⟨ha, -, -, hst⟩ := clampVote_ok hclamp
  have hbank : Circulates T w.bank b₂ :=
    (initAta_circulates hb).trans ((transferFromVault_circulates hb₁).trans (transferFromVault_circulates hb₂))
  have hbump := clampVote_bump hclamp
  have hgrai : s.graiMint = w.state.graiMint := by rw [hst]
  refine Upkeep.storeEscrow (.of_bank hbank hgrai rfl rfl) ((bumped_of_some he).shrink ?_ hbump)
  rw [ha]
  exact Nat.sub_le ..

/-- the escrow of the bribed voter shrinks and keeps its bump -/
theorem executeBribe_upkeep {a : Bribe} (hw : w.WF) (h : executeBribe w a = .ok w') : Upkeep T w w' := by
  obtain ⟨_, e, _, asset, b, _, _, _, _, ps, w₂, e', b₁, w₃, hload, -, -, -, -, hbuy, hb₁, hpay, rfl⟩ := executeBribe_buys hw h
  obtain ⟨he, hasset, -⟩ := Bribe.load_ok hload
  have hb : Circulates T w.bank b := by
    simp only [Bribe.load, bind_ok, Except.ok.injEq, Prod.mk.injEq] at hload
    obtain ⟨_, -, _, -, _, -, _, -, -, -, -, -, _, -, _, -, b₃, hb₃, _, -, b₄, hb₄, _, -, -, -, -, -, rfl⟩ := hload
    exact (initAta_circulates hb₃).trans (initAta_circulates hb₄)
  obtain ⟨-, -, -, -, rfl, b₂, hb₂, rfl⟩ := buyOut_ok hbuy
  obtain ⟨_, asset', b₃, b₄, -, -, hfund, hb₄, rfl⟩ := payBribe_pays hpay
  obtain ⟨hb₃, hmint⟩ := fundCuts_circulates hfund
  have hbank : Circulates T w.bank b₄ := (hb.trans (transferFromVault_circulates hb₂)).trans
    ((transferFromSigner_circulates hb₁).trans (hb₃.trans (transferFromVault_circulates hb₄)))
  refine Upkeep.storeEscrow ?_ ((bumped_of_some he).shrink (Nat.sub_le ..) rfl)
  exact Upkeep.storeAsset (.of_bank hbank (by exact rfl) (by exact rfl) (by exact rfl)) hasset hmint

/-! ## Yield and claims -/

theorem executeDistribute_upkeep {a : Distribute} (h : executeDistribute w a = .ok w') : Upkeep T w w' := by
  obtain ⟨asset, b, asset', b₁, _, ha, hb, hfund, -, rfl⟩ := executeDistribute_pulls h
  obtain ⟨hb₁, hmint⟩ := fundCuts_circulates hfund
  have hbank : Circulates T w.bank b₁ := (transferFromSigner_circulates hb).trans hb₁
  have hup : Upkeep T w ({ w with bank := b₁ } : World) := .of_bank hbank rfl rfl rfl
  exact (hup.storeAsset ha (by exact hmint)).storePosition _ _ _

/-- a payment that cannot be made leaves the bank as it is -/
theorem tryPayFromTreasury_circulates {treasury destination payee : Key} {paid : Bool}
    (h : tryPayFromTreasury b treasury destination payee x = .ok (b', paid)) : Circulates T b b' := by
  unfold tryPayFromTreasury at h
  split_ifs at h
  · cases h
    exact .refl b
  · cases h
    exact .refl b
  · split at h
    · cases h
      exact .refl b
    · split_ifs at h
      · cases h
        exact .refl b
      · simp only [bind_ok, Except.ok.injEq, Prod.mk.injEq] at h
        obtain ⟨b₁, hb, rfl, -⟩ := h
        exact transferFromVault_circulates hb

theorem payLevel_circulates {d : Distribution} {level share : ℕ} {referrer nftAta destination : Key} {book : Referrer}
    {s s' : Split} (h : payLevel d level share referrer book nftAta destination s = .ok s') : Circulates T s.bank s'.bank := by
  unfold payLevel at h
  split at h
  · simp only [bind_ok, Except.ok.injEq] at h
    obtain ⟨_, -, rfl⟩ := h
    exact .refl _
  · simp only [bind_ok, Prod.exists] at h
    obtain ⟨b, paid, hpay, h⟩ := h
    have hpay : Circulates T s.bank b := tryPayFromTreasury_circulates hpay
    split_ifs at h
    · simp only [bind_ok, Except.ok.injEq] at h
      obtain ⟨_, -, rfl⟩ := h
      exact hpay
    · cases h
      exact hpay

/-- by induction on the levels: each pays once, or not at all -/
theorem affiliateWalk_circulates {d : Distribution} {levels level : ℕ} {cur : Key} {s s' : Split}
    (h : affiliateWalk w d levels level cur s = .ok s') : Circulates T s.bank s'.bank := by
  induction levels generalizing level cur s with
  | zero =>
    cases h
    exact .refl _
  | succ levels ih =>
    simp only [affiliateWalk, bind_ok] at h
    obtain ⟨_, -, _, -, _, -, h⟩ := h
    split at h
    · cases h
      exact .refl _
    · simp only [bind_ok] at h
      obtain ⟨_, -, _, -, s₁, hpay, h⟩ := h
      exact (payLevel_circulates hpay).trans (ih h)

/-- the affiliates first, then the beneficiar with what they left -/
theorem splitGross_circulates {d : Distribution} {log : List TreasuryMsg} (h : splitGross w d = .ok (b, log)) :
    Circulates T w.bank b := by
  unfold splitGross at h
  split_ifs at h
  · cases h
    exact .refl _
  simp only [bind_ok] at h
  obtain ⟨t, -, h⟩ := h
  split_ifs at h
  · cases h
    exact .refl _
  simp only [bind_ok] at h
  obtain ⟨s, hs, _, -, h⟩ := h
  have hwalk : Circulates T w.bank s.bank := by
    unfold splitRevenue at hs
    split_ifs at hs
    · exact affiliateWalk_circulates hs
    · cases hs
      exact .refl _
  unfold payBeneficiar at h
  split_ifs at h
  · simp only [bind_ok, Prod.exists, Except.ok.injEq, Prod.mk.injEq] at h
    obtain ⟨b₁, paid, hpay, rfl, -⟩ := h
    exact hwalk.trans (tryPayFromTreasury_circulates hpay)
  · cases h
    exact hwalk

theorem payClaim_circulates {claimed tip : ℕ} {vault holderAta tipAta : Key}
    (h : payClaim b claimed tip vault holderAta tipAta = .ok b') : Circulates T b b' := by
  simp only [payClaim, bind_ok] at h
  obtain ⟨_, -, _, -, h⟩ := h
  split_ifs at h
  · exact transferFromVault_circulates h
  · simp only [bind_ok] at h
    obtain ⟨b₁, hb₁, hb₂⟩ := h
    exact (transferFromVault_circulates hb₁).trans (transferFromVault_circulates hb₂)

theorem payOut_upkeep {p : Payout} {asset : AssetConfig} {position : Position} {log : List TreasuryMsg}
    (ha : w.assets p.mint = some asset) (h : payOut w p asset position = .ok (w', log)) : Upkeep T w w' := by
  obtain ⟨b, _, _, w₁, hb, -, hdist, -, rfl⟩ := payOut_pays h
  obtain ⟨w₂, b₂, hcredit, hsplit, rfl⟩ := distributeClaimTreasury_splits hdist
  have hbooked := creditClaim_booked hcredit
  have hq := hbooked.quiet
  have hbank : Circulates T w.bank b₂ := by
    have hsplit : Circulates T w₂.bank b₂ := splitGross_circulates hsplit
    rw [hbooked.bank] at hsplit
    exact (payClaim_circulates hb).trans hsplit
  have hup : Upkeep T w ({ w₂ with bank := b₂ } : World) := .of_bank hbank hq.graiMint hq.assets hq.escrows
  exact (hup.storePosition p.holder p.mint _).storeAsset ha rfl

theorem executeClaim_upkeep {a : Claim} {log : List TreasuryMsg} (h : executeClaim w a = .ok (w', log)) : Upkeep T w w' := by
  obtain ⟨_, _, asset, b, _, position, hload, -, -, hcases⟩ := executeClaim_cases h
  obtain ⟨-, ha, -⟩ := Claim.load_ok hload
  have hb : Circulates T w.bank b := by
    simp only [Claim.load, bind_ok, Except.ok.injEq, Prod.mk.injEq] at hload
    obtain ⟨_, -, _, -, _, -, _, -, _, -, _, -, b₁, hb₁, b₂, hb₂, -, -, -, rfl⟩ := hload
    exact (initAta_circulates hb₁).trans (initAta_circulates hb₂)
  have hinit : Upkeep T w { w with bank := b } := .of_bank hb rfl rfl rfl
  have hup := hinit.storePosition a.holder a.assetMint position
  rcases hcases with ⟨rfl, -⟩ | ⟨_, _, -, hpay⟩
  · exact hup
  · exact hup.trans (payOut_upkeep (by exact ha) hpay)

theorem claimAsset_upkeep {a : ClaimAll} {locked : ℕ} {slots : ClaimSlots} {affiliate : List Key} {log : List TreasuryMsg}
    (h : claimAsset w a locked m slots affiliate = .ok (w', log)) : Upkeep T w w' := by
  obtain ⟨asset, _, position, ha, -, -, hcases⟩ := claimAsset_cases h
  have hup : Upkeep T w (w.storePosition a.holder m position) := (Upkeep.refl w).storePosition a.holder m position
  rcases hcases with ⟨rfl, -⟩ | ⟨_, _, -, hpay⟩
  · exact hup
  · exact hup.trans (payOut_upkeep (by exact ha) hpay)

theorem claimAssets_upkeep {a : ClaimAll} {locked tail : ℕ} {mints remaining : List Key} {log : List TreasuryMsg}
    (h : claimAssets a locked tail mints remaining w = .ok (w', log)) : Upkeep T w w' :=
  claimAssets_induct Upkeep.refl Upkeep.trans claimAsset_upkeep h

/-! ## Deposits and poaches -/

/-- an NFT is minted once, to its holder, and its authority is dropped -/
theorem ensureTreasuryNft_circulates {book book' : Referrer} {locker nftAta : Key}
    (h : ensureTreasuryNft w book locker nftAta = .ok (w', book')) : Circulates T w.bank w'.bank := by
  unfold ensureTreasuryNft at h
  split_ifs at h
  · cases h
    exact .refl _
  simp only [bind_ok] at h
  obtain ⟨_, -, h⟩ := h
  split_ifs at h
  · simp only [bind_ok, Except.ok.injEq, Prod.mk.injEq] at h
    obtain ⟨-, -, rfl, -⟩ := h
    exact .refl _
  simp only [mintTreasuryNft, bind_ok, Except.ok.injEq, Prod.mk.injEq] at h
  obtain ⟨b₁, hb₁, b₂, hb₂, b₃, ⟨b₄, hb₄, hb₃⟩, -, -, rfl, -⟩ := h
  have hcreate : Circulates T w.bank b₁ := by
    unfold initTreasuryNftMint at hb₁
    split at hb₁
    · cases hb₁
      exact .refl _
    · exact circulates_of (.createMint (spl_ok.1 hb₁))
  have hopen : Circulates T b₁ b₂ := by
    unfold createNftAta at hb₂
    split at hb₂
    · cases hb₂
      exact .refl _
    · exact circulates_of (.openAccount (spl_ok.1 hb₂))
  exact (hcreate.trans hopen).trans
    ((circulates_of (.mintTo (spl_ok.1 hb₄))).trans (circulates_of (.setMintAuthority (spl_ok.1 hb₃))))

theorem mintReferrer_circulates {locker referrer nftAta : Key} {value : ℕ} {remaining : List Key}
    (h : mintReferrer w locker referrer value remaining nftAta = .ok w') : Circulates T w.bank w'.bank := by
  obtain ⟨w₁, book, w₂, book', hbooked, hnft, hcredited⟩ := mintReferrer_booked h
  rw [hcredited.bank, ← hbooked.bank]
  exact ensureTreasuryNft_circulates hnft

/-- a deposit moves capital, mints shares, and may lock them -/
theorem bookDeposit_upkeep {a : Deposit} {supply decimals : ℕ} {price : PriceData} (hw : w.WF)
    (h : bookDeposit w a supply decimals price = .ok w') : Upkeep T w w' := by
  obtain ⟨_, _, b, _, w₁, _, -, hb, hmint, h⟩ := bookDeposit_moves h
  have hwf := hw.bank (a.move_moves hb)
  have hq := mintReferrer_quiet (w := { w with bank := b }) hw.mint hmint
  have hwf₁ := hq.wf hwf
  have hmove : Circulates T w.bank b := by
    simp only [Deposit.move, bind_ok] at hb
    obtain ⟨b₁, hb₁, hb₂⟩ := hb
    exact (transferFromSigner_circulates hb₁).trans (circulates_of (.mintTo (spl_ok.1 hb₂)))
  have hup : Upkeep T w w₁ := .of_bank (hmove.trans (mintReferrer_circulates hmint)) hq.graiMint hq.assets hq.escrows
  obtain ⟨w₂, e₂, rfl, ⟨rfl, rfl⟩ | hlock⟩ := lockDeposit_cases h
  · exact Upkeep.storeEscrow ⟨hup.grai, hup.bank, hup.listing, hup.escrow⟩ fun _ => .inl rfl
  · obtain ⟨hlocked, hbump⟩ := performLock_upkeep (by exact hwf₁.nodup) hlock
    refine Upkeep.storeEscrow (hup.trans ⟨hlocked.grai, hlocked.bank, hlocked.listing, hlocked.escrow⟩) fun _ => .inl ?_
    rcases hbump with hbump | ⟨-, hbump⟩
    · exact hbump
    · exact hbump.trans rfl

theorem Deposit.init_circulates {a : Deposit} {grinders graiMint : Key} (h : a.init b grinders graiMint = .ok b') :
    Circulates T b b' := by
  simp only [Deposit.init, bind_ok] at h
  obtain ⟨b₁, hb₁, b₂, hb₂, hb₃⟩ := h
  exact ((initAta_circulates hb₁).trans (initAta_circulates hb₂)).trans (initVault_circulates hb₃)

theorem executePoach_upkeep {a : Poach} (h : executePoach w a = .ok w') : Upkeep T w w' := by
  obtain ⟨_, _, _, _, b, b₁, b₂, hb, hb₁, hb₂, h⟩ := executePoach_slot h
  have hbooked := rebindSlot_booked h
  refine .of_bank ?_ hbooked.quiet.graiMint hbooked.quiet.assets hbooked.quiet.escrows
  rw [hbooked.bank]
  exact (initAta_circulates hb).trans ((transferFromSigner_circulates hb₁).trans (transferFromSigner_circulates hb₂))

/-! ## Liquidation -/

theorem executeLiquidate_upkeep {a : Liquidate} (h : executeLiquidate w a = .ok w') : Upkeep T w w' := by
  obtain ⟨_, b, b₁, -, hb, -, -, -, hb₁, rfl⟩ := executeLiquidate_opens h
  exact .of_bank ((initAta_circulates hb).trans (transferFromVault_circulates hb₁)) rfl rfl rfl

theorem payShares_circulates {assets : Key → Option AssetConfig} {g s : ℕ} {holder : Key} {mints : List Key}
    (h : payShares assets g s holder mints b = .ok b') : Circulates T b b' := by
  induction mints generalizing b with
  | nil =>
    cases h
    exact .refl _
  | cons m mints ih =>
    simp only [payShares, payShare, bind_ok] at h
    obtain ⟨b₁, ⟨_, -, -, -, _, -, _, -, hb₁⟩, h⟩ := h
    exact (transferFromVault_circulates hb₁).trans (ih h)

theorem sweepVaults_circulates {assets : Key → Option AssetConfig} {grinders : Key} {mints : List Key}
    (h : sweepVaults assets grinders mints b = .ok b') : Circulates T b b' := by
  induction mints generalizing b with
  | nil =>
    cases h
    exact .refl _
  | cons m mints ih =>
    simp only [sweepVaults, sweepVault, bind_ok] at h
    obtain ⟨b₁, ⟨_, -, hb₁⟩, h⟩ := h
    exact (transferFromVault_circulates hb₁).trans (ih h)

theorem burnLocked_upkeep {n : ℕ} (h : burnLocked w e x n u = .ok (w', e')) (hn : n ≤ e.amount) :
    Upkeep T w w' ∧ e'.amount ≤ e.amount ∧ e'.bump = e.bump := by
  rcases burnLocked_cases h with ⟨-, rfl, rfl⟩ | ⟨s, b, -, -, hclamp, hb, rfl⟩
  · exact ⟨.refl _, le_rfl, rfl⟩
  · have hbump := clampVote_bump hclamp
    obtain ⟨ha, -, -, hst⟩ := clampVote_ok hclamp
    have hgrai : s.graiMint = w.state.graiMint := by rw [hst]
    refine ⟨.of_bank (circulates_of (.burn hb)) hgrai rfl rfl, ?_, hbump⟩
    rw [ha]
    exact hn

/-- a redeem burns from the wallet first and from the escrow for the rest, which shrinks it -/
theorem executeRedeem_upkeep {a : Redeem} (hw : w.WF) (h : executeRedeem w a = .ok w') : Upkeep T w w' := by
  obtain ⟨_, _, w₁, b₁, -, -, -, -, -, hburn, hshares, rfl⟩ := executeRedeem_redeems h
  obtain ⟨_, _, ps, b, w₃, e', rfl, rfl, hle, -, hwallet, hlocked, -, rfl⟩ := burnShares_burns hw hburn
  have hb : Circulates T w.bank b := by
    rcases burnWallet_cases hwallet with ⟨-, rfl⟩ | hwallet
    · exact .refl _
    · exact circulates_of (.burn hwallet)
  obtain ⟨hup, ha, hbump⟩ := burnLocked_upkeep hlocked (Nat.sub_le ..)
  have hfirst : Upkeep T w { w with positions := ps, bank := b } := .of_bank hb rfl rfl rfl
  have hup : Upkeep T w w₃ := hfirst.trans hup
  have hstored := hup.storeEscrow (((initEscrow_bumped w a.holder.key).shrink ha hbump))
  exact ⟨hup.grai, hup.bank.trans (payShares_circulates hshares), fun m a' h => by
    rcases hup.listing m a' h with hold | ⟨hmint, hstands, htreasury⟩
    · exact .inl hold
    · have hpaid : Circulates T w₃.bank b₁ := payShares_circulates hshares
      exact .inr ⟨hmint, Bank.Circulates.stands hpaid (.inl ⟨m, rfl⟩) hstands,
        fun hm => Bank.Circulates.stands hpaid (.inr ⟨m, hm, rfl⟩) (htreasury hm)⟩, hstored.escrow⟩

theorem executeRevive_upkeep {a : Revive} (h : executeRevive w a = .ok w') : Upkeep T w w' := by
  obtain ⟨b, _, -, -, hb, rfl⟩ := executeRevive_closes h
  exact .of_bank (sweepVaults_circulates hb) rfl rfl rfl

/-! ## Listing -/

theorem ensureVault_stands {mint : Key} (h : ensureVault b k mint = .ok b') :
    Circulates T b b' ∧ Bank.Stands .protocol mint b' k := by
  unfold ensureVault at h
  split at h
  · rename_i a ha
    simp only [bind_ok, require_ok, Except.ok.injEq] at h
    obtain ⟨-, hm, -, ho, rfl⟩ := h
    exact ⟨.refl _, a, ha, ho, hm⟩
  · have h := spl_ok.1 h
    obtain ⟨-, -, -, hb⟩ := Bank.openAccount_ok h
    refine ⟨circulates_of (.openAccount h), ⟨mint, .protocol, 0⟩, ?_, rfl, rfl⟩
    rw [hb, Bank.put_accounts, update_self]

theorem list_upkeep {a : SetFeed} {auth : Option Key} (h : list w a auth = .ok w') : Upkeep T w w' := by
  obtain ⟨asset, b₁, b₂, hmint, -, hb₁, hb₂, rfl⟩ := list_opens h
  obtain ⟨hc₁, hstands⟩ := ensureVault_stands hb₁
  obtain ⟨hc₂, htreasury⟩ := ensureVault_stands hb₂
  refine ⟨rfl, hc₁.trans hc₂, fun n a' hn => ?_, fun u e hu => bumped_of_some hu⟩
  rcases eq_or_ne n a.assetMint with rfl | hne
  · simp only [World.storeAsset, update_self, Option.some.injEq] at hn
    subst hn
    exact .inr ⟨hmint, Bank.Circulates.stands hc₂ (.inl ⟨_, rfl⟩) hstands, fun _ => htreasury⟩
  · simp only [World.storeAsset, update_of_ne hne] at hn
    exact .inl ⟨a', hn, rfl⟩

/-- a delisting closes the treasury of its mint -/
theorem delist_upkeep {a : SetFeed} {asset : AssetConfig} (hT : ¬T a.assetMint) (h : delist w a asset = .ok w') :
    Upkeep T w w' := by
  obtain ⟨-, w₁, b, hstored, hb, rfl⟩ := delist_removes h
  have hmoved : Upkeep T w w₁ := by
    rcases hstored with rfl | ⟨m, moved, i, hm, rfl⟩
    · exact .refl _
    · exact (Upkeep.refl w).storeAsset hm rfl
  have hclose : Circulates T w₁.bank b := by
    unfold closeTreasuryVaultIfEmpty at hb
    split at hb
    · cases hb
      exact .refl _
    · simp only [bind_ok] at hb
      obtain ⟨-, -, hb⟩ := hb
      refine circulates_of (.closeAccount (spl_ok.1 hb) fun _ => ?_)
      rintro (⟨m, hm⟩ | ⟨m, hm, hk⟩)
      · cases hm
      · cases hk
        exact hT hm
  refine hmoved.trans ⟨rfl, hclose, fun n a' hn => ?_, fun u e hu => bumped_of_some hu⟩
  rcases eq_or_ne n a.assetMint with rfl | hne
  · simp at hn
  · simp only [update_of_ne hne] at hn
    exact .inl ⟨a', hn, rfl⟩

theorem executeSetFeed_upkeep {a : SetFeed} (hT : ¬T a.assetMint) (h : executeSetFeed w a = .ok w') : Upkeep T w w' := by
  obtain ⟨-, t, -, h⟩ | ⟨-, asset, ha, h | ⟨_, _, _, rfl⟩⟩ := executeSetFeed_cases h
  · exact list_upkeep h
  · exact delist_upkeep hT h
  · exact (Upkeep.refl w).storeAsset ha rfl

/-- while its mint is listed a treasury stands -/
def World.Funded (w : World) (m : Key) : Prop := ∀ a, w.assets m = some a → Bank.Stands .protocol m w.bank (.treasury m)

theorem executeSetFeed_funded {a : SetFeed} (hw : w.Funded a.assetMint) (h : executeSetFeed w a = .ok w') :
    w'.Funded a.assetMint := by
  obtain ⟨-, t, -, h⟩ | ⟨-, asset, ha, h | ⟨_, _, _, rfl⟩⟩ := executeSetFeed_cases h
  · obtain ⟨_, b₁, b₂, -, -, -, hb₂, rfl⟩ := list_opens h
    have hstands := (ensureVault_stands (T := fun _ => False) hb₂).2
    exact fun _ _ => hstands
  · obtain ⟨-, w₁, b, -, -, rfl⟩ := delist_removes h
    intro a' ha'
    simp at ha'
  · exact fun _ _ => hw asset ha

/-! ## Every step -/

/-- one lemma for each instruction, put together; `T` must not name what is being listed or delisted -/
theorem step_upkeep {i : Instr} (hw : w.WF) (hT : ∀ a, i = .setFeed a → ¬T a.assetMint) (h : step w i = .ok w') :
    Upkeep T w w' := by
  cases i with
  | transferOwnership a | acceptOwnership a | setBeneficiar a | setRoyaltyBps a | setRevenueShareBps a | setGrinders a =>
    obtain ⟨_, _, _, _, _, _, _, rfl⟩ := step_governs rfl h
    exact .of_bank (.refl _) rfl rfl rfl
  | setConfig a =>
    obtain ⟨-, rfl⟩ := executeSetConfig_adjusts h
    exact .of_bank (.refl _) rfl rfl rfl
  | setBribeable a =>
    obtain ⟨asset, ha, rfl⟩ := executeSetBribeable_marks h
    exact (Upkeep.refl w).storeAsset ha rfl
  | setFeed a => exact executeSetFeed_upkeep (hT a rfl) h
  | deposit a =>
    simp only [step, executeDeposit, bind_ok, Prod.exists] at h
    obtain ⟨_, _, _, -, -, -, b, hb, -, -, -, -, -, -, _, -, h⟩ := h
    have hinit : Upkeep T w { w with bank := b } := .of_bank (a.init_circulates hb) rfl rfl rfl
    exact hinit.trans (bookDeposit_upkeep (hw.bank (a.init_moves w.state.graiMint hb)) h)
  | depositSol a =>
    simp only [step, executeDepositSol, bind_ok, Prod.exists] at h
    obtain ⟨_, _, _, -, b₁, hb₁, b₂, hb₂, -, -, -, -, -, -, b₃, hb₃, _, -, h⟩ := h
    have hinit := (initAta_moves w.state.graiMint hb₁).before (a.deposit.init_moves w.state.graiMint hb₂)
    have hbank : Circulates T w.bank b₃ :=
      ((initAta_circulates hb₁).trans (a.deposit.init_circulates hb₂)).trans (circulates_of (.wrap (spl_ok.1 hb₃)))
    have hup : Upkeep T w { w with bank := b₃ } := .of_bank hbank rfl rfl rfl
    exact hup.trans (bookDeposit_upkeep (hw.bank (hinit.before (wrap_moves _ (spl_ok.1 hb₃)))) h)
  | distribute a => exact executeDistribute_upkeep h
  | lock a => exact executeLock_upkeep hw h
  | unlock a => exact executeUnlock_upkeep hw h
  | claim a =>
    simp only [step, bind_ok, Prod.exists, Except.ok.injEq] at h
    obtain ⟨_, _, h, rfl⟩ := h
    exact executeClaim_upkeep h
  | claimAll a =>
    simp only [step, bind_ok, Prod.exists, Except.ok.injEq] at h
    obtain ⟨_, _, h, rfl⟩ := h
    obtain ⟨_, h⟩ := executeClaimAll_walks h
    exact claimAssets_upkeep h
  | vote a => exact executeVote_upkeep hw h
  | bribe a => exact executeBribe_upkeep hw h
  | poach a => exact executePoach_upkeep h
  | liquidate a => exact executeLiquidate_upkeep h
  | redeem a => exact executeRedeem_upkeep hw h
  | revive a => exact executeRevive_upkeep h
  | token s op =>
    simp only [step, bind_ok, Except.ok.injEq] at h
    obtain ⟨-, -, b, hb, rfl⟩ := h
    exact .of_bank (Bank.apply_circulates (spl_ok.1 hb) s.key_ne_protocol) rfl rfl rfl
  | wrap k x =>
    simp only [step, bind_ok, Except.ok.injEq] at h
    obtain ⟨b, hb, rfl⟩ := h
    exact .of_bank (circulates_of (.wrap (spl_ok.1 hb))) rfl rfl rfl
  | grinders k g =>
    cases h
    exact .of_bank (.refl _) rfl rfl rfl

/-- only a call that names the mint can close its treasury, and that one delists it -/
theorem step_funded {i : Instr} (hw : w.WF) (hm : w.Funded m) (h : step w i = .ok w') : w'.Funded m := by
  by_cases hi : ∃ a, i = .setFeed a ∧ a.assetMint = m
  · obtain ⟨a, rfl, rfl⟩ := hi
    exact executeSetFeed_funded hm h
  · have hup : Upkeep (· = m) w w' := by
      refine step_upkeep hw (fun a ha hmint => ?_) h
      exact hi ⟨a, ha, hmint⟩
    intro a' ha'
    rcases hup.listing m a' ha' with ⟨a, ha, -⟩ | ⟨-, -, htreasury⟩
    · exact Bank.Circulates.stands hup.bank (.inr ⟨m, rfl, rfl⟩) (hm a ha)
    · exact htreasury rfl

/-! ## Runs -/

/-- the token program keeps no account without its mint -/
def Minted (b : Bank Key) : Prop := ∀ k a, b.accounts k = some a → b.mints a.mint ≠ none

namespace Genesis

theorem sound (g : Genesis) : g.world.Sound := by
  refine ⟨fun m a ha => ?_, fun u e he => ?_⟩
  · rw [g.blank.assets] at ha
    cases ha
  · rw [g.blank.escrows] at he
    cases he

/-- a new share mint is backed: nobody can hold it before it exists -/
theorem backed (g : Genesis) (hg : Minted g.bank) : Bank.Backed g.world.state.graiMint g.world.bank := by
  refine Bank.backed_of_none (fun k a ha hm => ?_) ?_
  · rw [g.blank.accounts] at ha
    refine hg k a ha ?_
    rw [hm]
    exact g.blank.unminted
  · rw [g.blank.supply]
    decide

theorem after_upkeep (g : Genesis) (is : List Instr) : Upkeep (fun _ => False) g.world (g.after is) :=
  g.after_induct (.refl _) (fun _ _ _ hw hup h => hup.trans (step_upkeep hw (fun _ _ => id) h)) is

theorem after_sound (g : Genesis) (is : List Instr) : (g.after is).Sound := (g.after_upkeep is).sound g.sound

theorem after_funded (g : Genesis) (is : List Instr) (m : Key) : (g.after is).Funded m := by
  refine g.after_induct (P := fun w => w.Funded m) (fun a ha => ?_) (fun _ _ _ hw hm h => step_funded hw hm h) is
  rw [g.blank.assets] at ha
  cases ha

theorem after_backed (g : Genesis) (hg : Minted g.bank) (is : List Instr) :
    Bank.Backed (g.after is).state.graiMint (g.after is).bank := by
  have hup := g.after_upkeep is
  rw [hup.grai]
  refine Bank.Circulates.backed hup.bank ?_ (g.backed hg)
  obtain ⟨s, hs⟩ := g.wf.mint
  rw [hs]
  exact Key.noConfusion

end Genesis

end Grindurus.Grai
