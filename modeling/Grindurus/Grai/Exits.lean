/-
Exits are not blocked by arithmetic.

- `World.Indexed`: what any lock has earned fits 128 bits before it is divided. A lock is checked for it when it grows, and
  an index when it grows; `after_indexed` carries both along every run.
- `exit_settles`: so a position can always be settled from the lock as it stands to any smaller one, as long as the vault
  and the number of lock changes stay within 64 bits.

The products of the dividend index are the only place where a position could get stuck: `settle` multiplies the lock by the index
in `u128`, and an overflow there would refuse every unlock, vote, bribe and redeem of the account for good. It cannot come up on
the way out. Whoever made the lock larger has settled it at its new size, and whoever raised the index has divided by the total
that is locked, so that the product with any one lock still fits.

What is not excluded here is that the amount itself leaves `u64`; that is the bound the results carry as a hypothesis.
-/
import Grindurus.Grai.Payments
import Grindurus.Grai.Frames

namespace Grindurus.Grai

open Checked TokenBank RewardIndex Machine Function

/-- the product of a lock and an index fits 128 bits -/
def World.Indexed (w : World) : Prop :=
  ∀ m asset u, w.assets m = some asset → w.lockOf u * asset.accShare < 2 ^ 128

variable {w w' : World}

/-! ## No lock and no index grows -/

/-- from `w` to `w'` every listing keeps its mint and its index, or is new -/
def KeepsIndex (w w' : World) : Prop :=
  ∀ m asset', w'.assets m = some asset' → (asset'.assetMint = m ∧ asset'.accShare = 0) ∨
    ∃ asset, w.assets m = some asset ∧ asset'.assetMint = asset.assetMint ∧ asset'.accShare = asset.accShare

theorem KeepsIndex.of_eq (h : w'.assets = w.assets) : KeepsIndex w w' := by
  intro m asset' ha
  rw [h] at ha
  exact .inr ⟨asset', ha, rfl, rfl⟩

theorem KeepsIndex.trans {w₁ w₂ w₃ : World} (h : KeepsIndex w₁ w₂) (h' : KeepsIndex w₂ w₃) : KeepsIndex w₁ w₃ := by
  intro m asset₃ h₃
  rcases h' m asset₃ h₃ with h0 | ⟨asset₂, h₂, hmint, hacc⟩
  · exact .inl h0
  · rcases h m asset₂ h₂ with ⟨hmint', hacc'⟩ | ⟨asset₁, h₁, hmint', hacc'⟩
    · exact .inl ⟨hmint.trans hmint', hacc.trans hacc'⟩
    · exact .inr ⟨asset₁, h₁, hmint.trans hmint', hacc.trans hacc'⟩

theorem KeepsIndex.storeAsset {m : Key} {asset asset' : AssetConfig} (ha : w.assets m = some asset)
    (hmint : asset'.assetMint = asset.assetMint) (hacc : asset'.accShare = asset.accShare) : KeepsIndex w (w.storeAsset m asset') := by
  intro n b hb
  rcases eq_or_ne n m with rfl | hn
  · simp only [World.storeAsset, update_self, Option.some.injEq] at hb
    subst hb
    exact .inr ⟨asset, ha, hmint, hacc⟩
  · simp only [World.storeAsset, update_of_ne hn] at hb
    exact .inr ⟨b, hb, rfl, rfl⟩

theorem World.Indexed.keep (h : w.Indexed) (hlocks : ∀ u, w'.lockOf u ≤ w.lockOf u) (hindex : KeepsIndex w w') :
    w'.Indexed := by
  intro m asset' u ha
  rcases hindex m asset' ha with ⟨-, h0⟩ | ⟨asset, ha₀, -, heq⟩
  · rw [h0, Nat.mul_zero]
    exact Nat.two_pow_pos 128
  · rw [heq]
    exact (Nat.mul_le_mul_right _ (hlocks u)).trans_lt (h m asset u ha₀)

theorem lockOf_of_escrows (h : w'.escrows = w.escrows) (u : Key) : w'.lockOf u ≤ w.lockOf u := by
  unfold World.lockOf
  rw [h]

theorem World.Indexed.quiet (h : w.Indexed) (hq : Quiet w w') : w'.Indexed :=
  h.keep (lockOf_of_escrows hq.escrows) (.of_eq hq.assets)

/-- an escrow is rewritten, and its lock shrinks -/
theorem World.Indexed.store (h : w.Indexed) {u : Key} {e : Escrow} (he : e.amount ≤ w.lockOf u) :
    (w.storeEscrow u e).Indexed := by
  refine h.keep (fun v => ?_) (.of_eq rfl)
  rw [World.lockOf_store]
  rcases eq_or_ne v u with rfl | hv
  · rwa [update_self]
  · rw [update_of_ne hv]

/-! ## A lock grows -/

theorem settle_fits {acc old new : ℕ} {p p' : Position} (h : settle acc old new p = .ok p') : new * acc < 2 ^ 128 := by
  simp only [settle, bind_ok, checkedMul_ok] at h
  obtain ⟨_, -, _, -, _, -, _, -, _, ⟨hfits, -⟩, -⟩ := h
  exact hfits

/-- a list of positions is settled one by one, and each settlement checks its product -/
theorem settlePairs_fits {user : Key} {old new : ℕ} {mints remaining : List Key}
    (h : settlePairs user old new mints remaining w = .ok w') :
    ∀ m ∈ mints, ∀ asset, w.assets m = some asset → new * asset.accShare < 2 ^ 128 := by
  induction mints generalizing remaining w with
  | nil => exact fun m hm => absurd hm List.not_mem_nil
  | cons m mints ih =>
    rcases remaining with _ | ⟨i, _ | ⟨j, rest⟩⟩
    · cases h
    · cases h
    · simp only [settlePairs, settlePair, bind_ok, Except.ok.injEq] at h
      obtain ⟨_, ⟨a, ha, loaded, -, p, hp, rfl⟩, h⟩ := h
      intro n hn asset hasset
      rcases List.mem_cons.1 hn with rfl | hn
      · rw [loadAssetConfig_ok ha] at hasset
        cases hasset
        exact settle_fits hp
      · exact ih h n hn asset hasset

/-- the positions are settled at the new lock, which is what the invariant asks of it -/
theorem performLock_indexed {x : ℕ} {e e' : Escrow} {source : Key} {owner : Signer} {remaining : List Key} (hw : w.WF)
    (hi : w.Indexed) (h : performLock w e x source owner remaining = .ok (w', e')) :
    (w'.storeEscrow owner.key e').Indexed := by
  obtain ⟨-, ha, -, _, _, _, _, -, -, rfl⟩ := performLock_ok hw.nodup h
  simp only [performLock, settleAllPairs, bind_ok, checkedAdd_ok] at h
  obtain ⟨-, -, n, ⟨-, rfl⟩, w₁, ⟨-, -, hs⟩, -⟩ := h
  have hfits := settlePairs_fits hs
  intro m asset u hasset
  have hasset : w.assets m = some asset := hasset
  rw [World.lockOf_store]
  rcases eq_or_ne u owner.key with rfl | hu
  · rw [update_self, ha]
    exact hfits m ((hw.listed.2 m).2 (by simp [hasset])) asset hasset
  · rw [update_of_ne hu]
    exact hi m asset u hasset

/-! ## An index grows -/

/-- the new index is checked against the total that is locked when it is raised -/
theorem accrueCut_fits {asset asset' : AssetConfig} {cut eligible dust : ℕ}
    (h : accrueCut asset cut eligible = .ok (asset', dust)) :
    asset'.accShare = asset.accShare ∨ eligible * asset'.accShare < 2 ^ 128 := by
  unfold accrueCut distributeDividend at h
  split_ifs at h
  · cases h
    exact .inl rfl
  · simp only [bind_ok] at h
    obtain ⟨inc, -, h⟩ := h
    split_ifs at h
    · cases h
      exact .inl rfl
    · simp only [bind_ok, checkedAdd_ok, checkedMul_ok] at h
      obtain ⟨_, ⟨-, rfl⟩, _, ⟨hfits, rfl⟩, _, -, _, -, _, -, r, -, h⟩ := h
      split_ifs at h
      · cases h
        exact .inl rfl
      · simp only [bind_ok, Except.ok.injEq, Prod.mk.injEq] at h
        obtain ⟨_, -, rfl, -⟩ := h
        exact .inr (by rwa [Nat.mul_comm])
  · cases h
    exact .inl rfl

theorem fundCuts_fits {asset asset' : AssetConfig} {m : Key} {pool : ℕ} {b : Bank Key}
    (h : fundCuts w asset m pool = .ok (asset', b)) :
    asset'.accShare = asset.accShare ∨ w.state.totalLocked * asset'.accShare < 2 ^ 128 := by
  simp only [fundCuts, bind_ok, Prod.exists, Except.ok.injEq, Prod.mk.injEq] at h
  obtain ⟨_, _, -, asset₁, _, haccrue, _, -, _, -, rfl, -⟩ := h
  exact accrueCut_fits haccrue

/-- an index grew to what the whole lock can be multiplied with -/
theorem World.Indexed.accrue (h : w.Indexed) (hs : Staked w'.view) (hlocks : ∀ u, w'.lockOf u ≤ w.lockOf u)
    {m : Key} {asset asset' : AssetConfig} (ha : w.assets m = some asset)
    (hassets : w'.assets = update w.assets m (some asset'))
    (hacc : asset'.accShare = asset.accShare ∨ w'.state.totalLocked * asset'.accShare < 2 ^ 128) : w'.Indexed := by
  intro n b u hb
  rcases eq_or_ne n m with rfl | hn
  · rw [hassets, update_self, Option.some.injEq] at hb
    subst hb
    rcases hacc with heq | hfits
    · rw [heq]
      exact (Nat.mul_le_mul_right _ (hlocks u)).trans_lt (h n asset u ha)
    · have hle : w'.lockOf u ≤ w'.state.totalLocked := hs.locked.le u
      exact (Nat.mul_le_mul_right _ hle).trans_lt hfits
  · rw [hassets, update_of_ne hn] at hb
    exact (Nat.mul_le_mul_right _ (hlocks u)).trans_lt (h n b u hb)

/-! ## Every instruction -/

theorem executeLock_indexed {a : Lock} (hw : w.WF) (hi : w.Indexed) (h : executeLock w a = .ok w') : w'.Indexed := by
  obtain ⟨b, w₁, e₁, hb, hlock, rfl⟩ := executeLock_locks h
  exact performLock_indexed (hw.bank (initVault_moves w.state.graiMint hb)) hi hlock

/-- a vote that locks is a lock -/
theorem executeVote_indexed {a : Vote} (hw : w.WF) (hi : w.Indexed) (h : executeVote w a = .ok w') : w'.Indexed := by
  obtain ⟨b, w₁, e₁, w₂, e₂, hb, hauto, hvote, rfl⟩ := executeVote_votes h
  have hb := hw.bank (initVault_moves w.state.graiMint hb)
  have hi : ({ w with bank := b } : World).Indexed := hi
  have hauto : w₁.state.assetMints.Nodup ∧ (w₁.storeEscrow a.voter.key e₁).Indexed := by
    rcases hauto with ⟨rfl, rfl⟩ | ⟨x, hlock⟩
    · exact ⟨hw.nodup, hi.store (initEscrow_amount _ _).le⟩
    · exact ⟨(performLock_step hb hlock).1.nodup, performLock_indexed hb hi hlock⟩
  obtain ⟨hnodup, hi₁⟩ := hauto
  obtain ⟨-, -, ha, -, _, _, _, -, rfl⟩ := performVote_ok hnodup hvote
  refine hi₁.keep (fun u => ?_) (.of_eq rfl)
  rw [World.lockOf_store, World.lockOf_store, ha]
  exact le_rfl

theorem executeUnlock_indexed {a : Unlock} (hw : w.WF) (hi : w.Indexed) (h : executeUnlock w a = .ok w') : w'.Indexed := by
  obtain ⟨e, b, x, penalty, ps, s, e', b₁, b₂, he, -, -, -, -, -, -, hclamp, -, -, rfl⟩ := executeUnlock_releases hw h
  obtain ⟨ha, -⟩ := clampVote_ok hclamp
  refine World.Indexed.store hi ?_
  show e'.amount ≤ w.lockOf a.account.key
  rw [ha, World.lockOf_some he]
  exact Nat.sub_le ..

theorem executeBribe_indexed {a : Bribe} (hw : w.WF) (hs : Staked w.view) (hi : w.Indexed) (h : executeBribe w a = .ok w') :
    w'.Indexed := by
  obtain ⟨-, who, htrans⟩ := executeBribe_committed hw h
  have hs' := hs.trans htrans
  obtain ⟨_, e, _, asset, b, _, _, _, _, ps, w₂, e', b₁, w₃, hload, -, -, -, -, hbuy, -, hpay, rfl⟩ := executeBribe_buys hw h
  obtain ⟨he, hasset, -⟩ := Bribe.load_ok hload
  obtain ⟨-, -, -, -, rfl, b₂, -, rfl⟩ := buyOut_ok hbuy
  obtain ⟨_, asset', b₃, b₄, -, -, hfund, -, rfl⟩ := payBribe_pays hpay
  have hfits := fundCuts_fits hfund
  refine hi.accrue hs' (fun u => ?_) hasset rfl hfits
  rw [World.lockOf_store]
  rcases eq_or_ne u a.voter with rfl | hu
  · rw [update_self, World.lockOf_some he]
    exact Nat.sub_le ..
  · rw [update_of_ne hu]
    exact le_rfl

theorem executeDistribute_indexed {a : Distribute} (hw : w.WF) (hs : Staked w.view) (hi : w.Indexed)
    (h : executeDistribute w a = .ok w') : w'.Indexed := by
  obtain ⟨-, who, htrans⟩ := executeDistribute_committed hw h
  have hs' := hs.trans htrans
  obtain ⟨asset, b, asset', b', _, ha, -, hfund, -, rfl⟩ := executeDistribute_pulls h
  have hfits := fundCuts_fits hfund
  exact hi.accrue hs' (fun _ => le_rfl) ha rfl hfits

theorem payOut_keepsIndex {p : Payout} {asset : AssetConfig} {position : Position} {log : List TreasuryMsg}
    (ha : w.assets p.mint = some asset) (h : payOut w p asset position = .ok (w', log)) :
    w'.escrows = w.escrows ∧ KeepsIndex w w' := by
  obtain ⟨_, _, _, w₁, -, -, hdist, -, rfl⟩ := payOut_pays h
  obtain ⟨w₂, _, _, hq, -, -, rfl⟩ := distributeClaimTreasury_ok hdist
  have hassets : w₂.assets = w.assets := hq.assets
  have ha₂ : w₂.assets p.mint = some asset := by rw [hassets, ha]
  exact ⟨hq.escrows, (KeepsIndex.of_eq hassets).trans (KeepsIndex.storeAsset ha₂ (by rfl) (by rfl))⟩

theorem executeClaim_keepsIndex {a : Claim} {log : List TreasuryMsg} (h : executeClaim w a = .ok (w', log)) :
    w'.escrows = w.escrows ∧ KeepsIndex w w' := by
  obtain ⟨_, _, asset, b, _, _, hload, -, -, ⟨rfl, -⟩ | ⟨_, _, -, hpay⟩⟩ := executeClaim_cases h
  · exact ⟨rfl, .of_eq rfl⟩
  · obtain ⟨-, ha, -⟩ := Claim.load_ok hload
    have hpaid := payOut_keepsIndex (by exact ha) hpay
    exact hpaid

theorem claimAsset_keepsIndex {a : ClaimAll} {locked : ℕ} {m : Key} {slots : ClaimSlots} {affiliate : List Key}
    {log : List TreasuryMsg} (h : claimAsset w a locked m slots affiliate = .ok (w', log)) :
    w'.escrows = w.escrows ∧ KeepsIndex w w' := by
  obtain ⟨_, _, _, ha, -, -, ⟨rfl, -⟩ | ⟨_, _, -, hpay⟩⟩ := claimAsset_cases h
  · exact ⟨rfl, .of_eq rfl⟩
  · have hpaid := payOut_keepsIndex (by exact ha) hpay
    exact hpaid

theorem claimAssets_keepsIndex {a : ClaimAll} {locked tail : ℕ} {mints remaining : List Key} {log : List TreasuryMsg}
    (h : claimAssets a locked tail mints remaining w = .ok (w', log)) : w'.escrows = w.escrows ∧ KeepsIndex w w' :=
  claimAssets_induct (fun _ => ⟨rfl, .of_eq rfl⟩) (fun h h' => ⟨h'.1.trans h.1, h.2.trans h'.2⟩) claimAsset_keepsIndex h

theorem bookDeposit_indexed {a : Deposit} {supply decimals : ℕ} {price : PriceData} (hw : w.WF) (hi : w.Indexed)
    (h : bookDeposit w a supply decimals price = .ok w') : w'.Indexed := by
  obtain ⟨_, _, b, _, w₁, _, -, hb, hmint, h⟩ := bookDeposit_moves h
  have hwf := hw.bank (a.move_moves hb)
  have hq := mintReferrer_quiet (w := { w with bank := b }) hw.mint hmint
  have hi₁ : w₁.Indexed := World.Indexed.quiet (w := { w with bank := b }) hi hq
  have hwf₁ := hq.wf hwf
  obtain ⟨w₂, e₂, rfl, ⟨rfl, rfl⟩ | hlock⟩ := lockDeposit_cases h
  · exact World.Indexed.store hi₁ (initEscrow_amount _ _).le
  · exact performLock_indexed (by exact hwf₁.keep rfl (fun _ => rfl) hwf₁.guarded) (by exact hi₁) hlock

theorem executeRedeem_indexed {a : Redeem} (hw : w.WF) (hi : w.Indexed) (h : executeRedeem w a = .ok w') : w'.Indexed := by
  obtain ⟨_, _, w₁, _, -, -, -, -, -, hburn, -, rfl⟩ := executeRedeem_redeems h
  obtain ⟨_, _, ps, b, w₂, e', rfl, rfl, hle, -, -, hlocked, -, rfl⟩ := burnShares_burns hw hburn
  obtain ⟨ha, -, _, _, _, -, -, -, rfl⟩ := burnLocked_ok (by omega) hlocked
  refine World.Indexed.store hi ?_
  rw [ha]
  exact (Nat.sub_le ..).trans (initEscrow_amount w _).le

theorem list_keepsIndex {a : SetFeed} {auth : Option Key} (h : list w a auth = .ok w') :
    w'.escrows = w.escrows ∧ KeepsIndex w w' := by
  obtain ⟨asset', _, _, hmint, hacc, -, -, rfl⟩ := list_opens h
  refine ⟨rfl, fun n b hb => ?_⟩
  rcases eq_or_ne n a.assetMint with rfl | hn
  · simp only [World.storeAsset, update_self, Option.some.injEq] at hb
    subst hb
    rcases hacc with h0 | ⟨asset, ha, hmint', hacc⟩
    · exact .inl ⟨hmint, h0⟩
    · exact .inr ⟨asset, ha, hmint.trans hmint'.symm, hacc⟩
  · simp only [World.storeAsset, update_of_ne hn] at hb
    exact .inr ⟨b, hb, rfl, rfl⟩

theorem delist_keepsIndex {a : SetFeed} {asset : AssetConfig} (h : delist w a asset = .ok w') :
    w'.escrows = w.escrows ∧ KeepsIndex w w' := by
  obtain ⟨-, w₁, b, hstored, -, rfl⟩ := delist_removes h
  have hmoved : w₁.escrows = w.escrows ∧ KeepsIndex w w₁ := by
    rcases hstored with rfl | ⟨m, moved, i, hm, rfl⟩
    · exact ⟨rfl, .of_eq rfl⟩
    · exact ⟨rfl, .storeAsset hm rfl rfl⟩
  refine ⟨hmoved.1, hmoved.2.trans fun n b hb => ?_⟩
  rcases eq_or_ne n a.assetMint with rfl | hn
  · simp at hb
  · simp only [update_of_ne hn] at hb
    exact .inr ⟨b, hb, rfl, rfl⟩

/-- listing starts an index at zero; what else the owner does with a feed leaves the indices alone -/
theorem executeSetFeed_keepsIndex {a : SetFeed} (h : executeSetFeed w a = .ok w') :
    w'.escrows = w.escrows ∧ KeepsIndex w w' := by
  obtain ⟨-, t, -, h⟩ | ⟨-, asset, ha, h | ⟨_, _, _, rfl⟩⟩ := executeSetFeed_cases h
  · exact list_keepsIndex h
  · exact delist_keepsIndex h
  · exact ⟨rfl, .storeAsset ha rfl rfl⟩

/-- the instructions that lock and those that accrue; all others raise neither a lock nor an index -/
theorem step_indexed {i : Instr} (hw : w.WF) (hs : Staked w.view) (hi : w.Indexed) (h : step w i = .ok w') : w'.Indexed := by
  have hsame : w'.escrows = w.escrows → w'.assets = w.assets → w'.Indexed := fun hescrows hassets =>
    hi.keep (lockOf_of_escrows hescrows) (.of_eq hassets)
  cases i with
  | transferOwnership a | acceptOwnership a | setBeneficiar a | setRoyaltyBps a | setRevenueShareBps a | setGrinders a =>
    obtain ⟨_, _, _, _, _, _, _, rfl⟩ := step_governs rfl h
    exact hi
  | setConfig a =>
    obtain ⟨-, rfl⟩ := executeSetConfig_adjusts h
    exact hi
  | setBribeable a =>
    obtain ⟨asset, ha, rfl⟩ := executeSetBribeable_marks h
    exact hi.keep (fun _ => le_rfl) (.storeAsset ha rfl rfl)
  | setFeed a =>
    obtain ⟨hescrows, hindex⟩ := executeSetFeed_keepsIndex h
    exact hi.keep (lockOf_of_escrows hescrows) hindex
  | deposit a =>
    obtain ⟨_, _, _, _, hwf, h⟩ := executeDeposit_books hw h
    exact bookDeposit_indexed hwf hi h
  | depositSol a =>
    obtain ⟨_, _, _, _, hwf, h⟩ := executeDepositSol_books hw h
    exact bookDeposit_indexed hwf hi h
  | distribute a => exact executeDistribute_indexed hw hs hi h
  | lock a => exact executeLock_indexed hw hi h
  | unlock a => exact executeUnlock_indexed hw hi h
  | claim a =>
    simp only [step, bind_ok, Prod.exists, Except.ok.injEq] at h
    obtain ⟨_, _, h, rfl⟩ := h
    obtain ⟨hescrows, hindex⟩ := executeClaim_keepsIndex h
    exact hi.keep (lockOf_of_escrows hescrows) hindex
  | claimAll a =>
    simp only [step, bind_ok, Prod.exists, Except.ok.injEq] at h
    obtain ⟨_, _, h, rfl⟩ := h
    obtain ⟨_, h⟩ := executeClaimAll_walks h
    obtain ⟨hescrows, hindex⟩ := claimAssets_keepsIndex h
    exact hi.keep (lockOf_of_escrows hescrows) hindex
  | vote a => exact executeVote_indexed hw hi h
  | bribe a => exact executeBribe_indexed hw hs hi h
  | poach a =>
    obtain ⟨_, _, _, _, _, _, _, -, -, -, h⟩ := executePoach_slot h
    exact World.Indexed.quiet (by exact hi) (rebindSlot_booked h).quiet
  | liquidate a =>
    obtain ⟨_, _, _, -, -, -, -, -, -, rfl⟩ := executeLiquidate_opens h
    exact hi
  | redeem a => exact executeRedeem_indexed hw hi h
  | revive a =>
    obtain ⟨_, _, -, -, -, rfl⟩ := executeRevive_closes h
    exact hi
  | token s op =>
    simp only [step, bind_ok, Except.ok.injEq] at h
    obtain ⟨-, -, _, -, rfl⟩ := h
    exact hi
  | wrap k x =>
    simp only [step, bind_ok, Except.ok.injEq] at h
    obtain ⟨_, -, rfl⟩ := h
    exact hi
  | grinders k g =>
    cases h
    exact hi

/-! ## Along a run -/

theorem after_indexed (g : Genesis) (is : List Instr) : (g.after is).Indexed := by
  have hstep : ∀ w i w', w.WF → Staked w.view ∧ w.Indexed → step w i = .ok w' → Staked w'.view ∧ w'.Indexed := by
    intro w i w' hw ⟨hs, hi⟩ h
    obtain ⟨-, who, ht⟩ := step_committed hw h
    exact ⟨hs.trans ht, step_indexed hw hs hi h⟩
  refine (g.after_induct ⟨g.view ▸ .empty _, fun m asset u ha => ?_⟩ hstep is).2
  have hnone : g.world.view.asset m = none := by
    rw [g.view]
    rfl
  rw [World.view_asset ha] at hnone
  cases hnone

/-- a position settles to every smaller lock, if its lock fits and what it has pending fits -/
theorem settleLoaded_succeeds {acc old new : ℕ} {loaded : Position × Bool} (hfits : old * acc < 2 ^ 128) (hn : new ≤ old)
    (hpending : loaded.1.claimable + ((if loaded.2 then 0 else old) * acc / DIVIDEND_PRECISION - loaded.1.debt) < 2 ^ 64) :
    Succeeds (settleLoaded acc old new loaded) := by
  obtain ⟨l, hl⟩ : ∃ l, l = if loaded.2 then 0 else old := ⟨_, rfl⟩
  rw [← hl] at hpending
  have hle : l ≤ old := by
    rw [hl]
    split_ifs <;> omega
  have hold : l * acc < 2 ^ 128 := (Nat.mul_le_mul_right _ hle).trans_lt hfits
  have hnew : new * acc < 2 ^ 128 := (Nat.mul_le_mul_right _ hn).trans_lt hfits
  refine ⟨{ loaded.1 with
    claimable := loaded.1.claimable + (l * acc / DIVIDEND_PRECISION - loaded.1.debt), debt := new * acc / DIVIDEND_PRECISION }, ?_⟩
  unfold settleLoaded settle
  rw [← hl]
  simp only [bind_ok, checkedMul_ok, checkedDiv_ok, narrow_ok, checkedAdd_ok]
  have hprec : DIVIDEND_PRECISION ≠ 0 := by decide
  exact ⟨_, ⟨hold, rfl⟩, _, ⟨hprec, rfl⟩, _, ⟨(Nat.le_add_left ..).trans_lt hpending, rfl⟩, _, ⟨hpending, rfl⟩,
    _, ⟨hnew, rfl⟩, _, ⟨hprec, rfl⟩, rfl⟩

/-- what stands for a position that `load_or_init_position` gives -/
theorem loaded_pending {i u m : Key} {e : Escrow} {asset : AssetConfig} {loaded : Position × Bool} (he : w.escrows u = some e)
    (hl : loadOrInitPosition w i u m = .ok loaded) :
    loaded.1.claimable + ((if loaded.2 then 0 else e.amount) * asset.accShare / DIVIDEND_PRECISION - loaded.1.debt) =
      w.pending m asset u := by
  simp only [loadOrInitPosition, bind_ok] at hl
  obtain ⟨-, -, hl⟩ := hl
  unfold World.pending
  cases hp : w.positions (u, m) with
  | none =>
    simp only [hp, Except.ok.injEq] at hl
    subst hl
    simp [Position.empty]
  | some position =>
    simp only [hp, Except.ok.injEq] at hl
    subst hl
    simp [World.lockOf_some he]

/-- **Exits.** After every run, while the vault of an asset and the number of lock changes stay within 64 bits, the position of
every lock in it settles to every smaller size. The two bounds are on amounts, as the accounts hold them; the products of the
index need no bound, since whoever enlarged a lock or raised an index has formed them before. -/
theorem exit_settles (g : Genesis) (is : List Instr) {u m : Key} {e : Escrow} {asset : AssetConfig} {n : ℕ}
    {loaded : Position × Bool} (he : (g.after is).escrows u = some e) (ha : (g.after is).assets m = some asset)
    (hroom : (g.after is).vaultOf m + g.lockChanges m is < 2 ^ 64)
    (hl : loadOrInitPosition (g.after is) (.position u m) u m = .ok loaded) (hn : n ≤ e.amount) :
    Succeeds (settleLoaded asset.accShare e.amount n loaded) := by
  have hfits : e.amount * asset.accShare < 2 ^ 128 := by
    have h := after_indexed g is m asset u ha
    rwa [World.lockOf_some he] at h
  refine settleLoaded_succeeds hfits hn ?_
  rw [loaded_pending he hl]
  have hpending : (g.after is).pending m asset u ≤ asset.totalClaimable + g.lockChanges m is := by
    simpa using (after_overhung g m is).within asset ha {u}
  have hcovered : asset.totalClaimable ≤ (g.after is).vaultOf m := after_covered g is ha
  omega

theorem lockChanges_le (g : Genesis) (m : Key) (is : List Instr) : g.lockChanges m is ≤ is.length := by
  refine tally_le_length (fun w i w' => ?_) _ _
  unfold lockChange
  split_ifs <;> omega

/-- wallet 2 locks 1000 shares, and a dividend of 500 accrues to them -/
def dividendOnALock : List Instr :=
  [Sample.listing Sample.usdc false, Sample.deposit 2 1000 .default (List.replicate 3 .default),
    Sample.lock 2 1000 [Sample.usdc], Sample.distribute 3 1000 Sample.usdc]

theorem exit_settles_after_dividend : Succeeds (settleLoaded (10 ^ 18 / 2) 1000 0 (⟨0, 0, 0⟩, false)) := by
  obtain ⟨e, he⟩ : ∃ e, (Sample.genesis.after dividendOnALock).escrows (Sample.user 2) = some e ∧ e.amount = 1000 :=
    ⟨⟨1000, 0, 0, 0, 0, 255⟩, by decide +kernel, rfl⟩
  obtain ⟨asset, ha⟩ : ∃ asset, (Sample.genesis.after dividendOnALock).assets Sample.usdc = some asset ∧
      asset.accShare = 10 ^ 18 / 2 :=
    ⟨⟨Sample.usdc, .key 200, false, false, 0, 10 ^ 18 / 2, 500, 1000, 0⟩, by decide +kernel, rfl⟩
  have hvault : (Sample.genesis.after dividendOnALock).vaultOf Sample.usdc = 500 := by decide +kernel
  have hchanges := lockChanges_le Sample.genesis Sample.usdc dividendOnALock
  have hlength : dividendOnALock.length = 4 := rfl
  rw [← ha.2, ← he.2]
  exact exit_settles Sample.genesis dividendOnALock he.1 ha.1 (by omega) (by decide +kernel) (Nat.zero_le _)

end Grindurus.Grai
