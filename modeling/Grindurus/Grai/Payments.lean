/-
Payments out of the vaults.

`Fine k` are all errors but one: the account at `k` lacks balance. Each helper fails with fine errors only, if what it sends
out of `k` is there; the handlers send what arrived before, what they capped, or their part of what is beyond the reserve.

- `step_fine`: no instruction of the program lacks balance in the vault of a listed asset.
- `reserved`: after every run the vaults hold what is reserved for claims, and redeems and revives leave it there.

The proofs follow the instructions check by check: whatever a check fails with is fine, so only the transfers are left, and for
each of them the balance is there. A handler that has received tokens first (a distribution, a bribe) sends on part of what it
received. A claim pays what its position has pending, which is reserved. A redeem pays a share of what is beyond the reserve. The
shares themselves are another mint, so that burning them never concerns the vault of a listed asset (`World.WF.unlisted`).
-/
import Grindurus.Grai.Reserve

namespace Grindurus.Grai

open Checked TokenBank RewardIndex Machine

/-! ## Tokens and accounts -/

/-- every error but that the account at `k` lacks balance -/
def Fine (k : Key) : Set ErrorCode := {e | e ≠ .token (.insufficientFunds k)}

variable {k src dst auth : Key} {b b' : Bank Key} {x : ℕ} {w w' : World}

@[simp] theorem mem_fine {e : ErrorCode} : e ∈ Fine k ↔ e ≠ .token (.insufficientFunds k) := Iff.rfl

@[simp] theorem throws_spl {α : Type} {S : Set ErrorCode} {r : Except (TokenError Key) α} :
    Throws S (spl r) ↔ Throws {e | .token e ∈ S} r := by
  cases r <;> simp [spl, Except.mapError]

@[simp] theorem throws_mapError_oracle {α : Type} {r : Except ℕ α} : Throws (Fine k) (r.mapError ErrorCode.oracle) := by
  cases r <;> simp [Except.mapError]

theorem fine_funded : Bank.Funded k = {e | .token e ∈ Fine k} := by
  ext e
  simp

theorem transfer_fine (h : src = k → x ≤ b.balance src) : Throws {e | .token e ∈ Fine k} (b.transfer src dst auth x) :=
  fine_funded ▸ Bank.transfer_throws h

theorem burn_fine {m : Key} (h : src = k → x ≤ b.balance src) : Throws {e | .token e ∈ Fine k} (b.burn m src auth x) :=
  fine_funded ▸ Bank.burn_throws h

theorem transferFromVault_fine (h : src = k → x ≤ b.balance src) : Throws (Fine k) (transferFromVault b src dst x) := by
  unfold transferFromVault
  split_ifs
  · simp
  · exact throws_spl.2 (transfer_fine h)

@[simp] theorem loadTokenAccount_fine : Throws (Fine k) (loadTokenAccount b src) := by simp [loadTokenAccount]
@[simp] theorem loadMint_fine : Throws (Fine k) (loadMint b src) := by simp [loadMint]
@[simp] theorem loadGraiMint_fine : Throws (Fine k) (loadGraiMint w) := by simp [loadGraiMint]
@[simp] theorem initTokenAccount_fine {m o : Key} : Throws (Fine k) (initTokenAccount b src m o) := by
  unfold initTokenAccount
  split <;> simp [Bank.openAccount]
@[simp] theorem initAta_fine {m : Key} : Throws (Fine k) (initAta b src m) := initTokenAccount_fine
@[simp] theorem initVault_fine : Throws (Fine k) (initVault b src) := initTokenAccount_fine
@[simp] theorem loadCustody_fine {m : Key} : Throws (Fine k) (loadCustody b src m) := by simp [loadCustody]
@[simp] theorem loadOwned_fine {m o : Key} {e : ErrorCode} (he : e ∈ Fine k) : Throws (Fine k) (loadOwned b src m o e) := by
  simp_all [loadOwned]
@[simp] theorem loadEscrow_fine {u : Key} : Throws (Fine k) (loadEscrow w u) := by simp [loadEscrow]
@[simp] theorem previewUnlock_fine {g l bps : ℕ} : Throws (Fine k) (previewUnlock g l bps) := by
  unfold previewUnlock
  simp
  intro _
  split_ifs <;> simp
@[simp] theorem settle_fine {a o n : ℕ} {p : Position} : Throws (Fine k) (settle a o n p) := by simp [settle]
@[simp] theorem settleLoaded_fine {a o n : ℕ} {p : Position × Bool} : Throws (Fine k) (settleLoaded a o n p) := settle_fine
@[simp] theorem loadAssetConfig_fine {i m : Key} : Throws (Fine k) (loadAssetConfig w i m) := by simp [loadAssetConfig]
@[simp] theorem requireVaultPda_fine {i m : Key} : Throws (Fine k) (requireVaultPda w i m) := by simp [requireVaultPda]
@[simp] theorem requireHolderAta_fine {i u m : Key} : Throws (Fine k) (requireHolderAta i u m) := by simp [requireHolderAta]
@[simp] theorem loadOrInitPosition_fine {i u m : Key} : Throws (Fine k) (loadOrInitPosition w i u m) := by
  unfold loadOrInitPosition
  refine .bind (by simp) fun _ _ => ?_
  split <;> simp
@[simp] theorem settlePairs_fine {u : Key} {o n : ℕ} {ms rs : List Key} : Throws (Fine k) (settlePairs u o n ms rs w) := by
  induction ms generalizing rs w with
  | nil => simp [settlePairs]
  | cons m ms ih => rcases rs with _ | ⟨i, _ | ⟨j, rs⟩⟩ <;> simp [settlePairs, settlePair, ih]
@[simp] theorem settleQuads_fine {u : Key} {o n : ℕ} {ms rs : List Key} : Throws (Fine k) (settleQuads u o n false ms rs w) := by
  induction ms generalizing rs w with
  | nil => simp [settleQuads]
  | cons m ms ih => rcases rs with _ | ⟨i, _ | ⟨j, _ | ⟨v, _ | ⟨t, rs⟩⟩⟩⟩ <;> simp [settleQuads, settleQuad, ih]

theorem transferFromSigner_fine {s : Signer} (h : src ≠ k) : Throws (Fine k) (transferFromSigner b src dst s x) := by
  unfold transferFromSigner
  split_ifs
  · simp
  · exact throws_spl.2 (transfer_fine fun he => absurd he h)

theorem loadOwned_ne {g m n : Key} {s : Signer} {e : ErrorCode} {a : TokenAccount Key} (hb : Guarded b g)
    (h : loadOwned b src m s.key e = .ok a) (hk : k.custodyMint = some n) : src ≠ k := by
  simp only [loadOwned, loadTokenAccount, bind_ok, demand_ok, require_ok, Except.ok.injEq] at h
  obtain ⟨a', ha, -, -, -, ho, rfl⟩ := h
  exact (hb.signer_ne ha ho hk).symm

theorem performLock_fine {e : Escrow} {s : Signer} {rs : List Key} (h : src ≠ k) :
    Throws (Fine k) (performLock w e x src s rs) := by
  simp [performLock, settleAllPairs, transferFromSigner_fine h]

theorem executeLock_fine {a : Lock} {n : Key} (hw : w.WF) (hk : k.custodyMint = some n) : Throws (Fine k) (executeLock w a) := by
  unfold executeLock
  refine .bind (by simp) fun _ _ => .bind (by simp) fun ata hata => ?_
  simp [performLock_fine (loadOwned_ne hw.guarded hata hk)]

theorem executeVote_fine {a : Vote} {n : Key} (hw : w.WF) (hk : k.custodyMint = some n) : Throws (Fine k) (executeVote w a) := by
  unfold executeVote
  refine .bind (by simp) fun _ _ => .bind (by simp) fun ata hata => ?_
  have hauto : ∀ w e need wallet, Throws (Fine k) (autoLock w e need wallet a.voterGraiAta a.voter a.remaining) := by
    intro w e need wallet
    unfold autoLock
    split_ifs
    · simp [performLock_fine (loadOwned_ne hw.guarded hata hk)]
    · simp
  simp [hauto, performVote, settleAllPairs]

theorem clampVote_fine {s : GraiState} {e : Escrow} {u : Key} : Throws (Fine k) (clampVote s e u) := by
  unfold clampVote
  split_ifs <;> simp

theorem executeUnlock_fine {a : Unlock} (hk : Key.vault w.state.graiMint ≠ k) : Throws (Fine k) (executeUnlock w a) := by
  simp [executeUnlock, settleAllQuads, clampVote_fine, transferFromVault_fine (fun he => absurd he hk)]

/-! ## Yield and bribes -/

@[simp] theorem bpsOf_fine {n bps : ℕ} : Throws (Fine k) (bpsOf n bps) := by simp [bpsOf]

@[simp] theorem mulDiv_fine {p q d : ℕ} : Throws (Fine k) (mulDiv p q d) := by simp [mulDiv]

@[simp] theorem splitCuts_fine {n : ℕ} {cfg : Config} : Throws (Fine k) (splitCuts n cfg) := by simp [splitCuts]

/-- an accrual is arithmetic on the row of the asset; it sends nothing -/
@[simp] theorem accrueCut_fine {asset : AssetConfig} {cut eligible : ℕ} : Throws (Fine k) (accrueCut asset cut eligible) := by
  have hindex : Throws (Fine k) (indexIncrease cut eligible) := by
    unfold indexIncrease
    split_ifs <;> simp
  unfold accrueCut distributeDividend
  split_ifs
  · simp
  · simp only [throws_bind, hindex, true_and]
    intro inc _
    split_ifs
    · simp
    · simp
      intros
      split_ifs <;> simp
  · simp

/-- the cuts are paid out of the pool, which is in the vault -/
theorem fundCuts_fine {asset : AssetConfig} {m : Key} {pool : ℕ} (h : pool ≤ w.vaultOf m) :
    Throws (Fine k) (fundCuts w asset m pool) := by
  unfold fundCuts
  refine .bind (by simp) fun ⟨treasury, dividend⟩ hsplit => .bind (by simp) fun ⟨asset', dust⟩ haccrue =>
    .bind (by simp) fun out hout => .bind (transferFromVault_fine fun _ => ?_) fun _ _ => by simp
  have hsum := (splitCuts_ok hsplit).1
  obtain ⟨acc, r, -, -, hdust, -⟩ := accrueCut_ok haccrue
  obtain ⟨-, hadd⟩ := checkedAdd_ok.1 hout
  have h : pool ≤ w.bank.balance (.vault m) := h
  omega

/-- the cuts are parts of the yield that has just arrived in the vault -/
theorem executeDistribute_fine {a : Distribute} {n : Key} (hw : w.WF) (hk : k.custodyMint = some n) :
    Throws (Fine k) (executeDistribute w a) := by
  unfold executeDistribute
  have hload : Throws (Fine k) (a.load w) := by simp [Distribute.load, loadAssetAccount, loadFeed]
  refine .bind hload fun asset h => .bind (by simp) fun _ _ => .bind (by simp) fun _ _ => .bind (by simp) fun _ _ => ?_
  obtain ⟨source, hsource⟩ : ∃ t, loadOwned w.bank a.custodyAta a.assetMint a.custodyWallet.key .invalidDepositSource = .ok t := by
    simp only [Distribute.load, bind_ok] at h
    obtain ⟨_, -, _, -, -, -, _, -, t, ht, -⟩ := h
    exact ⟨t, ht⟩
  refine .bind (transferFromSigner_fine (loadOwned_ne hw.guarded hsource hk)) fun b hb => ?_
  -- the yield has arrived in the vault
  have harrived := (transferFromSigner_moves w.state.graiMint hb).vault hw.guarded a.assetMint
  rw [Pi.single_eq_same] at harrived
  have hpool : a.yieldAmount ≤ ({ w with bank := b } : World).vaultOf a.assetMint := by
    show a.yieldAmount ≤ b.balance (.vault a.assetMint)
    omega
  simp [fundCuts_fine hpool]

@[simp] theorem Bribe.load_fine {a : Bribe} : Throws (Fine k) (a.load w) := by simp [Bribe.load, loadAssetAccount]

@[simp] theorem perSupply_fine {p q s : ℕ} : Throws (Fine k) (perSupply p q s) := by
  unfold perSupply
  split_ifs <;> simp

@[simp] theorem pow10_fine {n : ℕ} : Throws (Fine k) (pow10 n) := by simp [pow10]

/-- the ask is arithmetic; its failures are those of the checked steps -/
@[simp] theorem previewBribe_fine {g s v t q p d : ℕ} {price : PriceData} :
    Throws (Fine k) (previewBribe g s v t q p d price) := by
  have hscarce : ∀ book maxAdj half vote span, Throws (Fine k) (scarceAsk book maxAdj half vote span) := by
    intros
    simp [scarceAsk]
  have hexcess : ∀ book maxAdj half vote span, Throws (Fine k) (excessAsk book maxAdj half vote span) := by
    intros
    unfold excessAsk
    simp
    intros
    split_ifs <;> simp
  unfold previewBribe
  simp only [throws_bind, settlementAmount]
  simp
  intros
  split_ifs <;> simp [hscarce, hexcess]

theorem bribeCutPool_fine {received bribe premium discount : ℕ} :
    Throws (Fine k) (bribeCutPool received bribe premium discount) := by
  unfold bribeCutPool
  split_ifs <;> simp

/-- the cuts and the voter are paid out of the payment, which is in the vault -/
theorem payBribe_fine {asset : AssetConfig} {m u : Key} {received bribe premium discount : ℕ} (hw : w.WF)
    (h : received ≤ w.vaultOf m) : Throws (Fine k) (payBribe w asset m u received bribe premium discount) := by
  unfold payBribe
  refine .bind bribeCutPool_fine fun pool _ => .bind (by simp) fun cut hcut => ?_
  obtain ⟨hle, rfl⟩ := checkedSub_ok.1 hcut
  refine .bind (fundCuts_fine (hle.trans h)) fun ⟨asset', b⟩ hfund => .bind (transferFromVault_fine fun _ => ?_) fun _ _ => by simp
  obtain ⟨acc, r, gain, -, hsum, -, -, -, hmoves⟩ := fundCuts_ok hw.config hfund
  have hv := hmoves.vault hw.guarded m
  simp only [Pi.sub_apply, Pi.single_eq_same, ne_eq, reduceCtorEq, not_false_eq_true, Pi.single_eq_of_ne] at hv
  have h : received ≤ w.bank.balance (.vault m) := h
  omega

theorem Bribe.load_source {a : Bribe} {r : MintAccount Key × Escrow × MintAccount Key × AssetConfig × Bank Key} {n : Key}
    (hw : w.WF) (h : a.load w = .ok r) (hk : k.custodyMint = some n) : a.briberSettlementAta ≠ k := by
  simp only [Bribe.load, bind_ok] at h
  obtain ⟨_, -, _, -, _, -, _, -, -, -, -, -, -, -, -, -, b, hb, _, hsource, -⟩ := h
  exact loadOwned_ne ((initAta_moves w.state.graiMint hb).guarded hw.guarded) hsource hk

/-- the briber has paid the ask into the vault before the shares of it are sent on, and the shares bought come out of the vault
of GRAI -/
theorem executeBribe_fine {a : Bribe} {n : Key} (hw : w.WF) (hk : k.custodyMint = some n)
    (hgrai : Key.vault w.state.graiMint ≠ k) : Throws (Fine k) (executeBribe w a) := by
  unfold executeBribe
  refine .bind (by simp) fun r hload => ?_
  obtain ⟨mint, e, settlementMint, asset, b⟩ := r
  refine .bind (by simp) fun _ _ => .bind (by simp) fun _ hx => .bind (by simp) fun _ _ =>
    .bind (by simp [fetchPriceFromFeed]) fun price _ => .bind (by simp) fun q _ => ?_
  obtain ⟨bribe, premium, discount⟩ := q
  refine .bind (by simp) fun n hn => .bind (by simp [settleAllPairs]) fun w₁ hs => ?_
  obtain ⟨he, -, hb⟩ := Bribe.load_ok hload
  have hw₁ := hw.bank hb
  obtain ⟨ps, rfl, hps⟩ := settleAllPairs_ok hw₁.nodup hs
  obtain ⟨-, rfl⟩ := checkedSub_ok.1 hn
  have hbuy : ∀ w : World, Key.vault w.state.graiMint ≠ k → Throws (Fine k) (buyOut w e a.graiAmount a.briber.key) := by
    intro w hne
    simp [buyOut, transferFromVault_fine fun he => absurd he hne]
  refine .bind (hbuy _ hgrai) fun r hbuy => ?_
  obtain ⟨w₂, e'⟩ := r
  refine .bind (transferFromSigner_fine (Bribe.load_source hw hload hk)) fun b₁ hb₁ => ?_
  obtain ⟨hwf, -⟩ := buyOut_step hw₁ he hps (require_ok.1 hx) hbuy
  -- the payment has arrived in the vault
  have hmoves := transferFromSigner_moves w₂.state.graiMint hb₁
  have harrived := hmoves.vault hwf.guarded a.settlementMint
  rw [Pi.single_eq_same] at harrived
  refine .bind (payBribe_fine (hwf.bank hmoves) ?_) fun _ _ => by simp
  show bribe ≤ b₁.balance (.vault a.settlementMint)
  omega

/-! ## Claims -/

theorem transferFromVault_left (h : transferFromVault b src dst x = .ok b') (k : Key) : b.balance k ≤ b'.balance k + x := by
  unfold transferFromVault at h
  split_ifs at h
  · cases h
    exact Nat.le_add_right ..
  · exact Bank.transfer_debit (spl_ok.1 h)

/-- the holder and the tip are paid out of what is claimed, which is in the vault -/
theorem payClaim_fine {claimed tip : ℕ} {vault holderAta tipAta : Key} (h : claimed ≤ b.balance vault) :
    Throws (Fine k) (payClaim b claimed tip vault holderAta tipAta) := by
  unfold payClaim
  refine .bind (by simp) fun x _ => .bind (by simp) fun rest hrest => ?_
  obtain ⟨hle, rfl⟩ := checkedSub_ok.1 hrest
  split_ifs
  · exact transferFromVault_fine fun _ => h
  · refine .bind (transferFromVault_fine fun _ => by omega) fun b₁ hb₁ => transferFromVault_fine fun _ => ?_
    have hleft := transferFromVault_left hb₁ vault
    omega

theorem tryPayFromTreasury_fine {treasury destination payee : Key} (h : treasury ≠ k) :
    Throws (Fine k) (tryPayFromTreasury b treasury destination payee x) := by
  unfold tryPayFromTreasury
  split_ifs
  · simp
  · simp
  · split
    · simp
    · split_ifs
      · simp
      · simp [transferFromVault_fine fun he => absurd he h]

/-- along the ancestors the payments come out of the treasury, and one that cannot be made is skipped -/
theorem affiliateWalk_fine {d : Distribution} {levels level : ℕ} {cur : Key} {s : Split} (h : Key.treasury d.mint ≠ k) :
    Throws (Fine k) (affiliateWalk w d levels level cur s) := by
  induction levels generalizing level cur s with
  | zero => simp [affiliateWalk]
  | succ levels ih =>
    have hlevel : ∀ share referrer book nftAta destination,
        Throws (Fine k) (payLevel d level share referrer book nftAta destination s) := by
      intro share referrer book nftAta destination
      unfold payLevel
      split
      · simp
      · refine .bind (tryPayFromTreasury_fine h) fun r _ => ?_
        obtain ⟨bank, paid⟩ := r
        dsimp only
        split_ifs <;> simp
    unfold affiliateWalk
    refine .bind (by simp) fun _ _ => .bind (by simp) fun _ _ => .bind (by simp) fun _ _ => ?_
    split
    · simp
    · simp [hlevel, ih]

/-- the split is paid from the treasury of the asset, which is no vault -/
theorem splitGross_fine {d : Distribution} (h : Key.treasury d.mint ≠ k) : Throws (Fine k) (splitGross w d) := by
  have hrevenue : Throws (Fine k) (splitRevenue w d) := by
    unfold splitRevenue
    split_ifs
    · exact affiliateWalk_fine h
    · simp
  have hpay : ∀ net s, Throws (Fine k) (payBeneficiar w d net s) := by
    intro net s
    unfold payBeneficiar
    split_ifs
    · simp [tryPayFromTreasury_fine h]
    · simp
  unfold splitGross
  split_ifs
  · simp
  · refine .bind (by simp) fun t _ => ?_
    split_ifs
    · simp
    · simp [hrevenue, netShare, hpay]

/-- crediting the books sends nothing; a missing book is an error of its own -/
@[simp] theorem creditBooks_fine {locker : Key} {value levels : ℕ} {remaining : List Key} {required : Bool} :
    Throws (Fine k) (creditBooks w locker value levels remaining required) := by
  have hlevel : ∀ level up, Throws (Fine k) (creditLevel level value up) := by
    intro level up
    unfold creditLevel
    split_ifs <;> simp
  have huplines : ∀ levels level key w, Throws (Fine k) (creditUplines locker value remaining required levels level key w) := by
    intro levels
    induction levels with
    | zero => simp [creditUplines]
    | succ levels ih =>
      intro level key w
      unfold creditUplines
      split_ifs
      · simp
      · split
        · refine .bind (hlevel _ _) fun _ _ => ?_
          split_ifs
          · simp
          · exact ih _ _ _
        · simp
  unfold creditBooks
  split_ifs
  · simp
  · split
    · simp
    · simp [huplines]

theorem distributeClaimTreasury_fine {d : Distribution} (h : Key.treasury d.mint ≠ k) :
    Throws (Fine k) (distributeClaimTreasury w d) := by
  simp [distributeClaimTreasury, creditClaim, splitGross_fine h]

theorem payOut_fine {p : Payout} {asset : AssetConfig} {position : Position} (ht : Key.treasury p.mint ≠ k)
    (h : p.claimed ≤ w.vaultOf p.mint) : Throws (Fine k) (payOut w p asset position) := by
  have hshares : ∀ c t d r, Throws (Fine k) (claimTreasuryShares c t d r) := by
    intro c t d r
    unfold claimTreasuryShares
    split_ifs <;> simp
  have hdist : ∀ v gross revenue, Throws (Fine k) (distributeClaimTreasury v (p.distribution gross revenue)) :=
    fun v gross revenue => distributeClaimTreasury_fine ht
  have hclaim : ∀ tip holder payer, Throws (Fine k) (payClaim w.bank p.claimed tip (.vault p.mint) holder payer) :=
    fun tip holder payer => payClaim_fine h
  simp [payOut, hclaim, hshares, hdist]

@[simp] theorem usdValue_fine {n d : ℕ} {price : PriceData} : Throws (Fine k) (usdValue n d price) := by
  unfold usdValue
  split_ifs <;> simp

@[simp] theorem fetchPriceFromFeed_fine {feed : Feed} {asset : AssetConfig} : Throws (Fine k) (fetchPriceFromFeed feed asset) := by
  simp [fetchPriceFromFeed]

theorem executeClaim_fine {a : Claim} (ht : ∀ m, Key.treasury m ≠ k) : Throws (Fine k) (executeClaim w a) := by
  unfold executeClaim
  have hload : Throws (Fine k) (a.load w) := by simp [Claim.load, loadAssetAccount, loadFeed]
  refine .bind hload fun r _ => ?_
  obtain ⟨escrow, mint, asset, b⟩ := r
  refine .bind (by simp) fun _ _ => .bind (by simp) fun _ _ => .bind (by simp) fun position _ => ?_
  dsimp only
  split_ifs
  · simp
  · simp
  · refine .bind (by simp [fetchAssetPrice]) fun _ _ => .bind (by simp) fun _ _ => payOut_fine (ht _) ?_
    exact (min_le_left _ _).trans (min_le_right _ _)

/-- by induction on the listed assets -/
theorem claimAssets_fine {a : ClaimAll} {locked tail : ℕ} {mints remaining : List Key} (ht : ∀ m, Key.treasury m ≠ k) :
    Throws (Fine k) (claimAssets a locked tail mints remaining w) := by
  have hasset : ∀ w mint slots affiliate, Throws (Fine k) (claimAsset w a locked mint slots affiliate) := by
    intro w mint slots affiliate
    unfold claimAsset
    refine .bind (by simp) fun _ _ => .bind (by simp) fun asset _ => .bind (by simp) fun _ _ => .bind (by simp) fun _ _ =>
      .bind (by simp) fun _ _ => .bind (by simp) fun _ _ => .bind (by simp) fun _ _ => .bind (by simp) fun _ _ =>
      .bind (by simp) fun position _ => ?_
    dsimp only
    split_ifs
    · simp
    · refine .bind (by simp) fun _ _ => .bind (by simp) fun _ _ => .bind (by simp) fun _ _ => .bind (by simp) fun _ _ =>
        payOut_fine (ht _) ?_
      exact (min_le_left _ _).trans (min_le_right _ _)
  induction mints generalizing remaining w with
  | nil => simp [claimAssets]
  | cons m mints ih => simp [claimAssets, hasset, ih]

/-! ## Liquidation -/

theorem executeLiquidate_fine {a : Liquidate} (hgrai : Key.vault w.state.graiMint ≠ k) : Throws (Fine k) (executeLiquidate w a) := by
  simp [executeLiquidate, grindersGrinding, transferFromVault_fine fun he => absurd he hgrai]

/-- each vault pays its part of what it holds beyond its reserve -/
theorem payShares_fine {assets : Key → Option AssetConfig} {g s : ℕ} {holder : Key} {mints : List Key} (hg : g ≤ s) :
    Throws (Fine k) (payShares assets g s holder mints b) := by
  induction mints generalizing b with
  | nil => simp [payShares]
  | cons m mints ih =>
    have hshare : ∀ balance, Throws (Fine k) (previewLiquidateShare balance g s) := by
      intro balance
      unfold previewLiquidateShare
      split_ifs <;> simp
    unfold payShares payShare
    refine .bind (.bind (by simp) fun asset _ => .bind (by simp) fun _ _ => .bind (by simp) fun vault hvault =>
      .bind (hshare _) fun x hx => transferFromVault_fine fun _ => ?_) fun _ _ => ih
    rw [loadCustody_ok hvault]
    exact (previewLiquidateShare_le hx hg).trans (Nat.sub_le ..)

theorem sweepVaults_fine {assets : Key → Option AssetConfig} {grinders : Key} {mints : List Key} :
    Throws (Fine k) (sweepVaults assets grinders mints b) := by
  induction mints generalizing b with
  | nil => simp [sweepVaults]
  | cons m mints ih =>
    unfold sweepVaults sweepVault
    exact .bind (.bind (by simp) fun asset _ => transferFromVault_fine fun _ => Nat.sub_le ..) fun _ _ => ih

/-- of the shares burned, those of the wallet are the holder's, and the rest is on the GRAI vault -/
theorem burnShares_fine {a : Redeem} {wallet value : ℕ} (hw : w.WF) (hsource : a.holderGraiAta ≠ k)
    (hgrai : Key.vault w.state.graiMint ≠ k) : Throws (Fine k) (burnShares w a wallet value) := by
  have hwallet : ∀ w x, Throws (Fine k) (burnWallet w a.holderGraiAta a.holder x) := by
    intro w x
    unfold burnWallet
    split_ifs
    · exact throws_spl.2 (burn_fine fun he => absurd he hsource)
    · simp
  have hlocked : ∀ w e x n u, Key.vault w.state.graiMint ≠ k → Throws (Fine k) (burnLocked w e x n u) := by
    intro w e x n u hne
    unfold burnLocked
    split_ifs
    · refine .bind (by simp) fun _ _ => .bind clampVote_fine fun ⟨s, e'⟩ hs => .bind (throws_spl.2 (burn_fine fun he => ?_))
        fun _ _ => by simp
      obtain ⟨-, -, -, hs⟩ := clampVote_ok hs
      rw [hs] at he
      exact absurd he hne
    · simp
  unfold burnShares
  refine .bind (by simp) fun n _ => .bind (by simp [settleAllQuads]) fun w₁ hs => ?_
  obtain ⟨ps, rfl, -⟩ := settleAllQuads_ok hw.nodup hs
  refine .bind (hwallet _ _) fun b _ => .bind (hlocked _ _ _ _ _ hgrai) fun _ _ => by simp

/-- after the burn every asset is paid its share of what is beyond the reserve -/
theorem executeRedeem_fine {a : Redeem} {n : Key} (hw : w.WF) (hk : k.custodyMint = some n)
    (hgrai : Key.vault w.state.graiMint ≠ k) : Throws (Fine k) (executeRedeem w a) := by
  have hvalue : ∀ g s t, Throws (Fine k) (liquidateValue g s t) := by
    intro g s t
    unfold liquidateValue
    split_ifs <;> simp
  unfold executeRedeem
  refine .bind (by simp) fun mint hmint => .bind (by simp) fun wallet hwallet => .bind (by simp) fun _ _ =>
    .bind (by simp) fun _ _ => .bind (throws_checkedAddI64 (by simp)) fun _ _ => .bind (by simp) fun _ _ =>
    .bind (by simp) fun _ _ => .bind (by simp) fun _ _ => .bind (by simp) fun _ _ => .bind (hvalue _ _ _) fun _ _ =>
    .bind (by simp) fun _ _ => .bind (burnShares_fine hw (loadOwned_ne hw.guarded hwallet hk) hgrai) fun w₁ hburn => ?_
  obtain ⟨-, -, -, hle, -⟩ := burnShares_ok hw hburn
  rw [← loadGraiMint_ok hmint] at hle
  exact .bind (payShares_fine hle) fun _ _ => by simp

theorem executeRevive_fine {a : Revive} : Throws (Fine k) (executeRevive w a) := by
  have hquints : ∀ w mints remaining, Throws (Fine k) (checkQuints w mints remaining) := by
    intro w mints
    induction mints with
    | nil => simp [checkQuints]
    | cons m mints ih =>
      intro remaining
      rcases remaining with _ | ⟨_, _ | ⟨_, _ | ⟨_, _ | ⟨_, _ | ⟨_, rest⟩⟩⟩⟩⟩ <;> simp [checkQuints, checkQuint, ih]
  have hadd : ∀ p q : ℤ, Throws (Fine k) (checkedAddI64 p q ErrorCode.mathOverflow) :=
    fun p q => throws_checkedAddI64 (by simp)
  simp [executeRevive, hquints, hadd, sweepVaults_fine, heartbeat]

theorem list_fine {a : SetFeed} {auth : Option Key} : Throws (Fine k) (list w a auth) := by
  have hvault : ∀ b k' m, Throws (Fine k) (ensureVault b k' m) := by
    intro b k' m
    unfold ensureVault
    split <;> simp [Bank.openAccount]
  have hconfig : ∀ w m f p i q, Throws (Fine k) (ensureAssetConfig w m f p i q) := by
    intro w m f p i q
    unfold ensureAssetConfig
    split <;> simp
  simp [list, hvault, hconfig]

/-- a delisting closes the treasury if it is empty, and moves no tokens -/
theorem delist_fine {a : SetFeed} {asset : AssetConfig} : Throws (Fine k) (delist w a asset) := by
  have hmoved : ∀ m i, Throws (Fine k) (relabelMoved w a m i) := by
    intro m i
    unfold relabelMoved
    split_ifs
    · split <;> simp
    · simp
  have hclose : ∀ b t, Throws (Fine k) (closeTreasuryVaultIfEmpty b t) := by
    intro b t
    unfold closeTreasuryVaultIfEmpty
    split <;> simp [Bank.closeAccount]
  simp only [delist, throws_bind, hclose]
  simp
  intros
  split_ifs <;> simp [hmoved]

theorem executeSetFeed_fine {a : SetFeed} : Throws (Fine k) (executeSetFeed w a) := by
  unfold executeSetFeed
  refine .bind (by simp) fun t _ => .bind (by simp [requireOwner]) fun _ _ => ?_
  split
  · simp [list_fine]
  · refine .bind (by simp) fun _ _ => .bind (by simp) fun asset _ => .bind (by simp) fun _ _ => ?_
    split_ifs
    · simp
    · exact delist_fine
    · simp

theorem executeClaimAll_fine {a : ClaimAll} (ht : ∀ m, Key.treasury m ≠ k) : Throws (Fine k) (executeClaimAll w a) := by
  simp [executeClaimAll, claimAssets_fine ht]

/-! ## Deposits and poaches -/

theorem floydWalk_fine {locker target slow fast : Key} {pool : List Key} {fuel : ℕ} :
    Throws (Fine k) (floydWalk w locker target pool fuel slow fast) := by
  induction fuel generalizing slow fast with
  | zero => simp [floydWalk]
  | succ fuel ih =>
    unfold floydWalk
    split
    · simp
    · exact ih

@[simp] theorem hasReferralLoop_fine {locker target : Key} {pool : List Key} :
    Throws (Fine k) (hasReferralLoop w locker target pool) := by
  unfold hasReferralLoop
  split_ifs
  · simp
  · exact floydWalk_fine

/-- the NFT of a book is a mint of its own -/
theorem ensureTreasuryNft_fine {book : Referrer} {locker nftAta : Key} :
    Throws (Fine k) (ensureTreasuryNft w book locker nftAta) := by
  have hheld : ∀ b nftAta locker mint held, Throws (Fine k) (requireLockerNftAta b nftAta locker mint held) := by
    intro b nftAta locker mint held
    unfold requireLockerNftAta
    refine .bind (by simp) fun _ _ => ?_
    split <;> simp
  have hmint : ∀ b mint, Throws (Fine k) (initTreasuryNftMint b mint) := by
    intro b mint
    unfold initTreasuryNftMint
    split <;> simp [Bank.createMint]
  have hata : ∀ b nftAta locker mint, Throws (Fine k) (createNftAta b nftAta locker mint) := by
    intro b nftAta locker mint
    unfold createNftAta
    split <;> simp [Bank.openAccount]
  unfold ensureTreasuryNft
  split_ifs
  · simp
  · refine .bind (hheld _ _ _ _ _) fun _ _ => ?_
    split_ifs
    · simp [hheld]
    · simp [hheld, hmint, hata, mintTreasuryNft, Bank.mintTo, Bank.setMintAuthority]

/-- binding a referrer mints an NFT and writes books -/
theorem mintReferrer_fine {locker referrer nftAta : Key} {value : ℕ} {remaining : List Key} :
    Throws (Fine k) (mintReferrer w locker referrer value remaining nftAta) := by
  have hresolve : ∀ w, Throws (Fine k) (resolveReferrer w locker referrer remaining) := by
    intro w
    unfold resolveReferrer
    split_ifs
    · simp
    · simp
    · refine .bind (by simp [requireValidReferrer]) fun _ _ => .bind (by simp) fun status _ => ?_
      cases status <;> simp
  have hadopt : ∀ w book referrer levels, Throws (Fine k) (adoptReferrals w book referrer levels remaining) := by
    intro w book referrer levels
    unfold adoptReferrals
    refine .bind (by simp) fun _ _ => .bind ?_ fun _ _ => by simp
    split_ifs <;> simp
  have hbind : ∀ w book levels, Throws (Fine k) (bindReferrer w book locker referrer levels remaining) := by
    intro w book levels
    unfold bindReferrer
    split_ifs
    · simp
    · refine .bind (hresolve _) fun _ _ => .bind ?_ fun _ _ => by simp
      split_ifs
      · simp
      · exact hadopt _ _ _ _
  unfold mintReferrer
  refine .bind (hbind _ _ _) fun _ _ => .bind ensureTreasuryNft_fine fun _ _ => ?_
  dsimp only
  split_ifs <;> simp

/-- a deposit goes from the depositor to Grinders and never through the vault; what is minted and locked is GRAI -/
theorem bookDeposit_fine {a : Deposit} {supply decimals : ℕ} {price : PriceData} {n : Key} (hk : k.custodyMint = some n)
    (hsource : a.depositorAta ≠ k) : Throws (Fine k) (bookDeposit w a supply decimals price) := by
  have hata : ∀ u m, Key.ata u m ≠ k := by
    rintro u m rfl
    cases hk
  have hask : ∀ rate years p, Throws (Fine k) (compoundAsk rate years p) := by
    intro rate years
    induction years with
    | zero => simp [compoundAsk]
    | succ years ih => simp [compoundAsk, ih]
  have hquote : Throws (Fine k) (quoteDeposit w a supply decimals price) := by
    have hbook : ∀ v s t, Throws (Fine k) (previewDepositBook v s t) := by
      intro v s t
      unfold previewDepositBook
      split_ifs <;> simp
    have hpremium : ∀ book rate at_ now, Throws (Fine k) (applyMintPremium book rate at_ now) := by
      intro book rate at_ now
      unfold applyMintPremium
      split_ifs
      · simp
      · refine .bind (throws_checkedAddI64 (by simp)) fun _ _ => ?_
        dsimp only
        split_ifs <;> simp [hask]
    simp [quoteDeposit, previewDeposit, previewDepositSoft, hbook, hpremium]
  have hmove : ∀ out, Throws (Fine k) (a.move w out) := by
    intro out
    simp [Deposit.move, transferFromSigner_fine hsource, Bank.mintTo]
  have hlock : ∀ w out count, Throws (Fine k) (lockDeposit w a out count) := by
    intro w out count
    unfold lockDeposit
    dsimp only
    split_ifs
    · simp [performLock_fine (hata _ _)]
    · simp
  simp [bookDeposit, hquote, hmove, mintReferrer_fine, hlock]

@[simp] theorem Deposit.load_fine {a : Deposit} : Throws (Fine k) (a.load w) := by
  simp [Deposit.load, loadAssetAccount, loadFeed]

theorem executeDeposit_fine {a : Deposit} {n : Key} (hw : w.WF) (hk : k.custodyMint = some n) :
    Throws (Fine k) (executeDeposit w a) := by
  unfold executeDeposit
  refine .bind (by simp) fun ⟨graiMint, assetMint, asset⟩ _ => .bind (by simp) fun source hsource => ?_
  simp [Deposit.init, fetchAssetPrice, bookDeposit_fine hk (loadOwned_ne hw.guarded hsource hk)]

theorem executeDepositSol_fine {a : DepositSol} {n : Key} (hk : k.custodyMint = some n) :
    Throws (Fine k) (executeDepositSol w a) := by
  have hsource : a.deposit.depositorAta ≠ k := by
    rintro rfl
    cases hk
  simp [executeDepositSol, Deposit.init, Bank.wrap, bookDeposit_fine hk hsource]

/-- the books are rewritten with checked arithmetic only -/
theorem rebindSlot_fine {a : Poach} {book : Referrer} {seller : Key} : Throws (Fine k) (rebindSlot w a book seller) := by
  have hshift : ∀ w info key skip locker shift f, (∀ x, Throws (Fine k) (f x)) →
      Throws (Fine k) (shiftL2 w info key skip locker shift f) := by
    intro w info key skip locker shift f hf
    unfold shiftL2
    split_ifs
    · simp [ensureRegistered, hf]
    · simp
  have hdebit : ∀ w own direct shift, Throws (Fine k) (debitSeller w a seller own direct shift) := by
    intro w own direct shift
    unfold debitSeller
    refine .bind (by simp [ensureRegistered]) fun _ _ => .bind (by simp) fun _ _ => .bind ?_ fun _ _ =>
      hshift _ _ _ _ _ _ _ fun _ => by simp
    split_ifs <;> simp
  have hcredit : ∀ w own direct shift, Throws (Fine k) (creditBuyer w a own direct shift) := by
    intro w own direct shift
    unfold creditBuyer
    refine .bind (by simp [ensureRegistered]) fun _ _ => .bind (by simp) fun _ _ => .bind ?_ fun _ _ => by simp
    split_ifs <;> simp
  unfold rebindSlot
  refine .bind (by simp) fun _ _ => .bind ?_ fun _ _ => ?_
  · split_ifs
    · simp
    · exact hdebit _ _ _ _
  · split_ifs
    · simp
    · exact .bind (hcredit _ _ _ _) fun _ _ => hshift _ _ _ _ _ _ _ fun _ => by simp

/-- the poacher pays from its own account of GRAI -/
theorem executePoach_fine {a : Poach} {n : Key} (hw : w.WF) (hk : k.custodyMint = some n) :
    Throws (Fine k) (executePoach w a) := by
  have hpreview : ∀ book poacher, Throws (Fine k) (previewPoach book poacher) := by
    intro book poacher
    simp [previewPoach]
  have hvalid : ∀ s : Key, Throws (Fine k) (if s = a.locker then .ok () else requireValidReferrer s) := by
    intro s
    split_ifs <;> simp [requireValidReferrer]
  have hloop : ∀ status, Throws (Fine k) (requireNoLoop status) := by
    intro status
    cases status <;> simp [requireNoLoop]
  have hfee : ∀ n bps, Throws (Fine k) (bpsCeil n bps) := by
    intro n bps
    unfold bpsCeil
    split_ifs <;> simp
  unfold executePoach
  refine .bind (by simp) fun _ _ => .bind (by simp) fun _ _ => .bind (by simp) fun _ _ => .bind (by simp) fun wallet hwallet => ?_
  have hsource := loadOwned_ne hw.guarded hwallet hk
  simp [hpreview, hvalid, hloop, hfee, transferFromSigner_fine hsource, rebindSlot_fine]

/-! ## Every instruction -/

/-- no instruction of the program lacks balance in the vault of a listed asset -/
theorem step_fine {i : Instr} {m : Key} {asset : AssetConfig} (hw : w.WF) (hm : w.assets m = some asset)
    (hi : ∀ s op, i ≠ .token s op) : Throws (Fine (.vault m)) (step w i) := by
  have hk := Key.custodyMint_vault m
  have hgrai : Key.vault w.state.graiMint ≠ .vault m := by
    intro h
    cases h
    cases hw.unlisted.symm.trans hm
  have htreasury : ∀ n, Key.treasury n ≠ .vault m := by simp
  cases i with
  | transferOwnership a => simp [step, executeTransferOwnership, requireOwner]
  | acceptOwnership a => simp [step, executeAcceptOwnership]
  | setBeneficiar a => simp [step, executeSetBeneficiar, requireOwner]
  | setRoyaltyBps a => simp [step, executeSetRoyaltyBps, requireOwner]
  | setRevenueShareBps a => simp [step, executeSetRevenueShareBps, requireOwner]
  | setGrinders a => simp [step, executeSetGrinders, requireOwner]
  | setBribeable a => simp [step, executeSetBribeable, requireOwner, loadAssetAccount]
  | setConfig a => simp [step, executeSetConfig, requireOwner, validateProtocolConfig]
  | setFeed a => exact executeSetFeed_fine
  | deposit a => exact executeDeposit_fine hw hk
  | depositSol a => exact executeDepositSol_fine hk
  | distribute a => exact executeDistribute_fine hw hk
  | lock a => exact executeLock_fine hw hk
  | unlock a => exact executeUnlock_fine hgrai
  | claim a => simp [step, executeClaim_fine htreasury]
  | claimAll a => simp [step, executeClaimAll_fine htreasury]
  | vote a => exact executeVote_fine hw hk
  | bribe a => exact executeBribe_fine hw hk hgrai
  | poach a => exact executePoach_fine hw hk
  | liquidate a => exact executeLiquidate_fine hgrai
  | redeem a => exact executeRedeem_fine hw hk hgrai
  | revive a => exact executeRevive_fine
  | token s op => exact absurd rfl (hi s op)
  | wrap k x => simp [step, Bank.wrap]
  | grinders k g => simp [step]

/-! ## Reserves -/

/-- the vaults of listed assets hold what is reserved, whoever redeems, and no payment out of them lacks balance -/
structure World.Reserved (w : World) : Prop where
  covered : ∀ m asset, w.assets m = some asset → asset.totalClaimable ≤ w.vaultOf m
  redeem : ∀ a w', executeRedeem w a = .ok w' →
    w'.assets = w.assets ∧ ∀ m asset, w.assets m = some asset → asset.totalClaimable ≤ w'.vaultOf m
  revive : ∀ a w', executeRevive w a = .ok w' →
    w'.assets = w.assets ∧ ∀ m asset, w.assets m = some asset → asset.totalClaimable ≤ w'.vaultOf m
  pays : ∀ i m asset, w.assets m = some asset → (∀ s op, i ≠ .token s op) →
    step w i ≠ .error (.token (.insufficientFunds (.vault m)))

theorem after_covered (g : Genesis) (is : List Instr) {m : Key} {asset : AssetConfig} (ha : (g.after is).assets m = some asset) :
    asset.totalClaimable ≤ (g.after is).vaultOf m :=
  (after_funded g is m asset.pool (World.view_asset ha)).1

theorem executeRedeem_assets {a : Redeem} (hw : w.WF) (h : executeRedeem w a = .ok w') : w'.assets = w.assets := by
  obtain ⟨_, _, w₁, _, -, -, -, -, -, hburn, -, rfl⟩ := executeRedeem_redeems h
  exact (burnShares_ok hw hburn).2.1

theorem executeRevive_assets {a : Revive} (h : executeRevive w a = .ok w') : w'.assets = w.assets := by
  obtain ⟨_, _, -, -, -, rfl⟩ := executeRevive_closes h
  rfl

/-- **Reserves.** After every run the vault of a listed asset holds what is reserved for claims, a redeem or a revive takes
none of it, and no instruction of the program lacks balance in that vault.

So a claim cannot be starved by those who leave earlier. The redeems take their part of what is beyond the reserve, and it is the
reserve that the claims are paid from. A transfer of the asset credits what it debits. -/
theorem reserved (g : Genesis) (is : List Instr) : (g.after is).Reserved where
  covered _ _ ha := after_covered g is ha
  redeem a w' h := by
    have hassets := executeRedeem_assets (g.after_wf is) h
    refine ⟨hassets, fun m asset ha => ?_⟩
    have hafter : g.after (is ++ [.redeem a]) = w' := g.after_step h
    rw [← hafter]
    refine after_covered g _ ?_
    rwa [hafter, hassets]
  revive a w' h := by
    have hassets := executeRevive_assets h
    refine ⟨hassets, fun m asset ha => ?_⟩
    have hafter : g.after (is ++ [.revive a]) = w' := g.after_step h
    rw [← hafter]
    refine after_covered g _ ?_
    rwa [hafter, hassets]
  pays i m asset ha hi he := step_fine (g.after_wf is) ha hi _ he rfl

end Grindurus.Grai
