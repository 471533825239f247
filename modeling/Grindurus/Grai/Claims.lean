/-
Claiming dividends (`programs/grai/src/claim.rs`).

- `payOut`: what both instructions do with a settled position that claims something. The vault pays the holder and the tip,
  the treasury is split, the position and the reserve go down by what was claimed.
- `executeClaim`: one asset. `executeClaimAll`: every listed asset, in registry order.

Both return the messages of the split besides the world. For the ledger the holder collects: it is settled at its stake, and
then paid (`payOut_ok`).

A claim is settled at the lock of the holder, so that what it takes is what the position has pending, and never more than is
reserved. The tip of the payer is part of what is claimed; the treasury's part of the yield is paid out besides, from the
treasury of the asset. Whom that part goes to is decided level by level over the referral books (`Treasury`), and the messages
say who was paid.
-/
import Grindurus.Grai.Treasury

namespace Grindurus.Grai

open Checked TokenBank RewardIndex Function

/-! ## The payout -/

/-- pay the tip to the caller and the remainder to the holder -/
def payClaim (b : Bank Key) (claimed tipBps : ℕ) (vault holderAta tipAta : Key) : Except ErrorCode (Bank Key) := do
  let tip ← bpsOf claimed tipBps
  let toHolder ← checkedSub claimed tip .mathOverflow
  if holderAta = tipAta then transferFromVault b vault holderAta claimed
  else do
    let b ← transferFromVault b vault holderAta toHolder
    transferFromVault b vault tipAta tip

/-- `claimed` of the asset `mint`, worth `claimedValue`, for the holder of a position -/
structure Payout where
  payer : Key
  holder : Key
  mint : Key
  claimed : ℕ
  claimedValue : ℕ
  beneficiarAta : Key
  remaining : List Key

/-- what the treasury is asked for by a payout -/
def Payout.distribution (p : Payout) (gross revenue : ℕ) : Distribution where
  locker := p.holder
  mint := p.mint
  claimedValue := p.claimedValue
  grossProfitShare := gross
  revenueShare := revenue
  beneficiarAta := p.beneficiarAta
  remaining := p.remaining

def payOut (w : World) (p : Payout) (asset : AssetConfig) (position : Position) :
    Except ErrorCode (World × List TreasuryMsg) := do
  let cfg := w.state.config
  let bank ← payClaim w.bank p.claimed cfg.claimTipBps (.vault p.mint) (.ata p.holder p.mint) (.ata p.payer p.mint)
  let (gross, revenue) ← claimTreasuryShares p.claimed cfg.treasuryCutBps cfg.dividendCutBps cfg.revenueShareBps
  let (w, log) ← distributeClaimTreasury { w with bank } (p.distribution gross revenue)
  let claimable ← checkedSub position.claimable p.claimed .mathOverflow
  let w := w.storePosition p.holder p.mint { position with claimable }
  .ok (w.storeAsset p.mint { asset with totalClaimable := asset.totalClaimable - p.claimed }, log)

/-! ## One asset -/

structure Claim where
  payer : Signer
  holder : Key
  assetMint : Key
  priceFeed : Feed
  beneficiarAta : Key
  remaining : List Key
  amount : ℕ

/-- the accounts of a claim: the escrow of the holder, the mint and its listing, and the bank -/
def Claim.load (w : World) (a : Claim) : Except ErrorCode (Escrow × MintAccount Key × AssetConfig × Bank Key) := do
  let mint := a.assetMint
  let escrow ← loadEscrow w a.holder
  let assetMint ← loadMint w.bank mint
  let asset ← loadAssetAccount w mint
  loadFeed asset a.priceFeed
  let _ ← loadCustody w.bank (.vault mint) mint
  let _ ← loadCustody w.bank (.treasury mint) mint
  let bank ← initAta w.bank a.holder mint
  let bank ← initAta bank a.payer.key mint
  .ok (escrow, assetMint, asset, bank)

/-- claim the dividends accrued to the holder's lock in one asset; anyone may ask for it -/
def executeClaim (w : World) (a : Claim) : Except ErrorCode (World × List TreasuryMsg) := do
  let (escrow, assetMint, asset, bank) ← a.load w
  let w := { w with bank }
  require (assetMint.mintAuthority ≠ some .protocol) .assetUnknown
  let loaded ← loadOrInitPosition w (.position a.holder a.assetMint) a.holder a.assetMint
  let position ← settleLoaded asset.accShare escrow.amount escrow.amount loaded
  let w := w.storePosition a.holder a.assetMint position
  if position.claimable = 0 then .ok (w, [])
  else
    -- floors may leave the positions a few units above the reserve
    let claimed := min (min (previewClaim a.amount position.claimable) (w.vaultOf a.assetMint)) asset.totalClaimable
    if claimed = 0 then .ok (w, [])
    else do
      let price ← fetchAssetPrice asset a.assetMint a.priceFeed
      let claimedValue ← usdValue claimed assetMint.decimals price
      payOut w ⟨a.payer.key, a.holder, a.assetMint, claimed, claimedValue, a.beneficiarAta, a.remaining⟩ asset position

/-! ## All assets -/

/-- the accounts of one asset in `claim_all`, before those of the affiliate walk -/
structure ClaimSlots where
  mint : Key
  assetConfig : Key
  priceFeed : Key
  position : Key
  vault : Key
  holderAta : Key
  tipAta : Key
  treasuryVault : Key
  beneficiarAta : Key

structure ClaimAll where
  payer : Signer
  holder : Key
  remaining : List Key
  /-- what stands at an address, read as a price feed -/
  feed : Key → Except ℕ PriceData

/-- one asset of `claim_all` -/
def claimAsset (w : World) (a : ClaimAll) (locked : ℕ) (mint : Key) (slots : ClaimSlots) (affiliate : List Key) :
    Except ErrorCode (World × List TreasuryMsg) := do
  require (slots.mint = mint) .invalidRemainingAccounts
  let asset ← loadAssetConfig w slots.assetConfig mint
  require (slots.position = .position a.holder mint) .invalidRemainingAccounts
  requireVaultPda w slots.vault mint
  requireHolderAta slots.holderAta a.holder mint
  requireHolderAta slots.tipAta a.payer.key mint
  let mintAccount ← loadMint w.bank mint
  let loaded ← loadOrInitPosition w slots.position a.holder mint
  let position ← settleLoaded asset.accShare locked locked loaded
  let w := w.storePosition a.holder mint position
  let claimed := min (min (previewClaim u64Max position.claimable) (w.vaultOf mint)) asset.totalClaimable
  if claimed = 0 then .ok (w, [])
  else do
    let price ← fetchPriceFromFeed ⟨slots.priceFeed, true, a.feed slots.priceFeed, .ok 0⟩ asset
    let claimedValue ← usdValue claimed mintAccount.decimals price
    require (slots.treasuryVault = .treasury mint) .invalidRemainingAccounts
    require (affiliate.head? = some (.referrer a.holder)) .invalidRemainingAccounts
    payOut w ⟨a.payer.key, a.holder, mint, claimed, claimedValue, slots.beneficiarAta, affiliate⟩ asset position

def takeSlots : List Key → Option (ClaimSlots × List Key)
  | m :: c :: f :: p :: v :: h :: t :: tr :: bn :: rest => some (⟨m, c, f, p, v, h, t, tr, bn⟩, rest)
  | _ => none

/-- the assets in registry order; each takes its nine accounts and `tail` for the affiliate walk -/
def claimAssets (a : ClaimAll) (locked tail : ℕ) :
    List Key → List Key → World → Except ErrorCode (World × List TreasuryMsg)
  | [], _, w => .ok (w, [])
  | mint :: mints, remaining, w => do
    let (slots, rest) ← demand .panicked (takeSlots remaining)
    let (w, log) ← claimAsset w a locked mint slots (rest.take tail)
    let (w, log') ← claimAssets a locked tail mints (rest.drop tail) w
    .ok (w, log ++ log')

def executeClaimAll (w : World) (a : ClaimAll) : Except ErrorCode (World × List TreasuryMsg) := do
  let escrow ← loadEscrow w a.holder
  let tail := affiliateClaimRemainingLen w.state.affiliateLevels
  require (a.remaining.length = w.state.assetMints.length * (9 + tail)) .invalidRemainingAccounts
  claimAssets a escrow.amount tail w.state.assetMints a.remaining w

/-! ## What they do -/

variable {w w' : World}

/-- the vault pays what is claimed -/
theorem payClaim_ok (grai : Key) {b b' : Bank Key} {claimed tip : ℕ} {vault holderAta tipAta : Key}
    (h : payClaim b claimed tip vault holderAta tipAta = .ok b') :
    BankMoves grai (-Pi.single vault (claimed : ℤ)) 0 b b' := by
  simp only [payClaim, bind_ok, checkedSub_ok] at h
  obtain ⟨x, -, _, ⟨hle, rfl⟩, h⟩ := h
  split_ifs at h
  · exact transferFromVault_debits grai h
  · simp only [bind_ok] at h
    obtain ⟨b₁, hb₁, hb₂⟩ := h
    refine ((transferFromVault_debits grai hb₁).trans (transferFromVault_debits grai hb₂)).mono fun k _ _ => ?_
    simp only [Pi.neg_apply, Pi.add_apply, Pi.single_apply]
    split_ifs <;> omega

/-- settling a position at the stake of its account -/
theorem settleLoaded_collect {i u m : Key} {asset : AssetConfig} {loaded : Position × Bool} {position : Position}
    (hw : w.WF) (ha : w.assets m = some asset) (hl : loadOrInitPosition w i u m = .ok loaded)
    (hs : settleLoaded asset.accShare (w.lockOf u) (w.lockOf u) loaded = .ok position) :
    (w.storePosition u m position).WF ∧ Collect DIVIDEND_PRECISION u w.view (w.storePosition u m position).view := by
  refine ⟨hw.keep rfl (fun _ => rfl) hw.guarded, ?_⟩
  have hcollect := Collect.touch (p := DIVIDEND_PRECISION) (u := u) m asset.pool (World.view_asset ha)
  have hpos := checkpoints_store w u m position
  rw [settleLoaded_ok hl hs] at hpos
  have hview : (w.storePosition u m position).view = { w.view with
      pos := checkpoints (w.storePosition u m position).positions } := rfl
  rw [hview, hpos]
  exact hcollect

/-- what is claimed is paid out of the vault, the treasury splits its part, and the position and the reserve go down -/
theorem payOut_pays {p : Payout} {asset : AssetConfig} {position : Position} {log : List TreasuryMsg}
    (h : payOut w p asset position = .ok (w', log)) :
    ∃ b gross revenue w₁,
      payClaim w.bank p.claimed w.state.config.claimTipBps (.vault p.mint) (.ata p.holder p.mint) (.ata p.payer p.mint) = .ok b ∧
      claimTreasuryShares p.claimed w.state.config.treasuryCutBps w.state.config.dividendCutBps
        w.state.config.revenueShareBps = .ok (gross, revenue) ∧
      distributeClaimTreasury { w with bank := b } (p.distribution gross revenue) = .ok (w₁, log) ∧
      p.claimed ≤ position.claimable ∧
      w' = (w₁.storePosition p.holder p.mint { position with claimable := position.claimable - p.claimed }).storeAsset p.mint
        { asset with totalClaimable := asset.totalClaimable - p.claimed } := by
  simp only [payOut, bind_ok, checkedSub_ok, Prod.exists, Except.ok.injEq, Prod.mk.injEq] at h
  obtain ⟨b, hb, gross, revenue, hshares, w₁, log', hdist, _, ⟨hle, rfl⟩, rfl, rfl⟩ := h
  exact ⟨b, gross, revenue, w₁, hb, hshares, hdist, hle, rfl⟩

/-- a payout debits the vault by the claim, and the treasury by at most the gross share of it -/
theorem payOut_moves {p : Payout} {asset : AssetConfig} {position : Position} {log : List TreasuryMsg}
    (h : payOut w p asset position = .ok (w', log)) :
    ∃ paid, paid * w.state.config.dividendCutBps ≤ p.claimed * w.state.config.treasuryCutBps ∧
      BankMoves w.state.graiMint (-Pi.single (.vault p.mint) (p.claimed : ℤ) - Pi.single (.treasury p.mint) (paid : ℤ)) 0
        w.bank w'.bank := by
  obtain ⟨b, gross, revenue, w₁, hb, hshares, hdist, -, rfl⟩ := payOut_pays h
  obtain ⟨w₂, b₂, paid, hq, hpaid, hb₂, rfl⟩ := distributeClaimTreasury_ok hdist
  have hb₂ : BankMoves w.state.graiMint (-Pi.single (.treasury p.mint) (paid : ℤ)) 0 w₂.bank b₂ := hb₂
  have hpay := payClaim_ok w.state.graiMint hb
  have hgross := (claimTreasuryShares_ok hshares).1
  refine ⟨paid, ?_, ((hpay.after hq.bank).trans hb₂).mono fun k _ _ => ?_⟩
  · have hle : paid ≤ gross := hpaid
    calc paid * w.state.config.dividendCutBps ≤ gross * w.state.config.dividendCutBps := Nat.mul_le_mul_right _ hle
      _ ≤ p.claimed * w.state.config.treasuryCutBps := by rw [hgross]; exact Nat.div_mul_le_self _ _
  · simp only [Pi.neg_apply, Pi.add_apply, Pi.sub_apply]
    omega

/-- it writes the position and the asset, and may register books -/
theorem payOut_writes {p : Payout} {asset : AssetConfig} {position : Position} {log : List TreasuryMsg}
    (h : payOut w p asset position = .ok (w', log)) :
    w'.escrows = w.escrows ∧ w'.state = { w.state with referrers := w'.state.referrers } ∧ w'.state.layout = w.state.layout ∧
      w'.assets = update w.assets p.mint (some { asset with totalClaimable := asset.totalClaimable - p.claimed }) ∧
      checkpoints w'.positions = update (checkpoints w.positions) p.mint (update (checkpoints w.positions p.mint) p.holder
        (some { position.checkpoint with claimable := position.claimable - p.claimed })) := by
  obtain ⟨b, gross, revenue, w₁, -, -, hdist, -, hw'⟩ := payOut_pays h
  obtain ⟨w₂, b₂, paid, hq, -, -, rfl⟩ := distributeClaimTreasury_ok hdist
  refine ⟨?_, ?_, ?_, ?_, ?_⟩
  · rw [hw']
    exact hq.escrows
  · rw [hw']
    exact hq.state
  · rw [hw']
    exact hq.layout
  · rw [hw']
    simp only [World.storeAsset, World.storePosition, hq.assets]
  · rw [hw', World.storeAsset, checkpoints_store, hq.positions]
    rfl

/-- a payout is a payment of the ledger: what is claimed leaves the vault and the reserve, and the treasury pays at most the
part that goes with it -/
theorem payOut_ok {p : Payout} {asset : AssetConfig} {position : Position} {log : List TreasuryMsg} (hw : w.WF)
    (h : payOut w p asset position = .ok (w', log)) (ha : w.assets p.mint = some asset)
    (hp : w.positions (p.holder, p.mint) = some position) (hx : p.claimed ≤ asset.totalClaimable) :
    w'.WF ∧ w'.escrows = w.escrows ∧ w'.state.layout = w.state.layout ∧
      Collect DIVIDEND_PRECISION p.holder w.view w'.view := by
  obtain ⟨-, -, -, -, -, -, -, hle, -⟩ := payOut_pays h
  obtain ⟨paid, hbound, hmoves⟩ := payOut_moves h
  obtain ⟨hescrows, hstate, hlayout, hassets, hpos⟩ := payOut_writes h
  have hne := hw.ne_grai ha
  have hvault := hmoves.vault hw.guarded p.mint
  have htreasury := hmoves.treasury hw.guarded p.mint
  simp only [Pi.sub_apply, Pi.neg_apply, Pi.single_eq_same, ne_eq, reduceCtorEq, not_false_eq_true,
    Pi.single_eq_of_ne] at hvault htreasury
  have hother : ∀ n, n ≠ p.mint →
      0 ≤ (-Pi.single (.vault p.mint) (p.claimed : ℤ) - Pi.single (.treasury p.mint) (paid : ℤ) : Key → ℤ) (.vault n) ∧
      0 ≤ (-Pi.single (.vault p.mint) (p.claimed : ℤ) - Pi.single (.treasury p.mint) (paid : ℤ) : Key → ℤ) (.treasury n) := by
    intro n hn
    simp [hn]
  have hu : w.view.pos p.mint p.holder = some position.checkpoint := by
    show checkpoints w.positions p.mint p.holder = some position.checkpoint
    rw [checkpoints, hp, Option.map_some]
  have hcollect := Collect.pay (p := DIVIDEND_PRECISION) (u := p.holder) (s := w.view) p.mint asset.pool position.checkpoint
    p.claimed paid (holdingsOf w.state.graiMint w'.bank) (World.view_asset ha) hu hle hx hbound
    (show w.bank.balance (.vault p.mint) ≤ w'.bank.balance (.vault p.mint) + p.claimed by omega)
    (show w.bank.balance (.treasury p.mint) ≤ w'.bank.balance (.treasury p.mint) + paid by omega)
    (keepsLocked_of_moves rfl hmoves hw.guarded (hother _ (Ne.symm hne)).1)
    (keepsAssets_of_moves rfl hmoves hw.guarded fun n _ _ hn => hother n (by simpa using hn))
  refine ⟨hw.keep hlayout (fun n => ?_) (hmoves.guarded hw.guarded), hescrows, hlayout, ?_⟩
  · rw [hassets]
    rcases eq_or_ne n p.mint with rfl | hn
    · simp [ha]
    · simp [hn]
  · have hasset : (fun n => (w'.assets n).map AssetConfig.pool) =
        update w.view.asset p.mint (some ⟨asset.accShare, asset.totalClaimable - p.claimed⟩) := by
      rw [hassets]
      funext n
      rcases eq_or_ne n p.mint with rfl | hn
      · simp [AssetConfig.pool]
      · simp [World.view, hn]
    rw [World.view_of_state hstate hescrows (hmoves.supply_eq hw.guarded), hasset, hpos]
    exact hcollect

theorem Claim.load_ok {a : Claim} {escrow : Escrow} {mint : MintAccount Key} {asset : AssetConfig} {b : Bank Key}
    (h : a.load w = .ok (escrow, mint, asset, b)) :
    w.escrows a.holder = some escrow ∧ w.assets a.assetMint = some asset ∧ BankMoves w.state.graiMint 0 0 w.bank b ∧
      b.balance = w.bank.balance ∧ b.supply = w.bank.supply := by
  simp only [Claim.load, bind_ok, Except.ok.injEq, Prod.mk.injEq] at h
  obtain ⟨_, he, _, -, _, ha, -, -, -, -, -, -, b₁, hb₁, b₂, hb₂, rfl, rfl, rfl, rfl⟩ := h
  obtain ⟨hbal₁, hsup₁⟩ := initTokenAccount_same hb₁
  obtain ⟨hbal₂, hsup₂⟩ := initTokenAccount_same hb₂
  exact ⟨loadEscrow_ok he, loadAssetAccount_ok ha, (initAta_moves _ hb₁).before (initAta_moves _ hb₂),
    hbal₂.trans hbal₁, hsup₂.trans hsup₁⟩

/-- a claim opens the accounts of the holder and the payer, settles the position, and pays out of the reserve, or nothing -/
theorem executeClaim_cases {a : Claim} {log : List TreasuryMsg} (h : executeClaim w a = .ok (w', log)) :
    ∃ e t asset b loaded position, a.load w = .ok (e, t, asset, b) ∧
      loadOrInitPosition { w with bank := b } (.position a.holder a.assetMint) a.holder a.assetMint = .ok loaded ∧
      settleLoaded asset.accShare e.amount e.amount loaded = .ok position ∧
      ((w' = World.storePosition { w with bank := b } a.holder a.assetMint position ∧ log = []) ∨
        ∃ claimed value, claimed ≤ asset.totalClaimable ∧
          payOut (World.storePosition { w with bank := b } a.holder a.assetMint position)
            ⟨a.payer.key, a.holder, a.assetMint, claimed, value, a.beneficiarAta, a.remaining⟩ asset position = .ok (w', log)) := by
  simp only [executeClaim, bind_ok, Prod.exists] at h
  obtain ⟨e, t, asset, b, hload, -, -, loaded, isNew, hl, position, hs, h⟩ := h
  refine ⟨e, t, asset, b, (loaded, isNew), position, hload, hl, hs, ?_⟩
  split_ifs at h
  · cases h
    exact .inl ⟨rfl, rfl⟩
  · cases h
    exact .inl ⟨rfl, rfl⟩
  · simp only [bind_ok] at h
    obtain ⟨_, -, value, -, hpay⟩ := h
    exact .inr ⟨_, value, min_le_right _ _, hpay⟩

/-- the holder of a claim collects -/
theorem executeClaim_collects {a : Claim} {log : List TreasuryMsg} (hw : w.WF) (h : executeClaim w a = .ok (w', log)) :
    w'.WF ∧ Relation.ReflTransGen (Collect DIVIDEND_PRECISION a.holder) w.view w'.view := by
  obtain ⟨e, t, asset, b, loaded, position, hload, hl, hs, hcases⟩ := executeClaim_cases h
  obtain ⟨he, ha, hb, hsame⟩ := Claim.load_ok hload
  have hlock : e.amount = ({ w with bank := b } : World).lockOf a.holder := (World.lockOf_some he).symm
  rw [hlock] at hs
  obtain ⟨hwf, htouch⟩ := settleLoaded_collect (hw.bank hb) ha hl hs
  rw [World.view_of_same hsame] at htouch
  rcases hcases with ⟨rfl, -⟩ | ⟨claimed, value, hx, hpay⟩
  · exact ⟨hwf, .single htouch⟩
  · obtain ⟨hwf', -, -, hcollect⟩ := payOut_ok hwf hpay ha (by simp [World.storePosition]) hx
    exact ⟨hwf', .tail (.single htouch) hcollect⟩

theorem executeClaim_committed {a : Claim} {log : List TreasuryMsg} (hw : w.WF) (h : executeClaim w a = .ok (w', log)) :
    Committed (.collector a.holder) w w' := by
  obtain ⟨hwf, hc⟩ := executeClaim_collects hw h
  exact ⟨hwf, none, .collects hc⟩

/-- what a claim does with one asset, `claim_all` does too -/
theorem claimAsset_cases {a : ClaimAll} {locked : ℕ} {m : Key} {slots : ClaimSlots} {affiliate : List Key}
    {log : List TreasuryMsg} (h : claimAsset w a locked m slots affiliate = .ok (w', log)) :
    ∃ asset loaded position, w.assets m = some asset ∧ loadOrInitPosition w slots.position a.holder m = .ok loaded ∧
      settleLoaded asset.accShare locked locked loaded = .ok position ∧
      ((w' = w.storePosition a.holder m position ∧ log = []) ∨
        ∃ claimed value, claimed ≤ asset.totalClaimable ∧
          payOut (w.storePosition a.holder m position)
            ⟨a.payer.key, a.holder, m, claimed, value, slots.beneficiarAta, affiliate⟩ asset position = .ok (w', log)) := by
  simp only [claimAsset, bind_ok, Prod.exists] at h
  obtain ⟨-, -, asset, ha, -, -, -, -, -, -, -, -, t, -, loaded, isNew, hl, position, hs, h⟩ := h
  refine ⟨asset, (loaded, isNew), position, loadAssetConfig_ok ha, hl, hs, ?_⟩
  split_ifs at h
  · cases h
    exact .inl ⟨rfl, rfl⟩
  · simp only [bind_ok] at h
    obtain ⟨_, -, value, -, -, -, -, -, hpay⟩ := h
    exact .inr ⟨_, value, min_le_right _ _, hpay⟩

theorem claimAsset_collects {a : ClaimAll} {m : Key} {slots : ClaimSlots} {affiliate : List Key} {log : List TreasuryMsg}
    (hw : w.WF) (h : claimAsset w a (w.lockOf a.holder) m slots affiliate = .ok (w', log)) :
    w'.WF ∧ w'.escrows = w.escrows ∧ Relation.ReflTransGen (Collect DIVIDEND_PRECISION a.holder) w.view w'.view := by
  obtain ⟨asset, loaded, position, ha, hl, hs, hcases⟩ := claimAsset_cases h
  obtain ⟨hwf, htouch⟩ := settleLoaded_collect hw ha hl hs
  rcases hcases with ⟨rfl, -⟩ | ⟨claimed, value, hx, hpay⟩
  · exact ⟨hwf, rfl, .single htouch⟩
  · obtain ⟨hwf', hescrows, -, hcollect⟩ := payOut_ok hwf hpay ha (by simp [World.storePosition]) hx
    exact ⟨hwf', hescrows, .tail (.single htouch) hcollect⟩

/-- what every asset preserves, the walk over the assets preserves -/
theorem claimAssets_induct {a : ClaimAll} {locked tail : ℕ} {mints remaining : List Key} {log : List TreasuryMsg}
    {P : World → World → Prop} (hrefl : ∀ w, P w w) (htrans : ∀ {w₁ w₂ w₃}, P w₁ w₂ → P w₂ w₃ → P w₁ w₃)
    (hone : ∀ {w w' : World} {m : Key} {slots : ClaimSlots} {affiliate : List Key} {log : List TreasuryMsg},
      claimAsset w a locked m slots affiliate = .ok (w', log) → P w w')
    (h : claimAssets a locked tail mints remaining w = .ok (w', log)) : P w w' := by
  induction mints generalizing remaining w log with
  | nil =>
    cases h
    exact hrefl _
  | cons m mints ih =>
    simp only [claimAssets, bind_ok, Prod.exists, Except.ok.injEq, Prod.mk.injEq] at h
    obtain ⟨slots, rest, -, w₁, log₁, h₁, w₂, log₂, h₂, rfl, -⟩ := h
    exact htrans (hone h₁) (ih h₂)

theorem claimAssets_collects {a : ClaimAll} {tail : ℕ} {mints remaining : List Key} {log : List TreasuryMsg} (hw : w.WF)
    (h : claimAssets a (w.lockOf a.holder) tail mints remaining w = .ok (w', log)) :
    w'.WF ∧ Relation.ReflTransGen (Collect DIVIDEND_PRECISION a.holder) w.view w'.view := by
  induction mints generalizing remaining w log with
  | nil =>
    cases h
    exact ⟨hw, .refl⟩
  | cons m mints ih =>
    simp only [claimAssets, bind_ok, Prod.exists, Except.ok.injEq, Prod.mk.injEq] at h
    obtain ⟨slots, rest, -, w₁, log₁, h₁, w₂, log₂, h₂, rfl, -⟩ := h
    obtain ⟨hw₁, hescrows, hc⟩ := claimAsset_collects hw h₁
    have hlock : w₁.lockOf a.holder = w.lockOf a.holder := by
      unfold World.lockOf
      rw [hescrows]
    rw [← hlock] at h₂
    obtain ⟨hw₂, hc₂⟩ := ih hw₁ h₂
    exact ⟨hw₂, hc.trans hc₂⟩

theorem executeClaimAll_walks {a : ClaimAll} {log : List TreasuryMsg} (h : executeClaimAll w a = .ok (w', log)) :
    ∃ tail, claimAssets a (w.lockOf a.holder) tail w.state.assetMints a.remaining w = .ok (w', log) := by
  simp only [executeClaimAll, bind_ok] at h
  obtain ⟨escrow, he, -, -, h⟩ := h
  rw [← World.lockOf_some (loadEscrow_ok he)] at h
  exact ⟨_, h⟩

theorem executeClaimAll_collects {a : ClaimAll} {log : List TreasuryMsg} (hw : w.WF)
    (h : executeClaimAll w a = .ok (w', log)) :
    w'.WF ∧ Relation.ReflTransGen (Collect DIVIDEND_PRECISION a.holder) w.view w'.view := by
  obtain ⟨tail, h⟩ := executeClaimAll_walks h
  exact claimAssets_collects hw h

theorem executeClaimAll_committed {a : ClaimAll} {log : List TreasuryMsg} (hw : w.WF)
    (h : executeClaimAll w a = .ok (w', log)) : Committed (.collector a.holder) w w' := by
  obtain ⟨hwf, hc⟩ := executeClaimAll_collects hw h
  exact ⟨hwf, none, .collects hc⟩

end Grindurus.Grai
