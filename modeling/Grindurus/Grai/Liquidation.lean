/-
Liquidation (`programs/grai/src/redeem.rs`, `revive.rs`).

- `executeLiquidate`: a quorum opens liquidation once Grinders is stale; stray GRAI on the vault goes to the caller.
- `executeRedeem`: burn shares, from the wallet first, for their part of every vault beyond its reserve.
- `executeRevive`: after the redeem period, sweep what is left back to Grinders and close.

Both redeem and revive leave the reserves in the vaults (`Sweeps`).

Opening needs the votes of a quorum and a Grinders program that is not grinding. The redeem period is counted from the opening;
only after it anybody may revive, which sends what was not redeemed back. Shares that lie on the GRAI vault without being locked
are owed to nobody, and are the reward of who opens.
-/
import Grindurus.Grai.Stakes

namespace Grindurus.Grai

open Checked TokenBank RewardIndex Registry Function

/-! ## Liquidate -/

/-- is the Grinders heartbeat still active -/
def grindersGrinding (w : World) (now : ℤ) : Except ErrorCode Bool := do
  let g ← demand .invalidGrinders (w.grinders w.state.grinders)
  .ok (decide (now ≤ min (g.heartbeatAt + g.grindingPeriod) (2 ^ 63 - 1)))

structure Liquidate where
  caller : Signer
  now : ℤ

/-- open liquidation: vote quorum and stale Grinders heartbeat -/
def executeLiquidate (w : World) (a : Liquidate) : Except ErrorCode World := do
  let graiMint := w.state.graiMint
  let mint ← loadGraiMint w
  let vault ← loadCustody w.bank (.vault graiMint) graiMint
  let bank ← initAta w.bank a.caller.key graiMint
  require (w.state.liquidation = false) .liquidationOpen
  require (hasQuorum w.state.totalVoted mint.supply w.state.config.quorumBps = true) .liquidationQuorumNotMet
  let grinding ← grindersGrinding w a.now
  require (grinding = false) .grindersGrinding
  let bank ← transferFromVault bank (.vault graiMint) (.ata a.caller.key graiMint) (deadGrai vault.amount w.state.totalLocked)
  .ok { w with state := { w.state with liquidation := true, liquidationAt := a.now }, bank }

/-! ## Redeem -/

structure Redeem where
  holder : Signer
  holderGraiAta : Key
  remaining : List Key
  graiAmount : ℕ
  now : ℤ

/-- shrink the lock of the holder by `escrowBurn`, and burn that from the GRAI vault -/
def burnLocked (w : World) (escrow : Escrow) (escrowBurn newLocked : ℕ) (holder : Key) : Except ErrorCode (World × Escrow) :=
  if 0 < escrowBurn then do
    let totalLocked ← checkedSub w.state.totalLocked escrowBurn .mathOverflow
    let (state, escrow) ← clampVote { w.state with totalLocked } { escrow with amount := newLocked } holder
    let bank ← spl (w.bank.burn state.graiMint (.vault state.graiMint) .protocol escrowBurn)
    let lockers := if escrow.amount = 0 then removeFromList state.lockers holder else state.lockers
    .ok ({ w with state := { state with lockers }, bank }, escrow)
  else .ok (w, escrow)

/-- the holder burns `walletBurn` from its wallet -/
def burnWallet (w : World) (source : Key) (holder : Signer) (walletBurn : ℕ) : Except ErrorCode (Bank Key) :=
  if 0 < walletBurn then spl (w.bank.burn w.state.graiMint source holder.key walletBurn) else .ok w.bank

/-- one vault of the basket: its part of the redeemable inventory goes to the holder, between accounts that
`settleAllQuads` has checked -/
def payShare (assets : Key → Option AssetConfig) (graiAmount supply : ℕ) (holder : Key) (b : Bank Key) (mint : Key) :
    Except ErrorCode (Bank Key) := do
  let asset ← demand .invalidRemainingAccounts (assets mint)
  require (asset.assetMint = mint) .assetUnknown
  let vault ← loadCustody b (.vault mint) mint
  let amount ← previewLiquidateShare (redeemableBalance vault.amount asset.totalClaimable) graiAmount supply
  transferFromVault b (.vault mint) (.ata holder mint) amount

def payShares (assets : Key → Option AssetConfig) (graiAmount supply : ℕ) (holder : Key) :
    List Key → Bank Key → Except ErrorCode (Bank Key)
  | [], b => .ok b
  | mint :: mints, b => do
    let b ← payShare assets graiAmount supply holder b mint
    payShares assets graiAmount supply holder mints b

/-- burn `graiAmount` of the holder's shares, settle the holder, and take the value off the book -/
def burnShares (w : World) (a : Redeem) (walletAmount value : ℕ) : Except ErrorCode World := do
  let holder := a.holder.key
  let escrow := initEscrow w holder
  let walletBurn := min a.graiAmount walletAmount
  let escrowBurn := a.graiAmount - walletBurn
  let newLocked ← checkedSub escrow.amount escrowBurn .invalidAmount
  let w ← settleAllQuads w a.remaining holder escrow.amount newLocked false
  let bank ← burnWallet w a.holderGraiAta a.holder walletBurn
  let (w, escrow) ← burnLocked { w with bank } escrow escrowBurn newLocked holder
  let totalValue ← checkedSub w.state.totalValue value .mathOverflow
  .ok (World.storeEscrow { w with state := { w.state with totalValue } } holder escrow)

/-- redeem GRAI for a pro-rata share of the liquidation basket -/
def executeRedeem (w : World) (a : Redeem) : Except ErrorCode World := do
  let graiMint := w.state.graiMint
  let mint ← loadGraiMint w
  let wallet ← loadOwned w.bank a.holderGraiAta graiMint a.holder.key .invalidDestination
  let _ ← loadCustody w.bank (.vault graiMint) graiMint
  require (w.state.liquidation = true) .liquidationClosed
  let unlockAt ← checkedAddI64 w.state.liquidationAt w.state.config.liquidationPeriod .mathOverflow
  require (unlockAt ≤ a.now) .liquidationDelay
  let holderAmount ← checkedAdd u64 wallet.amount (initEscrow w a.holder.key).amount .mathOverflow
  require (0 < a.graiAmount) .invalidAmount
  require (a.graiAmount ≤ holderAmount) .invalidAmount
  let value ← liquidateValue a.graiAmount mint.supply w.state.totalValue
  require (0 < value) .amountZero
  let w ← burnShares w a wallet.amount value
  let bank ← payShares w.assets a.graiAmount mint.supply a.holder.key w.state.assetMints w.bank
  .ok { w with bank }

/-! ## Revive -/

structure Revive where
  remaining : List Key
  now : ℤ

/-- the accounts of one asset: `[asset_config, mint, price_feed, vault_ata, grinders_ata]` -/
def checkQuint (w : World) (mint assetInfo mintInfo vaultInfo grindersInfo : Key) : Except ErrorCode Unit := do
  require (mintInfo = mint) .assetUnknown
  let _ ← loadAssetConfig w assetInfo mint
  requireVaultPda w vaultInfo mint
  require (grindersInfo = .ata w.state.grinders mint) .invalidDestination

def checkQuints (w : World) : List Key → List Key → Except ErrorCode Unit
  | [], _ => .ok ()
  | mint :: mints, assetInfo :: mintInfo :: _ :: vaultInfo :: grindersInfo :: rest => do
    checkQuint w mint assetInfo mintInfo vaultInfo grindersInfo
    checkQuints w mints rest
  | _ :: _, _ => .error .panicked

/-- one vault: everything beyond the reserve goes back to Grinders -/
def sweepVault (assets : Key → Option AssetConfig) (grinders : Key) (b : Bank Key) (mint : Key) : Except ErrorCode (Bank Key) := do
  let asset ← demand .invalidRemainingAccounts (assets mint)
  transferFromVault b (.vault mint) (.ata grinders mint) (redeemableBalance (b.balance (.vault mint)) asset.totalClaimable)

def sweepVaults (assets : Key → Option AssetConfig) (grinders : Key) : List Key → Bank Key → Except ErrorCode (Bank Key)
  | [], b => .ok b
  | mint :: mints, b => do
    let b ← sweepVault assets grinders b mint
    sweepVaults assets grinders mints b

/-- the Grinders program refreshes the heartbeat of the account linked to this program -/
def heartbeat (w : World) (now : ℤ) : Except ErrorCode World := do
  let g ← demand .invalidGrinders (w.grinders w.state.grinders)
  require (g.graiProgram = .program) (.constraintSeeds .protocol)
  .ok { w with grinders := update w.grinders w.state.grinders (some { g with heartbeatAt := now }) }

/-- close liquidation -/
def executeRevive (w : World) (a : Revive) : Except ErrorCode World := do
  let mint ← loadGraiMint w
  require (a.remaining.length = w.state.assetMints.length * 5) .invalidRemainingAccounts
  checkQuints w w.state.assetMints a.remaining
  require (w.state.liquidation = true ∧ w.state.liquidationAt ≠ 0) .liquidationClosed
  let v ← checkedAddI64 w.state.liquidationAt w.state.config.liquidationPeriod .mathOverflow
  let unlockAt ← checkedAddI64 v w.state.config.redeemPeriod .mathOverflow
  require (unlockAt ≤ a.now) .redeemPeriodActive
  let bank ← sweepVaults w.assets w.state.grinders w.state.assetMints w.bank
  -- no share is left: an orphan book would break the next deposit
  let totalValue := if mint.supply = 0 then 0 else w.state.totalValue
  heartbeat { w with state := { w.state with totalValue, liquidation := false, liquidationAt := 0 }, bank } a.now

/-! ## What stays in the vaults -/

/-- from `b` to `b'` the vaults of listed assets keep their reserves, and nothing else of the program is debited -/
def Sweeps (grai : Key) (assets : Key → Option AssetConfig) (b b' : Bank Key) : Prop :=
  Guarded b grai → Guarded b' grai ∧ b'.supply grai = b.supply grai ∧
    (∀ m, b.balance (.treasury m) ≤ b'.balance (.treasury m)) ∧
    ∀ m, match assets m with
      | some a => min (b.balance (.vault m)) a.totalClaimable ≤ b'.balance (.vault m)
      | none => b.balance (.vault m) ≤ b'.balance (.vault m)

variable {grai : Key} {assets : Key → Option AssetConfig} {b b' b₁ b₂ b₃ : Bank Key} {w w' : World}

theorem Sweeps.refl (grai : Key) (assets : Key → Option AssetConfig) (b : Bank Key) : Sweeps grai assets b b := by
  refine fun hb => ⟨hb, rfl, fun m => le_rfl, fun m => ?_⟩
  cases assets m with
  | none => exact le_rfl
  | some a => exact min_le_left _ _

theorem Sweeps.trans (h : Sweeps grai assets b₁ b₂) (h' : Sweeps grai assets b₂ b₃) : Sweeps grai assets b₁ b₃ := by
  intro hb
  obtain ⟨hg, hs, ht, hv⟩ := h hb
  obtain ⟨hg', hs', ht', hv'⟩ := h' hg
  refine ⟨hg', hs'.trans hs, fun m => (ht m).trans (ht' m), fun m => ?_⟩
  have h₁ := hv m
  have h₂ := hv' m
  cases ha : assets m with
  | none =>
    simp only [ha] at h₁ h₂
    exact h₁.trans h₂
  | some a =>
    simp only [ha] at h₁ h₂
    show min (b₁.balance (.vault m)) a.totalClaimable ≤ b₃.balance (.vault m)
    omega

/-- a transfer out of one vault that leaves its reserve -/
theorem sweeps_of_transfer {m dst : Key} {a : AssetConfig} {x : ℕ} (ha : assets m = some a)
    (h : transferFromVault b (.vault m) dst x = .ok b') (hx : x ≤ b.balance (.vault m) - a.totalClaimable) :
    Sweeps grai assets b b' := by
  intro hb
  have hmoves := transferFromVault_debits grai h
  refine ⟨hmoves.guarded hb, hmoves.supply_eq hb, fun n => ?_, fun n => ?_⟩
  · have ht := hmoves.treasury hb n
    simpa using ht
  · have hv := hmoves.vault hb n
    rcases eq_or_ne n m with rfl | hn
    · simp only [Pi.neg_apply, Pi.single_eq_same] at hv
      simp only [ha]
      omega
    · have hle : b.balance (.vault n) ≤ b'.balance (.vault n) := by simpa [hn] using hv
      cases assets n with
      | none => exact hle
      | some a' => exact min_le_of_left_le hle

/-- for the ledger a sweep is a flow of tokens -/
theorem Sweeps.step (hw : w.WF) (h : Sweeps w.state.graiMint w.assets w.bank b) :
    Step DIVIDEND_PRECISION w.view none ({ w with bank := b } : World).view := by
  obtain ⟨-, hs, ht, hv⟩ := h hw.guarded
  have hview : ({ w with bank := b } : World).view = { w.view with held := holdingsOf w.state.graiMint b } := by
    simp only [World.view, World.supply, hs]
    rfl
  rw [hview]
  refine .flow _ ?_ fun m q hm _ => ?_
  · have hgrai := hv w.state.graiMint
    simp only [hw.unlisted] at hgrai
    exact min_le_of_left_le hgrai
  · obtain ⟨a, ha, rfl⟩ := Option.map_eq_some_iff.1 hm
    have hm' := hv m
    simp only [ha] at hm'
    exact ⟨hm', ht m⟩

theorem Sweeps.wf (hw : w.WF) (h : Sweeps w.state.graiMint w.assets w.bank b) : ({ w with bank := b } : World).WF :=
  hw.keep rfl (fun _ => rfl) (h hw.guarded).1

/-! ## What liquidate and revive do -/

theorem loadGraiMint_ok {t : MintAccount Key} (h : loadGraiMint w = .ok t) : t.supply = w.supply := by
  simp only [loadGraiMint, loadMint, bind_ok, demand_ok, require_ok, Except.ok.injEq] at h
  obtain ⟨t, ht, -, -, rfl⟩ := h
  simp [World.supply, Bank.supply, ht]

theorem loadCustody_ok {m : Key} {a : TokenAccount Key} {k : Key} (h : loadCustody b k m = .ok a) : b.balance k = a.amount := by
  simp only [loadCustody, loadTokenAccount, bind_ok, demand_ok, require_ok, Except.ok.injEq] at h
  obtain ⟨_, ha, -, -, rfl⟩ := h
  exact Bank.balance_some ha

/-- a quorum opens liquidation while Grinders is stale, and the caller takes the GRAI that nobody locked -/
theorem executeLiquidate_opens {a : Liquidate} (h : executeLiquidate w a = .ok w') :
    ∃ vault b b', loadCustody w.bank (.vault w.state.graiMint) w.state.graiMint = .ok vault ∧
      initAta w.bank a.caller.key w.state.graiMint = .ok b ∧ w.state.liquidation = false ∧
      hasQuorum w.state.totalVoted w.supply w.state.config.quorumBps = true ∧ grindersGrinding w a.now = .ok false ∧
      transferFromVault b (.vault w.state.graiMint) (.ata a.caller.key w.state.graiMint)
        (deadGrai vault.amount w.state.totalLocked) = .ok b' ∧
      w' = { w with state := { w.state with liquidation := true, liquidationAt := a.now }, bank := b' } := by
  simp only [executeLiquidate, bind_ok, require_ok, Except.ok.injEq] at h
  obtain ⟨mint, hmint, vault, hvault, b, hb, -, hclosed, -, hquorum, _, hgrinding, -, rfl, b', hb', rfl⟩ := h
  rw [loadGraiMint_ok hmint] at hquorum
  exact ⟨vault, b, b', hvault, hb, hclosed, hquorum, hgrinding, hb', rfl⟩

/-- opening moves stray shares and a flag; the ledger does not see it -/
theorem executeLiquidate_committed {a : Liquidate} (hw : w.WF) (h : executeLiquidate w a = .ok w') :
    Committed .nobody w w' := by
  obtain ⟨vault, b, b', hvault, hb, -, -, -, hb', rfl⟩ := executeLiquidate_opens h
  have hinit := initAta_moves w.state.graiMint hb
  have hmoves := hinit.before (transferFromVault_debits w.state.graiMint hb')
  have hvault := loadCustody_ok hvault
  refine ⟨hw.keep rfl (fun _ => rfl) (hmoves.guarded hw.guarded), none, .moves .liquidate (.steps (.single ?_))⟩
  have hstep := Step.flow (p := DIVIDEND_PRECISION) (s := { w.view with liquidation := true })
    (holdingsOf w.state.graiMint b') ?_ ?_
  · refine cast (congrArg _ ?_) hstep
    simp only [World.view, World.supply, hmoves.supply_eq hw.guarded]
    rfl
  · -- what is locked stays
    have hv := hmoves.vault hw.guarded w.state.graiMint
    simp only [Pi.neg_apply, Pi.single_eq_same, deadGrai] at hv
    show min (w.bank.balance (.vault w.state.graiMint)) w.state.totalLocked ≤ b'.balance (.vault w.state.graiMint)
    omega
  · refine keepsAssets_of_moves rfl hmoves hw.guarded fun m q hm _ => ?_
    obtain ⟨a, ha, -⟩ := Option.map_eq_some_iff.1 hm
    simp [hw.ne_grai ha]

theorem sweepVaults_ok {grinders : Key} {mints : List Key} (h : sweepVaults assets grinders mints b = .ok b') :
    Sweeps grai assets b b' := by
  induction mints generalizing b with
  | nil =>
    cases h
    exact .refl _ _ _
  | cons m mints ih =>
    simp only [sweepVaults, sweepVault, bind_ok, demand_ok] at h
    obtain ⟨b₁, ⟨a, ha, hb₁⟩, h⟩ := h
    exact (sweeps_of_transfer ha hb₁ le_rfl).trans (ih h)

/-- after the redeem period the vaults are swept, and liquidation closes with the heartbeat of Grinders -/
theorem executeRevive_closes {a : Revive} (h : executeRevive w a = .ok w') :
    ∃ b grinders, w.state.liquidation = true ∧
      w.state.liquidationAt + w.state.config.liquidationPeriod + w.state.config.redeemPeriod ≤ a.now ∧
      sweepVaults w.assets w.state.grinders w.state.assetMints w.bank = .ok b ∧
      w' = { w with
        state := { w.state with
          totalValue := if w.supply = 0 then 0 else w.state.totalValue, liquidation := false, liquidationAt := 0 }
        bank := b, grinders } := by
  simp only [executeRevive, heartbeat, bind_ok, require_ok, checkedAddI64_ok, Except.ok.injEq] at h
  obtain ⟨mint, hmint, -, -, -, -, -, ⟨hopen, -⟩, _, ⟨-, rfl⟩, _, ⟨-, rfl⟩, -, hlate, b, hb, g, -, -, -, rfl⟩ := h
  rw [loadGraiMint_ok hmint]
  exact ⟨b, _, hopen, hlate, hb, rfl⟩

theorem executeRevive_committed {a : Revive} (hw : w.WF) (h : executeRevive w a = .ok w') : Committed .nobody w w' := by
  obtain ⟨b, grinders, hopen, -, hb, rfl⟩ := executeRevive_closes h
  have hsweep : Sweeps w.state.graiMint w.assets w.bank b := sweepVaults_ok hb
  refine ⟨hw.keep rfl (fun _ => rfl) (hsweep hw.guarded).1, none, .moves (.revive hopen) (.steps (.single ?_))⟩
  have hwf : ({ w with state := { w.state with
      totalValue := if w.supply = 0 then 0 else w.state.totalValue, liquidation := false, liquidationAt := 0 } } : World).WF :=
    hw.keep rfl (fun _ => rfl) hw.guarded
  exact Sweeps.step hwf hsweep

/-! ## What redeem does -/

theorem payShares_ok {g s : ℕ} {holder : Key} {mints : List Key} (hg : g ≤ s)
    (h : payShares assets g s holder mints b = .ok b') : Sweeps grai assets b b' := by
  induction mints generalizing b with
  | nil =>
    cases h
    exact .refl _ _ _
  | cons m mints ih =>
    simp only [payShares, payShare, bind_ok, demand_ok, require_ok] at h
    obtain ⟨b₁, ⟨a, ha, -, -, vault, hvault, x, hx, hb₁⟩, h⟩ := h
    refine (sweeps_of_transfer ha hb₁ ?_).trans (ih h)
    rw [loadCustody_ok hvault]
    exact previewLiquidateShare_le hx hg

/-- nothing is burned, or the lock shrinks, the vote is clamped to it, and the GRAI vault burns as much -/
theorem burnLocked_cases {e e' : Escrow} {x n : ℕ} {u : Key} (h : burnLocked w e x n u = .ok (w', e')) :
    (x = 0 ∧ w' = w ∧ e' = e) ∨ ∃ s b, 0 < x ∧ x ≤ w.state.totalLocked ∧
      clampVote { w.state with totalLocked := w.state.totalLocked - x } { e with amount := n } u = .ok (s, e') ∧
      w.bank.burn s.graiMint (.vault s.graiMint) .protocol x = .ok b ∧
      w' = { w with
        state := { s with lockers := if e'.amount = 0 then removeFromList s.lockers u else s.lockers }, bank := b } := by
  unfold burnLocked at h
  split_ifs at h with hx
  · simp only [bind_ok, checkedSub_ok, Prod.exists, Except.ok.injEq, Prod.mk.injEq] at h
    obtain ⟨_, ⟨hle, rfl⟩, s, e₁, hclamp, b, hb, rfl, rfl⟩ := h
    exact .inr ⟨s, b, hx, hle, hclamp, spl_ok.1 hb, rfl⟩
  · cases h
    exact .inl ⟨by omega, rfl, rfl⟩

/-- burning what is locked shrinks the escrow, and the GRAI vault by as much -/
theorem burnLocked_ok {e e' : Escrow} {x n : ℕ} {u : Key} (hn : n + x = e.amount)
    (h : burnLocked w e x n u = .ok (w', e')) :
    e'.amount = n ∧ (e.voted ≤ e.amount → e'.voted ≤ e'.amount) ∧ ∃ totalLocked totalVoted b,
      totalLocked + e.amount = w.state.totalLocked + n ∧ totalVoted + e.voted = w.state.totalVoted + e'.voted ∧
      BankMoves w.state.graiMint (-Pi.single (.vault w.state.graiMint) (x : ℤ)) (-x) w.bank b ∧
      w' = { w with
        state := { w.state with
          totalLocked, totalVoted
          lockers := relist w.state.lockers u e.amount n
          voters := relist w.state.voters u e.voted e'.voted }
        bank := b } := by
  rcases burnLocked_cases h with ⟨rfl, rfl, rfl⟩ | ⟨s, b, hx, hle, hclamp, hb, rfl⟩
  · obtain rfl : n = e'.amount := by omega
    refine ⟨rfl, id, w'.state.totalLocked, w'.state.totalVoted, w'.bank, rfl, rfl, by simpa using BankMoves.refl _ _, ?_⟩
    rw [relist_same, relist_same]
  · obtain ⟨ha, hvle, hvoted, hs⟩ := clampVote_ok hclamp
    dsimp only at ha hvoted hs
    have hgrai : s.graiMint = w.state.graiMint := by rw [hs]
    rw [hgrai] at hb
    refine ⟨ha, fun _ => hvle, w.state.totalLocked - x, s.totalVoted, b, by omega, hvoted, burn_moves hb, ?_⟩
    rw [relist_remove (by omega), ← ha, hs]

theorem burnWallet_cases {source : Key} {s : Signer} {x : ℕ} (h : burnWallet w source s x = .ok b) :
    (x = 0 ∧ b = w.bank) ∨ w.bank.burn w.state.graiMint source s.key x = .ok b := by
  unfold burnWallet at h
  split_ifs at h with hx
  · exact .inr (spl_ok.1 h)
  · cases h
    exact .inl ⟨by omega, rfl⟩

theorem burnWallet_ok {source : Key} {s : Signer} {x : ℕ} (h : burnWallet w source s x = .ok b) :
    BankMoves w.state.graiMint 0 (-x) w.bank b := by
  rcases burnWallet_cases h with ⟨rfl, rfl⟩ | h
  · simpa using BankMoves.refl _ _
  · exact burn_holder_moves h

/-- the holder is settled, its wallet burned, and what the wallet does not cover burned out of its lock -/
theorem burnShares_burns {a : Redeem} {wallet value : ℕ} (hw : w.WF) (h : burnShares w a wallet value = .ok w') :
    ∃ e x ps b w₁ e', e = initEscrow w a.holder.key ∧ x = a.graiAmount - min a.graiAmount wallet ∧ x ≤ e.amount ∧
      Settled w.assets w.state.assetMints a.holder.key e.amount (e.amount - x) w.positions ps ∧
      burnWallet { w with positions := ps } a.holderGraiAta a.holder (min a.graiAmount wallet) = .ok b ∧
      burnLocked { w with positions := ps, bank := b } e x (e.amount - x) a.holder.key = .ok (w₁, e') ∧
      value ≤ w₁.state.totalValue ∧
      w' = World.storeEscrow { w₁ with state := { w₁.state with totalValue := w₁.state.totalValue - value } } a.holder.key e' := by
  simp only [burnShares, bind_ok, checkedSub_ok, Prod.exists, Except.ok.injEq] at h
  obtain ⟨n, ⟨hle, rfl⟩, w₁, hs, b, hb, w₂, e', hburn, _, ⟨hvalue, rfl⟩, rfl⟩ := h
  obtain ⟨ps, rfl, hps⟩ := settleAllQuads_ok hw.nodup hs
  exact ⟨_, _, ps, b, w₂, e', rfl, rfl, hle, hps, hb, hburn, hvalue, rfl⟩

/-- the shares are burned, the holder is settled, and its stake shrinks by what its wallet did not cover -/
theorem burnShares_ok {a : Redeem} {wallet value : ℕ} (hw : w.WF) (h : burnShares w a wallet value = .ok w') :
    w'.WF ∧ w'.assets = w.assets ∧ w'.state.layout = w.state.layout ∧ a.graiAmount ≤ w.supply ∧
      ∃ who, Step DIVIDEND_PRECISION
        { w.view with totalValue := w.state.totalValue - value, supply := w.supply - a.graiAmount } who w'.view := by
  obtain ⟨_, _, ps, b, w₂, e', rfl, rfl, hle, hps, hb, hburn, hvalue, hw'⟩ := burnShares_burns hw h
  obtain ⟨ha', hvle, totalLocked, totalVoted, b', hlocked, hvoted, hb', hw₂⟩ := burnLocked_ok (by omega) hburn
  dsimp only at hlocked hvoted hb'
  have hmoves := (burnWallet_ok hb).trans hb'
  have hsupply := hmoves.supply hw.guarded
  dsimp only at hsupply
  obtain ⟨v, hv⟩ : ∃ v : World, v = { w₂ with state := { w₂.state with totalValue := w₂.state.totalValue - value } } := ⟨_, rfl⟩
  have hbank : v.bank = b' := by rw [hv, hw₂]
  have hps' : Settled w.assets w.state.assetMints a.holder.key (initEscrow w a.holder.key).amount e'.amount w.positions
      v.positions := by
    rw [hv, hw₂, ha']
    exact hps
  have hlocked' : v.state.totalLocked + (initEscrow w a.holder.key).amount = w.state.totalLocked + e'.amount := by
    rw [hv, hw₂, ha']
    exact hlocked
  have hvoted' : v.state.totalVoted + (initEscrow w a.holder.key).voted = w.state.totalVoted + e'.voted := by
    rw [hv, hw₂]
    exact hvoted
  obtain ⟨hwf, hstep⟩ := resize_of_store hw (by rw [hv, hw₂]; rfl) (by rw [hv, hw₂]) (by rw [hv, hw₂]) (by rw [hv, hw₂])
    hps' (by rw [hv, hw₂, ha']) (by rw [hv, hw₂]) hlocked' hvoted' hvle (hbank ▸ hmoves) (by simp [ha']; omega)
    (fun m hm => by simp [hm])
  have hsupply' : v.bank.supply w.state.graiMint = w.supply - a.graiAmount := by
    rw [hbank]
    unfold World.supply
    omega
  have hvalue' : v.state.totalValue = w.state.totalValue - value := by rw [hv, hw₂]
  rw [World.view_initEscrow, hsupply', hvalue'] at hstep
  have hgrai : a.graiAmount ≤ w.supply := by
    unfold World.supply
    omega
  rw [hw', ← hv]
  exact ⟨hwf.store _ _, by rw [hv, hw₂]; rfl, by rw [hv, hw₂]; rfl, hgrai, _, hstep⟩

/-- a redeem after the delay burns the shares at their value, and pays for them out of every vault -/
theorem executeRedeem_redeems {a : Redeem} (h : executeRedeem w a = .ok w') :
    ∃ wallet value w₁ b, loadOwned w.bank a.holderGraiAta w.state.graiMint a.holder.key .invalidDestination = .ok wallet ∧
      w.state.liquidation = true ∧ w.state.liquidationAt + w.state.config.liquidationPeriod ≤ a.now ∧ 0 < a.graiAmount ∧
      liquidateValue a.graiAmount w.supply w.state.totalValue = .ok value ∧
      burnShares w a wallet.amount value = .ok w₁ ∧
      payShares w₁.assets a.graiAmount w.supply a.holder.key w₁.state.assetMints w₁.bank = .ok b ∧
      w' = { w₁ with bank := b } := by
  simp only [executeRedeem, bind_ok, require_ok, checkedAddI64_ok, Except.ok.injEq] at h
  obtain ⟨mint, hmint, wallet, hwallet, -, -, -, hopen, _, ⟨-, rfl⟩, -, hdelay, _, -, -, hg, -, -, value, hvalue, -, -, w₁,
    hburn, b, hpay, rfl⟩ := h
  rw [loadGraiMint_ok hmint] at hvalue hpay
  exact ⟨wallet, value, w₁, b, hwallet, hopen, hdelay, hg, hvalue, hburn, hpay, rfl⟩

theorem executeRedeem_committed {a : Redeem} (hw : w.WF) (h : executeRedeem w a = .ok w') : Committed .nobody w w' := by
  obtain ⟨wallet, value, w₁, b, -, hopen, -, hg, hvalue, hburn, hpay, rfl⟩ := executeRedeem_redeems h
  obtain ⟨hwf₁, hassets, hlayout, hle, who, hstep⟩ := burnShares_ok hw hburn
  have hsweep : Sweeps w₁.state.graiMint w₁.assets w₁.bank b := payShares_ok hle hpay
  rw [liquidateValue_ok hvalue (by omega)] at hstep
  exact ⟨hsweep.wf hwf₁, who, .moves (.retire a.graiAmount hg hle hopen)
    (.steps ((Steps.single hstep).followed (.single (hsweep.step hwf₁))))⟩

end Grindurus.Grai
