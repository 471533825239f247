/-
What a claim is quoted (`programs/grai/src/preview.rs`), and what it computes.

- `executePreviewClaim`, `executePreviewClaimAll`: the quotes for one asset and for all. `getLockersData` quotes too.
- `settledClaimable`: what `claim` has claimable once it settled the position, before it caps the payout
  (`executeClaim_settles`).
- `quotes_agree_iff`: the quotes are what a claim computes exactly if the position exists, or its lock has not earned a unit.
  A missing position is quoted from a zero debt, but a claim creates it without what accrued before (`quoted_unopened`).
-/
import Grindurus.Grai.Accruals
import Grindurus.Grai.Roster
import Grindurus.Grai.Saturation
import Grindurus.Grai.Upkeep

namespace Grindurus.Grai

open Checked TokenBank Machine

/-! ## Quotes -/

structure PreviewClaim where
  holder : Key
  assetMint : Key

/-- `u64::MAX` asks for all that is pending -/
def executePreviewClaim (w : World) (a : PreviewClaim) (amount : ℕ) : Except ErrorCode ℕ := do
  let escrow ← loadEscrow w a.holder
  let _ ← loadMint w.bank a.assetMint
  let asset ← loadAssetAccount w a.assetMint
  let (debt, claimable) := match w.positions (a.holder, a.assetMint) with
    | none => (0, 0)
    | some position => (position.debt, position.claimable)
  let pending ← pendingDividend escrow.amount asset.accShare debt claimable
  .ok (previewClaim amount pending)

structure ClaimAllQuote where
  assets : List Key
  amounts : List ℕ
  deriving DecidableEq, Repr

/-- the assets in registry order; `remaining` are pairs `[asset_config, position]` -/
def previewPairs (w : World) (user : Key) (locked : ℕ) : List Key → List Key → Except ErrorCode ClaimAllQuote
  | [], _ => .ok ⟨[], []⟩
  | mint :: mints, assetInfo :: positionInfo :: rest => do
    let pending ← pendingForHolder w assetInfo positionInfo user mint locked
    let quote ← previewPairs w user locked mints rest
    .ok ⟨mint :: quote.assets, pending :: quote.amounts⟩
  | _ :: _, _ => .error .panicked

def executePreviewClaimAll (w : World) (holder : Key) (remaining : List Key) : Except ErrorCode ClaimAllQuote := do
  let escrow ← loadEscrow w holder
  require (remaining.length = w.state.assetMints.length * 2) .invalidRemainingAccounts
  previewPairs w holder escrow.amount w.state.assetMints remaining

/-! ## What a claim computes -/

/-- load or create the position of `user` in `mint` and settle it at the lock `locked`, as `claim` does -/
def settledClaimable (w : World) (user mint : Key) (locked : ℕ) : Except ErrorCode ℕ := do
  let asset ← loadAssetAccount w mint
  let loaded ← loadOrInitPosition w (.position user mint) user mint
  let position ← settleLoaded asset.accShare locked locked loaded
  .ok position.claimable

variable {w w' : World} {u m : Key} {asset : AssetConfig}

/-- what a payout takes off the position, it takes off the reserve -/
theorem payOut_leaves {p : Payout} {position : Position} {log : List TreasuryMsg}
    (h : payOut w p asset position = .ok (w', log)) (hcap : p.claimed ≤ asset.totalClaimable) :
    ∃ position', w'.positions (p.holder, p.mint) = some position' ∧
      position'.claimable + (asset.totalClaimable - w'.reserveOf p.mint) = position.claimable := by
  obtain ⟨_, _, _, w₁, -, -, -, hle, rfl⟩ := payOut_pays h
  refine ⟨{ position with claimable := position.claimable - p.claimed }, by simp [World.storePosition, World.storeAsset], ?_⟩
  simp only [World.reserveOf, World.storeAsset, Function.update_self, Option.map_some, Option.getD_some]
  omega

/-- a claim computes the claimable amount by that settlement; what it does not pay out of it stays in the position -/
theorem executeClaim_settles {a : Claim} {log : List TreasuryMsg} (h : executeClaim w a = .ok (w', log)) :
    ∃ claimable position, settledClaimable w a.holder a.assetMint (w.lockOf a.holder) = .ok claimable ∧
      w'.positions (a.holder, a.assetMint) = some position ∧
      position.claimable + (w.reserveOf a.assetMint - w'.reserveOf a.assetMint) = claimable := by
  obtain ⟨e, t, asset, b, loaded, position, hload, hl, hs, hcases⟩ := executeClaim_cases h
  obtain ⟨he, ha, -⟩ := Claim.load_ok hload
  have hasset : loadAssetAccount w a.assetMint = .ok asset := by
    simp only [Claim.load, bind_ok, Except.ok.injEq, Prod.mk.injEq] at hload
    obtain ⟨_, -, _, -, _, hasset, -, -, -, -, -, -, _, -, _, -, -, -, rfl, -⟩ := hload
    exact hasset
  have hreserve : w.reserveOf a.assetMint = asset.totalClaimable := by simp [World.reserveOf, ha]
  have hsettled : settledClaimable w a.holder a.assetMint (w.lockOf a.holder) = .ok position.claimable := by
    rw [World.lockOf_some he]
    simp only [settledClaimable, bind_ok, Except.ok.injEq]
    exact ⟨asset, hasset, loaded, hl, position, hs, rfl⟩
  rcases hcases with ⟨rfl, -⟩ | ⟨claimed, value, hx, hpay⟩
  · have hsame : (World.storePosition { w with bank := b } a.holder a.assetMint position).reserveOf a.assetMint =
        w.reserveOf a.assetMint := rfl
    exact ⟨position.claimable, position, hsettled, by simp [World.storePosition], by omega⟩
  · obtain ⟨position', hposition, hleft⟩ := payOut_leaves hpay hx
    exact ⟨_, position', hsettled, hposition, hreserve ▸ hleft⟩

/-! ## Agreement -/

/-- a settlement at an unchanged lock computes the pending dividend -/
theorem settle_claimable (acc l : ℕ) (position : Position) :
    (settle acc l l position).map Position.claimable = pendingDividend l acc position.debt position.claimable := by
  unfold settle pendingDividend
  cases hmul : checkedMul u128 l acc ErrorCode.mathOverflow with
  | error e => rfl
  | ok v =>
    dsimp only [bind, Except.bind]
    cases hdiv : checkedDiv v DIVIDEND_PRECISION ErrorCode.mathOverflow with
    | error e => rfl
    | ok accumulated =>
      dsimp only
      cases narrow u64 (accumulated - position.debt) ErrorCode.mathOverflow with
      | error e => rfl
      | ok delta =>
        dsimp only
        cases checkedAdd u64 position.claimable delta ErrorCode.mathOverflow <;> rfl

/-- the loaded accounts of a listed asset -/
theorem loadAssetAccount_listed (ha : w.assets m = some asset) (hm : asset.assetMint = m) : loadAssetAccount w m = .ok asset := by
  simp only [loadAssetAccount, bind_ok, demand_ok, require_ok]
  exact ⟨asset, ha, (), hm, rfl⟩

/-- what stands for the position in a quote -/
def quotedPosition (w : World) (u m : Key) : Position := (w.positions (u, m)).getD Position.empty

theorem pendingForHolder_listed (ha : w.assets m = some asset) (hm : asset.assetMint = m) (l : ℕ) :
    pendingForHolder w (.asset m) (.position u m) u m l =
      pendingDividend l asset.accShare (quotedPosition w u m).debt (quotedPosition w u m).claimable := by
  unfold pendingForHolder readPositionDebtClaimable quotedPosition
  rw [loadAssetConfig_listed ha hm, require_bind rfl]
  cases w.positions (u, m) <;> rfl

theorem settledClaimable_some (ha : w.assets m = some asset) (hm : asset.assetMint = m) {position : Position}
    (hp : w.positions (u, m) = some position) (l : ℕ) :
    settledClaimable w u m l = pendingForHolder w (.asset m) (.position u m) u m l := by
  have hload : loadOrInitPosition w (.position u m) u m = .ok (position, false) := by
    simp only [loadOrInitPosition, hp, bind_ok, require_ok]
    exact ⟨(), trivial, trivial⟩
  rw [pendingForHolder_listed ha hm, quotedPosition, hp]
  unfold settledClaimable
  rw [loadAssetAccount_listed ha hm, hload]
  change (settleLoaded asset.accShare l l (position, false) >>= fun position => .ok position.claimable) = _
  rw [settleLoaded, if_neg Bool.false_ne_true, Option.getD_some, ← settle_claimable]
  cases settle asset.accShare l l position <;> rfl

/-- a missing position is created with nothing to claim -/
theorem settledClaimable_none (ha : w.assets m = some asset) (hm : asset.assetMint = m) (hp : w.positions (u, m) = none)
    {l : ℕ} (hfits : l * asset.accShare < 2 ^ 128) : settledClaimable w u m l = .ok 0 := by
  have hsettled : settleLoaded asset.accShare l l (Position.empty, true) =
      .ok { Position.empty with debt := l * asset.accShare / DIVIDEND_PRECISION } := by
    have hnew := settleLoaded_new asset.accShare l
    rw [if_pos hfits] at hnew
    exact hnew
  unfold settledClaimable
  rw [loadAssetAccount_listed ha hm, loadOrInitPosition_new hp]
  change (settleLoaded asset.accShare l l (Position.empty, true) >>= fun position => .ok position.claimable) = _
  rw [hsettled]
  rfl

/-- but it is quoted all that the lock earned since the index started, unless that is less than a unit -/
theorem pendingForHolder_none (ha : w.assets m = some asset) (hm : asset.assetMint = m) (hp : w.positions (u, m) = none)
    {l : ℕ} (hfits : l * asset.accShare < 2 ^ 128) :
    pendingForHolder w (.asset m) (.position u m) u m l = .ok 0 ↔ l * asset.accShare < DIVIDEND_PRECISION := by
  have hprec : DIVIDEND_PRECISION ≠ 0 := by decide
  rw [pendingForHolder_listed ha hm, quotedPosition, hp, Option.getD_none]
  simp only [pendingDividend, Position.empty, bind_ok, checkedMul_ok, checkedDiv_ok, narrow_ok, checkedAdd_ok]
  constructor
  · rintro ⟨_, ⟨-, rfl⟩, _, ⟨-, rfl⟩, _, ⟨-, rfl⟩, -, hzero⟩
    have hdiv : l * asset.accShare / DIVIDEND_PRECISION = 0 := by simpa only [Nat.zero_add, Nat.sub_zero] using hzero
    exact (Nat.div_eq_zero_iff.1 hdiv).resolve_left hprec
  · intro hlt
    have hdiv : l * asset.accShare / DIVIDEND_PRECISION = 0 := Nat.div_eq_of_lt hlt
    refine ⟨_, ⟨hfits, rfl⟩, _, ⟨hprec, rfl⟩, _, ⟨?_, rfl⟩, ?_, ?_⟩
    · rw [hdiv]
      decide
    · rw [hdiv]
      decide
    · rw [hdiv]

/-- the quote of an account and its claim agree exactly if the position exists, or its lock has not earned a unit -/
theorem pending_agrees_iff (ha : w.assets m = some asset) (hm : asset.assetMint = m) {l : ℕ}
    (hfits : l * asset.accShare < 2 ^ 128) :
    pendingForHolder w (.asset m) (.position u m) u m l = settledClaimable w u m l ↔
      (w.positions (u, m)).isSome ∨ l * asset.accShare < DIVIDEND_PRECISION := by
  cases hp : w.positions (u, m) with
  | some position => exact iff_of_true (settledClaimable_some ha hm hp l).symm (.inl rfl)
  | none =>
    rw [settledClaimable_none ha hm hp hfits, pendingForHolder_none ha hm hp hfits]
    simp

/-! ## The three quotes -/

/-- the quotes for `u` in `m` are what its claim computes -/
structure World.QuotesAgree (w : World) (u m : Key) : Prop where
  claim : ∀ escrow, loadEscrow w u = .ok escrow →
    executePreviewClaim w ⟨u, m⟩ u64Max = settledClaimable w u m escrow.amount
  claimAll : ∀ remaining quote, executePreviewClaimAll w u remaining = .ok quote →
    ∀ x, (m, x) ∈ quote.assets.zip quote.amounts → settledClaimable w u m (w.lockOf u) = .ok x
  lockers : ∀ fromId toId remaining rows, getLockersData w fromId toId remaining = .ok rows → ∀ row ∈ rows, row.locker = u →
    ∀ x, (m, x) ∈ row.assets.zip row.claimable → settledClaimable w u m (w.lockOf u) = .ok x

/-- the accounts a pending dividend is read from are checked -/
theorem pendingForHolder_infos {assetInfo positionInfo : Key} {l x : ℕ}
    (h : pendingForHolder w assetInfo positionInfo u m l = .ok x) :
    pendingForHolder w (.asset m) (.position u m) u m l = .ok x := by
  have hinfos : assetInfo = .asset m ∧ positionInfo = .position u m := by
    simp only [pendingForHolder, loadAssetConfig, readPositionDebtClaimable, bind_ok, require_ok, Prod.exists] at h
    obtain ⟨_, ⟨-, hasset, -⟩, _, _, ⟨-, hposition, -⟩, -⟩ := h
    exact ⟨hasset, hposition⟩
  rwa [hinfos.1, hinfos.2] at h

/-- the pairs are read in registry order, and each is quoted what its position has pending -/
theorem previewPairs_pending {l : ℕ} {mints remaining : List Key} {quote : ClaimAllQuote}
    (h : previewPairs w u l mints remaining = .ok quote) {x : ℕ} (hx : (m, x) ∈ quote.assets.zip quote.amounts) :
    pendingForHolder w (.asset m) (.position u m) u m l = .ok x := by
  induction mints generalizing remaining quote with
  | nil =>
    cases h
    cases hx
  | cons mint mints ih =>
    rcases remaining with _ | ⟨assetInfo, _ | ⟨positionInfo, rest⟩⟩
    · cases h
    · cases h
    · simp only [previewPairs, bind_ok, Except.ok.injEq] at h
      obtain ⟨pending, hpending, quote', hquote, rfl⟩ := h
      rcases List.mem_cons.1 hx with heq | hmem
      · cases heq
        exact pendingForHolder_infos hpending
      · exact ih hquote hmem

theorem pendingsForHolder_pending {l : ℕ} {mints assetInfos positionInfos : List Key} {claimable : List ℕ}
    (h : pendingsForHolder w u l mints assetInfos positionInfos = .ok claimable) {x : ℕ} (hx : (m, x) ∈ mints.zip claimable) :
    pendingForHolder w (.asset m) (.position u m) u m l = .ok x := by
  induction mints generalizing assetInfos positionInfos claimable with
  | nil => cases hx
  | cons mint mints ih =>
    rcases assetInfos with _ | ⟨assetInfo, assetInfos⟩
    · cases h
    rcases positionInfos with _ | ⟨positionInfo, positionInfos⟩
    · cases h
    simp only [pendingsForHolder, bind_ok, Except.ok.injEq] at h
    obtain ⟨pending, hpending, rest, hrest, rfl⟩ := h
    rcases List.mem_cons.1 hx with heq | hmem
    · cases heq
      exact pendingForHolder_infos hpending
    · exact ih hrest hmem

theorem readReferrerRow_locker {info locker : Key} {row : LockerDataView} (h : readReferrerRow w info locker = .ok row) :
    row.locker = locker := by
  simp only [readReferrerRow, bind_ok] at h
  obtain ⟨-, -, h⟩ := h
  split at h
  · cases h
    rfl
  · cases h
    rfl

/-- a row of the registry view quotes the pending dividends of its locker -/
theorem lockerRows_pending {mints assetInfos lockers referrerInfos escrowInfos positionInfos : List Key}
    {rows : List LockerDataView}
    (h : lockerRows w mints assetInfos lockers referrerInfos escrowInfos positionInfos = .ok rows) {row : LockerDataView}
    (hrow : row ∈ rows) {x : ℕ} (hx : (m, x) ∈ row.assets.zip row.claimable) :
    pendingForHolder w (.asset m) (.position row.locker m) row.locker m (w.lockOf row.locker) = .ok x := by
  induction lockers generalizing referrerInfos escrowInfos positionInfos rows with
  | nil =>
    cases h
    cases hrow
  | cons locker lockers ih =>
    rcases referrerInfos with _ | ⟨r, referrerInfos⟩
    · cases h
    rcases escrowInfos with _ | ⟨e, escrowInfos⟩
    · cases h
    simp only [lockerRows, bind_ok, Except.ok.injEq] at h
    obtain ⟨row₀, hrow₀, locked, hlocked, claimable, hclaimable, rows', hrows, rfl⟩ := h
    rcases List.mem_cons.1 hrow with rfl | hmem
    · simp only [readEscrowLocked, bind_ok, Except.ok.injEq] at hlocked
      obtain ⟨-, -, rfl⟩ := hlocked
      have hlocker := readReferrerRow_locker hrow₀
      dsimp only at hx ⊢
      rw [hlocker]
      exact pendingsForHolder_pending hclaimable hx
    · exact ih hrows hmem

theorem getLockersData_pending {fromId toId : ℕ} {remaining : List Key} {rows : List LockerDataView}
    (h : getLockersData w fromId toId remaining = .ok rows) {row : LockerDataView} (hrow : row ∈ rows) {x : ℕ}
    (hx : (m, x) ∈ row.assets.zip row.claimable) :
    pendingForHolder w (.asset m) (.position row.locker m) row.locker m (w.lockOf row.locker) = .ok x := by
  simp only [getLockersData, bind_ok] at h
  obtain ⟨-, -, h⟩ := h
  split_ifs at h
  · cases h
    cases hrow
  · simp only [bind_ok] at h
    obtain ⟨-, -, -, -, h⟩ := h
    exact lockerRows_pending h hrow hx

/-- a quote for everything that is pending is the pending dividend -/
theorem executePreviewClaim_pending (ha : w.assets m = some asset) (hm : asset.assetMint = m) {t : MintAccount Key}
    (ht : w.bank.mints m = some t) {escrow : Escrow} (he : loadEscrow w u = .ok escrow) :
    executePreviewClaim w ⟨u, m⟩ u64Max = pendingForHolder w (.asset m) (.position u m) u m escrow.amount := by
  have hall : ∀ pending, previewClaim u64Max pending = pending := fun pending => if_pos (.inl rfl)
  have hmint : loadMint w.bank m = .ok t := demand_ok.2 ht
  rw [pendingForHolder_listed ha hm]
  unfold executePreviewClaim quotedPosition
  rw [he, hmint, loadAssetAccount_listed ha hm]
  cases hp : w.positions (u, m) with
  | none =>
    change (pendingDividend escrow.amount asset.accShare 0 0 >>= fun pending => .ok (previewClaim u64Max pending)) = _
    simp only [hall, Option.getD_none, Position.empty]
    cases pendingDividend escrow.amount asset.accShare 0 0 <;> rfl
  | some position =>
    change (pendingDividend escrow.amount asset.accShare position.debt position.claimable >>= fun pending =>
      .ok (previewClaim u64Max pending)) = _
    simp only [hall, Option.getD_some]
    cases pendingDividend escrow.amount asset.accShare position.debt position.claimable <;> rfl

/-- the mint of a listed asset exists -/
theorem Genesis.listed_mint (g : Genesis) (is : List Instr) (ha : (g.after is).assets m = some asset) :
    ∃ t, (g.after is).bank.mints m = some t := by
  have hfresh : Bank.MintedAt g.world.bank (.vault m) := by
    intro a hstands
    rw [g.blank.accounts] at hstands
    cases (g.fresh (.vault m) m rfl).symm.trans hstands
  obtain ⟨-, a, hvault, -, hmint⟩ := (g.after_sound is).listing m asset ha
  have hminted := Bank.Circulates.mintedAt (g.after_upkeep is).bank hfresh a hvault
  rw [hmint] at hminted
  exact Option.ne_none_iff_exists'.1 hminted

/-- **Quotes.** After every run, the quotes for an account in a listed asset are what its claim computes exactly if its position
exists, or its lock has earned less than a unit since the index started.

A view cannot open the position that a claim would open, so it takes a debt of zero for one that is missing. That is the case the
condition leaves out: a lock that has earned something before its position was created. -/
theorem quotes_agree_iff (g : Genesis) (is : List Instr) {u m : Key} {asset : AssetConfig}
    (ha : (g.after is).assets m = some asset) : (g.after is).QuotesAgree u m ↔
      ((g.after is).positions (u, m)).isSome ∨ (g.after is).lockOf u * asset.accShare < DIVIDEND_PRECISION := by
  have hm : asset.assetMint = m := ((g.after_sound is).listing m asset ha).1
  have hfits : (g.after is).lockOf u * asset.accShare < 2 ^ 128 := after_indexed g is m asset u ha
  have hagree := pending_agrees_iff (u := u) ha hm hfits
  obtain ⟨t, ht⟩ := g.listed_mint is ha
  constructor
  · intro hquotes
    by_contra hnot
    -- the lock is not zero, so the escrow carries its bump and can be loaded
    have hlock : 0 < (g.after is).lockOf u := by
      rcases Nat.eq_zero_or_pos ((g.after is).lockOf u) with hzero | hpos
      · exact absurd (.inr (by rw [hzero, Nat.zero_mul]; decide)) hnot
      · exact hpos
    obtain ⟨escrow, he⟩ : ∃ escrow, (g.after is).escrows u = some escrow := by
      unfold World.lockOf at hlock
      cases he : (g.after is).escrows u with
      | none => simp [he] at hlock
      | some escrow => exact ⟨escrow, rfl⟩
    have hamount := World.lockOf_some he
    have hload : loadEscrow (g.after is) u = .ok escrow := by
      simp only [loadEscrow, bind_ok, demand_ok, require_ok]
      exact ⟨escrow, he, (), (g.after_sound is).escrow u escrow he (hamount ▸ hlock), rfl⟩
    have hclaim := hquotes.claim escrow hload
    rw [executePreviewClaim_pending ha hm ht hload, ← hamount] at hclaim
    exact hnot (hagree.1 hclaim)
  · intro hgood
    have hpending := hagree.2 hgood
    refine ⟨fun escrow he => ?_, fun remaining quote hquote x hx => ?_, fun fromId toId remaining rows hrows row hrow hu x hx => ?_⟩
    · rw [executePreviewClaim_pending ha hm ht he, ← World.lockOf_some (loadEscrow_ok he)]
      exact hpending
    · simp only [executePreviewClaimAll, bind_ok, require_ok] at hquote
      obtain ⟨escrow, he, -, -, hquote⟩ := hquote
      rw [← hpending, World.lockOf_some (loadEscrow_ok he)]
      exact previewPairs_pending hquote hx
    · subst hu
      rw [← hpending]
      exact getLockersData_pending hrows hrow hx

/-- wallet 2 claimed once, so its position exists -/
theorem quotes_agree_after_claim :
    (Sample.genesis.after (Sample.lateLocker ++ [Sample.claim 4 2 Sample.gold])).QuotesAgree (Sample.user 2) Sample.gold := by
  have ha : (Sample.genesis.after (Sample.lateLocker ++ [Sample.claim 4 2 Sample.gold])).assets Sample.gold =
      some ⟨Sample.gold, .key 200, false, false, 1, 5 * 10 ^ 17, 500, 1000, 0⟩ := by decide +kernel
  exact (quotes_agree_iff Sample.genesis (Sample.lateLocker ++ [Sample.claim 4 2 Sample.gold]) ha).2
    (.inl (by decide +kernel))

/-- before its first claim wallet 2 is quoted 500, and claims nothing -/
theorem quoted_unopened :
    let w := Sample.genesis.after Sample.lateLocker
    w.positions (Sample.user 2, Sample.gold) = none ∧ w.lockOf (Sample.user 2) = 1000 ∧
      executePreviewClaim w ⟨Sample.user 2, Sample.gold⟩ u64Max = .ok 500 ∧
      settledClaimable w (Sample.user 2) Sample.gold 1000 = .ok 0 ∧
      ¬w.QuotesAgree (Sample.user 2) Sample.gold := by
  have hquote : executePreviewClaim (Sample.genesis.after Sample.lateLocker) ⟨Sample.user 2, Sample.gold⟩ u64Max = .ok 500 := by
    decide +kernel
  have hsettled : settledClaimable (Sample.genesis.after Sample.lateLocker) (Sample.user 2) Sample.gold 1000 = .ok 0 := by
    decide +kernel
  refine ⟨by decide +kernel, by decide +kernel, hquote, hsettled, fun hquotes => ?_⟩
  have hclaim := hquotes.claim ⟨1000, 0, 0, 0, 0, ESCROW_BUMP⟩ (by decide +kernel)
  rw [hquote] at hclaim
  cases hclaim.trans hsettled

end Grindurus.Grai
