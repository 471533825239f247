/-
The list of assets (`programs/grai/src/assets.rs`).

`executeSetFeed` is one entry with four outcomes: list an asset, pause it, replace the feed of a paused one, or delist a
paused one. An asset is delisted only without a reserve, and its index is closed with it; positions outlive both.

Who lists an asset again finds a fresh index but the positions of before, whose debts are those of the old index. `Positions` says
what comes of it.
-/
import Grindurus.Grai.View

namespace Grindurus.Grai

open Checked TokenBank Registry Function

def requireOwner (w : World) (owner : Signer) : Except ErrorCode Unit := require (w.state.owner = owner.key) .unauthorized

/-- passing the System Program as a feed asks for a delisting -/
def isFeedNone (feed : Feed) : Bool := feed.key = .default

structure SetFeed where
  owner : Signer
  assetMint : Key
  assetConfig : Key
  vaultAta : Key
  priceFeed : Feed
  movedAssetConfig : Key
  paused : Bool

/-! ## List -/

/-- the token account of the program at `k`, created if it is not there -/
def ensureVault (b : Bank Key) (k mint : Key) : Except ErrorCode (Bank Key) :=
  match b.accounts k with
  | some a => do
    require (a.mint = mint) .invalidDestination
    require (a.owner = .protocol) .invalidDestination
    .ok b
  | none => spl (b.openAccount k mint .protocol)

/-- the listing of `mint`, created with an empty index if it is not there -/
def ensureAssetConfig (w : World) (mint priceFeed : Key) (pythFeedId id : ℕ) (paused : Bool) : Except ErrorCode World :=
  match w.assets mint with
  | some asset => do
    require (asset.assetMint = mint) .assetUnknown
    .ok (w.storeAsset mint { asset with priceFeed, pythFeedId, paused, id })
  | none => .ok (w.storeAsset mint
      { assetMint := mint, priceFeed, paused, bribeable := false, id, accShare := 0, totalClaimable := 0
        totalYielded := 0, pythFeedId })

def list (w : World) (a : SetFeed) (mintAuthority : Option Key) : Except ErrorCode World := do
  let mint := a.assetMint
  require (mintAuthority ≠ some .protocol) .assetUnknown
  require (a.assetConfig = .asset mint) .assetUnknown
  require (a.vaultAta = .vault mint) .invalidDestination
  let s := w.state
  let w := reallocGraiState w
    (GraiState.space (s.assetMints.length + 1) s.lockers.length s.voters.length s.referrers.length)
  let w := { w with state := { s with assetMints := s.assetMints ++ [mint] } }
  let pythFeedId ← a.priceFeed.pythFeedId.mapError .oracle
  let w ← ensureAssetConfig w mint a.priceFeed.key pythFeedId s.assetMints.length a.paused
  let bank ← ensureVault w.bank (.vault mint) mint
  let bank ← ensureVault bank (.treasury mint) mint
  .ok { w with bank }

/-! ## Delist -/

/-- tell the listing that takes the place of the removed one, if the caller passed it in -/
def relabelMoved (w : World) (a : SetFeed) (moved : Key) (index : ℕ) : Except ErrorCode World :=
  if a.movedAssetConfig ≠ a.assetConfig ∧ w.programOwned a.movedAssetConfig = true then
    match a.movedAssetConfig with
    | .asset m => do
      let asset ← demand .assetUnknown (w.assets m)
      require (asset.assetMint = moved) .assetUnknown
      .ok (w.storeAsset m { asset with id := index })
    | k => .error (.accountDiscriminatorMismatch k)
  else .ok w

/-- the treasury of a delisted asset is closed; it must be empty -/
def closeTreasuryVaultIfEmpty (b : Bank Key) (treasury : Key) : Except ErrorCode (Bank Key) :=
  match b.accounts treasury with
  | none => .ok b
  | some a => do
    require (a.amount = 0) .assetBalanceNonZero
    spl (b.closeAccount treasury .protocol)

def delist (w : World) (a : SetFeed) (asset : AssetConfig) : Except ErrorCode World := do
  let mint := a.assetMint
  require (a.vaultAta = .vault mint) .invalidDestination
  require (w.state.liquidation = false) .liquidationOpen
  require (asset.paused = true) .notPaused
  require (asset.totalClaimable = 0) .assetBalanceNonZero
  let vault ← demand .invalidDestination (w.bank.accounts (.vault mint))
  require (vault.mint = mint) .invalidDestination
  require (vault.amount = 0) .assetBalanceNonZero
  let mints := w.state.assetMints
  let index ← demand .assetUnknown (mints.idxOf? mint)
  let moved ← demand .panicked mints[mints.length - 1]?
  let w ← (if index ≠ mints.length - 1 then relabelMoved w a moved index else .ok w)
  let w := { w with state := { w.state with assetMints := removeFromList mints mint } }
  let bank ← closeTreasuryVaultIfEmpty w.bank (.treasury mint)
  let s := w.state
  let w := reallocGraiState w (GraiState.space s.assetMints.length s.lockers.length s.voters.length s.referrers.length)
  .ok { w with assets := update w.assets mint none, bank }

/-! ## The entry -/

def executeSetFeed (w : World) (a : SetFeed) : Except ErrorCode World := do
  let mint := a.assetMint
  let t ← loadMint w.bank mint
  requireOwner w a.owner
  if mint ∉ w.state.assetMints then do
    require (isFeedNone a.priceFeed = false) .assetUnknown
    require (a.priceFeed.matchesAssetMint = true) .invalidCustomPriceFeed
    list w a t.mintAuthority
  else do
    require (a.assetConfig = .asset mint) .assetUnknown
    let asset ← demand .assetUnknown (w.assets mint)
    require (asset.assetMint = mint) .assetUnknown
    if asset.paused = false then .ok (w.storeAsset mint { asset with paused := a.paused })
    else if isFeedNone a.priceFeed then delist w a asset
    else do
      require (a.priceFeed.matchesAssetMint = true) .invalidCustomPriceFeed
      let pythFeedId ← a.priceFeed.pythFeedId.mapError .oracle
      .ok (w.storeAsset mint { asset with priceFeed := a.priceFeed.key, pythFeedId, paused := a.paused })

structure SetBribeable where
  owner : Signer
  assetMint : Key
  bribeable : Bool

/-- mark or unmark a listed asset as bribe payment currency -/
def executeSetBribeable (w : World) (a : SetBribeable) : Except ErrorCode World := do
  requireOwner w a.owner
  require (w.state.liquidation = false) .liquidationOpen
  let t ← loadMint w.bank a.assetMint
  let asset ← loadAssetAccount w a.assetMint
  require (t.mintAuthority ≠ some .protocol) .assetUnknown
  .ok (w.storeAsset a.assetMint { asset with bribeable := a.bribeable })

/-! ## What they do -/

variable {w w' : World}

/-- what the ledger does not see changed -/
theorem Committed.of_view (hwf : w'.WF) (hview : w'.view = w.view) : Committed .nobody w w' := by
  refine ⟨hwf, none, ?_⟩
  rw [hview]
  exact .steps (.nil _)

/-- a listing is rewritten, its index and reserve are not -/
theorem storeAsset_view {m : Key} {asset asset' : AssetConfig} (ha : w.assets m = some asset) (hpool : asset'.pool = asset.pool) :
    (w.storeAsset m asset').view = w.view := by
  have hassets : (fun n => ((w.storeAsset m asset').assets n).map AssetConfig.pool) =
      fun n => (w.assets n).map AssetConfig.pool := by
    funext n
    rcases eq_or_ne n m with rfl | hn
    · simp [World.storeAsset, ha, hpool]
    · simp [World.storeAsset, hn]
  show { w.view with asset := fun n => ((w.storeAsset m asset').assets n).map AssetConfig.pool } = w.view
  rw [hassets]
  rfl

theorem storeAsset_wf (hw : w.WF) {m : Key} {asset : AssetConfig} (ha : w.assets m = some asset) (asset' : AssetConfig) :
    (w.storeAsset m asset').WF := by
  refine hw.keep rfl (fun n => ?_) hw.guarded
  rcases eq_or_ne n m with rfl | hn
  · simp [World.storeAsset, ha]
  · simp [World.storeAsset, hn]

theorem storeAsset_committed (hw : w.WF) {m : Key} {asset asset' : AssetConfig} (ha : w.assets m = some asset)
    (hpool : asset'.pool = asset.pool) : Committed .nobody w (w.storeAsset m asset') :=
  .of_view (storeAsset_wf hw ha asset') (storeAsset_view ha hpool)

theorem ensureVault_ok {b b' : Bank Key} {k m : Key} (grai : Key) (hk : k.custodyMint = some m)
    (h : ensureVault b k m = .ok b') : BankMoves grai 0 0 b b' := by
  unfold ensureVault at h
  split at h
  · simp only [bind_ok, Except.ok.injEq] at h
    obtain ⟨-, -, -, -, rfl⟩ := h
    exact .refl _ _
  · refine openAccount_moves grai (spl_ok.1 h) fun n hn => ?_
    cases hk.symm.trans hn
    exact ⟨rfl, rfl⟩

/-- a listing that is there keeps its index, a new one starts at zero -/
theorem ensureAssetConfig_stores {m f : Key} {q i : ℕ} {p : Bool} (h : ensureAssetConfig w m f q i p = .ok w') :
    ∃ asset', w' = w.storeAsset m asset' ∧ asset'.assetMint = m ∧ (asset'.accShare = 0 ∨
      ∃ asset, w.assets m = some asset ∧ asset.assetMint = m ∧ asset'.accShare = asset.accShare) := by
  unfold ensureAssetConfig at h
  split at h
  · rename_i asset ha
    simp only [bind_ok, require_ok, Except.ok.injEq] at h
    obtain ⟨-, hm, rfl⟩ := h
    exact ⟨_, rfl, hm, .inr ⟨asset, ha, hm, rfl⟩⟩
  · cases h
    exact ⟨_, rfl, rfl, .inl rfl⟩

/-- to list an asset makes room for it in the state, stores its listing, and opens its vault and its treasury -/
theorem list_opens {a : SetFeed} {auth : Option Key} (h : list w a auth = .ok w') :
    ∃ asset b₁ b₂, asset.assetMint = a.assetMint ∧
      (asset.accShare = 0 ∨ ∃ asset₀, w.assets a.assetMint = some asset₀ ∧ asset₀.assetMint = a.assetMint ∧
        asset.accShare = asset₀.accShare) ∧
      ensureVault w.bank (.vault a.assetMint) a.assetMint = .ok b₁ ∧
      ensureVault b₁ (.treasury a.assetMint) a.assetMint = .ok b₂ ∧
      w' = { World.storeAsset { reallocGraiState w (GraiState.space (w.state.assetMints.length + 1) w.state.lockers.length
            w.state.voters.length w.state.referrers.length) with
          state := { w.state with assetMints := w.state.assetMints ++ [a.assetMint] } } a.assetMint asset with bank := b₂ } := by
  simp only [list, bind_ok, Except.ok.injEq] at h
  obtain ⟨-, -, -, -, -, -, _, -, w₁, hw₁, b₁, hb₁, b₂, hb₂, rfl⟩ := h
  obtain ⟨asset, rfl, hmint, hacc⟩ := ensureAssetConfig_stores hw₁
  exact ⟨asset, b₁, b₂, hmint, hacc, hb₁, hb₂, rfl⟩

/-- listing an asset opens it in the ledger, with an empty index -/
theorem list_committed {a : SetFeed} {t : MintAccount Key} (hw : w.WF) (ht : w.bank.mints a.assetMint = some t)
    (hm : a.assetMint ∉ w.state.assetMints) (h : list w a t.mintAuthority = .ok w') :
    Committed (.lister a.assetMint) w w' := by
  have hm : w.assets a.assetMint = none := by
    rw [← Option.not_isSome_iff_eq_none]
    exact fun hs => hm ((hw.listed.2 _).2 hs)
  simp only [list, reallocGraiState, ensureAssetConfig, hm, bind_ok, require_ok, Except.ok.injEq] at h
  obtain ⟨-, hauth, -, -, -, -, pyth, -, _, rfl, b₁, hb₁, b₂, hb₂, rfl⟩ := h
  -- the share mint is the program's, so it is not the one that is listed
  have hne : w.state.graiMint ≠ a.assetMint := by
    obtain ⟨g, hg, hp⟩ := hw.guarded.authority
    intro heq
    rw [heq, ht] at hg
    cases hg
    exact hauth hp
  have hmoves : BankMoves w.state.graiMint 0 0 w.bank b₂ :=
    (ensureVault_ok _ (Key.custodyMint_vault _) hb₁).before (ensureVault_ok _ (Key.custodyMint_treasury _) hb₂)
  refine ⟨⟨hw.mint, hmoves.guarded hw.guarded, ?_, ?_, hw.config,
    ⟨hw.shares.levels, hw.shares.length, hw.shares.sum⟩⟩, none, ?_⟩
  · refine hw.listed.push (by simp [hm]) (by simp [World.storeAsset]) fun n hn => ?_
    simp [World.storeAsset, hn]
  · show update w.assets a.assetMint _ w.state.graiMint = none
    rw [update_of_ne hne, hw.unlisted]
  · refine .moves (.list a.assetMint (by simp [World.view, hm])) (.steps (.single ?_))
    have hflow := flow_of_moves (s := { w.view with asset := update w.view.asset a.assetMint (some ⟨0, 0⟩) }) rfl hmoves
      hw.guarded le_rfl DIVIDEND_PRECISION
    refine cast (congrArg _ ?_) hflow
    have hassets : update w.view.asset a.assetMint (some ⟨0, 0⟩) = fun n => (update w.assets a.assetMint (some
        { assetMint := a.assetMint, priceFeed := a.priceFeed.key, paused := a.paused, bribeable := false
          id := w.state.assetMints.length, accShare := 0, totalClaimable := 0, totalYielded := 0
          pythFeedId := pyth }) n).map AssetConfig.pool := by
      funext n
      rcases eq_or_ne n a.assetMint with rfl | hn
      · simp [AssetConfig.pool]
      · simp [World.view, hn]
    simp only [World.view, World.storeAsset, World.supply, World.holdings, hmoves.supply_eq hw.guarded] at hassets ⊢
    rw [hassets]
    rfl

theorem closeTreasuryVaultIfEmpty_ok {b b' : Bank Key} {k : Key} (grai : Key) (h : closeTreasuryVaultIfEmpty b k = .ok b') :
    BankMoves grai 0 0 b b' := by
  unfold closeTreasuryVaultIfEmpty at h
  split at h
  · cases h
    exact .refl _ _
  · simp only [bind_ok] at h
    obtain ⟨-, -, h⟩ := h
    have h := spl_ok.1 h
    intro hb
    refine ⟨⟨fun j m hj a ha => ?_, ?_⟩, ?_, fun j m _ => by simp [Bank.closeAccount_balance h]⟩
    · obtain ⟨-, -, -, -, rfl⟩ := Bank.closeAccount_ok h
      rcases eq_or_ne j k with rfl | hjk
      · simp at ha
      · exact hb.owned j m hj a (by simpa [hjk] using ha)
    · obtain ⟨-, -, -, -, rfl⟩ := Bank.closeAccount_ok h
      exact hb.authority
    · obtain ⟨-, -, -, -, rfl⟩ := Bank.closeAccount_ok h
      simp [Bank.supply]

/-- relabelling rewrites at most the listing passed in -/
theorem relabelMoved_stores {a : SetFeed} {moved : Key} {i : ℕ} (h : relabelMoved w a moved i = .ok w') :
    w' = w ∨ ∃ m asset, w.assets m = some asset ∧ w' = w.storeAsset m { asset with id := i } := by
  unfold relabelMoved at h
  split_ifs at h
  · split at h
    · simp only [bind_ok, demand_ok, Except.ok.injEq] at h
      obtain ⟨asset, ha, -, -, rfl⟩ := h
      exact .inr ⟨_, asset, ha, rfl⟩
    · cases h
  · cases h
    exact .inl rfl

/-- what a delisting does, once another listing may have taken its place in the list -/
theorem delist_removes {a : SetFeed} {asset : AssetConfig} (h : delist w a asset = .ok w') :
    asset.totalClaimable = 0 ∧ ∃ w₁ b,
      (w₁ = w ∨ ∃ m moved i, w.assets m = some moved ∧ w₁ = w.storeAsset m { moved with id := i }) ∧
      closeTreasuryVaultIfEmpty w₁.bank (.treasury a.assetMint) = .ok b ∧
      w' = { reallocGraiState
          { w₁ with state := { w₁.state with assetMints := removeFromList w₁.state.assetMints a.assetMint } }
          (GraiState.space (removeFromList w₁.state.assetMints a.assetMint).length w₁.state.lockers.length
            w₁.state.voters.length w₁.state.referrers.length) with
        assets := update w₁.assets a.assetMint none, bank := b } := by
  simp only [delist, bind_ok, require_ok, Except.ok.injEq] at h
  obtain ⟨-, -, -, -, -, -, -, hreserve, -, -, -, -, -, -, i, -, moved, -, w₁, hmoved, b, hb, rfl⟩ := h
  have hstored : w₁ = w ∨ ∃ m moved i, w.assets m = some moved ∧ w₁ = w.storeAsset m { moved with id := i } := by
    split_ifs at hmoved
    · rcases relabelMoved_stores hmoved with heq | ⟨m, asset, ha, heq⟩
      · exact .inl heq
      · exact .inr ⟨m, asset, i, ha, heq⟩
    · cases hmoved
      exact .inl rfl
  have hstate : w₁.state = w.state := by
    rcases hstored with rfl | ⟨m, moved, i, -, rfl⟩ <;> rfl
  rw [← hstate]
  exact ⟨hreserve, w₁, b, hstored, hb, rfl⟩

/-- delisting an asset, which has no reserve, closes it in the ledger -/
theorem delist_committed {a : SetFeed} {asset : AssetConfig} (hw : w.WF) (ha : w.assets a.assetMint = some asset)
    (h : delist w a asset = .ok w') : Committed .nobody w w' := by
  obtain ⟨hreserve, w₁, b, hstored, hb, rfl⟩ := delist_removes h
  have hrelabel : w₁.WF ∧ w₁.view = w.view := by
    rcases hstored with rfl | ⟨m, moved, i, hm, rfl⟩
    · exact ⟨hw, rfl⟩
    · exact ⟨storeAsset_wf hw hm _, storeAsset_view hm rfl⟩
  obtain ⟨hw₁, hview⟩ := hrelabel
  have hmoves := closeTreasuryVaultIfEmpty_ok w₁.state.graiMint hb
  refine ⟨⟨hw₁.mint, hmoves.guarded hw₁.guarded, ?_, ?_, hw₁.config,
    ⟨hw₁.shares.levels, hw₁.shares.length, hw₁.shares.sum⟩⟩, none, ?_⟩
  · refine hw₁.listed.remove (by simp) fun n hn => ?_
    simp [hn]
  · rcases eq_or_ne w₁.state.graiMint a.assetMint with heq | hne
    · exact (congrArg _ heq).trans (by simp)
    · exact (update_of_ne hne _ _).trans hw₁.unlisted
  · rw [← hview]
    have hm : w₁.view.asset a.assetMint = some ⟨asset.accShare, 0⟩ := by
      rw [hview, World.view_asset ha, AssetConfig.pool, hreserve]
    refine .moves (.delist a.assetMint _ hm) (.steps (.single ?_))
    have hflow := flow_of_moves (s := { w₁.view with asset := update w₁.view.asset a.assetMint none }) rfl hmoves
      hw₁.guarded le_rfl DIVIDEND_PRECISION
    refine cast (congrArg _ ?_) hflow
    have hassets : update w₁.view.asset a.assetMint none =
        fun n => (update w₁.assets a.assetMint none n).map AssetConfig.pool := by
      funext n
      rcases eq_or_ne n a.assetMint with rfl | hn
      · simp
      · simp [World.view, hn]
    simp only [reallocGraiState, World.view, World.supply, World.holdings, hmoves.supply_eq hw₁.guarded] at hassets ⊢
    rw [hassets]
    rfl

/-- the four outcomes of setting a feed: the asset is listed, delisted, or its listing gets a pause or a feed -/
theorem executeSetFeed_cases {a : SetFeed} (h : executeSetFeed w a = .ok w') :
    (a.assetMint ∉ w.state.assetMints ∧ ∃ t, w.bank.mints a.assetMint = some t ∧ list w a t.mintAuthority = .ok w') ∨
    a.assetMint ∈ w.state.assetMints ∧ ∃ asset, w.assets a.assetMint = some asset ∧ (delist w a asset = .ok w' ∨
      ∃ priceFeed pythFeedId paused, w' = w.storeAsset a.assetMint { asset with priceFeed, pythFeedId, paused }) := by
  simp only [executeSetFeed, loadMint, bind_ok, demand_ok] at h
  obtain ⟨t, ht, -, -, h⟩ := h
  by_cases hm : a.assetMint ∉ w.state.assetMints
  · rw [if_pos hm] at h
    simp only [bind_ok] at h
    obtain ⟨-, -, -, -, h⟩ := h
    exact .inl ⟨hm, t, ht, h⟩
  rw [if_neg hm] at h
  simp only [bind_ok, demand_ok] at h
  obtain ⟨-, -, asset, ha, -, -, h⟩ := h
  refine .inr ⟨not_not.1 hm, asset, ha, ?_⟩
  split_ifs at h
  · cases h
    exact .inr ⟨asset.priceFeed, asset.pythFeedId, a.paused, rfl⟩
  · exact .inl h
  · simp only [bind_ok, Except.ok.injEq] at h
    obtain ⟨-, -, pythFeedId, -, rfl⟩ := h
    exact .inr ⟨a.priceFeed.key, pythFeedId, a.paused, rfl⟩

/-- who moves by setting a feed: the owner lists an asset that is not listed yet -/
def SetFeed.actor (w : World) (a : SetFeed) : Actor Key :=
  if a.assetMint ∉ w.state.assetMints then .lister a.assetMint else .nobody

theorem executeSetFeed_committed {a : SetFeed} (hw : w.WF) (h : executeSetFeed w a = .ok w') :
    Committed (a.actor w) w w' := by
  unfold SetFeed.actor
  obtain ⟨hm, t, ht, h⟩ | ⟨hm, asset, ha, h | ⟨_, _, _, rfl⟩⟩ := executeSetFeed_cases h
  · rw [if_pos hm]
    exact list_committed hw ht hm h
  · rw [if_neg (not_not.2 hm)]
    exact delist_committed hw ha h
  · rw [if_neg (not_not.2 hm)]
    exact storeAsset_committed hw ha rfl

theorem executeSetBribeable_marks {a : SetBribeable} (h : executeSetBribeable w a = .ok w') :
    ∃ asset, w.assets a.assetMint = some asset ∧ w' = w.storeAsset a.assetMint { asset with bribeable := a.bribeable } := by
  simp only [executeSetBribeable, bind_ok, Except.ok.injEq] at h
  obtain ⟨-, -, -, -, -, -, asset, ha, -, -, rfl⟩ := h
  exact ⟨asset, loadAssetAccount_ok ha, rfl⟩

theorem executeSetBribeable_committed {a : SetBribeable} (hw : w.WF) (h : executeSetBribeable w a = .ok w') :
    Committed .nobody w w' := by
  obtain ⟨asset, ha, rfl⟩ := executeSetBribeable_marks h
  exact storeAsset_committed hw ha rfl

end Grindurus.Grai
