/-
The ledger behind a world (`World.view`), and what every instruction keeps true of the program's own accounts
(`World.WF`).

An instruction that commits is a transition of the ledger. `Committed` is that statement; each instruction's module proves
it for the instruction. The lemmas here turn what the helpers did (`BankMoves`, `Settled`, `distributeDividend_ok`) into
the moves of the ledger.

The ledger (`Ledger`) is the abstract model: stakes, positions, indices, vaults and the supply, without accounts, and its
transitions are the ones that the economics of the program know. All results on sums, on solvency and on the share price are
proved there once, and come down to the code by `Committed`.
-/
import Grindurus.Grai.Ledger
import Grindurus.Grai.Dividend

namespace Grindurus.Grai

open Checked Tally Registry RewardIndex TokenBank Function

/-! ## The view -/

def AssetConfig.pool (a : AssetConfig) : Pool := ⟨a.accShare, a.totalClaimable⟩

def holdingsOf (grai : Key) (b : Bank Key) : Holdings Key where
  grai := b.balance (.vault grai)
  vault m := b.balance (.vault m)
  treasury m := b.balance (.treasury m)

def World.holdings (w : World) : Holdings Key := holdingsOf w.state.graiMint w.bank

def World.view (w : World) : Ledger Key where
  lock := w.lockOf
  voted := w.voteOf
  totalLocked := w.state.totalLocked
  totalVoted := w.state.totalVoted
  lockers := w.state.lockers
  voters := w.state.voters
  asset m := (w.assets m).map AssetConfig.pool
  pos := checkpoints w.positions
  held := w.holdings
  dividendCut := w.state.config.dividendCutBps
  treasuryCut := w.state.config.treasuryCutBps
  totalValue := w.state.totalValue
  supply := w.supply
  liquidation := w.state.liquidation

/-- the affiliate shares of a claim: two levels that split the revenue share -/
structure GraiState.Shares (s : GraiState) : Prop where
  levels : s.affiliateLevels = 2
  length : s.affiliateShareBps.length = 2
  sum : s.affiliateShareBps.sum = BPS

/-- the program's own accounts are in order -/
structure World.WF (w : World) : Prop where
  mint : ∃ s : Signer, w.state.graiMint = s.key
  guarded : Guarded w.bank w.state.graiMint
  listed : Tracks w.state.assetMints fun m => (w.assets m).isSome
  unlisted : w.assets w.state.graiMint = none
  config : w.state.config.Valid
  shares : w.state.Shares

/-- the part of the state that the accounts' order depends on -/
def GraiState.layout (s : GraiState) : Key × List Key × Config × ℕ × List ℕ :=
  (s.graiMint, s.assetMints, s.config, s.affiliateLevels, s.affiliateShareBps)

/-- an instruction took `w` to `w'`: the accounts are still in order, and the ledger made one transition -/
structure Committed (act : Actor Key) (w w' : World) : Prop where
  wf : w'.WF
  trans : ∃ who, Trans DIVIDEND_PRECISION w.view who act w'.view

theorem World.view_asset {w : World} {m : Key} {a : AssetConfig} (h : w.assets m = some a) :
    w.view.asset m = some a.pool := by
  simp [World.view, h]

theorem World.WF.nodup {w : World} (h : w.WF) : w.state.assetMints.Nodup := h.listed.1

/-- a listed mint is not GRAI -/
theorem World.WF.ne_grai {w : World} (h : w.WF) {m : Key} {a : AssetConfig} (ha : w.assets m = some a) :
    m ≠ w.state.graiMint := by
  rintro rfl
  cases h.unlisted.symm.trans ha

/-- the accounts stay in order if the layout stands, the same assets are listed, and the guard is kept -/
theorem World.WF.keep {w w' : World} (h : w.WF) (hstate : w'.state.layout = w.state.layout)
    (hassets : ∀ m, (w'.assets m).isSome = (w.assets m).isSome) (hbank : Guarded w'.bank w.state.graiMint) : w'.WF := by
  simp only [GraiState.layout, Prod.mk.injEq] at hstate
  obtain ⟨hmint, hmints, hconfig, hlevels, hshares⟩ := hstate
  refine ⟨hmint ▸ h.mint, hmint ▸ hbank, ?_, ?_, hconfig ▸ h.config, ?_⟩
  · rw [hmints]
    exact h.listed.congr fun m => by rw [hassets m]
  · rw [hmint, ← Option.not_isSome_iff_eq_none, hassets, h.unlisted]
    simp
  · exact ⟨hlevels ▸ h.shares.levels, hshares ▸ h.shares.length, hshares ▸ h.shares.sum⟩

/-! ## Tokens -/

variable {g : Key} {b b' : Bank Key} {δ : Key → ℤ} {ι : ℤ}

theorem BankMoves.guarded (h : BankMoves g δ ι b b') (hb : Guarded b g) : Guarded b' g := (h hb).1

theorem BankMoves.supply (h : BankMoves g δ ι b b') (hb : Guarded b g) : (b'.supply g : ℤ) = b.supply g + ι := (h hb).2.1

theorem BankMoves.vault (h : BankMoves g δ ι b b') (hb : Guarded b g) (m : Key) :
    (b.balance (.vault m) : ℤ) + δ (.vault m) ≤ b'.balance (.vault m) :=
  (h hb).2.2 (.vault m) m rfl

theorem BankMoves.treasury (h : BankMoves g δ ι b b') (hb : Guarded b g) (m : Key) :
    (b.balance (.treasury m) : ℤ) + δ (.treasury m) ≤ b'.balance (.treasury m) :=
  (h hb).2.2 (.treasury m) m rfl

/-- the supply when no share is minted or burned -/
theorem BankMoves.supply_eq (h : BankMoves g δ 0 b b') (hb : Guarded b g) : b'.supply g = b.supply g := by
  have hs := h.supply hb
  omega

/-- the vault of no listed asset is debited: the reserves stay -/
theorem keepsAssets_of_moves {s : Ledger Key} {but : Option Key} (hheld : s.held = holdingsOf g b)
    (h : BankMoves g δ ι b b') (hb : Guarded b g)
    (hδ : ∀ m q, s.asset m = some q → some m ≠ but → 0 ≤ δ (.vault m) ∧ 0 ≤ δ (.treasury m)) :
    s.KeepsAssets but (holdingsOf g b') := by
  intro m q hm hne
  obtain ⟨hv, ht⟩ := hδ m q hm hne
  have h₁ := h.vault hb m
  have h₂ := h.treasury hb m
  rw [hheld]
  simp only [holdingsOf]
  exact ⟨min_le_of_left_le (by omega), by omega⟩

theorem keepsLocked_of_moves {s : Ledger Key} (hheld : s.held = holdingsOf g b) (h : BankMoves g δ ι b b')
    (hb : Guarded b g) (hδ : 0 ≤ δ (.vault g)) : s.KeepsLocked (holdingsOf g b') := by
  have h₁ := h.vault hb g
  unfold Ledger.KeepsLocked
  rw [hheld]
  simp only [holdingsOf]
  exact min_le_of_left_le (by omega)

/-- tokens move and no program account loses any -/
theorem flow_of_moves {s : Ledger Key} (hheld : s.held = holdingsOf g b) (h : BankMoves g δ ι b b') (hb : Guarded b g)
    (hδ : 0 ≤ δ) (p : ℕ) : Step p s none { s with held := holdingsOf g b' } :=
  .flow _ (keepsLocked_of_moves hheld h hb (hδ _)) (keepsAssets_of_moves hheld h hb fun _ _ _ _ => ⟨hδ _, hδ _⟩)

/-! ## Member lists -/

theorem relist_same (l : List Key) (u : Key) (n : ℕ) : relist l u n n = l := by
  unfold relist
  split_ifs <;> first | rfl | omega

theorem relist_push {l : List Key} {u : Key} {old new : ℕ} (hnew : new ≠ 0) :
    relist l u old new = if old = 0 then l ++ [u] else l := by
  unfold relist
  split_ifs <;> first | rfl | omega

theorem relist_remove {l : List Key} {u : Key} {old new : ℕ} (hold : old ≠ 0) :
    relist l u old new = if new = 0 then removeFromList l u else l := by
  unfold relist removeFromList
  split_ifs <;> first | rfl | omega

/-! ## Escrows and positions -/

theorem World.lockOf_store (w : World) (u : Key) (e : Escrow) : (w.storeEscrow u e).lockOf = update w.lockOf u e.amount := by
  funext v
  rcases eq_or_ne v u with rfl | hv
  · simp [World.lockOf, World.storeEscrow]
  · simp [World.lockOf, World.storeEscrow, hv]

theorem World.voteOf_store (w : World) (u : Key) (e : Escrow) : (w.storeEscrow u e).voteOf = update w.voteOf u e.voted := by
  funext v
  rcases eq_or_ne v u with rfl | hv
  · simp [World.voteOf, World.storeEscrow]
  · simp [World.voteOf, World.storeEscrow, hv]

theorem World.lockOf_some {w : World} {u : Key} {e : Escrow} (h : w.escrows u = some e) : w.lockOf u = e.amount := by
  simp [World.lockOf, h]

theorem World.voteOf_some {w : World} {u : Key} {e : Escrow} (h : w.escrows u = some e) : w.voteOf u = e.voted := by
  simp [World.voteOf, h]

theorem initEscrow_amount (w : World) (u : Key) : (initEscrow w u).amount = w.lockOf u := by
  unfold initEscrow World.lockOf
  cases w.escrows u <;> rfl

theorem initEscrow_voted (w : World) (u : Key) : (initEscrow w u).voted = w.voteOf u := by
  unfold initEscrow World.voteOf
  cases w.escrows u <;> rfl

theorem loadEscrow_ok {w : World} {u : Key} {e : Escrow} (h : loadEscrow w u = .ok e) : w.escrows u = some e := by
  simp only [loadEscrow, bind_ok, demand_ok, require_ok, Except.ok.injEq] at h
  obtain ⟨e', he, -, -, rfl⟩ := h
  exact he

/-- settling an account in every listed asset is settling it in the ledger -/
theorem Settled.view {w : World} (hw : w.WF) {u : Key} {n : ℕ} {ps' : Key × Key → Option Position}
    (h : Settled w.assets w.state.assetMints u (w.lockOf u) n w.positions ps') :
    checkpoints ps' = w.view.settleAll DIVIDEND_PRECISION u n := by
  funext m v
  unfold Ledger.settleAll
  cases ha : w.assets m with
  | none =>
    have hm : m ∉ w.state.assetMints := by
      intro hmem
      simpa [ha] using (hw.listed.2 m).1 hmem
    simp [World.view, ha, checkpoints, h.frame v m (.inr hm)]
  | some a =>
    have hm : m ∈ w.state.assetMints := (hw.listed.2 m).2 (by simp [ha])
    obtain ⟨a', ha', ht⟩ := h.touched m hm
    cases ha.symm.trans ha'
    rcases eq_or_ne v u with rfl | hv
    · simpa [World.view, ha, AssetConfig.pool] using ht
    · simp [World.view, ha, checkpoints, h.frame v m (.inl hv), hv]

/-- the ledger does not see an escrow stored with the stake and the vote it had -/
theorem World.view_storeEscrow {w : World} {u : Key} {e : Escrow} (ha : e.amount = w.lockOf u) (hv : e.voted = w.voteOf u) :
    (w.storeEscrow u e).view = w.view := by
  simp only [World.view, World.lockOf_store, World.voteOf_store, ha, hv, update_eq_self]
  rfl

/-- an escrow that instructions have in memory is the one that stands, or a fresh one -/
theorem World.view_initEscrow (w : World) (u : Key) : (w.storeEscrow u (initEscrow w u)).view = w.view :=
  World.view_storeEscrow (initEscrow_amount w u) (initEscrow_voted w u)

theorem World.WF.store {w : World} (hw : w.WF) (u : Key) (e : Escrow) : (w.storeEscrow u e).WF :=
  hw.keep rfl (fun _ => rfl) hw.guarded

theorem World.storeEscrow_of_some {w : World} {u : Key} {e : Escrow} (h : w.escrows u = some e) : w.storeEscrow u e = w := by
  unfold World.storeEscrow
  rw [← h, update_eq_self]

theorem World.WF.bank {w : World} (hw : w.WF) {b : Bank Key} {δ : Key → ℤ} {ι : ℤ}
    (h : BankMoves w.state.graiMint δ ι w.bank b) : ({ w with bank := b } : World).WF :=
  hw.keep rfl (fun _ => rfl) (h.guarded hw.guarded)

/-- only tokens moved, and no program account lost any -/
theorem bank_flow {w : World} (hw : w.WF) {b : Bank Key} {δ : Key → ℤ} (h : BankMoves w.state.graiMint δ 0 w.bank b)
    (hδ : 0 ≤ δ) : Step DIVIDEND_PRECISION w.view none ({ w with bank := b } : World).view := by
  have hstep := flow_of_moves (s := w.view) rfl h hw.guarded hδ DIVIDEND_PRECISION
  have hview : ({ w with bank := b } : World).view = { w.view with held := holdingsOf w.state.graiMint b } := by
    simp only [World.view, World.supply, h.supply_eq hw.guarded]
    rfl
  rw [hview]
  exact hstep

/-- an account is settled in every listed asset and its escrow rewritten from `e` to `e'`, with the totals and the member
lists: its stake takes the size of the escrow -/
theorem resize_of_store {w w' : World} {u : Key} {e e' : Escrow} (hw : w.WF) {δ : Key → ℤ} {ι : ℤ}
    (hstate : w'.state.layout = w.state.layout) (hliq : w'.state.liquidation = w.state.liquidation)
    (hassets : w'.assets = w.assets) (hescrows : w'.escrows = w.escrows)
    (hps : Settled w.assets w.state.assetMints u e.amount e'.amount w.positions w'.positions)
    (hlockers : w'.state.lockers = relist w.state.lockers u e.amount e'.amount)
    (hvoters : w'.state.voters = relist w.state.voters u e.voted e'.voted)
    (hlocked : w'.state.totalLocked + e.amount = w.state.totalLocked + e'.amount)
    (hvoted : w'.state.totalVoted + e.voted = w.state.totalVoted + e'.voted)
    (hle : e.voted ≤ e.amount → e'.voted ≤ e'.amount) (hb : BankMoves w.state.graiMint δ ι w.bank w'.bank)
    (hgrai : (e'.amount : ℤ) ≤ e.amount + δ (.vault w.state.graiMint))
    (hδ : ∀ m, m ≠ w.state.graiMint → 0 ≤ δ (.vault m) ∧ 0 ≤ δ (.treasury m)) :
    w'.WF ∧
      Step DIVIDEND_PRECISION
        { (w.storeEscrow u e).view with totalValue := w'.state.totalValue, supply := w'.bank.supply w.state.graiMint }
        (if e'.amount = e.amount then none else some u) (w'.storeEscrow u e').view := by
  refine ⟨hw.keep hstate (fun m => by rw [← hassets]) (hb.guarded hw.guarded), ?_⟩
  have hlock₀ : (w.storeEscrow u e).view.lock u = e.amount := by
    show (w.storeEscrow u e).lockOf u = e.amount
    rw [World.lockOf_store, update_self]
  have hvote₀ : (w.storeEscrow u e).view.voted u = e.voted := by
    show (w.storeEscrow u e).voteOf u = e.voted
    rw [World.voteOf_store, update_self]
  have hlock : (w'.storeEscrow u e').lockOf = update (w.storeEscrow u e).lockOf u e'.amount := by
    rw [World.lockOf_store, World.lockOf_store, update_idem]
    unfold World.lockOf
    rw [hescrows]
  have hvote : (w'.storeEscrow u e').voteOf = update (w.storeEscrow u e).voteOf u e'.voted := by
    rw [World.voteOf_store, World.voteOf_store, update_idem]
    unfold World.voteOf
    rw [hescrows]
  have hpos : checkpoints w'.positions = (w.storeEscrow u e).view.settleAll DIVIDEND_PRECISION u e'.amount := by
    refine Settled.view (hw.store u e) ?_
    rw [show (w.storeEscrow u e).lockOf u = e.amount from hlock₀]
    exact hps
  have hgrai' : w.bank.balance (.vault w.state.graiMint) + e'.amount ≤
      w'.bank.balance (.vault w.state.graiMint) + (w.storeEscrow u e).view.lock u := by
    have h := hb.vault hw.guarded w.state.graiMint
    omega
  have hassets' : (w.storeEscrow u e).view.KeepsAssets none (holdingsOf w.state.graiMint w'.bank) := by
    refine keepsAssets_of_moves rfl hb hw.guarded fun m q hm _ => ?_
    obtain ⟨a, ha, -⟩ := Option.map_eq_some_iff.1 hm
    exact hδ m (hw.ne_grai ha)
  rw [← hlock₀] at hlockers hlocked hle
  rw [← hvote₀] at hvoters hvoted hle
  have hstep := Step.resize (p := DIVIDEND_PRECISION)
    (s := { (w.storeEscrow u e).view with
      totalValue := w'.state.totalValue, supply := w'.bank.supply w.state.graiMint })
    u e'.amount e'.voted w'.state.totalLocked w'.state.totalVoted (holdingsOf w.state.graiMint w'.bank) hlocked hvoted hle
    hgrai' hassets'
  rw [← hlock₀]
  refine cast (congrArg _ ?_) hstep
  simp only [GraiState.layout, Prod.mk.injEq] at hstate
  obtain ⟨hmint, -, hconfig, -⟩ := hstate
  have hview : (w'.storeEscrow u e').view = { (w.storeEscrow u e).view with
      lock := update (w.storeEscrow u e).view.lock u e'.amount
      voted := update (w.storeEscrow u e).view.voted u e'.voted
      totalLocked := w'.state.totalLocked, totalVoted := w'.state.totalVoted
      lockers := w'.state.lockers, voters := w'.state.voters
      pos := (w.storeEscrow u e).view.settleAll DIVIDEND_PRECISION u e'.amount
      held := holdingsOf w.state.graiMint w'.bank
      totalValue := w'.state.totalValue, supply := w'.bank.supply w.state.graiMint } := by
    rw [← hpos, ← hmint]
    unfold World.view
    rw [hlock, hvote]
    simp only [World.storeEscrow, hassets, hconfig, hliq]
    rfl
  rw [hview, hlockers, hvoters]
  rfl

/-- an asset's index grew, the vault kept what was reserved, and the treasury gained its part -/
theorem accrue_of_store {w : World} (hw : w.WF) {m : Key} {asset : AssetConfig} (asset' : AssetConfig) {acc r gain : ℕ} {b : Bank Key}
    {δ : Key → ℤ} (ha : w.assets m = some asset) (hacc : asset.accShare ≤ acc)
    (hr : earned DIVIDEND_PRECISION w.state.totalLocked acc =
      earned DIVIDEND_PRECISION w.state.totalLocked asset.accShare + r)
    (hpool : asset'.pool = ⟨acc, asset.totalClaimable + r⟩)
    (hgain : r * w.state.config.treasuryCutBps ≤ gain * w.state.config.dividendCutBps)
    (hb : BankMoves w.state.graiMint δ 0 w.bank b) (hvault : (r : ℤ) ≤ δ (.vault m)) (htreasury : (gain : ℤ) ≤ δ (.treasury m))
    (hδ : ∀ n, n ≠ m → 0 ≤ δ (.vault n) ∧ 0 ≤ δ (.treasury n)) (pos : Key → Key → Option Checkpoint) :
    (World.storeAsset { w with bank := b } m asset').WF ∧
      Accrue DIVIDEND_PRECISION { w.view with pos } { (World.storeAsset { w with bank := b } m asset').view with pos } := by
  have hne := hw.ne_grai ha
  refine ⟨hw.keep rfl (fun n => ?_) (hb.guarded hw.guarded), ?_⟩
  · rcases eq_or_ne n m with rfl | hn
    · simp [World.storeAsset, ha]
    · simp [World.storeAsset, hn]
  have hv := hb.vault hw.guarded m
  have ht := hb.treasury hw.guarded m
  have hstep := Accrue.accrue (p := DIVIDEND_PRECISION) (s := { w.view with pos }) m asset.pool acc r gain
    (holdingsOf w.state.graiMint b) (by simp [World.view, ha]) hacc hr hgain
    (show w.bank.balance (.vault m) + r ≤ b.balance (.vault m) by omega)
    (show w.bank.balance (.treasury m) + gain ≤ b.balance (.treasury m) by omega)
    (keepsLocked_of_moves rfl hb hw.guarded (hδ _ (Ne.symm hne)).1)
    (keepsAssets_of_moves rfl hb hw.guarded fun n _ _ hn => hδ n (by simpa using hn))
  have hassets : (World.storeAsset { w with bank := b } m asset').view.asset =
      update w.view.asset m (some ⟨acc, asset.totalClaimable + r⟩) := by
    funext n
    rcases eq_or_ne n m with rfl | hn
    · simp [World.view, World.storeAsset, hpool]
    · simp [World.view, World.storeAsset, hn]
  have hview : ({ (World.storeAsset { w with bank := b } m asset').view with pos } : Ledger Key) = { w.view with
      pos, asset := update w.view.asset m (some ⟨acc, asset.totalClaimable + r⟩), held := holdingsOf w.state.graiMint b } := by
    rw [← hassets]
    simp only [World.view, World.storeAsset, World.supply, hb.supply_eq hw.guarded]
    rfl
  rw [hview]
  exact hstep

theorem loadAssetAccount_ok {w : World} {m : Key} {asset : AssetConfig} (h : loadAssetAccount w m = .ok asset) :
    w.assets m = some asset := by
  simp only [loadAssetAccount, bind_ok, demand_ok, require_ok, Except.ok.injEq] at h
  obtain ⟨asset', ha, -, -, rfl⟩ := h
  exact ha

theorem checkpoints_store (w : World) (u m : Key) (position : Position) :
    checkpoints (w.storePosition u m position).positions =
      update (checkpoints w.positions) m (update (checkpoints w.positions m) u (some position.checkpoint)) := by
  funext n v
  rcases eq_or_ne n m with rfl | hn
  · rcases eq_or_ne v u with rfl | hv
    · simp [checkpoints, World.storePosition]
    · simp [checkpoints, World.storePosition, hv]
  · simp [checkpoints, World.storePosition, hn]

/-- opening token accounts leaves the ledger as it is -/
theorem World.view_of_same {w : World} {b : Bank Key} (h : b.balance = w.bank.balance ∧ b.supply = w.bank.supply) :
    ({ w with bank := b } : World).view = w.view := by
  simp only [World.view, World.holdings, holdingsOf, World.supply, h.1, h.2]
  rfl

/-- the ledger of a world with the same state account, but for the registry of books, and the same escrows -/
theorem World.view_of_state {w w' : World} (hstate : w'.state = { w.state with referrers := w'.state.referrers })
    (hescrows : w'.escrows = w.escrows) (hsupply : w'.bank.supply w.state.graiMint = w.bank.supply w.state.graiMint) :
    w'.view = { w.view with
      asset := fun m => (w'.assets m).map AssetConfig.pool
      pos := checkpoints w'.positions
      held := holdingsOf w.state.graiMint w'.bank } := by
  have hlock : w'.lockOf = w.lockOf := by unfold World.lockOf; rw [hescrows]
  have hvote : w'.voteOf = w.voteOf := by unfold World.voteOf; rw [hescrows]
  have hgrai : w'.state.graiMint = w.state.graiMint := by rw [hstate]
  simp only [World.view, World.holdings, World.supply, hlock, hvote, hgrai, hsupply]
  rw [hstate]

/-! ## What the ledger does not see -/

/-- between `w` and `w'` only books, their registry and token balances differ, and no program account lost any -/
structure Quiet (w w' : World) : Prop where
  state : w'.state = { w.state with referrers := w'.state.referrers }
  assets : w'.assets = w.assets
  escrows : w'.escrows = w.escrows
  positions : w'.positions = w.positions
  bank : BankMoves w.state.graiMint 0 0 w.bank w'.bank

namespace Quiet

variable {w w' w₁ w₂ w₃ : World}

theorem refl (w : World) : Quiet w w := ⟨rfl, rfl, rfl, rfl, .refl _ _⟩

theorem layout (h : Quiet w w') : w'.state.layout = w.state.layout := by
  rw [h.state]
  rfl

theorem graiMint (h : Quiet w w') : w'.state.graiMint = w.state.graiMint := by rw [h.state]

theorem trans (h : Quiet w₁ w₂) (h' : Quiet w₂ w₃) : Quiet w₁ w₃ := by
  refine ⟨?_, h'.assets.trans h.assets, h'.escrows.trans h.escrows, h'.positions.trans h.positions, ?_⟩
  · rw [h'.state, h.state]
  · have hb := h'.bank
    rw [h.graiMint] at hb
    exact h.bank.before hb

theorem wf (h : Quiet w w') (hw : w.WF) : w'.WF :=
  hw.keep h.layout (fun m => by rw [h.assets]) (h.bank.guarded hw.guarded)

theorem view (h : Quiet w w') (hw : w.WF) : w'.view = { w.view with held := holdingsOf w.state.graiMint w'.bank } := by
  rw [World.view_of_state h.state h.escrows (h.bank.supply_eq hw.guarded), h.assets, h.positions]
  rfl

theorem step (h : Quiet w w') (hw : w.WF) : Step DIVIDEND_PRECISION w.view none w'.view := by
  rw [h.view hw]
  exact flow_of_moves rfl h.bank hw.guarded le_rfl _

theorem of_bank {b : Bank Key} (h : BankMoves w.state.graiMint 0 0 w.bank b) : Quiet w { w with bank := b } :=
  ⟨rfl, rfl, rfl, rfl, h⟩

theorem committed (h : Quiet w w') (hw : w.WF) : Committed .nobody w w' :=
  ⟨h.wf hw, none, .steps (.single (h.step hw))⟩

end Quiet

end Grindurus.Grai
