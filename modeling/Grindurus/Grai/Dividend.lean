/-
Locker dividends (`programs/grai/src/dividend.rs`).

- `distributeDividend`: accrue a cut to all locks through the index of an asset.
- `settle`, `settleAllPairs`, `settleAllQuads`: checkpoint one position, or the positions of one account in every listed
  asset.

A settlement is `RewardIndex.touch` on the checkpoint (`settle_ok`, `Settled`), an accrual grows the index and reserves
exactly what the whole lock earns by it (`distributeDividend_ok`).
-/
import Grindurus.Lib.RewardIndex
import Grindurus.Grai.Accounts

namespace Grindurus.Grai

open Checked RewardIndex TokenBank Function

/-! ## The index -/

def indexIncrease (amount eligible : ℕ) : Except ErrorCode ℕ :=
  if 0 < eligible then do
    let v ← checkedMul u128 amount DIVIDEND_PRECISION .mathOverflow
    checkedDiv v eligible .mathOverflow
  else .ok 0

/-- the asset after accruing `amount` to `eligible` locks, and what goes to the treasury -/
def distributeDividend (asset : AssetConfig) (amount eligible : ℕ) : Except ErrorCode (AssetConfig × ℕ) :=
  if amount = 0 then .ok (asset, 0)
  else do
    let indexIncrease ← indexIncrease amount eligible
    if indexIncrease = 0 then .ok (asset, amount)
    else
      let newShare ← checkedAdd u128 asset.accShare indexIncrease .mathOverflow
      let v ← checkedMul u128 newShare eligible .mathOverflow
      let newMax ← checkedDiv v DIVIDEND_PRECISION .mathOverflow
      let v ← checkedMul u128 asset.accShare eligible .mathOverflow
      let oldMax ← checkedDiv v DIVIDEND_PRECISION .mathOverflow
      let reserved ← narrow u64 (newMax - oldMax) .mathOverflow
      if reserved = 0 then .ok (asset, amount)
      else
        let totalClaimable ← checkedAdd u64 asset.totalClaimable reserved .mathOverflow
        .ok ({ asset with accShare := newShare, totalClaimable }, amount - reserved)

/-- accrue the dividend cut to all locks; without a cut there is no dust -/
def accrueCut (asset : AssetConfig) (dividendCut eligible : ℕ) : Except ErrorCode (AssetConfig × ℕ) :=
  if 0 < dividendCut then distributeDividend asset dividendCut eligible else .ok (asset, 0)

/-- split `pool`, which arrived in the vault of `mint`: the dividend cut accrues, the treasury takes its cut and the dust -/
def fundCuts (w : World) (asset : AssetConfig) (mint : Key) (pool : ℕ) : Except ErrorCode (AssetConfig × Bank Key) := do
  let (treasuryCut, dividendCut) ← splitCuts pool w.state.config
  let (asset, dust) ← accrueCut asset dividendCut w.state.totalLocked
  let toTreasury ← checkedAdd u64 treasuryCut dust .mathOverflow
  let bank ← transferFromVault w.bank (.vault mint) (.treasury mint) toTreasury
  .ok (asset, bank)

/-- settle a position from `oldLocked` to `newLocked` -/
def settle (accShare oldLocked newLocked : ℕ) (position : Position) : Except ErrorCode Position := do
  let v ← checkedMul u128 oldLocked accShare .mathOverflow
  let accumulatedOld ← checkedDiv v DIVIDEND_PRECISION .mathOverflow
  let delta ← narrow u64 (accumulatedOld - position.debt) .mathOverflow
  let claimable ← checkedAdd u64 position.claimable delta .mathOverflow
  let v ← checkedMul u128 newLocked accShare .mathOverflow
  let accumulatedNew ← checkedDiv v DIVIDEND_PRECISION .mathOverflow
  .ok { position with claimable, debt := accumulatedNew }

/-! ## Remaining accounts -/

def loadAssetConfig (w : World) (assetInfo mint : Key) : Except ErrorCode AssetConfig := do
  require (assetInfo = .asset mint) .invalidRemainingAccounts
  let asset ← demand .invalidRemainingAccounts (w.assets mint)
  require (asset.assetMint = mint) .assetUnknown
  .ok asset

def requireVaultPda (w : World) (vaultInfo mint : Key) : Except ErrorCode Unit := do
  require (vaultInfo = .vault mint) .invalidDestination
  let a ← demand .invalidDestination (w.bank.accounts vaultInfo)
  require (a.mint = mint) .invalidDestination

def requireHolderAta (holderInfo user mint : Key) : Except ErrorCode Unit :=
  require (holderInfo = .ata user mint) .invalidDestination

/-- the position of `user`, and whether it is created by this instruction -/
def loadOrInitPosition (w : World) (positionInfo user mint : Key) : Except ErrorCode (Position × Bool) := do
  require (positionInfo = .position user mint) .invalidRemainingAccounts
  match w.positions (user, mint) with
  | some position => .ok (position, false)
  | none => .ok (Position.empty, true)

def World.storePosition (w : World) (user mint : Key) (position : Position) : World :=
  { w with positions := update w.positions (user, mint) (some position) }

def World.storeAsset (w : World) (mint : Key) (asset : AssetConfig) : World :=
  { w with assets := update w.assets mint (some asset) }

/-- a fresh position is settled from a zero lock, so it never claims what accrued before it existed -/
def settleLoaded (accShare oldLocked newLocked : ℕ) (loaded : Position × Bool) : Except ErrorCode Position :=
  settle accShare (if loaded.2 then 0 else oldLocked) newLocked loaded.1

/-- one asset of `settle_all_pairs` -/
def settlePair (w : World) (assetInfo positionInfo mint user : Key) (oldLocked newLocked : ℕ) : Except ErrorCode World := do
  let asset ← loadAssetConfig w assetInfo mint
  let loaded ← loadOrInitPosition w positionInfo user mint
  let position ← settleLoaded asset.accShare oldLocked newLocked loaded
  .ok (w.storePosition user mint position)

def settlePairs (user : Key) (oldLocked newLocked : ℕ) : List Key → List Key → World → Except ErrorCode World
  | [], _, w => .ok w
  | mint :: mints, assetInfo :: positionInfo :: rest, w => do
    let w ← settlePair w assetInfo positionInfo mint user oldLocked newLocked
    settlePairs user oldLocked newLocked mints rest w
  | _ :: _, _, _ => .error .panicked

/-- settle every listed asset: `remaining` are pairs `[asset_config, position]` in registry order -/
def settleAllPairs (w : World) (remaining : List Key) (user : Key) (oldLocked newLocked : ℕ) :
    Except ErrorCode World := do
  require (remaining.length = w.state.assetMints.length * 2) .invalidRemainingAccounts
  settlePairs user oldLocked newLocked w.state.assetMints remaining w

/-- the payout of `settle_all_quads`: claimable, capped by the vault and the reserve -/
def payQuad (w : World) (asset : AssetConfig) (position : Position) (vaultInfo holderInfo mint user : Key) :
    Except ErrorCode World :=
  let claimed := min (min position.claimable (w.bank.balance vaultInfo)) asset.totalClaimable
  if 0 < claimed then do
    let bank ← transferFromVault w.bank vaultInfo holderInfo claimed
    let claimable ← checkedSub position.claimable claimed .mathOverflow
    let w := { w with bank }.storeAsset mint { asset with totalClaimable := asset.totalClaimable - claimed }
    .ok (w.storePosition user mint { position with claimable })
  else .ok (w.storePosition user mint position)

/-- one asset of `settle_all_quads` -/
def settleQuad (w : World) (assetInfo positionInfo vaultInfo holderInfo mint user : Key) (oldLocked newLocked : ℕ)
    (pay : Bool) : Except ErrorCode World := do
  let asset ← loadAssetConfig w assetInfo mint
  requireVaultPda w vaultInfo mint
  requireHolderAta holderInfo user mint
  let loaded ← loadOrInitPosition w positionInfo user mint
  let position ← settleLoaded asset.accShare oldLocked newLocked loaded
  if pay = true ∧ 0 < position.claimable then payQuad w asset position vaultInfo holderInfo mint user
  else .ok (w.storePosition user mint position)

def settleQuads (user : Key) (oldLocked newLocked : ℕ) (pay : Bool) :
    List Key → List Key → World → Except ErrorCode World
  | [], _, w => .ok w
  | mint :: mints, assetInfo :: positionInfo :: vaultInfo :: holderInfo :: rest, w => do
    let w ← settleQuad w assetInfo positionInfo vaultInfo holderInfo mint user oldLocked newLocked pay
    settleQuads user oldLocked newLocked pay mints rest w
  | _ :: _, _, _ => .error .panicked

/-- settle, and optionally pay: `remaining` are quads `[asset_config, position, vault_ata, holder_ata]` -/
def settleAllQuads (w : World) (remaining : List Key) (user : Key) (oldLocked newLocked : ℕ) (pay : Bool) :
    Except ErrorCode World := do
  require (remaining.length = w.state.assetMints.length * 4) .invalidRemainingAccounts
  settleQuads user oldLocked newLocked pay w.state.assetMints remaining w

/-! ## Accrual -/

theorem indexIncrease_mul_le {amount eligible inc : ℕ} (h : indexIncrease amount eligible = .ok inc) :
    inc * eligible ≤ amount * DIVIDEND_PRECISION := by
  unfold indexIncrease at h
  split_ifs at h with he
  · simp only [bind_ok, checkedMul_ok, checkedDiv_ok] at h
    obtain ⟨_, ⟨-, rfl⟩, -, rfl⟩ := h
    exact Nat.div_mul_le_self _ _
  · cases h
    simp

/-- what the index gains is worth at most `amount` to all locks together, and `amount` is a whole number of units -/
theorem reserve_le {acc inc eligible amount : ℕ} (h : inc * eligible ≤ amount * DIVIDEND_PRECISION) :
    (acc + inc) * eligible / DIVIDEND_PRECISION - acc * eligible / DIVIDEND_PRECISION ≤ amount := by
  have hsum : (acc + inc) * eligible ≤ acc * eligible + amount * DIVIDEND_PRECISION := by
    rw [Nat.add_mul]
    omega
  have hdiv := Nat.div_le_div_right (c := DIVIDEND_PRECISION) hsum
  rw [Nat.add_mul_div_right _ _ (by decide : 0 < DIVIDEND_PRECISION)] at hdiv
  omega

/-- what a successful accrual did: the index moved to `acc`, if at all, and what the whole lock earns by it was reserved -/
theorem distributeDividend_ok {asset asset' : AssetConfig} {amount eligible dust : ℕ}
    (h : distributeDividend asset amount eligible = .ok (asset', dust)) :
    ∃ acc reserved, asset.accShare ≤ acc ∧ reserved ≤ amount ∧ dust = amount - reserved ∧
      earned DIVIDEND_PRECISION eligible acc = earned DIVIDEND_PRECISION eligible asset.accShare + reserved ∧
      asset' = { asset with accShare := acc, totalClaimable := asset.totalClaimable + reserved } := by
  have hidle : ∃ acc reserved, asset.accShare ≤ acc ∧ reserved ≤ amount ∧ amount = amount - reserved ∧
      earned DIVIDEND_PRECISION eligible acc = earned DIVIDEND_PRECISION eligible asset.accShare + reserved ∧
      asset = { asset with accShare := acc, totalClaimable := asset.totalClaimable + reserved } :=
    ⟨asset.accShare, 0, le_rfl, Nat.zero_le _, rfl, rfl, rfl⟩
  unfold distributeDividend at h
  by_cases h0 : amount = 0
  · rw [if_pos h0] at h
    subst h0
    cases h
    exact hidle
  rw [if_neg h0, bind_ok] at h
  obtain ⟨inc, hinc, h⟩ := h
  have hle := indexIncrease_mul_le hinc
  by_cases hi : inc = 0
  · rw [if_pos hi] at h
    cases h
    exact hidle
  rw [if_neg hi] at h
  simp only [bind_ok, checkedAdd_ok, checkedMul_ok, checkedDiv_ok, narrow_ok] at h
  obtain ⟨_, ⟨-, rfl⟩, _, ⟨-, rfl⟩, _, ⟨-, rfl⟩, _, ⟨-, rfl⟩, _, ⟨-, rfl⟩, _, ⟨-, rfl⟩, h⟩ := h
  split_ifs at h with hr
  · cases h
    exact hidle
  simp only [bind_ok, checkedAdd_ok, Except.ok.injEq, Prod.mk.injEq] at h
  obtain ⟨_, ⟨-, rfl⟩, rfl, rfl⟩ := h
  have hearned : ∀ a, earned DIVIDEND_PRECISION eligible a = a * eligible / DIVIDEND_PRECISION := by
    intro a
    rw [earned, Nat.mul_comm]
  have hmono : earned DIVIDEND_PRECISION eligible asset.accShare ≤ earned DIVIDEND_PRECISION eligible (asset.accShare + inc) :=
    earned_mono (Nat.le_add_right ..)
  rw [hearned, hearned] at hmono
  refine ⟨asset.accShare + inc, _, Nat.le_add_right .., reserve_le hle, rfl, ?_, rfl⟩
  rw [hearned, hearned]
  omega

theorem accrueCut_ok {asset asset' : AssetConfig} {cut eligible dust : ℕ}
    (h : accrueCut asset cut eligible = .ok (asset', dust)) :
    ∃ acc reserved, asset.accShare ≤ acc ∧ reserved ≤ cut ∧ dust = cut - reserved ∧
      earned DIVIDEND_PRECISION eligible acc = earned DIVIDEND_PRECISION eligible asset.accShare + reserved ∧
      asset' = { asset with accShare := acc, totalClaimable := asset.totalClaimable + reserved } := by
  unfold accrueCut at h
  split_ifs at h with hcut
  · exact distributeDividend_ok h
  · cases h
    exact ⟨asset.accShare, 0, le_rfl, Nat.zero_le _, by omega, rfl, rfl⟩

/-- what a dividend reserves is matched by what the treasury gains: the treasury's cut and the dust -/
theorem cuts_cover {pool treasury dividend r : ℕ} {cfg : Config} (hcfg : cfg.Valid)
    (h : splitCuts pool cfg = .ok (treasury, dividend)) (hr : r ≤ dividend) :
    r * cfg.treasuryCutBps ≤ (treasury + (dividend - r)) * cfg.dividendCutBps := by
  obtain ⟨hsum, hle⟩ := splitCuts_ok h
  have hrest : treasury + (dividend - r) + r = pool := by omega
  have hr' : r * BPS ≤ pool * cfg.dividendCutBps := (Nat.mul_le_mul_right _ hr).trans hle
  rw [← hcfg.cuts, ← hrest, Nat.mul_add, Nat.add_mul] at hr'
  omega

/-- of `pool`, `r` stays in the vault, reserved, and the rest moves to the treasury -/
theorem fundCuts_ok {w : World} {asset asset' : AssetConfig} {m : Key} {pool : ℕ} {b : Bank Key}
    (hcfg : w.state.config.Valid) (h : fundCuts w asset m pool = .ok (asset', b)) :
    ∃ acc r gain, asset.accShare ≤ acc ∧ r + gain = pool ∧
      earned DIVIDEND_PRECISION w.state.totalLocked acc =
        earned DIVIDEND_PRECISION w.state.totalLocked asset.accShare + r ∧
      asset' = { asset with accShare := acc, totalClaimable := asset.totalClaimable + r } ∧
      r * w.state.config.treasuryCutBps ≤ gain * w.state.config.dividendCutBps ∧
      BankMoves w.state.graiMint (Pi.single (.treasury m) gain - Pi.single (.vault m) gain) 0 w.bank b := by
  simp only [fundCuts, bind_ok, checkedAdd_ok, Prod.exists, Except.ok.injEq, Prod.mk.injEq] at h
  obtain ⟨treasury, dividend, hsplit, asset₁, dust, haccrue, _, ⟨-, rfl⟩, b₁, hb, rfl, rfl⟩ := h
  obtain ⟨acc, r, hacc, hr, rfl, hearned, rfl⟩ := accrueCut_ok haccrue
  have hsum := (splitCuts_ok hsplit).1
  exact ⟨acc, r, _, hacc, by omega, hearned, rfl, cuts_cover hcfg hsplit hr, transferFromVault_moves _ hb⟩

/-! ## Settlement -/

def Position.checkpoint (p : Position) : Checkpoint := ⟨p.debt, p.claimable⟩

theorem settle_ok {acc old new : ℕ} {p p' : Position} (h : settle acc old new p = .ok p') :
    p'.checkpoint = p.checkpoint.settle DIVIDEND_PRECISION acc old new ∧ p'.yielded = p.yielded := by
  simp only [settle, bind_ok, checkedMul_ok, checkedDiv_ok, narrow_ok, checkedAdd_ok, Except.ok.injEq] at h
  obtain ⟨_, ⟨-, rfl⟩, _, ⟨-, rfl⟩, _, ⟨-, rfl⟩, _, ⟨-, rfl⟩, _, ⟨-, rfl⟩, _, ⟨-, rfl⟩, rfl⟩ := h
  exact ⟨rfl, rfl⟩

/-- the checkpoints of the positions, by account, in one asset -/
def checkpoints (ps : Key × Key → Option Position) (m u : Key) : Option Checkpoint :=
  (ps (u, m)).map Position.checkpoint

/-- `ps'` is `ps` with the positions of `user` in the assets `mints` settled from `old` to `new` -/
structure Settled (assets : Key → Option AssetConfig) (mints : List Key) (user : Key) (old new : ℕ)
    (ps ps' : Key × Key → Option Position) : Prop where
  frame : ∀ u m, u ≠ user ∨ m ∉ mints → ps' (u, m) = ps (u, m)
  touched : ∀ m ∈ mints, ∃ a, assets m = some a ∧
    checkpoints ps' m user = some (touch DIVIDEND_PRECISION a.accShare old new (checkpoints ps m user))

theorem loadAssetConfig_ok {w : World} {i m : Key} {a : AssetConfig} (h : loadAssetConfig w i m = .ok a) :
    w.assets m = some a := by
  simp only [loadAssetConfig, bind_ok, require_ok, demand_ok, Except.ok.injEq] at h
  obtain ⟨-, -, a', ha, -, -, rfl⟩ := h
  exact ha

/-- loading and settling a position is touching its checkpoint -/
theorem settleLoaded_ok {w : World} {i u m : Key} {acc old new : ℕ} {loaded : Position × Bool} {p : Position}
    (hl : loadOrInitPosition w i u m = .ok loaded) (hs : settleLoaded acc old new loaded = .ok p) :
    p.checkpoint = touch DIVIDEND_PRECISION acc old new (checkpoints w.positions m u) := by
  simp only [loadOrInitPosition, bind_ok, require_ok] at hl
  obtain ⟨-, -, hl⟩ := hl
  unfold checkpoints
  unfold settleLoaded at hs
  cases hp : w.positions (u, m) with
  | none =>
    simp only [hp, Except.ok.injEq] at hl
    subst hl
    exact (settle_ok hs).1
  | some q =>
    simp only [hp, Except.ok.injEq] at hl
    subst hl
    exact (settle_ok hs).1

theorem Settled.nil (assets : Key → Option AssetConfig) (user : Key) (old new : ℕ) (ps : Key × Key → Option Position) :
    Settled assets [] user old new ps ps :=
  ⟨fun _ _ _ => rfl, fun _ hm => absurd hm List.not_mem_nil⟩

/-- settling one asset first, then the others -/
theorem Settled.cons {assets : Key → Option AssetConfig} {mints : List Key} {user m : Key} {old new : ℕ} {a : AssetConfig}
    {p : Position} {ps ps' : Key × Key → Option Position} (ha : assets m = some a) (hm : m ∉ mints)
    (hp : p.checkpoint = touch DIVIDEND_PRECISION a.accShare old new (checkpoints ps m user))
    (h : Settled assets mints user old new (update ps (user, m) (some p)) ps') :
    Settled assets (m :: mints) user old new ps ps' := by
  refine ⟨fun u n hn => ?_, fun n hn => ?_⟩
  · have hne : (u, n) ≠ (user, m) := by
      rintro ⟨⟩
      rcases hn with hn | hn
      · exact hn rfl
      · exact hn List.mem_cons_self
    have hn' : u ≠ user ∨ n ∉ mints := hn.imp id fun hn hmem => hn (List.mem_cons_of_mem m hmem)
    rw [h.frame u n hn', update_of_ne hne]
  · rcases List.mem_cons.1 hn with rfl | hmem
    · refine ⟨a, ha, ?_⟩
      rw [checkpoints, h.frame user n (.inr hm), update_self, Option.map_some, hp]
    · obtain ⟨b, hb, ht⟩ := h.touched n hmem
      have hne : (user, n) ≠ (user, m) := by rintro ⟨⟩; exact hm hmem
      refine ⟨b, hb, ?_⟩
      rw [ht]
      simp only [checkpoints, update_of_ne hne]

theorem settlePairs_ok {user : Key} {old new : ℕ} {mints remaining : List Key} {w w' : World} (hn : mints.Nodup)
    (h : settlePairs user old new mints remaining w = .ok w') :
    ∃ ps', w' = { w with positions := ps' } ∧ Settled w.assets mints user old new w.positions ps' := by
  induction mints generalizing remaining w with
  | nil =>
    cases h
    exact ⟨_, rfl, .nil ..⟩
  | cons m mints ih =>
    rcases remaining with _ | ⟨i, _ | ⟨j, rest⟩⟩
    · cases h
    · cases h
    · simp only [settlePairs, settlePair, bind_ok, Except.ok.injEq] at h
      obtain ⟨_, ⟨a, ha, loaded, hl, p, hp, rfl⟩, h⟩ := h
      obtain ⟨hm, hn⟩ := List.nodup_cons.1 hn
      obtain ⟨ps', rfl, hs⟩ := ih hn h
      exact ⟨ps', rfl, .cons (loadAssetConfig_ok ha) hm (settleLoaded_ok hl hp) hs⟩

theorem settleAllPairs_ok {w w' : World} {remaining : List Key} {user : Key} {old new : ℕ} (hn : w.state.assetMints.Nodup)
    (h : settleAllPairs w remaining user old new = .ok w') :
    ∃ ps', w' = { w with positions := ps' } ∧ Settled w.assets w.state.assetMints user old new w.positions ps' := by
  simp only [settleAllPairs, bind_ok, require_ok] at h
  obtain ⟨-, -, h⟩ := h
  exact settlePairs_ok hn h

/-- without the payout, quads settle what pairs settle -/
theorem settleQuads_ok {user : Key} {old new : ℕ} {mints remaining : List Key} {w w' : World} (hn : mints.Nodup)
    (h : settleQuads user old new false mints remaining w = .ok w') :
    ∃ ps', w' = { w with positions := ps' } ∧ Settled w.assets mints user old new w.positions ps' := by
  induction mints generalizing remaining w with
  | nil =>
    cases h
    exact ⟨_, rfl, .nil ..⟩
  | cons m mints ih =>
    rcases remaining with _ | ⟨i, _ | ⟨j, _ | ⟨v, _ | ⟨t, rest⟩⟩⟩⟩
    · cases h
    · cases h
    · cases h
    · cases h
    · simp only [settleQuads, settleQuad, Bool.false_eq_true, false_and, if_false, bind_ok, Except.ok.injEq] at h
      obtain ⟨_, ⟨a, ha, -, -, -, -, loaded, hl, p, hp, rfl⟩, h⟩ := h
      obtain ⟨hm, hn⟩ := List.nodup_cons.1 hn
      obtain ⟨ps', rfl, hs⟩ := ih hn h
      exact ⟨ps', rfl, .cons (loadAssetConfig_ok ha) hm (settleLoaded_ok hl hp) hs⟩

theorem settleAllQuads_ok {w w' : World} {remaining : List Key} {user : Key} {old new : ℕ} (hn : w.state.assetMints.Nodup)
    (h : settleAllQuads w remaining user old new false = .ok w') :
    ∃ ps', w' = { w with positions := ps' } ∧ Settled w.assets w.state.assetMints user old new w.positions ps' := by
  simp only [settleAllQuads, bind_ok, require_ok] at h
  obtain ⟨-, -, h⟩ := h
  exact settleQuads_ok hn h

end Grindurus.Grai
