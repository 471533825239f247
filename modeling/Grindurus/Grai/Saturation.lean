/-
When the dividend index is full.

The index is a number of 128 bits and grows by `cut * 1e18 / totalLocked`: a dividend on a tiny lock leaves an index that
larger locks no longer multiply within 128 bits.

- `AssetConfig.Saturates`: accruing a cut overflows the index of an asset.
- `index_limits`: after every run, what a lock by a newcomer and an accrual overflow, and that nothing else does.
- `poisoned_index`: three wallets fill the index.
-/
import Grindurus.Grai.Unlocks
import Grindurus.Grai.Payments

namespace Grindurus.Grai

open Checked TokenBank Machine Function

variable {w w' : World} {b b' : Bank Key} {asset : AssetConfig} {m u k src : Key} {g d T x : ℕ}

/-! ## A newcomer's lock -/

/-- a new position is settled by one product -/
theorem settleLoaded_new (acc g : ℕ) : settleLoaded acc 0 g (Position.empty, true) =
    if g * acc < 2 ^ 128 then .ok { Position.empty with debt := g * acc / DIVIDEND_PRECISION } else .error .mathOverflow := by
  have hzero : checkedMul u128 0 acc ErrorCode.mathOverflow = .ok 0 := by simp [checkedMul, narrow]
  have hmul : checkedMul u128 g acc ErrorCode.mathOverflow = if g * acc < 2 ^ 128 then .ok (g * acc) else .error .mathOverflow :=
    rfl
  unfold settleLoaded settle
  rw [if_pos rfl, hzero, hmul]
  split_ifs <;> rfl

theorem loadOrInitPosition_new (hp : w.positions (u, m) = none) :
    loadOrInitPosition w (.position u m) u m = .ok (Position.empty, true) := by
  simp only [loadOrInitPosition, hp, bind_ok, require_ok]
  exact ⟨(), trivial, trivial⟩

theorem loadAssetConfig_listed (ha : w.assets m = some asset) (hm : asset.assetMint = m) :
    loadAssetConfig w (.asset m) m = .ok asset := by
  simp only [loadAssetConfig, bind_ok, require_ok, demand_ok]
  exact ⟨(), trivial, asset, ha, (), hm, rfl⟩

/-- the pair of a listed asset overflows with the product of the lock and its index, and succeeds otherwise -/
theorem settlePair_new (ha : w.assets m = some asset) (hm : asset.assetMint = m) (hp : w.positions (u, m) = none) (g : ℕ) :
    settlePair w (.asset m) (.position u m) m u 0 g =
      if g * asset.accShare < 2 ^ 128 then
        .ok (w.storePosition u m { Position.empty with debt := g * asset.accShare / DIVIDEND_PRECISION })
      else .error .mathOverflow := by
  unfold settlePair
  rw [loadAssetConfig_listed ha hm, loadOrInitPosition_new hp]
  change (settleLoaded asset.accShare 0 g (Position.empty, true) >>= _) = _
  rw [settleLoaded_new]
  split_ifs <;> rfl

/-- some index is too large for a lock of `g` -/
def World.OverflowsLock (w : World) (g : ℕ) : Prop := ∃ m asset, w.assets m = some asset ∧ 2 ^ 128 ≤ g * asset.accShare

/-- the pairs of a newcomer overflow with one of the products, and succeed otherwise -/
theorem settlePairs_new {mints : List Key} (hn : mints.Nodup)
    (hlisted : ∀ m ∈ mints, ∃ asset, w.assets m = some asset ∧ asset.assetMint = m)
    (hnew : ∀ m ∈ mints, w.positions (u, m) = none) (g : ℕ) :
    StopsIff (settlePairs u 0 g mints (Sample.pairs u mints) w) .mathOverflow
      (∃ m ∈ mints, ∃ asset, w.assets m = some asset ∧ 2 ^ 128 ≤ g * asset.accShare) := by
  induction mints generalizing w with
  | nil =>
    refine .inr ⟨⟨w, rfl⟩, ?_⟩
    rintro ⟨m, hm, -⟩
    exact absurd hm List.not_mem_nil
  | cons m mints ih =>
    obtain ⟨hm, hn⟩ := List.nodup_cons.1 hn
    obtain ⟨asset, ha, hmint⟩ := hlisted m List.mem_cons_self
    have hfirst := settlePair_new ha hmint (hnew m List.mem_cons_self) g
    have hunfold : settlePairs u 0 g (m :: mints) (Sample.pairs u (m :: mints)) w =
        (settlePair w (.asset m) (.position u m) m u 0 g >>= settlePairs u 0 g mints (Sample.pairs u mints)) := rfl
    rw [hunfold, hfirst]
    rcases Nat.lt_or_ge (g * asset.accShare) (2 ^ 128) with hlt | hge
    · rw [if_pos hlt]
      obtain ⟨p, hp⟩ : ∃ p, p = ({ Position.empty with debt := g * asset.accShare / DIVIDEND_PRECISION } : Position) := ⟨_, rfl⟩
      rw [← hp]
      have hnew' : ∀ k ∈ mints, (w.storePosition u m p).positions (u, k) = none := by
        intro k hk
        have hkey : (u, k) ≠ (u, m) := fun h => ne_of_mem_of_not_mem hk hm (Prod.mk.inj h).2
        simpa only [World.storePosition, update_of_ne hkey] using hnew k (List.mem_cons_of_mem m hk)
      rcases ih (w := w.storePosition u m p) hn (fun k hk => hlisted k (List.mem_cons_of_mem m hk)) hnew' with
        ⟨hfail, k, hk, asset', ha', hge⟩ | ⟨hok, hfits⟩
      · exact .inl ⟨hfail, k, List.mem_cons_of_mem m hk, asset', ha', hge⟩
      · refine .inr ⟨hok, ?_⟩
        rintro ⟨k, hk, asset', ha', hge⟩
        rcases List.mem_cons.1 hk with rfl | hk
        · obtain rfl := Option.some.inj (ha.symm.trans ha')
          omega
        · exact hfits ⟨k, hk, asset', ha', hge⟩
    · rw [if_neg (by omega)]
      exact .inl ⟨rfl, m, List.mem_cons_self, asset, ha, hge⟩

/-! ## An accrual -/

/-- accruing `d` to the locks `T` overflows: the index moves, and the product with the locks does not fit -/
def AssetConfig.Saturates (asset : AssetConfig) (d T : ℕ) : Prop :=
  0 < d * DIVIDEND_PRECISION / T ∧ 2 ^ 128 ≤ (asset.accShare + d * DIVIDEND_PRECISION / T) * T

theorem indexIncrease_eq (hd : d < 2 ^ 64) : indexIncrease d T = .ok (d * DIVIDEND_PRECISION / T) := by
  unfold indexIncrease
  split_ifs with hT
  · have hmul : d * DIVIDEND_PRECISION < 2 ^ u128 := by
      unfold DIVIDEND_PRECISION u128
      omega
    simp only [bind_ok, checkedMul_ok, checkedDiv_ok]
    exact ⟨_, ⟨hmul, rfl⟩, by omega, rfl⟩
  · obtain rfl : T = 0 := by omega
    rw [Nat.div_zero]

/-- an accrual succeeds while the index fits the locks -/
theorem distributeDividend_succeeds {inc : ℕ} (hindex : indexIncrease d T = .ok inc) (hd : d < 2 ^ 64)
    (hfits : inc ≠ 0 → (asset.accShare + inc) * T < 2 ^ 128) (hworth : inc * T ≤ d * DIVIDEND_PRECISION) (hT : inc ≠ 0 → 0 < T)
    (hroom : asset.totalClaimable + d < 2 ^ 64) : Succeeds (distributeDividend asset d T) := by
  unfold distributeDividend
  split_ifs with hzero
  · exact ⟨_, rfl⟩
  rw [hindex]
  change Succeeds (if inc = 0 then _ else _)
  split_ifs with hi
  · exact ⟨_, rfl⟩
  have hlt := hfits hi
  have hreserve : (asset.accShare + inc) * T / DIVIDEND_PRECISION - asset.accShare * T / DIVIDEND_PRECISION ≤ d :=
    reserve_le hworth
  have hsum : asset.accShare + inc < 2 ^ 128 := (Nat.le_mul_of_pos_right _ (hT hi)).trans_lt hlt
  have hold : asset.accShare * T < 2 ^ 128 := (Nat.mul_le_mul_right _ (Nat.le_add_right ..)).trans_lt hlt
  have hprec : DIVIDEND_PRECISION ≠ 0 := by decide
  obtain ⟨r, hr⟩ : ∃ r, (asset.accShare + inc) * T / DIVIDEND_PRECISION - asset.accShare * T / DIVIDEND_PRECISION = r := ⟨_, rfl⟩
  have hnarrow : (asset.accShare + inc) * T / DIVIDEND_PRECISION - asset.accShare * T / DIVIDEND_PRECISION < 2 ^ u64 :=
    hreserve.trans_lt hd
  rw [hr] at hreserve
  unfold Succeeds
  simp only [bind_ok, checkedAdd_ok, checkedMul_ok, checkedDiv_ok, narrow_ok]
  by_cases h0 : r = 0
  · refine ⟨(asset, d), _, ⟨hsum, rfl⟩, _, ⟨hlt, rfl⟩, _, ⟨hprec, rfl⟩, _, ⟨hold, rfl⟩, _, ⟨hprec, rfl⟩,
      r, ⟨hnarrow, hr⟩, ?_⟩
    rw [if_pos h0]
  · refine ⟨({ asset with accShare := asset.accShare + inc, totalClaimable := asset.totalClaimable + r }, d - r),
      _, ⟨hsum, rfl⟩, _, ⟨hlt, rfl⟩, _, ⟨hprec, rfl⟩, _, ⟨hold, rfl⟩, _, ⟨hprec, rfl⟩,
      r, ⟨hnarrow, hr⟩, ?_⟩
    rw [if_neg h0]
    have hclaimable : asset.totalClaimable + r < 2 ^ u64 := (Nat.add_le_add_left hreserve _).trans_lt hroom
    exact bind_ok.2 ⟨_, checkedAdd_ok.2 ⟨hclaimable, rfl⟩, rfl⟩

/-- and overflows beyond: in the sum, or in its product with the locks -/
theorem distributeDividend_overflows {inc : ℕ} (hindex : indexIncrease d T = .ok inc) (hd : d ≠ 0) (hi : inc ≠ 0)
    (hge : 2 ^ 128 ≤ (asset.accShare + inc) * T) : distributeDividend asset d T = .error .mathOverflow := by
  unfold distributeDividend
  rw [if_neg hd, hindex]
  change (if inc = 0 then _ else _) = _
  rw [if_neg hi]
  rcases Nat.lt_or_ge (asset.accShare + inc) (2 ^ 128) with hsum | hsum
  · have hadd : checkedAdd u128 asset.accShare inc ErrorCode.mathOverflow = .ok (asset.accShare + inc) :=
      checkedAdd_ok.2 ⟨hsum, rfl⟩
    have hmul : checkedMul u128 (asset.accShare + inc) T ErrorCode.mathOverflow = .error .mathOverflow :=
      narrow_error.2 ⟨hge, rfl⟩
    rw [hadd]
    change (checkedMul u128 (asset.accShare + inc) T ErrorCode.mathOverflow >>= _) = _
    rw [hmul]
    rfl
  · have hadd : checkedAdd u128 asset.accShare inc ErrorCode.mathOverflow = .error .mathOverflow :=
      narrow_error.2 ⟨hsum, rfl⟩
    rw [hadd]
    rfl

/-- an accrual overflows if it saturates the index, and succeeds otherwise -/
theorem accrueCut_saturates (hroom : 0 < d → asset.totalClaimable + d < 2 ^ 64) :
    StopsIff (accrueCut asset d T) .mathOverflow (asset.Saturates d T) := by
  unfold StopsIff AssetConfig.Saturates accrueCut
  split_ifs with hpos
  swap
  · refine .inr ⟨⟨_, rfl⟩, ?_⟩
    obtain rfl : d = 0 := by omega
    simp
  have hroom := hroom hpos
  have hd : d < 2 ^ 64 := by omega
  have hindex := indexIncrease_eq (T := T) hd
  have hworth : d * DIVIDEND_PRECISION / T * T ≤ d * DIVIDEND_PRECISION := Nat.div_mul_le_self _ _
  have hT : d * DIVIDEND_PRECISION / T ≠ 0 → 0 < T := by
    intro hi
    rcases Nat.eq_zero_or_pos T with rfl | hT
    · exact absurd (Nat.div_zero _) hi
    · exact hT
  by_cases hsaturates : 0 < d * DIVIDEND_PRECISION / T ∧ 2 ^ 128 ≤ (asset.accShare + d * DIVIDEND_PRECISION / T) * T
  · exact .inl ⟨distributeDividend_overflows hindex hpos.ne' hsaturates.1.ne' hsaturates.2, hsaturates⟩
  · refine .inr ⟨distributeDividend_succeeds hindex hd (fun hi => ?_) hworth hT hroom, hsaturates⟩
    exact lt_of_not_ge fun hge => hsaturates ⟨Nat.pos_of_ne_zero hi, hge⟩

/-- what a signer sends to a vault fits there -/
theorem transferFromSigner_fits (hg : Guarded b k) {s : Signer} (h : transferFromSigner b src (.vault m) s x = .ok b')
    (hx : 0 < x) : b.balance (.vault m) + x < 2 ^ 64 := by
  unfold transferFromSigner at h
  rw [if_neg (by omega)] at h
  have h := spl_ok.1 h
  obtain ⟨a, ha, ho⟩ := Bank.transfer_owner h
  have hne : src ≠ .vault m := (hg.signer_ne ha ho rfl).symm
  simp only [Bank.transfer, bind_ok, demand_ok, require_ok] at h
  obtain ⟨_, -, c, hc, -, -, -, -, -, -, h⟩ := h
  rw [if_neg hne] at h
  simp only [bind_ok, checkedAdd_ok] at h
  obtain ⟨_, ⟨hlt, -⟩, -⟩ := h
  rw [Bank.balance_some hc]
  exact hlt

/-! ## After every run -/

/-- what overflows the dividend index, and that nothing else does -/
structure World.IndexLimits (w : World) : Prop where
  lock : ∀ u g, (∀ m, w.positions (u, m) = none) →
    StopsIff (settleAllPairs w (Sample.pairs u w.state.assetMints) u 0 g) .mathOverflow (w.OverflowsLock g)
  accrue : ∀ m asset (s : Signer) src x b t d, w.assets m = some asset → transferFromSigner w.bank src (.vault m) s x = .ok b →
    splitCuts x w.state.config = .ok (t, d) →
      StopsIff (accrueCut asset d w.state.totalLocked) .mathOverflow (asset.Saturates d w.state.totalLocked)

/-- some index is too large for the lock, among those that are listed -/
theorem World.WF.overflowsLock_iff (hw : w.WF) :
    (∃ m ∈ w.state.assetMints, ∃ asset, w.assets m = some asset ∧ 2 ^ 128 ≤ g * asset.accShare) ↔ w.OverflowsLock g := by
  constructor
  · rintro ⟨m, -, h⟩
    exact ⟨m, h⟩
  · rintro ⟨m, asset, ha, hge⟩
    exact ⟨m, (hw.listed.2 m).2 (Option.isSome_iff_exists.2 ⟨asset, ha⟩), asset, ha, hge⟩

theorem pairs_length (u : Key) (mints : List Key) : (Sample.pairs u mints).length = mints.length * 2 := by
  unfold Sample.pairs
  rw [List.length_flatMap]
  simp

/-- **Index limits.** After every run, a newcomer's lock overflows while it settles exactly if its product with some index does
not fit in 128 bits, and an accrual of what a wallet holds exactly if it saturates the index. Both directions are exact, so that
a client can tell from the accounts alone whether a lock or a distribution would overflow. -/
theorem index_limits (g : Genesis) (is : List Instr) : (g.after is).IndexLimits where
  lock u x hnew := by
    have hwf := g.after_wf is
    have hlisted : ∀ m ∈ (g.after is).state.assetMints, ∃ asset, (g.after is).assets m = some asset ∧ asset.assetMint = m := by
      intro m hm
      obtain ⟨asset, ha⟩ := Option.isSome_iff_exists.1 ((hwf.listed.2 m).1 hm)
      exact ⟨asset, ha, ((g.after_sound is).listing m asset ha).1⟩
    unfold settleAllPairs
    rw [require_bind (pairs_length _ _)]
    exact (settlePairs_new hwf.nodup hlisted (fun m _ => hnew m) x).congr hwf.overflowsLock_iff
  accrue m asset s src x b t d ha hb hsplit := by
    have hsum := (splitCuts_ok hsplit).1
    refine accrueCut_saturates fun hd => ?_
    have hfits := transferFromSigner_fits (g.after_wf is).guarded hb (by omega)
    have hcovered : asset.totalClaimable ≤ (g.after is).bank.balance (.vault m) := after_covered g is ha
    omega

/-- wallets 2 and 4 get shares, wallet 2 locks one unit, and wallet 3 distributes 10^18 units of an asset -/
def Sample.filled : List Instr :=
  [Sample.listing Sample.usdc false, Sample.deposit 2 10000 .default (List.replicate 3 .default),
    Sample.deposit 4 10000 .default (List.replicate 3 .default), Sample.lock 2 1 [Sample.usdc],
    Sample.distribute 3 (10 ^ 18) Sample.usdc]

/-- a newcomer cannot lock 700 of the 20000 shares, and once 1201 are locked no more yield is distributed -/
theorem poisoned_index : (Sample.genesis.after Sample.filled).supply = 20000 ∧
    step (Sample.genesis.after Sample.filled) (Sample.lock 4 700 [Sample.usdc]) = .error .mathOverflow ∧
      step (Sample.genesis.after (Sample.filled ++ [Sample.lock 2 600 [Sample.usdc], Sample.lock 4 600 [Sample.usdc]]))
        (Sample.distribute 5 10 Sample.usdc) = .error .mathOverflow := by
  refine ⟨by decide +kernel, ?_, ?_⟩
  · exact refusal_eq_some.1 (by decide +kernel)
  · exact refusal_eq_some.1 (by decide +kernel)

end Grindurus.Grai
