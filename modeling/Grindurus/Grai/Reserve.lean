/-
What is set aside in the treasuries.

`treasury_covered`: the treasury of a listed asset holds the treasury's part of what is reserved for claims. So no claim
finds it short, a claim takes at most its gross share out of it, and the shares of the split fit into each other.

What is reserved for claims is divided when it is claimed: the holder is paid out of the vault, and the treasury's part out of
the treasury. The second account is not guarded by the reserve check of the vaults, so the cover of the treasury is an invariant
of its own. It is of the gross shares, of which a claim then pays at most all.
-/
import Grindurus.Grai.Positions

namespace Grindurus.Grai

open Checked TokenBank RewardIndex Machine

theorem Funded.empty (held : Holdings Key) : Funded (.empty held) := fun _ _ h => nomatch h

theorem after_funded (g : Genesis) (is : List Instr) : Funded (g.after is).view :=
  Genesis.after_ledger Funded.empty (fun _ _ _ _ hs ht => hs.trans ht) g is

/-! ## Claims find the treasury covered -/

variable {w w' : World}

/-- the treasury holds the gross share of whatever the reserve allows to claim -/
theorem Funded.gross_le (hf : Funded w.view) {m : Key} {asset : AssetConfig} (ha : w.assets m = some asset)
    {claimed : ℕ} (hx : claimed ≤ asset.totalClaimable) :
    claimed * w.state.config.treasuryCutBps / w.state.config.dividendCutBps ≤ w.treasuryOf m := by
  have hcover : asset.totalClaimable * w.state.config.treasuryCutBps ≤ w.treasuryOf m * w.state.config.dividendCutBps :=
    (hf m asset.pool (World.view_asset ha)).2
  refine Nat.div_le_of_le_mul ?_
  calc claimed * w.state.config.treasuryCutBps ≤ asset.totalClaimable * w.state.config.treasuryCutBps :=
        Nat.mul_le_mul_right _ hx
    _ ≤ w.state.config.dividendCutBps * w.treasuryOf m := by rwa [Nat.mul_comm _ (w.treasuryOf m)]

theorem payOut_covered (hw : w.WF) (hf : Funded w.view) {p : Payout} {asset : AssetConfig} {position : Position}
    {log : List TreasuryMsg} (h : payOut w p asset position = .ok (w', log)) (ha : w.assets p.mint = some asset)
    (hx : p.claimed ≤ asset.totalClaimable) (bal need : ℕ) : .underfunded bal need ∉ log := by
  obtain ⟨b, gross, revenue, w₁, hb, hshares, hdist, -, -⟩ := payOut_pays h
  obtain ⟨w₂, b₂, hcredit, hsplit, -⟩ := distributeClaimTreasury_splits hdist
  intro hmem
  have hlt := splitGross_log hsplit hmem
  -- neither the payment to the holder nor the books touch the treasury
  have hpay := payClaim_ok w.state.graiMint hb
  have hmoves := hpay.after (creditClaim_booked hcredit).quiet.bank
  have htreasury := hmoves.treasury hw.guarded p.mint
  simp only [Pi.neg_apply, ne_eq, reduceCtorEq, not_false_eq_true, Pi.single_eq_of_ne] at htreasury
  have hgross : gross ≤ w.bank.balance (.treasury p.mint) := by
    rw [(claimTreasuryShares_ok hshares).1]
    exact hf.gross_le ha hx
  have hlt : w₂.bank.balance (.treasury p.mint) < gross := hlt
  omega

theorem executeClaim_covered (hw : w.WF) (hf : Funded w.view) {a : Claim} {log : List TreasuryMsg}
    (h : executeClaim w a = .ok (w', log)) (bal need : ℕ) : .underfunded bal need ∉ log := by
  obtain ⟨e, t, asset, b, loaded, position, hload, hl, hs, hcases⟩ := executeClaim_cases h
  obtain ⟨he, ha, hb, hsame⟩ := Claim.load_ok hload
  have hlock : e.amount = ({ w with bank := b } : World).lockOf a.holder := (World.lockOf_some he).symm
  rw [hlock] at hs
  obtain ⟨hwf, htouch⟩ := settleLoaded_collect (hw.bank hb) ha hl hs
  rw [World.view_of_same hsame] at htouch
  rcases hcases with ⟨-, rfl⟩ | ⟨claimed, value, hx, hpay⟩
  · exact List.not_mem_nil
  · exact payOut_covered hwf (hf.collect htouch) hpay ha hx bal need

theorem claimAsset_covered (hw : w.WF) (hf : Funded w.view) {a : ClaimAll} {m : Key} {slots : ClaimSlots}
    {affiliate : List Key} {log : List TreasuryMsg}
    (h : claimAsset w a (w.lockOf a.holder) m slots affiliate = .ok (w', log)) (bal need : ℕ) :
    .underfunded bal need ∉ log := by
  obtain ⟨asset, loaded, position, ha, hl, hs, hcases⟩ := claimAsset_cases h
  obtain ⟨hwf, htouch⟩ := settleLoaded_collect hw ha hl hs
  rcases hcases with ⟨-, rfl⟩ | ⟨claimed, value, hx, hpay⟩
  · exact List.not_mem_nil
  · exact payOut_covered hwf (hf.collect htouch) hpay ha hx bal need

/-- each asset of a claim finds what the assets before it left untouched -/
theorem claimAssets_covered (hw : w.WF) (hf : Funded w.view) {a : ClaimAll} {tail : ℕ} {mints remaining : List Key}
    {log : List TreasuryMsg} (h : claimAssets a (w.lockOf a.holder) tail mints remaining w = .ok (w', log)) (bal need : ℕ) :
    .underfunded bal need ∉ log := by
  induction mints generalizing w remaining log with
  | nil =>
    cases h
    exact List.not_mem_nil
  | cons m mints ih =>
    simp only [claimAssets, bind_ok, Prod.exists, Except.ok.injEq, Prod.mk.injEq] at h
    obtain ⟨slots, rest, -, w₁, log₁, h₁, w₂, log₂, h₂, rfl, rfl⟩ := h
    obtain ⟨hw₁, hescrows, hc⟩ := claimAsset_collects hw h₁
    have hlock : w₁.lockOf a.holder = w.lockOf a.holder := by
      unfold World.lockOf
      rw [hescrows]
    have hf₁ : Funded w₁.view := Collect.invariant (fun _ _ hst hP => Funded.collect hP hst) hc hf
    rw [← hlock] at h₂
    rw [List.mem_append]
    rintro (hmem | hmem)
    · exact claimAsset_covered hw hf h₁ bal need hmem
    · exact ih hw₁ hf₁ h₂ hmem

/-- what collecting takes out of the treasury of a listed asset goes with what it takes out of the reserve -/
theorem Collect.paid_le {p : ℕ} {u : Key} {s t : Ledger Key} (h : Relation.ReflTransGen (Collect p u) s t) {m : Key}
    (hm : (s.asset m).isSome) : (t.asset m).isSome ∧ t.reserveOf m ≤ s.reserveOf m ∧ t.dividendCut = s.dividendCut ∧
      t.treasuryCut = s.treasuryCut ∧ ∃ paid, s.held.treasury m ≤ t.held.treasury m + paid ∧
        paid * s.dividendCut ≤ (s.reserveOf m - t.reserveOf m) * s.treasuryCut := by
  induction h with
  | refl => exact ⟨hm, le_rfl, rfl, rfl, 0, Nat.le_add_right .., by simp⟩
  | @tail r t _ hst ih =>
    obtain ⟨hr, hle, hd, hc, paid, hpaid, hbound⟩ := ih
    have hbook := hst.sameBook
    have ht : (t.asset m).isSome := by rw [hbook.listed m]; exact hr
    refine ⟨ht, ?_⟩
    suffices h : t.reserveOf m ≤ r.reserveOf m ∧ ∃ x, r.held.treasury m ≤ t.held.treasury m + x ∧
        x * s.dividendCut ≤ (r.reserveOf m - t.reserveOf m) * s.treasuryCut by
      obtain ⟨hle', x, hx, hxb⟩ := h
      refine ⟨hle'.trans hle, hbook.dividendCut.trans hd, hbook.treasuryCut.trans hc, paid + x, by omega, ?_⟩
      have hsplit : s.reserveOf m - t.reserveOf m = (s.reserveOf m - r.reserveOf m) + (r.reserveOf m - t.reserveOf m) := by
        omega
      rw [hsplit, Nat.add_mul, Nat.add_mul]
      exact Nat.add_le_add hbound hxb
    cases hst with
    | touch => exact ⟨le_rfl, 0, Nat.le_add_right .., by simp⟩
    | pay n q c x paid' h' hn hu hx hres hpaid' hvault htreasury hgrai hassets =>
      rcases eq_or_ne m n with rfl | hne
      · have hrm : r.reserveOf m = q.reserve := by simp [Ledger.reserveOf, hn]
        rw [hrm, ← hd, ← hc]
        simp only [Ledger.reserveOf, Function.update_self, Option.map_some, Option.getD_some]
        exact ⟨Nat.sub_le .., paid', htreasury, by rwa [Nat.sub_sub_self hres]⟩
      · obtain ⟨q', hq'⟩ := Option.isSome_iff_exists.1 hr
        have hkeep := (hassets m q' hq' (by simpa using hne)).2
        simp only [Ledger.reserveOf, Function.update_of_ne hne]
        exact ⟨le_rfl, 0, by simpa using hkeep, by simp⟩

/-- what a claim may take out of the treasuries, and that it was not skipped for lack of balance -/
structure ClaimCovered (w w' : World) (log : List TreasuryMsg) : Prop where
  funded : ∀ bal need, .underfunded bal need ∉ log
  gross_le : ∀ m, (w.assets m).isSome → w.treasuryOf m ≤ w'.treasuryOf m +
    (w.reserveOf m - w'.reserveOf m) * w.state.config.treasuryCutBps / w.state.config.dividendCutBps

/-- the treasury of every listed asset covers the treasury's part of the reserve, and what this means for claims -/
structure World.TreasuryCovered (w : World) : Prop where
  dividendCut : w.state.config.dividendCutBps = defaultProtocolConfig.dividendCutBps
  treasuryCut : w.state.config.treasuryCutBps = defaultProtocolConfig.treasuryCutBps
  covers : ∀ m asset, w.assets m = some asset →
    asset.totalClaimable * w.state.config.treasuryCutBps ≤ w.treasuryOf m * w.state.config.dividendCutBps
  claim : ∀ a w' log, executeClaim w a = .ok (w', log) → ClaimCovered w w' log
  claimAll : ∀ a w' log, executeClaimAll w a = .ok (w', log) → ClaimCovered w w' log
  /-- with the shares of a claim, what is paid and what is retained can be subtracted from the gross share -/
  net : ∀ (v : World) d claimed s, v.state.affiliateShareBps = w.state.affiliateShareBps →
    claimTreasuryShares claimed w.state.config.treasuryCutBps w.state.config.dividendCutBps
      w.state.config.revenueShareBps = .ok (d.grossProfitShare, d.revenueShare) →
    splitRevenue v d = .ok s → Succeeds (netShare d.grossProfitShare s)

theorem after_cuts (g : Genesis) (is : List Instr) :
    (g.after is).view.dividendCut = defaultProtocolConfig.dividendCutBps ∧
      (g.after is).view.treasuryCut = defaultProtocolConfig.treasuryCutBps := by
  refine Genesis.after_ledger (P := fun s => s.dividendCut = defaultProtocolConfig.dividendCutBps ∧
    s.treasuryCut = defaultProtocolConfig.treasuryCutBps) (fun _ => ⟨rfl, rfl⟩) ?_ g is
  intro s t who act ⟨h₁, h₂⟩ ht
  exact ⟨ht.cuts.1.trans h₁, ht.cuts.2.trans h₂⟩

/-- collecting, in the accounts of the program -/
theorem claim_gross_le (hw : w.WF) {u : Key} (h : Relation.ReflTransGen (Collect DIVIDEND_PRECISION u) w.view w'.view) (m : Key)
    (hm : (w.assets m).isSome) : w.treasuryOf m ≤ w'.treasuryOf m +
      (w.reserveOf m - w'.reserveOf m) * w.state.config.treasuryCutBps / w.state.config.dividendCutBps := by
  obtain ⟨-, -, -, -, paid, hpaid, hbound⟩ := Collect.paid_le h (m := m) (by simpa [World.view] using hm)
  have hpaid : w.treasuryOf m ≤ w'.treasuryOf m + paid := hpaid
  rw [view_reserveOf, view_reserveOf] at hbound
  have hle : paid ≤ (w.reserveOf m - w'.reserveOf m) * w.state.config.treasuryCutBps / w.state.config.dividendCutBps :=
    (Nat.le_div_iff_mul_le (Nat.pos_of_ne_zero hw.config.dividend_ne)).2 hbound
  omega

theorem netShare_succeeds {v : World} {d : Distribution} {claimed : ℕ} {s : Split} (hw : w.WF)
    (hshares : v.state.affiliateShareBps = w.state.affiliateShareBps)
    (hclaim : claimTreasuryShares claimed w.state.config.treasuryCutBps w.state.config.dividendCutBps
      w.state.config.revenueShareBps = .ok (d.grossProfitShare, d.revenueShare))
    (hs : splitRevenue v d = .ok s) : Succeeds (netShare d.grossProfitShare s) := by
  have hle := splitRevenue_le (by rw [hshares, hw.shares.sum]) hs
  obtain ⟨hgross, hrevenue⟩ := claimTreasuryShares_ok hclaim
  have hrg : d.revenueShare ≤ d.grossProfitShare := by
    rw [hgross, hrevenue]
    exact Nat.div_le_div_right (Nat.mul_le_mul_left _ hw.config.revenue)
  refine ⟨d.grossProfitShare - s.paidRevenue - s.retainedAffiliate, ?_⟩
  simp only [netShare, bind_ok, checkedSub_ok]
  exact ⟨_, ⟨by omega, rfl⟩, by omega, rfl⟩

/-- **Treasury.** After every run the treasuries cover the treasury's part of the reserves.

A claim that lists its shares from the treasury therefore finds them there, whoever claims first. The invariant is about the listed
assets: an asset is delisted only when its reserve is empty. -/
theorem treasury_covered (g : Genesis) (is : List Instr) : (g.after is).TreasuryCovered where
  dividendCut := (after_cuts g is).1
  treasuryCut := (after_cuts g is).2
  covers m asset ha := (after_funded g is m asset.pool (World.view_asset ha)).2
  claim a w' log h :=
    ⟨executeClaim_covered (g.after_wf is) (after_funded g is) h,
      claim_gross_le (g.after_wf is) (executeClaim_collects (g.after_wf is) h).2⟩
  claimAll a w' log h := by
    refine ⟨?_, claim_gross_le (g.after_wf is) (executeClaimAll_collects (g.after_wf is) h).2⟩
    simp only [executeClaimAll, bind_ok, require_ok] at h
    obtain ⟨escrow, he, -, -, h⟩ := h
    rw [← World.lockOf_some (loadEscrow_ok he)] at h
    exact claimAssets_covered (g.after_wf is) (after_funded g is) h
  net v d claimed s hshares hclaim hs := netShare_succeeds (g.after_wf is) hshares hclaim hs

end Grindurus.Grai
