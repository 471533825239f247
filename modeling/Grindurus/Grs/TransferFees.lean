/-
Transfers of a token that withholds a fee of its own (`programs/grs/src/instructions/quote_send.rs`).

The rest of the development assumes that the token of a store withholds nothing (`Deployment.withholdsNothing`); here an adapter
may lock one that does. The token program is not in the repository: what is left of an amount is a parameter, of which
`Documented` says that the fee is a share of the amount, rounded up, and at most the maximum.

- `calculatePreFee_iff`: what has to be sent for an amount to be left is what `Withholding.needed` says, unless that is past
  64 bits.
- `withheld_exactly`: the escrow gets exactly what is received and the fee, of the least that could be sent. So of such a token
  what is sent is more than what is received and the fee together; the difference is withheld, as `withheld_exactly_percent` shows.
-/
import Grindurus.Lib.Withholding
import Grindurus.Grs.SendQuotes

namespace Grindurus.Grs.Token2022

open Checked Withholding

variable {fee : TransferFee} {x y : ℕ}

def TransferFee.needed (fee : TransferFee) : ℕ → ℕ :=
  Withholding.needed fee.transferFeeBasisPoints ONE_IN_BASIS_POINTS fee.maximumFee

def TransferFee.kept (fee : TransferFee) : ℕ → ℕ := Withholding.kept fee.transferFeeBasisPoints ONE_IN_BASIS_POINTS fee.maximumFee

/-- as documented: a share of the amount, rounded up, and at most the maximum -/
def TransferFeeConfig.Documented (c : TransferFeeConfig) : Prop :=
  ∀ x, x < 2 ^ 64 → c.calculatePostFeeAmount x = some (c.epochFee.kept x)

theorem TransferFee.gc (fee : TransferFee) : GaloisConnection fee.needed fee.kept := needed_gc (by decide) fee.bounded

theorem TransferFee.kept_needed (fee : TransferFee) (y : ℕ) : fee.kept (fee.needed y) = y :=
  Withholding.kept_needed (by decide) fee.bounded y

theorem fits_some {w a b : ℕ} : fits w a = some b ↔ a < 2 ^ w ∧ a = b := by
  unfold fits
  split_ifs with h <;> simp [h]

theorem checkedSub_some {a b c : ℕ} : checkedSub a b = some c ↔ b ≤ a ∧ a - b = c := by
  unfold checkedSub
  split_ifs with h <;> simp [h]

theorem ceilDiv_some {a b c : ℕ} (hb : 0 < b) (h : a + b < 2 ^ 128) : ceilDiv a b = some c ↔ a ⌈/⌉ b = c := by
  simp only [ceilDiv, Option.bind_eq_bind, Option.bind_eq_some_iff, fits_some, checkedSub_some, if_neg hb.ne',
    Option.some.injEq, Nat.ceilDiv_eq_add_pred_div]
  constructor
  · rintro ⟨_, ⟨-, rfl⟩, _, ⟨-, rfl⟩, hc⟩
    exact hc
  · intro hc
    exact ⟨_, ⟨h, rfl⟩, _, ⟨by omega, rfl⟩, hc⟩

/-- with the fee capped, the lesser of the two is sent, if it fits -/
theorem fits_capped {raw cap : ℕ} (hraw : y ≤ raw) :
    (if cap ≤ raw - y then fits u64 (y + cap) else fits u64 raw) = some x ↔ x < 2 ^ 64 ∧ min raw (y + cap) = x := by
  split_ifs with hcap
  · rw [fits_some, min_eq_right (by omega)]
    constructor
    · rintro ⟨hlt, rfl⟩
      exact ⟨hlt, rfl⟩
    · rintro ⟨hlt, rfl⟩
      exact ⟨hlt, rfl⟩
  · rw [fits_some, min_eq_left (by omega)]
    constructor
    · rintro ⟨hlt, rfl⟩
      exact ⟨hlt, rfl⟩
    · rintro ⟨hlt, rfl⟩
      exact ⟨hlt, rfl⟩

/-- before the cap no less is sent than is to be left -/
theorem le_raw {k : ℕ} (hk : 0 < ONE_IN_BASIS_POINTS - k) (y : ℕ) :
    y ≤ (y * ONE_IN_BASIS_POINTS) ⌈/⌉ (ONE_IN_BASIS_POINTS - k) := by
  refine Nat.le_of_mul_le_mul_left ?_ hk
  refine le_trans ?_ ((ceilDiv_le_iff_le_mul hk).1 le_rfl)
  rw [Nat.mul_comm]
  exact Nat.mul_le_mul_left y (Nat.sub_le ..)

/-- **What has to be sent.** -/
theorem calculatePreFee_iff (hy : y < 2 ^ 64) : calculatePreFeeAmount fee y = some x ↔ x < 2 ^ 64 ∧ fee.needed y = x := by
  have hle : fee.transferFeeBasisPoints ≤ ONE_IN_BASIS_POINTS := fee.bounded
  unfold calculatePreFeeAmount TransferFee.needed
  split_ifs with hfree hzero hwhole
  · rw [hfree, needed_free (by decide), Option.some.injEq]
    constructor
    · rintro rfl
      exact ⟨hy, rfl⟩
    · exact And.right
  · subst hzero
    simp only [Option.some.injEq, Withholding.needed, if_pos]
    constructor
    · rintro rfl
      exact ⟨by decide, rfl⟩
    · exact And.right
  · rw [fits_some, Withholding.needed, if_neg hzero, if_pos hwhole, Nat.add_comm y]
    constructor
    · rintro ⟨hlt, rfl⟩
      exact ⟨hlt, rfl⟩
    · rintro ⟨hlt, rfl⟩
      exact ⟨hlt, rfl⟩
  · have hrest : 0 < ONE_IN_BASIS_POINTS - fee.transferFeeBasisPoints := by omega
    have hsum : y * ONE_IN_BASIS_POINTS + (ONE_IN_BASIS_POINTS - fee.transferFeeBasisPoints) < 2 ^ 128 := by
      unfold ONE_IN_BASIS_POINTS
      omega
    have hpost : y * ONE_IN_BASIS_POINTS < 2 ^ u128 := (Nat.le_add_right ..).trans_lt hsum
    have hraw := le_raw hrest y
    simp only [Option.bind_eq_bind, Option.bind_eq_some_iff, fits_some, checkedSub_some]
    rw [Withholding.needed, if_neg hzero, if_neg hwhole, ← fits_capped hraw]
    constructor
    · rintro ⟨_, ⟨-, rfl⟩, _, ⟨-, rfl⟩, raw, hceil, _, ⟨-, rfl⟩, h⟩
      obtain rfl := (ceilDiv_some hrest hsum).1 hceil
      exact h
    · intro h
      exact ⟨_, ⟨hpost, rfl⟩, _, ⟨hle, rfl⟩, _, (ceilDiv_some hrest hsum).2 rfl, _, ⟨hraw, rfl⟩, h⟩

/-! ## Sent, received and fee -/

variable {s : OFTStore} {c : TransferFeeConfig} {bps : Option ℕ} {r : Receipt}

/-- what an adapter takes and passes on of a token that withholds a fee -/
structure Withheld (s : OFTStore) (c : TransferFeeConfig) (x : ℕ) (r : Receipt) : Prop where
  affordable : r.amountSentLd ≤ x
  escrowed : c.calculatePostFeeAmount r.amountSentLd = some (r.amountReceivedLd + r.oftFeeLd)
  least : ∀ y, r.amountReceivedLd + r.oftFeeLd ≤ c.epochFee.kept y → r.amountSentLd ≤ y
  received : s.ld2sdRate ∣ r.amountReceivedLd
  fee : s.ld2sdRate ∣ r.oftFeeLd
  dust : 0 < s.ld2sdRate → c.epochFee.kept x < r.amountReceivedLd + r.oftFeeLd + s.ld2sdRate

/-- **Nothing is lost to the transfer fee.** As long as the token withholds what is documented, `calculate_pre_fee_amount` gives
the least amount that leaves what is asked for, if it fits, and that is what it leaves. So whatever is to be sent through an
adapter whose fee is below the whole, the computation succeeds; the sender pays no more than asked, and the least that leaves the
escrow all that is received and the fee. -/
theorem withheld_exactly (hc : c.Documented) :
    (∀ x y, y < 2 ^ 64 → (calculatePreFeeAmount c.epochFee y = some x ↔ x < 2 ^ 64 ∧ IsLeast {z | y ≤ c.epochFee.kept z} x)) ∧
    (∀ x y, y < 2 ^ 64 → calculatePreFeeAmount c.epochFee y = some x → c.calculatePostFeeAmount x = some y) ∧
    ∀ s x bps, s.oftType = .adapter → x < 2 ^ 64 → bps.getD s.defaultFeeBps < MAX_FEE_BASIS_POINTS →
      ∃ r, computeFeeAndAdjustAmount s (some c) x bps = .ok r ∧ Withheld s c x r := by
  have hgc := c.epochFee.gc
  refine ⟨fun x y hy => ?_, fun x y hy h => ?_, fun s x bps hkind hx hbps => ?_⟩
  · rw [calculatePreFee_iff hy]
    refine and_congr_right fun _ => ⟨?_, fun h => hgc.isLeast_l.unique h⟩
    rintro rfl
    exact hgc.isLeast_l
  · obtain ⟨hx, rfl⟩ := (calculatePreFee_iff hy).1 h
    rw [hc _ hx, c.epochFee.kept_needed]
  · have hkept : c.epochFee.kept x ≤ x := Nat.sub_le ..
    have hdust := removeDust_le s (c.epochFee.kept x)
    have hneeded : c.epochFee.needed (s.removeDust (c.epochFee.kept x)) ≤ x := hgc.l_le hdust
    have hpre := (calculatePreFee_iff (by omega)).2 ⟨hneeded.trans_lt hx, rfl⟩
    have hfee : s.removeDust (calculateFee (s.removeDust (c.epochFee.kept x)) s.defaultFeeBps bps) ≤
        s.removeDust (c.epochFee.kept x) := (removeDust_le ..).trans (calculateFee_le hbps (by omega))
    refine ⟨⟨c.epochFee.needed (s.removeDust (c.epochFee.kept x)), s.removeDust (c.epochFee.kept x) -
      s.removeDust (calculateFee (s.removeDust (c.epochFee.kept x)) s.defaultFeeBps bps),
      s.removeDust (calculateFee (s.removeDust (c.epochFee.kept x)) s.defaultFeeBps bps)⟩, ?_, ?_⟩
    · unfold computeFeeAndAdjustAmount
      rw [hkind]
      simp only [bind_ok, getPostFeeAmountLd, getPreFeeAmountLd, demand_ok, checkedSub_ok]
      exact ⟨_, hc x hx, _, hpre, _, ⟨hfee, rfl⟩, rfl⟩
    · refine ⟨hneeded, ?_, fun y hy => ?_, Nat.dvd_sub (removeDust_dvd ..) (removeDust_dvd ..), removeDust_dvd ..,
        fun hrate => ?_⟩
      · rw [Nat.sub_add_cancel hfee, hc _ (hneeded.trans_lt hx), c.epochFee.kept_needed]
      · rw [Nat.sub_add_cancel hfee] at hy
        exact hgc.l_le hy
      · have hmod := Nat.mod_lt (c.epochFee.kept x) hrate
        rw [Nat.sub_add_cancel hfee, OFTStore.removeDust]
        omega

/-- one per cent, and 5000 at most -/
def onePercent : TransferFeeConfig where
  epochFee := ⟨5000, 100, by decide, by decide⟩
  calculatePostFeeAmount x := some (x - min ((x * 100 + 10000 - 1) / 10000) 5000)

def plainAdapter : OFTStore := ⟨.adapter, 1000, .default, 0, .default, .default, 0, false, none, none⟩

theorem withheld_exactly_percent :
    computeFeeAndAdjustAmount plainAdapter (some onePercent) 1000500 none = .ok ⟨1000000, 995000, 0⟩ ∧
    Withheld plainAdapter onePercent 1000500 ⟨1000000, 995000, 0⟩ := by
  have hdocumented : onePercent.Documented := fun x _ => rfl
  have hcomputed : computeFeeAndAdjustAmount plainAdapter (some onePercent) 1000500 none = .ok ⟨1000000, 995000, 0⟩ := by
    decide +kernel
  obtain ⟨-, -, h⟩ := withheld_exactly hdocumented
  obtain ⟨r, hr, hwithheld⟩ := h plainAdapter 1000500 none rfl (by decide) (by decide)
  obtain rfl := Except.ok.inj (hcomputed.symm.trans hr)
  exact ⟨hcomputed, hwithheld⟩

end Grindurus.Grs.Token2022
