/-
What the conversions and the mint premium are worth (`programs/grai/src/tokenomics.rs`).

- `usdValue_scaled`, `settlementAmount_scaled`: both conversions are one scaling, in opposite directions.
- `conversions_lose`: there and back never gains, either way round, and what is lost is bounded.
- `premiumYears`, `premiumAsk`: the whole years a premium has run, and the ask after them.
- `applyMintPremium_eq`: the premium divides by the ask, and no step of it overflows. `mint_premium_discounts`: so it is never
  refused, never a gain, and grows with the clock and the rate.
-/
import Grindurus.Lib.Rounding
import Grindurus.Grai.Tokenomics

namespace Grindurus.Grai

open Checked Rounding

variable {p : PriceData} {a a' u u' s s' dec : ℕ}

/-! ## Conversions -/

/-- what a base unit is worth, as a ratio: the price in `USD_DECIMALS` over the two decimal scales -/
def PriceData.worth (p : PriceData) : ℕ := p.price.toNat * 10 ^ USD_DECIMALS

def PriceData.scale (p : PriceData) (dec : ℕ) : ℕ := 10 ^ dec * 10 ^ p.decimals

theorem PriceData.worth_pos (h : 0 < p.price) : 0 < p.worth := by
  have hpos : 0 < p.price.toNat := by omega
  exact Nat.mul_pos hpos (by decide)

theorem PriceData.scale_pos (p : PriceData) (dec : ℕ) : 0 < p.scale dec := by
  unfold PriceData.scale
  positivity

theorem pow10_ok {x : ℕ} (h : pow10 dec = .ok x) : x = 10 ^ dec := (narrow_ok.1 h).2.symm

theorem usdValue_scaled (h : usdValue a dec p = .ok u) : u = scaled p.worth (p.scale dec) a := by
  unfold usdValue at h
  split_ifs at h with h0
  · cases h
    rw [h0, scaled, Nat.zero_mul, Nat.zero_div]
  · simp only [bind_ok, checkedMul_ok, checkedDiv_ok] at h
    obtain ⟨-, -, _, husd, _, ⟨-, rfl⟩, _, ⟨-, rfl⟩, _, hasset, _, hfeed, _, ⟨-, rfl⟩, -, rfl⟩ := h
    rw [pow10_ok husd, pow10_ok hasset, pow10_ok hfeed, Nat.mul_assoc]
    rfl

theorem settlementAmount_scaled (h : settlementAmount u dec p = .ok s) :
    0 < p.price ∧ s = scaled (p.scale dec) p.worth u := by
  simp only [settlementAmount, bind_ok, require_ok, checkedMul_ok, checkedDiv_ok, narrow_ok] at h
  obtain ⟨-, hprice, _, hasset, _, hfeed, _, ⟨-, rfl⟩, _, ⟨-, rfl⟩, _, husd, _, ⟨-, rfl⟩, _, ⟨-, rfl⟩, -, rfl⟩ := h
  rw [pow10_ok husd, pow10_ok hasset, pow10_ok hfeed, Nat.mul_assoc]
  exact ⟨hprice, rfl⟩

theorem usdValue_mono (haa : a ≤ a') (h : usdValue a dec p = .ok u) (h' : usdValue a' dec p = .ok u') : u ≤ u' := by
  rw [usdValue_scaled h, usdValue_scaled h']
  exact scaled_mono haa

theorem settlementAmount_mono (huu : u ≤ u') (h : settlementAmount u dec p = .ok s) (h' : settlementAmount u' dec p = .ok s') :
    s ≤ s' := by
  rw [(settlementAmount_scaled h).2, (settlementAmount_scaled h').2]
  exact scaled_mono huu

theorem settlement_of_usd_le (hu : usdValue a dec p = .ok u) (hs : settlementAmount u dec p = .ok s) : s ≤ a := by
  rw [(settlementAmount_scaled hs).2, usdValue_scaled hu]
  exact scaled_back_le _ _ a

theorem usd_of_settlement_le (hs : settlementAmount u dec p = .ok s) (hu : usdValue s dec p = .ok u') : u' ≤ u := by
  rw [usdValue_scaled hu, (settlementAmount_scaled hs).2]
  exact scaled_back_le _ _ u

/-- what is lost is less than one unit and what a unit of USD buys -/
theorem settlement_of_usd_loss (hu : usdValue a dec p = .ok u) (hs : settlementAmount u dec p = .ok s) :
    (a : ℚ) - s < 1 + 10 ^ (dec + p.decimals) / (p.price * 10 ^ 6) := by
  obtain ⟨hprice, hs⟩ := settlementAmount_scaled hs
  have hloss : a * p.worth < (s + 1) * p.worth + p.scale dec := by
    rw [hs, usdValue_scaled hu]
    exact lt_scaled_back (PriceData.worth_pos hprice) (p.scale_pos dec)
  have hcast : (p.price.toNat : ℚ) = p.price := by
    have hnat : (p.price.toNat : ℤ) = p.price := Int.toNat_of_nonneg hprice.le
    exact_mod_cast hnat
  have hworth : (p.worth : ℚ) = p.price * 10 ^ 6 := by
    rw [PriceData.worth, Nat.cast_mul, hcast, Nat.cast_pow]
    rfl
  have hscale : (p.scale dec : ℚ) = 10 ^ (dec + p.decimals) := by
    rw [PriceData.scale]
    push_cast
    rw [pow_add]
  have hpos : (0 : ℚ) < p.worth := by exact_mod_cast PriceData.worth_pos hprice
  have hlossQ : (a : ℚ) * p.worth < (s + 1) * p.worth + p.scale dec := by exact_mod_cast hloss
  rw [← hworth, ← hscale]
  calc (a : ℚ) - s = (a * p.worth - s * p.worth) / p.worth := by field_simp
    _ < (p.worth + p.scale dec) / p.worth := by
      apply div_lt_div_of_pos_right _ hpos
      linarith only [hlossQ]
    _ = 1 + p.scale dec / p.worth := by
      rw [add_div, div_self hpos.ne']

/-- **Conversions lose.** An amount converted to USD and back is no more, nor is a USD amount converted to the asset and back;
both conversions are monotone; and an amount loses less than a unit and what a unit of USD buys. Both round down. The statement
is for all prices, decimals and amounts for which the conversions succeed, and says nothing of those that overflow. -/
theorem conversions_lose (p : PriceData) (dec : ℕ) :
    (∀ a u s, usdValue a dec p = .ok u → settlementAmount u dec p = .ok s →
      s ≤ a ∧ (a : ℚ) - s < 1 + 10 ^ (dec + p.decimals) / (p.price * 10 ^ 6)) ∧
    (∀ u s u', settlementAmount u dec p = .ok s → usdValue s dec p = .ok u' → u' ≤ u) ∧
    (∀ a a' u u', a ≤ a' → usdValue a dec p = .ok u → usdValue a' dec p = .ok u' → u ≤ u') ∧
    (∀ u u' s s', u ≤ u' → settlementAmount u dec p = .ok s → settlementAmount u' dec p = .ok s' → s ≤ s') :=
  ⟨fun _ _ _ hu hs => ⟨settlement_of_usd_le hu hs, settlement_of_usd_loss hu hs⟩, fun _ _ _ hs hu => usd_of_settlement_le hs hu,
    fun _ _ _ _ haa hu hu' => usdValue_mono haa hu hu', fun _ _ _ _ huu hs hs' => settlementAmount_mono huu hs hs'⟩

/-- 1.5 SOL of 9 decimals at 141.23456789 USD: 211.851851 USD, which buy back all but 6 lamports -/
theorem conversions_lose_sol :
    usdValue 1500000000 9 ⟨14123456789, 8⟩ = .ok 211851851 ∧
      settlementAmount 211851851 9 ⟨14123456789, 8⟩ = .ok 1499999994 ∧
      (1500000000 : ℚ) - 1499999994 < 1 + 10 ^ (9 + 8) / (14123456789 * 10 ^ 6) := by
  have husd : usdValue 1500000000 9 ⟨14123456789, 8⟩ = .ok 211851851 := by decide +kernel
  have hback : settlementAmount 211851851 9 ⟨14123456789, 8⟩ = .ok 1499999994 := by decide +kernel
  have hloss := ((conversions_lose ⟨14123456789, 8⟩ 9).1 _ _ _ husd hback).2
  exact ⟨husd, hback, by simpa using hloss⟩

/-! ## The mint premium -/

/-- the whole years a premium that started at `start` has run; a start of 0 is none -/
def premiumYears (start now : ℤ) : ℕ :=
  if start = 0 then 0 else min ((now - start).toNat / MINT_PREMIUM_YEAR_SECONDS) MAX_MINT_PREMIUM_YEARS

/-- the price of a share after `years` years, in basis points of its book value -/
def premiumAsk (rate years : ℕ) : ℕ := compounded (BPS + rate) BPS years BPS

theorem bps_pos : 0 < BPS := by decide

theorem premiumYears_le (start now : ℤ) : premiumYears start now ≤ MAX_MINT_PREMIUM_YEARS := by
  unfold premiumYears
  split_ifs
  · exact Nat.zero_le _
  · exact min_le_right _ _

theorem premiumYears_mono {start now now' : ℤ} (h : now ≤ now') : premiumYears start now ≤ premiumYears start now' := by
  unfold premiumYears
  split_ifs
  · exact le_rfl
  · have hsec : (now - start).toNat ≤ (now' - start).toNat := Int.toNat_le_toNat (by omega)
    exact min_le_min_right _ (Nat.div_le_div_right hsec)

theorem bps_le_premiumAsk (rate years : ℕ) : BPS ≤ premiumAsk rate years :=
  le_compounded bps_pos (Nat.le_add_right BPS rate) years BPS

theorem premiumAsk_mono {rate rate' years years' : ℕ} (hr : rate ≤ rate') (hy : years ≤ years') :
    premiumAsk rate years ≤ premiumAsk rate' years' := by
  calc premiumAsk rate years ≤ premiumAsk rate years' := compounded_mono_rounds bps_pos (Nat.le_add_right BPS rate) hy BPS
    _ ≤ premiumAsk rate' years' := compounded_mono_factor years' (Nat.add_le_add_left hr BPS) BPS

/-- the loop succeeds where no growth past `m` is due, and `m` leaves room for one more factor -/
theorem compoundAsk_eq {rate m : ℕ} (hm : m * (BPS + rate) < 2 ^ 128) (years : ℕ) {ask : ℕ}
    (h : ask * (BPS + rate) ^ years ≤ m * BPS ^ years) :
    compoundAsk rate years ask = .ok (compounded (BPS + rate) BPS years ask) := by
  induction years generalizing ask with
  | zero => rfl
  | succ years ih =>
    have hask : ask ≤ m := le_of_pow_le bps_pos (Nat.le_add_right BPS rate) h
    have hfits : ask * (BPS + rate) < 2 ^ 128 := (Nat.mul_le_mul_right _ hask).trans_lt hm
    have hrest := ih (scaled_pow_le bps_pos h)
    simp only [compoundAsk, bind_ok, checkedMul_ok, checkedDiv_ok]
    exact ⟨_, ⟨hfits, rfl⟩, _, ⟨by decide, rfl⟩, hrest⟩

/-- a hundred doublings stay below the limit of `u128` -/
theorem compoundAsk_fits {rate years : ℕ} (hrate : rate ≤ BPS) (hyears : years ≤ MAX_MINT_PREMIUM_YEARS) :
    compoundAsk rate years BPS = .ok (premiumAsk rate years) := by
  have hroom : BPS * 2 ^ MAX_MINT_PREMIUM_YEARS * (BPS + rate) < 2 ^ 128 := by
    calc BPS * 2 ^ MAX_MINT_PREMIUM_YEARS * (BPS + rate) ≤ BPS * 2 ^ MAX_MINT_PREMIUM_YEARS * (BPS + BPS) :=
          Nat.mul_le_mul_left _ (Nat.add_le_add_left hrate BPS)
      _ < 2 ^ 128 := by decide
  refine compoundAsk_eq hroom years ?_
  calc BPS * (BPS + rate) ^ years ≤ BPS * (BPS * 2) ^ years := by
        have hdouble : BPS + rate ≤ BPS * 2 := by omega
        exact Nat.mul_le_mul_left _ (Nat.pow_le_pow_left hdouble years)
    _ = BPS * 2 ^ years * BPS ^ years := by rw [mul_pow]; ring
    _ ≤ BPS * 2 ^ MAX_MINT_PREMIUM_YEARS * BPS ^ years := by
        have hgrow : 2 ^ years ≤ 2 ^ MAX_MINT_PREMIUM_YEARS := Nat.pow_le_pow_right (by decide) hyears
        exact Nat.mul_le_mul_right _ (Nat.mul_le_mul_left _ hgrow)

/-- where there is no premium to apply the ask is par -/
theorem premiumAsk_par {book rate : ℕ} {start now : ℤ} (h : book = 0 ∨ rate = 0 ∨ start = 0 ∨ now < start) :
    book * BPS / premiumAsk rate (premiumYears start now) = book := by
  rcases h with rfl | rfl | rfl | h
  · rw [Nat.zero_mul, Nat.zero_div]
  · rw [premiumAsk, Nat.add_zero, compounded_self bps_pos]
    exact Nat.mul_div_cancel book bps_pos
  · exact Nat.mul_div_cancel book bps_pos
  · have hyears : premiumYears start now = 0 := by
      have hsec : (now - start).toNat = 0 := Int.toNat_of_nonpos (by omega)
      simp [premiumYears, hsec]
    rw [hyears]
    exact Nat.mul_div_cancel book bps_pos

/-- **Never refused.** The premium divides the book shares by the ask. -/
theorem applyMintPremium_eq {book rate : ℕ} {start now : ℤ} (hbook : book < 2 ^ 64) (hrate : rate ≤ BPS) (hstart : 0 ≤ start)
    (hnow : now < 2 ^ 63) :
    applyMintPremium book rate start now = .ok (book * BPS / premiumAsk rate (premiumYears start now)) := by
  unfold applyMintPremium
  by_cases h0 : book = 0 ∨ rate = 0 ∨ start = 0 ∨ now < start
  · rw [if_pos h0, premiumAsk_par h0]
  rw [if_neg h0]
  have hne : start ≠ 0 := fun h => h0 (.inr (.inr (.inl h)))
  have hle : start ≤ now := not_lt.1 fun h => h0 (.inr (.inr (.inr h)))
  have hyears : premiumYears start now = min ((now + -start).toNat / MINT_PREMIUM_YEAR_SECONDS) MAX_MINT_PREMIUM_YEARS := by
    rw [premiumYears, if_neg hne, Int.sub_eq_add_neg]
  simp only [bind_ok, checkedAddI64_ok]
  refine ⟨_, ⟨⟨by omega, by omega⟩, rfl⟩, ?_⟩
  split_ifs with hzero
  · rw [hyears, hzero, Nat.zero_min]
    exact congrArg Except.ok (Nat.mul_div_cancel book bps_pos).symm
  · rw [← hyears]
    have hask := bps_le_premiumAsk rate (premiumYears start now)
    have hout : book * BPS / premiumAsk rate (premiumYears start now) ≤ book :=
      Nat.div_le_of_le_mul ((Nat.mul_le_mul_left book hask).trans (Nat.mul_comm book _).le)
    have hfits : book * BPS < 2 ^ 128 := by
      unfold BPS
      omega
    simp only [bind_ok, checkedMul_ok, checkedDiv_ok, narrow_ok]
    exact ⟨_, compoundAsk_fits hrate (premiumYears_le start now), _, ⟨hfits, rfl⟩, _, ⟨(bps_pos.trans_le hask).ne', rfl⟩,
      hout.trans_lt hbook, rfl⟩

/-- a dearer ask mints no more -/
theorem div_premiumAsk_anti {book rate rate' years years' : ℕ} (hr : rate ≤ rate') (hy : years ≤ years') :
    book * BPS / premiumAsk rate' years' ≤ book * BPS / premiumAsk rate years :=
  Nat.div_le_div_left (premiumAsk_mono hr hy) (bps_pos.trans_le (bps_le_premiumAsk rate years))

/-- **The mint premium.** It is applied without error, whatever the book amount, the rate and the clock; it mints at most the
book shares, no more later or at a higher rate, and no less for more book shares. The years are whole and at most a hundred, and
the rate is at most the one a configuration may have, so the compounded ask fits the width it is computed in. -/
theorem mint_premium_discounts {book rate : ℕ} {start now : ℤ} (hbook : book < 2 ^ 64) (hrate : rate ≤ BPS) (hstart : 0 ≤ start)
    (hnow : now < 2 ^ 63) :
    ∃ out, applyMintPremium book rate start now = .ok out ∧ out ≤ book ∧
      (∀ now', now ≤ now' → now' < 2 ^ 63 → ∃ out', applyMintPremium book rate start now' = .ok out' ∧ out' ≤ out) ∧
      (∀ rate', rate ≤ rate' → rate' ≤ BPS → ∃ out', applyMintPremium book rate' start now = .ok out' ∧ out' ≤ out) ∧
      (∀ book', book ≤ book' → book' < 2 ^ 64 → ∃ out', applyMintPremium book' rate start now = .ok out' ∧ out ≤ out') := by
  have happly := applyMintPremium_eq hbook hrate hstart hnow
  refine ⟨_, happly, applyMintPremium_le happly, fun now' hle hlt => ?_, fun rate' hle hlt => ?_, fun book' hle hlt => ?_⟩
  · exact ⟨_, applyMintPremium_eq hbook hrate hstart hlt, div_premiumAsk_anti le_rfl (premiumYears_mono hle)⟩
  · exact ⟨_, applyMintPremium_eq hbook hlt hstart hnow, div_premiumAsk_anti hle le_rfl⟩
  · exact ⟨_, applyMintPremium_eq hlt hrate hstart hnow, Nat.div_le_div_right (Nat.mul_le_mul_right _ hle)⟩

/-- the highest rate, for longer than the cap: a hundred doublings leave nothing of the largest book amount -/
theorem mint_premium_doublings :
    applyMintPremium u64Max BPS 1 (200 * MINT_PREMIUM_YEAR_SECONDS) = .ok 0 ∧
      ∃ out, applyMintPremium u64Max BPS 1 (2 * MINT_PREMIUM_YEAR_SECONDS) = .ok out ∧ out ≤ u64Max := by
  refine ⟨by decide +kernel, ?_⟩
  obtain ⟨out, hout, hle, -⟩ := @mint_premium_discounts u64Max BPS 1 (2 * MINT_PREMIUM_YEAR_SECONDS) (by decide) (by decide)
    (by decide) (by decide)
  exact ⟨out, hout, hle⟩

end Grindurus.Grai
