/-
What a custodian may trade (`custodians/explicit_swap.rs`).

- `Traded`: the balances of a custodian before and after the call of its router. `executeSwap_eq`: a swap is the call, and the
  settlement of what the call did.
- `Traded.Sold`, `Traded.Bought`: base and quote moved against each other, within the limit, cross-multiplied.
- `settle_iff`: a settlement succeeds exactly for such a trade whose price can be computed. `swaps_keep_limit`: so every swap
  that is accepted is one.
- `swap_size_iff`: the price of a trade within the limit can be computed up to some size of its quote side, and not beyond.
-/
import Grindurus.Grinders.Program
import Grindurus.Lib.Rounding

namespace Grindurus.Grinders

open Checked Rounding TokenBank Machine

variable {w w' : World} {a : CustodianSwap} {base quote bd qd limit price : ℕ}

/-! ## The price -/

/-- the numerator of the price, before anything is divided -/
def priced (quoteDelta baseDecimals : ℕ) : ℕ := quoteDelta * PRICE_DECIMALS * 10 ^ baseDecimals

theorem pow10_pos (d : ℕ) : 0 < 10 ^ d := Nat.pow_pos (by decide)

/-- the numerator and both scales are the largest numbers of the computation -/
theorem quotePerBase_ok : quotePerBase base quote bd qd = .ok price ↔
    10 ^ bd < 2 ^ 128 ∧ 10 ^ qd < 2 ^ 128 ∧ priced quote bd < 2 ^ 128 ∧ base ≠ 0 ∧ priced quote bd / base / 10 ^ qd = price := by
  simp only [quotePerBase, pow10, bind_ok, narrow_ok, checkedMul_ok, checkedDiv_ok]
  constructor
  · rintro ⟨_, ⟨hbd, rfl⟩, _, ⟨hqd, rfl⟩, _, ⟨-, rfl⟩, _, ⟨hnum, rfl⟩, _, ⟨hbase, rfl⟩, -, rfl⟩
    exact ⟨hbd, hqd, hnum, hbase, rfl⟩
  · rintro ⟨hbd, hqd, hnum, hbase, rfl⟩
    have hscaled : quote * PRICE_DECIMALS < 2 ^ u128 := (Nat.le_mul_of_pos_right _ (pow10_pos bd)).trans_lt hnum
    exact ⟨_, ⟨hbd, rfl⟩, _, ⟨hqd, rfl⟩, _, ⟨hscaled, rfl⟩, _, ⟨hnum, rfl⟩, _, ⟨hbase, rfl⟩, (pow10_pos qd).ne', rfl⟩

theorem pow10_fits {d : ℕ} (h : d ≤ 9) : 10 ^ d < 2 ^ 128 := by
  calc 10 ^ d ≤ 10 ^ 9 := Nat.pow_le_pow_right (by decide) h
    _ < 2 ^ 128 := by decide

/-! ## The settlement -/

/-- the balances of a custodian before and after the call of a router, and the decimals of the mints it named -/
structure Traded where
  baseBefore : ℕ
  quoteBefore : ℕ
  baseAfter : ℕ
  quoteAfter : ℕ
  baseDecimals : ℕ
  quoteDecimals : ℕ
  bank : Bank Key

namespace Traded

variable {t : Traded}

def settle (t : Traded) (limitPrice : ℕ) : Except ErrorCode Unit :=
  settleSwap t.baseBefore t.quoteBefore t.baseAfter t.quoteAfter t.baseDecimals t.quoteDecimals limitPrice

/-- base fell, quote rose, by `limit` quote for each base or more -/
def Sold (t : Traded) (limit : ℕ) : Prop :=
  t.baseAfter < t.baseBefore ∧ t.quoteBefore < t.quoteAfter ∧
    limit * (t.baseBefore - t.baseAfter) * 10 ^ t.quoteDecimals ≤ priced (t.quoteAfter - t.quoteBefore) t.baseDecimals

/-- base rose, quote fell, by less than `limit + 1` quote for each base -/
def Bought (t : Traded) (limit : ℕ) : Prop :=
  t.baseBefore < t.baseAfter ∧ t.quoteAfter < t.quoteBefore ∧
    priced (t.quoteBefore - t.quoteAfter) t.baseDecimals < (limit + 1) * (t.baseAfter - t.baseBefore) * 10 ^ t.quoteDecimals

/-- how much quote changed hands, whichever way -/
def quoteDelta (t : Traded) : ℕ := (t.quoteAfter - t.quoteBefore) + (t.quoteBefore - t.quoteAfter)

/-- the price of the trade is computed within 128 bits -/
def Fits (t : Traded) : Prop :=
  10 ^ t.baseDecimals < 2 ^ 128 ∧ 10 ^ t.quoteDecimals < 2 ^ 128 ∧ priced t.quoteDelta t.baseDecimals < 2 ^ 128

/-- two deltas are settled if their price can be computed and is accepted -/
theorem settled_iff (p : ℕ → Prop) [DecidablePred p] {high low high' low' : ℕ} {e : ErrorCode} (hb : low < high) (hq : low' < high') :
    (do
      let baseDelta ← checkedSub high low .mathOverflow
      let quoteDelta ← checkedSub high' low' .mathOverflow
      let executionPrice ← quotePerBase baseDelta quoteDelta bd qd
      require (p executionPrice) e : Except ErrorCode Unit) = .ok () ↔
    p (priced (high' - low') bd / (high - low) / 10 ^ qd) ∧ 10 ^ bd < 2 ^ 128 ∧ 10 ^ qd < 2 ^ 128 ∧ priced (high' - low') bd < 2 ^ 128 := by
  simp only [bind_ok, checkedSub_ok, quotePerBase_ok, require_ok]
  constructor
  · rintro ⟨_, ⟨-, rfl⟩, _, ⟨-, rfl⟩, _, ⟨hbd, hqd, hnum, -, rfl⟩, hp⟩
    exact ⟨hp, hbd, hqd, hnum⟩
  · rintro ⟨hp, hbd, hqd, hnum⟩
    exact ⟨_, ⟨hb.le, rfl⟩, _, ⟨hq.le, rfl⟩, _, ⟨hbd, hqd, hnum, (Nat.sub_pos_of_lt hb).ne', rfl⟩, hp⟩

/-- **What is accepted.** -/
theorem settle_iff : t.settle limit = .ok () ↔ (t.Sold limit ∨ t.Bought limit) ∧ t.Fits := by
  unfold settle settleSwap
  split_ifs with hsell hbuy
  · have hdelta : t.quoteDelta = t.quoteAfter - t.quoteBefore := by
      unfold quoteDelta
      omega
    have hbase : 0 < t.baseBefore - t.baseAfter := Nat.sub_pos_of_lt hsell.1
    have hbought : ¬ t.Bought limit := fun h => absurd h.1 (not_lt.2 hsell.1.le)
    rw [or_iff_left hbought, Sold, Fits, hdelta, ← le_scaled_scaled hbase (pow10_pos _)]
    refine (settled_iff (limit ≤ ·) hsell.1 hsell.2).trans (and_congr_left' ?_)
    exact ⟨fun hlimit => ⟨hsell.1, hsell.2, hlimit⟩, fun hsold => hsold.2.2⟩
  · have hdelta : t.quoteDelta = t.quoteBefore - t.quoteAfter := by
      unfold quoteDelta
      omega
    have hbase : 0 < t.baseAfter - t.baseBefore := Nat.sub_pos_of_lt hbuy.1
    have hsold : ¬ t.Sold limit := fun h => absurd h.1 (not_lt.2 hbuy.1.le)
    rw [or_iff_right hsold, Bought, Fits, hdelta, ← scaled_scaled_le hbase (pow10_pos _)]
    refine (settled_iff (· ≤ limit) hbuy.1 hbuy.2).trans (and_congr_left' ?_)
    exact ⟨fun hlimit => ⟨hbuy.1, hbuy.2, hlimit⟩, fun hbought => hbought.2.2⟩
  · refine iff_of_false (by simp) ?_
    rintro ⟨h | h, -⟩
    · exact hsell ⟨h.1, h.2.1⟩
    · exact hbuy ⟨h.1, h.2.1⟩

end Traded

/-! ## The swap -/

/-- everything up to the settlement: the constraints, the call of the router, and what it did -/
def CustodianSwap.call (w : World) (a : CustodianSwap) : Except ErrorCode Traded := do
  let c ← loadCustodian w a.custodianState
  require (c.label = .swap w.state.clusterRef) .custodianKindMismatch
  assertCustodianOwner w.bank c a.owner a.ownerNftAta
  let base ← swapAta w.bank a.baseCustodianAta a.custodianState c.baseMint
  let quote ← swapAta w.bank a.quoteCustodianAta a.custodianState c.quoteMint
  let baseMint ← loadMint w.bank a.baseMint
  let quoteMint ← loadMint w.bank a.quoteMint
  require (a.ixData ≠ []) .dataEmpty
  require (a.remaining ≠ []) .targetZero
  require (a.executable = true) .targetZero
  let bank ← route w.grai.assetMints a.custodianState w.bank a.routed
  let base' ← loadAccount bank a.baseCustodianAta
  let quote' ← loadAccount bank a.quoteCustodianAta
  .ok ⟨base.amount, quote.amount, base'.amount, quote'.amount, baseMint.decimals, quoteMint.decimals, bank⟩

theorem executeSwap_eq (w : World) (a : CustodianSwap) :
    executeSwap w a = (do let t ← a.call w; t.settle a.limitPrice; .ok { w with bank := t.bank }) := by
  simp only [executeSwap, CustodianSwap.call, bind_assoc]
  rfl

/-- **Opposite, and within the limit.** Whatever a router does to the balances, a settlement succeeds only if base and quote
moved strictly against each other at a price within the limit, and so does a swap. The router is whatever changes balances
between the two readings. So nothing has to be known of it: a route that gives back less than the limit asks for is refused with
everything it did. -/
theorem swaps_keep_limit :
    (∀ (t : Traded) (limit : ℕ), t.settle limit = .ok () → t.Sold limit ∨ t.Bought limit) ∧
    (∀ (t : Traded) (limit : ℕ), ¬ (t.Sold limit ∨ t.Bought limit) → ∃ e, t.settle limit = .error e) ∧
    ∀ (w w' : World) (a : CustodianSwap), executeSwap w a = .ok w' →
      ∃ t, a.call w = .ok t ∧ w' = { w with bank := t.bank } ∧ (t.Sold a.limitPrice ∨ t.Bought a.limitPrice) := by
  have hsound : ∀ (t : Traded) (limit : ℕ), t.settle limit = .ok () → t.Sold limit ∨ t.Bought limit :=
    fun t limit h => (Traded.settle_iff.1 h).1
  refine ⟨hsound, ?_, ?_⟩
  · intro t limit hnot
    cases hsettle : t.settle limit with
    | error e => exact ⟨e, rfl⟩
    | ok u => exact absurd (hsound t limit hsettle) hnot
  · intro w w' a h
    rw [executeSwap_eq] at h
    simp only [bind_ok, Except.ok.injEq] at h
    obtain ⟨t, hcall, _, hsettle, rfl⟩ := h
    exact ⟨t, hcall, rfl, hsound t a.limitPrice hsettle⟩

namespace Sample

/-- SOL, of 9 decimals -/
def sol : Key := .wallet 103

/-- a custodian of SOL and dollars, and a market maker, each with an inventory of its own side -/
def market : List Instr :=
  [.token (wallet 9).key (.createMint sol 9 (wallet 9).key),
    .token (wallet 9).key (.createMint usdc 6 (wallet 9).key),
    .mint ⟨wallet 1, (wallet 3).key, sol, usdc, .swap [108]⟩,
    .token (wallet 9).key (.mintTo sol (.ata (.custodian 0) sol) 5000000000000),
    .token (wallet 9).key (.openAccount (.ata (wallet 9).key sol) sol (wallet 9).key),
    .token (wallet 9).key (.openAccount (.ata (wallet 9).key usdc) usdc (wallet 9).key),
    .token (wallet 9).key (.mintTo usdc (.ata (wallet 9).key usdc) 500000000000)]

/-- the custodian sells SOL to the market maker, for no less than 141 dollars -/
def sell (base quote : ℕ) : CustodianSwap where
  owner := wallet 3
  custodianState := .custodian 0
  ownerNftAta := .ata (wallet 3).key (.custodianMint 0)
  baseCustodianAta := .ata (.custodian 0) sol
  quoteCustodianAta := .ata (.custodian 0) usdc
  baseMint := sol
  quoteMint := usdc
  remaining := [.wallet 70]
  executable := true
  limitPrice := 141000000000000000000
  ixData := [1]
  routed :=
    [(.custodian 0, .transfer (.ata (.custodian 0) sol) (.ata (wallet 9).key sol) base),
      ((wallet 9).key, .transfer (.ata (wallet 9).key usdc) (.ata (.custodian 0) usdc) quote)]

end Sample

/-- 10 SOL for 1412.34 dollars are sold, and are within the limit -/
theorem swaps_keep_limit_sale : ∃ t, (Sample.sell 10000000000 1412340000).call (Sample.genesis.after Sample.market) = .ok t ∧
    (t.Sold 141000000000000000000 ∨ t.Bought 141000000000000000000) := by
  have hrun : (step (Sample.genesis.after Sample.market) (.custodianSwap (Sample.sell 10000000000 1412340000))).toBool = true := by
    decide +kernel
  obtain ⟨t, hcall, -, hkeeps⟩ := swaps_keep_limit.2.2 _ _ _ (step_exec hrun)
  exact ⟨t, hcall, hkeeps⟩

/-! ## The size of a trade -/

theorem priced_fits_iff (hbd : bd ≤ 9) (hqd : qd ≤ 9) (hbase : 0 < base) :
    Succeeds (quotePerBase base quote bd qd) ↔ priced quote bd < 2 ^ 128 := by
  constructor
  · rintro ⟨price, h⟩
    exact (quotePerBase_ok.1 h).2.2.1
  · intro h
    exact ⟨_, quotePerBase_ok.2 ⟨pow10_fits hbd, pow10_fits hqd, h, hbase.ne', rfl⟩⟩

/-- **How large a trade may be.** The quote side times the price scale times the base scale is formed before it is divided: the
price of a trade is computed, and a trade within the limit accepted, if and only if that product fits in 128 bits.

The largest amount of 64 bits reaches it once the exponents of the two scales add up to twenty. -/
theorem swap_size_iff (hbd : bd ≤ 9) (hqd : qd ≤ 9) :
    (∀ base quote, 0 < base →
      (Succeeds (quotePerBase base quote bd qd) ↔ quote * PRICE_DECIMALS * 10 ^ bd < 2 ^ 128)) ∧
    ∀ (w : World) (a : CustodianSwap) (t : Traded), a.call w = .ok t → t.baseDecimals = bd → t.quoteDecimals = qd →
      t.Sold a.limitPrice ∨ t.Bought a.limitPrice →
      (Succeeds (executeSwap w a) ↔ t.quoteDelta * PRICE_DECIMALS * 10 ^ bd < 2 ^ 128) := by
  refine ⟨fun base quote hbase => priced_fits_iff hbd hqd hbase, ?_⟩
  rintro w a t hcall rfl rfl hkeeps
  rw [executeSwap_eq]
  constructor
  · rintro ⟨w', h⟩
    simp only [bind_ok, Except.ok.injEq] at h
    obtain ⟨t', hcall', _, hsettle, rfl⟩ := h
    obtain rfl := Except.ok.inj (hcall.symm.trans hcall')
    exact (Traded.settle_iff.1 hsettle).2.2.2
  · intro hsize
    have hsettle : t.settle a.limitPrice = .ok () :=
      Traded.settle_iff.2 ⟨hkeeps, pow10_fits hbd, pow10_fits hqd, hsize⟩
    refine ⟨{ w with bank := t.bank }, ?_⟩
    simp only [bind_ok]
    exact ⟨t, hcall, (), hsettle, rfl⟩

/-- 2410 SOL for 340282.366920 USDC: the last micro-dollar for which there is a price -/
theorem swap_size_sol : Succeeds (quotePerBase 2410000000000 340282366920 9 6) :=
  ((swap_size_iff (by decide) (by decide)).1 _ _ (by decide)).2 (by decide +kernel)

/-- 2410 SOL for 340282.366921 dollars are within the limit of 141, and refused; for a micro-dollar less they are sold -/
theorem swap_size_refused :
    (Sample.market.foldlM step Sample.genesis.world).toBool = true ∧
      141000000000000000000 * 2410000000000 * 10 ^ 6 ≤ 340282366921 * PRICE_DECIMALS * 10 ^ 9 ∧
      quotePerBase 2410000000000 340282366921 9 6 = .error .mathOverflow ∧
      refusal (executeSwap (Sample.genesis.after Sample.market) (Sample.sell 2410000000000 340282366921)) = some .mathOverflow ∧
      refusal (executeSwap (Sample.genesis.after Sample.market) (Sample.sell 2410000000000 340282366920)) = none := by
  decide +kernel

end Grindurus.Grinders
