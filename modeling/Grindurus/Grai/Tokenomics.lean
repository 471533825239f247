/-
Pricing and splitting arithmetic of the GRAI program (`programs/grai/src/tokenomics.rs`, `vault.rs`).

Every function is the source's, in checked `u64` and `u128` steps. `default_protocol_config` passes its own validation
(`validate_default`), and what a validated configuration guarantees is a structure (`Config.Valid`). `previewDeposit_mul_le`
is the share price inequality behind deposits: what is minted was paid for at book or above.
-/
import Grindurus.Grai.Types

namespace Grindurus.Grai

open Checked

/-! ## Constants -/

def BPS : ℕ := 10000

/-- locker dividend index scale -/
def DIVIDEND_PRECISION : ℕ := 10 ^ 18

def USD_DECIMALS : ℕ := 6
def MAX_CLAIM_TIP_BPS : ℕ := 500
def MAX_UNLOCK_PENALTY_BPS : ℕ := 1000
def MAX_POACH_FEE_BPS : ℕ := 1000
def MAX_MINT_PREMIUM_YEARS : ℕ := 100
def MINT_PREMIUM_YEAR_SECONDS : ℕ := 365 * 24 * 60 * 60

def defaultProtocolConfig : Config where
  dividendCutBps := 5000
  treasuryCutBps := 5000
  revenueShareBps := 500
  claimTipBps := 100
  bribePremiumBps := 200
  quorumBps := 6667
  unlockPenaltyBps := 100
  poachFeeBps := 100
  liquidationPeriod := 24 * 60 * 60
  redeemPeriod := 7 * 24 * 60 * 60
  mintPremiumBpsPerYear := 500

def validateProtocolConfig (cfg : Config) : Except ErrorCode Unit := do
  require (cfg.dividendCutBps ≤ BPS) .bpsTooHigh
  require (cfg.treasuryCutBps ≤ BPS) .bpsTooHigh
  require (cfg.revenueShareBps ≤ cfg.treasuryCutBps) .bpsTooHigh
  require (cfg.claimTipBps ≤ MAX_CLAIM_TIP_BPS) .bpsTooHigh
  require (2 ≤ cfg.quorumBps ∧ cfg.quorumBps < BPS) .bpsTooHigh
  require (cfg.dividendCutBps ≠ 0) .invalidCuts
  require (cfg.unlockPenaltyBps ≤ MAX_UNLOCK_PENALTY_BPS) .bpsTooHigh
  require (cfg.poachFeeBps ≤ MAX_POACH_FEE_BPS) .bpsTooHigh
  require (2 * cfg.bribePremiumBps ≤ BPS) .bpsTooHigh
  require (cfg.dividendCutBps + cfg.treasuryCutBps = BPS) .invalidCuts
  require (cfg.liquidationPeriod ≠ 0 ∧ cfg.redeemPeriod ≠ 0) .periodZero
  require (cfg.mintPremiumBpsPerYear ≤ BPS) .bpsTooHigh

/-! ## Shares of an amount -/

/-- `amount * bps / BPS` -/
def bpsOf (amount bps : ℕ) : Except ErrorCode ℕ := do
  let v ← checkedMul u128 amount bps .mathOverflow
  let cut ← checkedDiv v BPS .mathOverflow
  narrow u64 cut .mathOverflow

/-- `ceil(amount * bps / BPS)` -/
def bpsCeil (amount bps : ℕ) : Except ErrorCode ℕ :=
  if bps = 0 ∨ amount = 0 then .ok 0
  else do
    let v ← checkedMul u128 amount bps .mathOverflow
    let v ← checkedAdd u128 v (BPS - 1) .mathOverflow
    let cut ← checkedDiv v BPS .mathOverflow
    narrow u64 cut .mathOverflow

/-- `a * b / d` -/
def mulDiv (a b d : ℕ) : Except ErrorCode ℕ := do
  require (d ≠ 0) .mathOverflow
  let v ← checkedMul u128 a b .mathOverflow
  let value ← checkedDiv v d .mathOverflow
  narrow u64 value .mathOverflow

/-- split `amount` into `(treasury, dividend)`; the dividend cut is floored -/
def splitCuts (amount : ℕ) (cfg : Config) : Except ErrorCode (ℕ × ℕ) := do
  let dividend ← bpsOf amount cfg.dividendCutBps
  let treasury ← checkedSub amount dividend .mathOverflow
  .ok (treasury, dividend)

/-- `(unlock_amount, penalty)` of a flat unlock fee, rounded up -/
def previewUnlock (graiAmount escrowAmount unlockPenaltyBps : ℕ) : Except ErrorCode (ℕ × ℕ) := do
  require (graiAmount ≤ escrowAmount) .invalidAmount
  if unlockPenaltyBps = 0 ∨ graiAmount = 0 then .ok (graiAmount, 0)
  else
    let minUnlock := (BPS + unlockPenaltyBps - 1) / unlockPenaltyBps
    require (minUnlock ≤ graiAmount) .invalidAmount
    let v ← checkedMul u128 graiAmount unlockPenaltyBps .mathOverflow
    let v ← checkedAdd u128 v (BPS - 1) .mathOverflow
    let penalty ← checkedDiv v BPS .mathOverflow
    let penalty ← narrow u64 penalty .mathOverflow
    let unlockAmount ← checkedSub graiAmount penalty .mathOverflow
    .ok (unlockAmount, penalty)

/-- pending yield including unrealized accrual on the full lock -/
def pendingDividend (locked accShare debt claimable : ℕ) : Except ErrorCode ℕ := do
  let v ← checkedMul u128 locked accShare .mathOverflow
  let accumulated ← checkedDiv v DIVIDEND_PRECISION .mathOverflow
  let unrealized ← narrow u64 (accumulated - debt) .mathOverflow
  checkedAdd u64 claimable unrealized .mathOverflow

def previewClaim (amount pending : ℕ) : ℕ := if amount = u64Max ∨ pending ≤ amount then pending else amount

/-! ## Prices -/

def pow10 (decimals : ℕ) : Except ErrorCode ℕ := narrow u128 (10 ^ decimals) .panicked

/-- `amount * price` in `USD_DECIMALS` -/
def usdValue (amount assetDecimals : ℕ) (price : PriceData) : Except ErrorCode ℕ :=
  if amount = 0 then .ok 0
  else do
    require (0 < price.price) .invalidChainlinkPrice
    let usd ← pow10 USD_DECIMALS
    let v ← checkedMul u128 amount price.price.toNat .mathOverflow
    let numerator ← checkedMul u128 v usd .mathOverflow
    let asset ← pow10 assetDecimals
    let feed ← pow10 price.decimals
    let denominator ← checkedMul u128 asset feed .mathOverflow
    checkedDiv numerator denominator .mathOverflow

/-- a USD amount in base units of the settlement asset -/
def settlementAmount (usdAmount settlementDecimals : ℕ) (price : PriceData) : Except ErrorCode ℕ := do
  require (0 < price.price) .invalidChainlinkPrice
  let asset ← pow10 settlementDecimals
  let feed ← pow10 price.decimals
  let v ← checkedMul u128 usdAmount asset .mathOverflow
  let numerator ← checkedMul u128 v feed .mathOverflow
  let usd ← pow10 USD_DECIMALS
  let denominator ← checkedMul u128 price.price.toNat usd .mathOverflow
  let amount ← checkedDiv numerator denominator .mathOverflow
  narrow u64 amount .mathOverflow

/-! ## Deposits -/

/-- book-value mint: `total_value > 0 ? value * supply / total_value : value` -/
def previewDepositBook (value totalSupply totalValue : ℕ) : Except ErrorCode ℕ :=
  if 0 < totalValue then do
    let v ← checkedMul u128 value totalSupply .mathOverflow
    let graiOut ← checkedDiv v totalValue .mathOverflow
    narrow u64 graiOut .mathOverflow
  else narrow u64 value .mathOverflow

/-- the ask after `years` of compounding, from `priceBps` -/
def compoundAsk (rateBps : ℕ) : ℕ → ℕ → Except ErrorCode ℕ
  | 0, priceBps => .ok priceBps
  | years + 1, priceBps => do
    let v ← checkedMul u128 priceBps (BPS + rateBps) .mathOverflow
    let priceBps ← checkedDiv v BPS .mathOverflow
    compoundAsk rateBps years priceBps

def applyMintPremium (book rateBps : ℕ) (mintPremiumAt now : ℤ) : Except ErrorCode ℕ :=
  if book = 0 ∨ rateBps = 0 ∨ mintPremiumAt = 0 ∨ now < mintPremiumAt then .ok book
  else do
    let elapsed ← checkedAddI64 now (-mintPremiumAt) .panicked
    let years := elapsed.toNat / MINT_PREMIUM_YEAR_SECONDS
    if years = 0 then .ok book
    else
      let priceBps ← compoundAsk rateBps (min years MAX_MINT_PREMIUM_YEARS) BPS
      let v ← checkedMul u128 book BPS .mathOverflow
      let graiOut ← checkedDiv v priceBps .mathOverflow
      narrow u64 graiOut .mathOverflow

/-- book shares after the mint-premium ask; 0 for dust -/
def previewDepositSoft (value totalSupply totalValue rateBps : ℕ) (mintPremiumAt now : ℤ) : Except ErrorCode ℕ := do
  let book ← previewDepositBook value totalSupply totalValue
  applyMintPremium book rateBps mintPremiumAt now

/-- rejects a zero mint -/
def previewDeposit (value totalSupply totalValue rateBps : ℕ) (mintPremiumAt now : ℤ) : Except ErrorCode ℕ := do
  let graiOut ← previewDepositSoft value totalSupply totalValue rateBps mintPremiumAt now
  require (0 < graiOut) .amountZero
  .ok graiOut

/-! ## Bribes -/

/-- the ask below half quorum: `(bribe_amount, premium, discount)` -/
def scarceAsk (book maxAdj halfBps voteBps span : ℕ) : Except ErrorCode (ℕ × ℕ × ℕ) := do
  let v ← checkedMul u128 maxAdj (halfBps - voteBps) .mathOverflow
  let adj ← checkedDiv v span .mathOverflow
  let v ← checkedMul u128 book (BPS + adj) .mathOverflow
  let bribe ← checkedDiv v BPS .mathOverflow
  let premium ← checkedSub bribe book .panicked
  .ok (bribe, premium, 0)

/-- the ask from half quorum on -/
def excessAsk (book maxAdj halfBps voteBps span : ℕ) : Except ErrorCode (ℕ × ℕ × ℕ) := do
  let v ← checkedMul u128 maxAdj (voteBps - halfBps) .mathOverflow
  let adj ← checkedDiv v span .mathOverflow
  let fullAsk ← (if BPS ≤ adj then .ok 0 else do
    let v ← checkedMul u128 book (BPS - adj) .mathOverflow
    checkedDiv v BPS .mathOverflow)
  let gap ← checkedSub book fullAsk .panicked
  let discount := gap / 2
  .ok (book - discount, 0, discount)

/-- `a * b / total_supply`, and 0 without any supply -/
def perSupply (a b totalSupply : ℕ) : Except ErrorCode ℕ :=
  if 0 < totalSupply then do
    let v ← checkedMul u128 a b .mathOverflow
    checkedDiv v totalSupply .mathOverflow
  else .ok 0

/-- dynamic bribe ask in payment-mint units: `(bribe_amount, premium, discount)` -/
def previewBribe (graiAmount totalSupply totalValue totalVoted quorumBps bribePremiumBps settlementDecimals : ℕ)
    (settlementPrice : PriceData) : Except ErrorCode (ℕ × ℕ × ℕ) := do
  require (0 < graiAmount) .amountZero
  let value ← perSupply graiAmount totalValue totalSupply
  let book ← settlementAmount value settlementDecimals settlementPrice
  let halfBps := quorumBps / 2
  let voteBps ← perSupply totalVoted BPS totalSupply
  let span := if 0 < halfBps then halfBps else 1
  let (bribeAmount, premium, discount) ← (if voteBps < halfBps
    then scarceAsk book bribePremiumBps halfBps voteBps span
    else excessAsk book bribePremiumBps halfBps voteBps span)
  require (0 < bribeAmount) .amountZero
  let bribeAmount ← narrow u64 bribeAmount .mathOverflow
  .ok (bribeAmount, premium, discount)

/-! ## Quorum and liquidation -/

def hasQuorum (totalVoted totalSupply liquidationQuorumBps : ℕ) : Bool :=
  totalSupply * liquidationQuorumBps < totalVoted * BPS

/-- pro-rata basket share: `balance * grai_amount / supply` -/
def previewLiquidateShare (assetBalance graiAmount totalSupply : ℕ) : Except ErrorCode ℕ :=
  if assetBalance = 0 ∨ totalSupply = 0 then .ok 0
  else do
    let v ← checkedMul u128 assetBalance graiAmount .mathOverflow
    let share ← checkedDiv v totalSupply .mathOverflow
    narrow u64 share .mathOverflow

/-- book value removed when burning `grai_amount` -/
def liquidateValue (graiAmount totalSupply totalValue : ℕ) : Except ErrorCode ℕ :=
  if totalSupply = 0 then .ok 0
  else do
    let v ← checkedMul u128 graiAmount totalValue .mathOverflow
    checkedDiv v totalSupply .mathOverflow

/-- vault balance available to redeem and revive: excludes the dividend claim reserve -/
def redeemableBalance (vaultAmount totalClaimable : ℕ) : ℕ := vaultAmount - totalClaimable

/-- stray GRAI on the mint vault -/
def deadGrai (vaultAmount totalLocked : ℕ) : ℕ := vaultAmount - totalLocked

/-! ## What the arithmetic guarantees -/

/-- a configuration that passes validation -/
structure Config.Valid (cfg : Config) : Prop where
  dividend : cfg.dividendCutBps ≤ BPS
  treasury : cfg.treasuryCutBps ≤ BPS
  revenue : cfg.revenueShareBps ≤ cfg.treasuryCutBps
  tip : cfg.claimTipBps ≤ MAX_CLAIM_TIP_BPS
  quorum : 2 ≤ cfg.quorumBps ∧ cfg.quorumBps < BPS
  dividend_ne : cfg.dividendCutBps ≠ 0
  penalty : cfg.unlockPenaltyBps ≤ MAX_UNLOCK_PENALTY_BPS
  fee : cfg.poachFeeBps ≤ MAX_POACH_FEE_BPS
  premium : 2 * cfg.bribePremiumBps ≤ BPS
  cuts : cfg.dividendCutBps + cfg.treasuryCutBps = BPS
  periods : cfg.liquidationPeriod ≠ 0 ∧ cfg.redeemPeriod ≠ 0
  mintPremium : cfg.mintPremiumBpsPerYear ≤ BPS

theorem validateProtocolConfig_ok {cfg : Config} (h : validateProtocolConfig cfg = .ok ()) : cfg.Valid := by
  simp only [validateProtocolConfig, bind_ok, require_ok] at h
  obtain ⟨-, h₁, -, h₂, -, h₃, -, h₄, -, h₅, -, h₆, -, h₇, -, h₈, -, h₉, -, h₁₀, -, h₁₁, h₁₂⟩ := h
  exact ⟨h₁, h₂, h₃, h₄, h₅, h₆, h₇, h₈, h₉, h₁₀, h₁₁, h₁₂⟩

theorem validate_default : validateProtocolConfig defaultProtocolConfig = .ok () := by decide

theorem bpsOf_ok {amount bps c : ℕ} (h : bpsOf amount bps = .ok c) : c = amount * bps / BPS := by
  simp only [bpsOf, bind_ok, checkedMul_ok, checkedDiv_ok, narrow_ok] at h
  obtain ⟨_, ⟨-, rfl⟩, _, ⟨-, rfl⟩, -, rfl⟩ := h
  rfl

theorem bpsOf_mul_le {amount bps c : ℕ} (h : bpsOf amount bps = .ok c) : c * BPS ≤ amount * bps := by
  rw [bpsOf_ok h]
  exact Nat.div_mul_le_self _ _

theorem splitCuts_ok {amount treasury dividend : ℕ} {cfg : Config} (h : splitCuts amount cfg = .ok (treasury, dividend)) :
    treasury + dividend = amount ∧ dividend * BPS ≤ amount * cfg.dividendCutBps := by
  simp only [splitCuts, bind_ok, checkedSub_ok, Except.ok.injEq, Prod.mk.injEq] at h
  obtain ⟨d, hd, t, ⟨hle, rfl⟩, rfl, rfl⟩ := h
  exact ⟨Nat.sub_add_cancel hle, bpsOf_mul_le hd⟩

theorem previewUnlock_ok {g l bps u p : ℕ} (h : previewUnlock g l bps = .ok (u, p)) : u + p = g := by
  simp only [previewUnlock, bind_ok, require_ok] at h
  obtain ⟨-, -, h⟩ := h
  split_ifs at h with h0
  · cases h; rfl
  · simp only [bind_ok, checkedSub_ok, Except.ok.injEq, Prod.mk.injEq] at h
    obtain ⟨-, -, _, -, _, -, _, -, p', -, u', ⟨hle, rfl⟩, rfl, rfl⟩ := h
    exact Nat.sub_add_cancel hle

theorem mulDiv_ok {a b d c : ℕ} (h : mulDiv a b d = .ok c) : c = a * b / d := by
  simp only [mulDiv, bind_ok, checkedMul_ok, checkedDiv_ok, narrow_ok] at h
  obtain ⟨-, -, _, ⟨-, rfl⟩, _, ⟨-, rfl⟩, -, rfl⟩ := h
  rfl

theorem compoundAsk_ge {rate : ℕ} (years : ℕ) {p q : ℕ} (h : compoundAsk rate years p = .ok q) : p ≤ q := by
  induction years generalizing p with
  | zero => exact (Except.ok.inj h).le
  | succ years ih =>
    simp only [compoundAsk, bind_ok, checkedMul_ok, checkedDiv_ok] at h
    obtain ⟨_, ⟨-, rfl⟩, _, ⟨-, rfl⟩, h⟩ := h
    refine le_trans ?_ (ih h)
    rw [Nat.le_div_iff_mul_le (by decide)]
    exact Nat.mul_le_mul_left p (Nat.le_add_right ..)

/-- the ask never falls below par -/
theorem applyMintPremium_le {book rate out : ℕ} {at_ now : ℤ} (h : applyMintPremium book rate at_ now = .ok out) :
    out ≤ book := by
  unfold applyMintPremium at h
  split_ifs at h with h0
  · exact (Except.ok.inj h).ge
  · simp only [bind_ok] at h
    obtain ⟨e, -, h⟩ := h
    split_ifs at h with h1
    · exact (Except.ok.inj h).ge
    · simp only [bind_ok, checkedMul_ok, checkedDiv_ok, narrow_ok] at h
      obtain ⟨p, hp, _, ⟨-, rfl⟩, _, ⟨-, rfl⟩, -, rfl⟩ := h
      have hge : BPS ≤ p := compoundAsk_ge _ hp
      exact Nat.div_le_of_le_mul ((Nat.mul_le_mul_left book hge).trans (Nat.mul_comm book p).le)

theorem previewDepositBook_mul_le {v s t out : ℕ} (h : previewDepositBook v s t = .ok out) : out * t ≤ v * s := by
  unfold previewDepositBook at h
  split_ifs at h with ht
  · simp only [bind_ok, checkedMul_ok, checkedDiv_ok, narrow_ok] at h
    obtain ⟨_, ⟨-, rfl⟩, _, ⟨-, rfl⟩, -, rfl⟩ := h
    exact Nat.div_mul_le_self _ _
  · rw [Nat.eq_zero_of_not_pos ht, Nat.mul_zero]
    exact Nat.zero_le _

/-- **A deposit mints at book or above.** -/
theorem previewDeposit_mul_le {v s t rate out : ℕ} {at_ now : ℤ} (h : previewDeposit v s t rate at_ now = .ok out) :
    0 < out ∧ out * t ≤ v * s := by
  simp only [previewDeposit, previewDepositSoft, bind_ok, require_ok, Except.ok.injEq] at h
  obtain ⟨out', ⟨book, hbook, hprem⟩, -, hpos, rfl⟩ := h
  exact ⟨hpos, (Nat.mul_le_mul_right t (applyMintPremium_le hprem)).trans (previewDepositBook_mul_le hbook)⟩

theorem liquidateValue_ok {g s t v : ℕ} (h : liquidateValue g s t = .ok v) (hs : s ≠ 0) : v = g * t / s := by
  unfold liquidateValue at h
  rw [if_neg hs] at h
  simp only [bind_ok, checkedMul_ok, checkedDiv_ok] at h
  obtain ⟨_, ⟨-, rfl⟩, -, rfl⟩ := h
  rfl

theorem previewLiquidateShare_le {b g s x : ℕ} (h : previewLiquidateShare b g s = .ok x) (hg : g ≤ s) : x ≤ b := by
  unfold previewLiquidateShare at h
  split_ifs at h with h0
  · cases h; exact Nat.zero_le _
  · simp only [bind_ok, checkedMul_ok, checkedDiv_ok, narrow_ok] at h
    obtain ⟨_, ⟨-, rfl⟩, _, ⟨-, rfl⟩, -, rfl⟩ := h
    exact Nat.div_le_of_le_mul ((Nat.mul_le_mul_left b hg).trans (Nat.mul_comm b s).le)

end Grindurus.Grai
