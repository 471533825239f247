/-
What a bribe asks, and how the payment is split (`programs/grai/src/tokenomics.rs`, `bribe.rs`).

- `bribeBook`: the book value of the shares in the settlement asset. `askOf`: the ask for it, by the share of the votes.
- `previewBribe_askOf`: what `preview_bribe` quotes. `bribe_ask_monotone`: the ask falls with the votes and grows with the
  shares; it is book or more below half the quorum, and book or less from there on.
- `BribeSplit`: the shares of the voter, the treasury and the lockers in a payment.
- `payBribe_split`: a payment is an accrual and two transfers. `bribe_splits_exactly`: the split never fails and adds up.
-/
import Grindurus.Grai.Pricing
import Grindurus.Grai.Saturation
import Grindurus.Grai.Withdrawals

namespace Grindurus.Grai

open Checked Rounding TokenBank

variable {book book' slope half vote vote' g g' supply value voted voted' quorum dec ask premium discount : ℕ} {p : PriceData}

/-! ## The ask -/

def bribeBook (graiAmount totalSupply totalValue settlementDecimals : ℕ) (settlementPrice : PriceData) : Except ErrorCode ℕ := do
  let value ← perSupply graiAmount totalValue totalSupply
  settlementAmount value settlementDecimals settlementPrice

/-- basis points of book that the ask moves by, at a distance of `gap` from half the quorum -/
def bribeAdj (slope half gap : ℕ) : ℕ := slope * gap / if 0 < half then half else 1

/-- `(bribe_amount, premium, discount)` for the vote share `vote` -/
def askOf (book slope half vote : ℕ) : ℕ × ℕ × ℕ :=
  if vote < half then
    let bribe := scaled (BPS + bribeAdj slope half (half - vote)) BPS book
    (bribe, bribe - book, 0)
  else
    let discount := (book - scaled (BPS - bribeAdj slope half (vote - half)) BPS book) / 2
    (book - discount, 0, discount)

theorem bribeAdj_mono {gap gap' : ℕ} (h : gap ≤ gap') : bribeAdj slope half gap ≤ bribeAdj slope half gap' :=
  Nat.div_le_div_right (Nat.mul_le_mul_left slope h)

theorem bribeAdj_zero (slope half : ℕ) : bribeAdj slope half 0 = 0 := by rw [bribeAdj, Nat.mul_zero, Nat.zero_div]

theorem perSupply_ok {a b s x : ℕ} (h : perSupply a b s = .ok x) : x = a * b / s := by
  unfold perSupply at h
  split_ifs at h with hs
  · simp only [bind_ok, checkedMul_ok, checkedDiv_ok] at h
    obtain ⟨_, ⟨-, rfl⟩, -, rfl⟩ := h
    rfl
  · cases h
    obtain rfl : s = 0 := by omega
    exact (Nat.div_zero _).symm

theorem scarceAsk_ok {r : ℕ × ℕ × ℕ} (hlt : vote < half)
    (h : scarceAsk book slope half vote (if 0 < half then half else 1) = .ok r) : r = askOf book slope half vote := by
  simp only [scarceAsk, bind_ok, checkedMul_ok, checkedDiv_ok, checkedSub_ok, Except.ok.injEq] at h
  obtain ⟨_, ⟨-, rfl⟩, _, ⟨-, rfl⟩, _, ⟨-, rfl⟩, _, ⟨-, rfl⟩, _, ⟨-, rfl⟩, rfl⟩ := h
  rw [askOf, if_pos hlt]
  rfl

theorem excessAsk_ok {r : ℕ × ℕ × ℕ} (hle : half ≤ vote)
    (h : excessAsk book slope half vote (if 0 < half then half else 1) = .ok r) : r = askOf book slope half vote := by
  simp only [excessAsk, bind_ok, checkedMul_ok, checkedDiv_ok, checkedSub_ok, Except.ok.injEq] at h
  obtain ⟨_, ⟨-, rfl⟩, adj, ⟨-, hadj⟩, full, hfull, _, ⟨-, rfl⟩, rfl⟩ := h
  -- from a full slope on nothing of book is asked
  have hask : full = scaled (BPS - adj) BPS book := by
    split_ifs at hfull with hfree
    · cases hfull
      rw [Nat.sub_eq_zero_of_le hfree, scaled, Nat.mul_zero, Nat.zero_div]
    · simp only [bind_ok, checkedMul_ok, checkedDiv_ok] at hfull
      obtain ⟨_, ⟨-, rfl⟩, -, rfl⟩ := hfull
      rfl
  rw [askOf, if_neg (not_lt.2 hle), hask, ← hadj]
  rfl

/-- **What is quoted.** -/
theorem previewBribe_askOf {r : ℕ × ℕ × ℕ} (h : previewBribe g supply value voted quorum slope dec p = .ok r) :
    ∃ book, bribeBook g supply value dec p = .ok book ∧ r = askOf book slope (quorum / 2) (voted * BPS / supply) ∧
      0 < r.1 ∧ r.1 < 2 ^ 64 := by
  simp only [previewBribe, bind_ok, require_ok, narrow_ok, Prod.exists, Except.ok.injEq] at h
  obtain ⟨-, -, v, hv, book, hbook, vote, hvote, ask, premium, discount, hask, -, hpos, _, ⟨hlt, rfl⟩, rfl⟩ := h
  have hshare := perSupply_ok hvote
  refine ⟨book, bind_ok.2 ⟨v, hv, hbook⟩, ?_, hpos, hlt⟩
  rw [← hshare]
  by_cases hscarce : vote < quorum / 2
  · rw [if_pos hscarce] at hask
    exact scarceAsk_ok hscarce hask
  · rw [if_neg hscarce] at hask
    exact excessAsk_ok (not_lt.1 hscarce) hask

/-! ## The ask is monotone -/

theorem askOf_scarce (h : vote < half) (book slope : ℕ) : book ≤ (askOf book slope half vote).1 := by
  rw [askOf, if_pos h]
  exact le_scaled bps_pos (Nat.le_add_right BPS _)

theorem askOf_excess (h : half ≤ vote) (book slope : ℕ) : (askOf book slope half vote).1 ≤ book := by
  rw [askOf, if_neg (not_lt.2 h)]
  exact Nat.sub_le ..

/-- at half the quorum the ask is par -/
theorem askOf_par (book slope half : ℕ) : askOf book slope half half = (book, 0, 0) := by
  have hfull : scaled (BPS - bribeAdj slope half 0) BPS book = book := by
    rw [bribeAdj_zero, Nat.sub_zero, scaled_self bps_pos]
  simp [askOf, hfull]

theorem askOf_one_zero (book slope half vote : ℕ) : (askOf book slope half vote).2.1 = 0 ∨ (askOf book slope half vote).2.2 = 0 := by
  unfold askOf
  split_ifs
  · exact .inr rfl
  · exact .inl rfl

/-- the discount is at most half of book -/
theorem askOf_discount (book slope half vote : ℕ) : 2 * (askOf book slope half vote).2.2 ≤ book := by
  unfold askOf
  split_ifs
  · exact Nat.zero_le _
  · exact (Nat.mul_div_le _ 2).trans (Nat.sub_le ..)

/-- more votes, no dearer: on each side of half the quorum, and across it -/
theorem askOf_anti_vote (h : vote ≤ vote') (book slope half : ℕ) :
    (askOf book slope half vote').1 ≤ (askOf book slope half vote).1 := by
  rcases Nat.lt_or_ge vote half with hlt | hge
  · rcases Nat.lt_or_ge vote' half with hlt' | hge'
    · rw [askOf, askOf, if_pos hlt, if_pos hlt']
      have hgap : half - vote' ≤ half - vote := by omega
      exact scaled_mono_factor (Nat.add_le_add_left (bribeAdj_mono hgap) BPS)
    · exact (askOf_excess hge' book slope).trans (askOf_scarce hlt book slope)
  · have hge' : half ≤ vote' := hge.trans h
    rw [askOf, askOf, if_neg (not_lt.2 hge), if_neg (not_lt.2 hge')]
    have hgap : vote - half ≤ vote' - half := by omega
    have hfull : scaled (BPS - bribeAdj slope half (vote' - half)) BPS book ≤ scaled (BPS - bribeAdj slope half (vote - half)) BPS book :=
      scaled_mono_factor (Nat.sub_le_sub_left (bribeAdj_mono hgap) BPS)
    dsimp only
    omega

/-- more book, no cheaper -/
theorem askOf_mono_book (h : book ≤ book') (slope half vote : ℕ) :
    (askOf book slope half vote).1 ≤ (askOf book' slope half vote).1 := by
  unfold askOf
  split_ifs
  · exact scaled_mono h
  · -- book less half the gap is the mean of book and the full ask, rounded up
    have hfull : scaled (BPS - bribeAdj slope half (vote - half)) BPS book ≤ scaled (BPS - bribeAdj slope half (vote - half)) BPS book' :=
      scaled_mono h
    have hle : scaled (BPS - bribeAdj slope half (vote - half)) BPS book ≤ book := scaled_le (Nat.sub_le ..)
    have hle' : scaled (BPS - bribeAdj slope half (vote - half)) BPS book' ≤ book' := scaled_le (Nat.sub_le ..)
    dsimp only
    omega

theorem bribeBook_mono (h : g ≤ g') (hbook : bribeBook g supply value dec p = .ok book)
    (hbook' : bribeBook g' supply value dec p = .ok book') : book ≤ book' := by
  simp only [bribeBook, bind_ok] at hbook hbook'
  obtain ⟨v, hv, hbook⟩ := hbook
  obtain ⟨v', hv', hbook'⟩ := hbook'
  refine settlementAmount_mono ?_ hbook hbook'
  rw [perSupply_ok hv, perSupply_ok hv']
  exact Nat.div_le_div_right (Nat.mul_le_mul_right value h)

/-- without shares there is nothing to ask for -/
theorem previewBribe_supply {r : ℕ × ℕ × ℕ} (h : previewBribe g supply value voted quorum slope dec p = .ok r) : 0 < supply := by
  obtain ⟨book, hbook, rfl, hpos, -⟩ := previewBribe_askOf h
  by_contra h0
  obtain rfl : supply = 0 := by omega
  simp only [bribeBook, bind_ok] at hbook
  obtain ⟨v, hv, hbook⟩ := hbook
  have hzero : book = 0 := by
    rw [(settlementAmount_scaled hbook).2, perSupply_ok hv, Nat.div_zero, scaled, Nat.zero_mul, Nat.zero_div]
  simp [askOf, scaled, hzero] at hpos

/-- where an ask stands against book: by the floored vote share the code compares, and by the votes themselves -/
structure AgainstBook (quorum voted supply book ask premium discount : ℕ) : Prop where
  scarce : voted * BPS / supply < quorum / 2 → book ≤ ask
  excess : quorum / 2 ≤ voted * BPS / supply → ask ≤ book
  below : 2 * (voted * BPS) < quorum * supply → book ≤ ask
  above : quorum * supply ≤ 2 * (voted * BPS) → ask ≤ book
  one_zero : premium = 0 ∨ discount = 0
  half_book : book ≤ 2 * (book - discount)

theorem previewBribe_againstBook (h : previewBribe g supply value voted quorum slope dec p = .ok (ask, premium, discount)) :
    ∃ book, bribeBook g supply value dec p = .ok book ∧ AgainstBook quorum voted supply book ask premium discount := by
  have hsupply := previewBribe_supply h
  obtain ⟨book, hbook, hask, -⟩ := previewBribe_askOf h
  obtain ⟨vote, hvote⟩ : ∃ vote, vote = voted * BPS / supply := ⟨_, rfl⟩
  obtain ⟨rfl, rfl, rfl⟩ : ask = (askOf book slope (quorum / 2) vote).1 ∧ premium = (askOf book slope (quorum / 2) vote).2.1 ∧
      discount = (askOf book slope (quorum / 2) vote).2.2 := by
    rw [hvote, ← hask]
    exact ⟨rfl, rfl, rfl⟩
  refine ⟨book, hbook, ?_, ?_, ?_, ?_, askOf_one_zero .., ?_⟩
  · intro hlt
    exact askOf_scarce (hvote ▸ hlt) book slope
  · intro hle
    exact askOf_excess (hvote ▸ hle) book slope
  · intro hlt
    -- the floors of both shares may meet, and then the ask is par
    have hle : vote ≤ quorum / 2 := by
      rw [hvote, Nat.le_div_iff_mul_le two_pos]
      have hfloor : voted * BPS / supply * supply ≤ voted * BPS := Nat.div_mul_le_self ..
      have hmul : voted * BPS / supply * 2 * supply < quorum * supply := by
        calc voted * BPS / supply * 2 * supply = 2 * (voted * BPS / supply * supply) := by ring
          _ ≤ 2 * (voted * BPS) := Nat.mul_le_mul_left 2 hfloor
          _ < quorum * supply := hlt
      exact (Nat.lt_of_mul_lt_mul_right hmul).le
    rcases hle.lt_or_eq with hscarce | hpar
    · exact askOf_scarce hscarce book slope
    · rw [hpar, askOf_par]
  · intro hle
    refine askOf_excess ?_ book slope
    rw [hvote, Nat.le_div_iff_mul_le hsupply]
    have hhalf : quorum / 2 * 2 ≤ quorum := Nat.div_mul_le_self ..
    have hmul : quorum / 2 * 2 * supply ≤ quorum * supply := Nat.mul_le_mul_right supply hhalf
    have hcomm : quorum / 2 * 2 * supply = 2 * (quorum / 2 * supply) := by ring
    omega
  · have hdiscount := askOf_discount book slope (quorum / 2) vote
    omega

/-- **The ask is monotone.** It does not rise with the votes, nor fall with the shares. Below half the quorum it is book or more,
and from there on book or less, never below half of book. It holds a premium or a discount, not both. The two slopes meet at half
the quorum, where the ask is the book value. The comparison is of successful quotes at the same book and price; a quote that
overflows is refused and is not compared. -/
theorem bribe_ask_monotone (quorum slope dec : ℕ) (p : PriceData) :
    (∀ g supply value voted voted' ask ask' premium premium' discount discount', voted ≤ voted' →
      previewBribe g supply value voted quorum slope dec p = .ok (ask, premium, discount) →
      previewBribe g supply value voted' quorum slope dec p = .ok (ask', premium', discount') → ask' ≤ ask) ∧
    (∀ g g' supply value voted ask ask' premium premium' discount discount', g ≤ g' →
      previewBribe g supply value voted quorum slope dec p = .ok (ask, premium, discount) →
      previewBribe g' supply value voted quorum slope dec p = .ok (ask', premium', discount') → ask ≤ ask') ∧
    (∀ g supply value voted ask premium discount,
      previewBribe g supply value voted quorum slope dec p = .ok (ask, premium, discount) →
      ∃ book, bribeBook g supply value dec p = .ok book ∧ AgainstBook quorum voted supply book ask premium discount) := by
  refine ⟨?_, ?_, fun _ _ _ _ _ _ _ h => previewBribe_againstBook h⟩
  · intro g supply value voted voted' ask ask' _ _ _ _ hvoted h h'
    obtain ⟨book, hbook, hask, -⟩ := previewBribe_askOf h
    obtain ⟨book', hbook', hask', -⟩ := previewBribe_askOf h'
    obtain rfl : book = book' := Except.ok.inj (hbook.symm.trans hbook')
    have hvote : voted * BPS / supply ≤ voted' * BPS / supply := Nat.div_le_div_right (Nat.mul_le_mul_right BPS hvoted)
    have hanti := askOf_anti_vote hvote book slope (quorum / 2)
    rwa [← hask, ← hask'] at hanti
  · intro g g' supply value voted ask ask' _ _ _ _ hg h h'
    obtain ⟨book, hbook, hask, -⟩ := previewBribe_askOf h
    obtain ⟨book', hbook', hask', -⟩ := previewBribe_askOf h'
    have hmono := askOf_mono_book (bribeBook_mono hg hbook hbook') slope (quorum / 2) (voted * BPS / supply)
    rwa [← hask, ← hask'] at hmono

/-- 1000 shares of a supply of 10000 worth 50000 USD, in SOL at 141.23: a tenth more of the votes takes 0.21 SOL off the ask,
which stays above the book of 35.40 SOL -/
theorem bribe_ask_monotone_sol :
    previewBribe 1000 10000 50000000000 2000 6667 200 9 ⟨14123456789, 8⟩ = .ok (35681774477, 279676573, 0) ∧
      previewBribe 1000 10000 50000000000 3000 6667 200 9 ⟨14123456789, 8⟩ = .ok (35469361890, 67263986, 0) ∧
      35469361890 ≤ 35681774477 := by
  have hfew : previewBribe 1000 10000 50000000000 2000 6667 200 9 ⟨14123456789, 8⟩ = .ok (35681774477, 279676573, 0) := by
    decide +kernel
  have hmore : previewBribe 1000 10000 50000000000 3000 6667 200 9 ⟨14123456789, 8⟩ = .ok (35469361890, 67263986, 0) := by
    decide +kernel
  exact ⟨hfew, hmore, (bribe_ask_monotone 6667 200 9 ⟨14123456789, 8⟩).1 _ _ _ _ _ _ _ _ _ _ _ (by decide) hfew hmore⟩

/-! ## The split of a payment -/

/-- the shares of a payment: the voter's, and the pool of the treasury and the lockers -/
structure BribeSplit (book ask premium discount pool voterCut treasury dividend : ℕ) : Prop where
  sum : voterCut + pool = ask
  pool_sum : treasury + dividend = pool
  /-- half the premium stays with the voter, rounded up -/
  dear : 0 < premium → voterCut = book + (premium + 1) / 2
  /-- half the gap to the full ask is taken off the ask, and as much again off the voter's share -/
  cheap : premium = 0 → 2 * discount ≤ book ∧ ask = book - discount ∧ voterCut = book - 2 * discount ∧ pool = discount

/-- a payment whose shares are known: the dividend accrues, and the treasury and the voter are paid -/
def paySplit (w : World) (asset : AssetConfig) (settlement voter : Key) (treasury dividend voterCut : ℕ) :
    Except ErrorCode World := do
  let (asset, dust) ← accrueCut asset dividend w.state.totalLocked
  let bank ← transferFromVault w.bank (.vault settlement) (.treasury settlement) (treasury + dust)
  let bank ← transferFromVault bank (.vault settlement) (.ata voter settlement) voterCut
  .ok (World.storeAsset { w with bank } settlement asset)

theorem mulDiv_self {a b : ℕ} (ha : 0 < a) (h64 : a < 2 ^ 64) (hb : b ≤ a) : mulDiv a b a = .ok b := by
  have hfits : a * b < 2 ^ u128 := by
    calc a * b ≤ a * a := Nat.mul_le_mul_left a hb
      _ < 2 ^ 64 * 2 ^ 64 := Nat.mul_lt_mul'' h64 h64
      _ = 2 ^ u128 := by decide
  simp only [mulDiv, bind_ok, require_ok, checkedMul_ok, checkedDiv_ok, narrow_ok]
  exact ⟨(), ha.ne', _, ⟨hfits, rfl⟩, _, ⟨ha.ne', rfl⟩, by rw [Nat.mul_div_cancel_left b ha]; exact ⟨hb.trans_lt h64, rfl⟩⟩

theorem splitCuts_succeeds {pool : ℕ} {cfg : Config} (hcfg : cfg.Valid) (h64 : pool < 2 ^ 64) : Succeeds (splitCuts pool cfg) := by
  have hmul : pool * cfg.dividendCutBps ≤ pool * BPS := Nat.mul_le_mul_left pool hcfg.dividend
  have hcut : pool * cfg.dividendCutBps / BPS ≤ pool := scaled_le hcfg.dividend
  have hfits : pool * cfg.dividendCutBps < 2 ^ u128 := by
    unfold BPS at hmul
    unfold u128
    omega
  refine ⟨(pool - pool * cfg.dividendCutBps / BPS, pool * cfg.dividendCutBps / BPS), ?_⟩
  simp only [splitCuts, bpsOf, bind_ok, checkedMul_ok, checkedDiv_ok, narrow_ok, checkedSub_ok]
  exact ⟨_, ⟨_, ⟨hfits, rfl⟩, _, ⟨bps_pos.ne', rfl⟩, hcut.trans_lt h64, rfl⟩, _, ⟨hcut, rfl⟩, rfl⟩

theorem bribeCutPool_eq (hask : 0 < ask) (h64 : ask < 2 ^ 64) (hprem : premium ≤ ask) (hdisc : discount ≤ ask) :
    bribeCutPool ask ask premium discount = .ok (cutPool premium discount) := by
  unfold bribeCutPool cutPool
  split_ifs with hpos
  · simp only [bind_ok, checkedSub_ok]
    refine ⟨_, ⟨hprem, rfl⟩, _, mulDiv_self hask h64 (Nat.sub_le ..), _, ⟨Nat.sub_le .., rfl⟩, ?_⟩
    rw [Nat.sub_sub_self hprem]
  · exact mulDiv_self hask h64 hdisc

/-- the ask is book and the premium, or book less the discount -/
theorem askOf_cases (h : (ask, premium, discount) = askOf book slope half vote) :
    book + premium = ask ∧ discount = 0 ∨ premium = 0 ∧ 2 * discount ≤ book ∧ ask = book - discount := by
  by_cases hscarce : vote < half
  · have hle := askOf_scarce hscarce book slope
    rw [← h] at hle
    rw [askOf, if_pos hscarce] at h
    obtain ⟨rfl, rfl, rfl⟩ : _ ∧ _ ∧ _ := by simpa only [Prod.mk.injEq] using h
    exact .inl ⟨Nat.add_sub_of_le hle, rfl⟩
  · have hle := askOf_discount book slope half vote
    rw [← h] at hle
    rw [askOf, if_neg hscarce] at h
    obtain ⟨rfl, rfl, rfl⟩ : _ ∧ _ ∧ _ := by simpa only [Prod.mk.injEq] using h
    exact .inr ⟨rfl, hle, rfl⟩

/-- a dividend that accrues moves the rest of its cut to the treasury, and nothing is left over -/
theorem BribeSplit.settles {pool voterCut treasury dividend eligible dust : ℕ} {asset asset' : AssetConfig}
    (hs : BribeSplit book ask premium discount pool voterCut treasury dividend)
    (h : accrueCut asset dividend eligible = .ok (asset', dust)) :
    asset.totalClaimable ≤ asset'.totalClaimable ∧
      voterCut + (treasury + dust) + (asset'.totalClaimable - asset.totalClaimable) = ask := by
  obtain ⟨acc, r, -, hr, rfl, -, rfl⟩ := accrueCut_ok h
  have hsum := hs.sum
  have hpool := hs.pool_sum
  dsimp only
  omega

/-- the treasury's share is a number of 64 bits, so that a payment is two transfers and an accrual -/
theorem payBribe_split {w : World} {asset : AssetConfig} {m u : Key} {pool voterCut treasury dividend : ℕ} (h64 : ask < 2 ^ 64)
    (hpool : bribeCutPool ask ask premium discount = .ok pool) (hvoter : checkedSub ask pool ErrorCode.mathOverflow = .ok voterCut)
    (hcuts : splitCuts pool w.state.config = .ok (treasury, dividend)) :
    payBribe w asset m u ask ask premium discount = paySplit w asset m u treasury dividend voterCut := by
  have hle := (checkedSub_ok.1 hvoter).1
  have hsum := (splitCuts_ok hcuts).1
  simp only [payBribe, paySplit, fundCuts, hpool, hvoter, hcuts, bind, Except.bind]
  cases hacc : accrueCut asset dividend w.state.totalLocked with
  | error e => rfl
  | ok r =>
    obtain ⟨asset', dust⟩ := r
    obtain ⟨acc, x, -, -, rfl, -, -⟩ := accrueCut_ok hacc
    have hfits : checkedAdd u64 treasury (dividend - x) ErrorCode.mathOverflow = .ok (treasury + (dividend - x)) :=
      checkedAdd_ok.2 ⟨show _ < 2 ^ 64 by omega, rfl⟩
    simp only [hfits]
    cases transferFromVault w.bank (.vault m) (.treasury m) (treasury + (dividend - x)) <;> rfl

/-- **A bribe is split exactly.** Whatever is asked, its shares are computed without error: what is left of the payment is an
accrual and two transfers, the accrual stops only where it fills the index, and voter, treasury and lockers take the ask among
them.

The configuration is a validated one, as every reachable one is. -/
theorem bribe_splits_exactly {cfg : Config} (hcfg : cfg.Valid)
    (h : previewBribe g supply value voted quorum slope dec p = .ok (ask, premium, discount)) :
    ∃ book pool voterCut treasury dividend, bribeBook g supply value dec p = .ok book ∧
      BribeSplit book ask premium discount pool voterCut treasury dividend ∧
      (∀ (w : World) asset m u, w.state.config = cfg →
        payBribe w asset m u ask ask premium discount = paySplit w asset m u treasury dividend voterCut) ∧
      (∀ (asset : AssetConfig) eligible, asset.totalClaimable + dividend < 2 ^ 64 →
        StopsIff (accrueCut asset dividend eligible) .mathOverflow (asset.Saturates dividend eligible)) ∧
      ∀ (asset asset' : AssetConfig) eligible dust, accrueCut asset dividend eligible = .ok (asset', dust) →
        asset.totalClaimable ≤ asset'.totalClaimable ∧
          voterCut + (treasury + dust) + (asset'.totalClaimable - asset.totalClaimable) = ask := by
  obtain ⟨book, hbook, hask, hpos, h64⟩ := previewBribe_askOf h
  have hcases := askOf_cases hask
  obtain ⟨pool, hdef⟩ : ∃ pool, pool = cutPool premium discount := ⟨_, rfl⟩
  have hpool : bribeCutPool ask ask premium discount = .ok pool :=
    hdef ▸ bribeCutPool_eq hpos h64 (by omega) (by omega)
  have hle : pool ≤ ask := by
    unfold cutPool at hdef
    split_ifs at hdef <;> omega
  obtain ⟨⟨treasury, dividend⟩, hcuts⟩ := splitCuts_succeeds hcfg (hle.trans_lt h64)
  have hsplit : BribeSplit book ask premium discount pool (ask - pool) treasury dividend := by
    refine ⟨Nat.sub_add_cancel hle, (splitCuts_ok hcuts).1, fun hp => ?_, fun hp => ?_⟩
    · rw [cutPool, if_pos hp] at hdef
      omega
    · rw [cutPool, if_neg (by omega)] at hdef
      omega
  refine ⟨book, pool, ask - pool, treasury, dividend, hbook, hsplit, ?_, ?_, ?_⟩
  · rintro w asset m u rfl
    exact payBribe_split h64 hpool (checkedSub_ok.2 ⟨hle, rfl⟩) hcuts
  · intro asset eligible hroom
    exact accrueCut_saturates fun _ => hroom
  · intro asset asset' eligible dust hacc
    exact hsplit.settles hacc

/-- a premium of 0.279676573 SOL: the voter keeps the larger half, 139838287 lamports, over the book of 35402097904 -/
theorem bribe_splits_exactly_sol : ∃ pool treasury dividend,
    BribeSplit 35402097904 35681774477 279676573 0 pool (35402097904 + 139838287) treasury dividend := by
  have hask : previewBribe 1000 10000 50000000000 2000 6667 200 9 ⟨14123456789, 8⟩ = .ok (35681774477, 279676573, 0) := by
    decide +kernel
  have hbook : bribeBook 1000 10000 50000000000 9 ⟨14123456789, 8⟩ = .ok 35402097904 := by decide +kernel
  obtain ⟨book, pool, voterCut, treasury, dividend, hbook', hsplit, -⟩ :=
    bribe_splits_exactly (validateProtocolConfig_ok validate_default) hask
  obtain rfl := Except.ok.inj (hbook.symm.trans hbook')
  obtain rfl := hsplit.dear (by decide)
  exact ⟨pool, treasury, dividend, hsplit⟩

end Grindurus.Grai
