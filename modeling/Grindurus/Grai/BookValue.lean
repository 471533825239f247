/-
The value behind a share.

- `book_price_mono`: no instruction, and nothing that happens between instructions, lowers it.
- `largestShare`: the most book shares that a deposit can be quoted. `exists_mints_iff`: some deposit mints exactly where the
  compounded ask of the premium is within it, and then so does every larger one that the quote can hold.
- `Redeemable`: what deposits rely on while liquidation is closed: value and shares vanish together, so that the guard of
  `deposit` passes and some deposit mints, up to that ask. It holds along every run in which no holder burns the last share of
  a closed book (`redeemable`); `orphan_book` is a run in which one does, and no deposit mints from then on.

The two ways in which a closed book stops minting are of different kinds. An orphan book stays one: `deposit` multiplies by a
supply of 0 whatever comes in. An outgrown ask (it takes 64 years at the highest rate) ends with the next change of the rate.
-/
import Grindurus.Grai.Pricing
import Grindurus.Grai.Program

namespace Grindurus.Grai

open Checked TokenBank Machine

/-! ## The price -/

/-- **Price.** Between consecutive states of any run, the value behind a share does not fall. The comparison is cross-multiplied,
so that it says something where there are no shares. The only step it leaves out is the revival of a program without shares,
which starts a new book. -/
theorem book_price_mono (g : Genesis) (is : List Instr) (i : Instr) :
    (g.after is).state.totalValue * (g.after (is ++ [i])).supply ≤
      (g.after (is ++ [i])).state.totalValue * (g.after is).supply := by
  have hexec : g.after (is ++ [i]) = exec step (g.after is) i := run_append ..
  rw [hexec]
  rcases exec_cases step (g.after is) i with ⟨w', h, he⟩ | he
  · rw [he]
    obtain ⟨-, who, ht⟩ := step_committed (g.after_wf is) h
    exact ht.price
  · rw [he]

/-! ## The book of a closed program -/

/-- a holder burns the last share while liquidation is closed -/
def burnsLast (w : World) (i : Instr) : Prop :=
  w.state.liquidation = false ∧ 0 < w.supply ∧ ∃ s src, i = .token s (.burn w.state.graiMint src w.supply)

/-- only an outside burn of the whole supply leaves a closed book without shares -/
theorem supply_pos {w : World} {s : Ledger Key} {i : Instr} {w' : World} (h : step w i = .ok w') (hview : w'.view = s)
    (hi : ¬ burnsLast w i) (hact : i.actor w = .burner) (hclosed : w.state.liquidation = false) (hsupply : w.supply ≠ 0) :
    s.supply ≠ 0 := by
  cases i with
  | token u op =>
    simp only [step, bind_ok, require_ok, Except.ok.injEq] at h
    obtain ⟨-, -, b, hb, rfl⟩ := h
    subst hview
    have hpos : 0 < w.bank.supply w.state.graiMint := Nat.pos_of_ne_zero hsupply
    refine (Bank.apply_supply_pos (spl_ok.1 hb) hpos fun src hop => hi ⟨hclosed, hpos, u, src, ?_⟩).ne'
    rw [hop]
    rfl
  | setFeed a =>
    dsimp only [Instr.actor, SetFeed.actor] at hact
    split_ifs at hact
  | _ => cases hact

theorem Consistent.empty (held : Holdings Key) : Consistent (.empty held) := ⟨fun _ => rfl, fun _ _ => rfl⟩

theorem after_consistent (g : Genesis) (is : List Instr) (hc : Meets step (fun w i => ¬ burnsLast w i) g.world is) :
    Consistent (g.after is).view := by
  have hstep : ∀ w i w', w.WF → Consistent w.view → ¬ burnsLast w i → step w i = .ok w' → Consistent w'.view := by
    intro w i w' hw hP hi h
    obtain ⟨-, who, ht⟩ := step_committed hw h
    exact hP.trans ht (supply_pos h rfl hi)
  exact g.after_meets (P := fun w => Consistent w.view) (g.view ▸ .empty _) hstep is hc

/-! ## What a deposit can mint -/

variable {supply value rate : ℕ} {since now : ℤ}

/-- the most book shares that a deposit can be quoted: `narrow` stops the quote at the width of a `u64`, the product before it
at the width of a `u128` -/
def largestShare (supply value : ℕ) : ℕ :=
  if value = 0 then u64Max else (min (2 ^ u64 * value) (2 ^ u128) - 1) / supply * supply / value

theorem previewDepositBook_ok {v book : ℕ} (hvalue : 0 < value) :
    previewDepositBook v supply value = .ok book ↔
      v * supply < 2 ^ u128 ∧ v * supply / value < 2 ^ u64 ∧ v * supply / value = book := by
  unfold previewDepositBook
  rw [if_pos hvalue]
  simp only [bind_ok, checkedMul_ok, checkedDiv_ok, narrow_ok]
  constructor
  · rintro ⟨_, ⟨hfit, rfl⟩, _, ⟨-, rfl⟩, hbook⟩
    exact ⟨hfit, hbook⟩
  · rintro ⟨hfit, hbook⟩
    exact ⟨_, ⟨hfit, rfl⟩, _, ⟨hvalue.ne', rfl⟩, hbook⟩

theorem previewDepositBook_lt {v book : ℕ} (h : previewDepositBook v supply value = .ok book) : book < 2 ^ 64 := by
  rcases Nat.eq_zero_or_pos value with rfl | hvalue
  · obtain ⟨hfit, rfl⟩ := narrow_ok.1 (show narrow u64 v ErrorCode.mathOverflow = .ok book from h)
    exact hfit
  · obtain ⟨-, hfit, rfl⟩ := (previewDepositBook_ok hvalue).1 h
    exact hfit

/-- both limits of the quote, as one on the product -/
theorem product_lt_iff {n : ℕ} (hvalue : 0 < value) :
    n < 2 ^ u128 ∧ n / value < 2 ^ u64 ↔ n ≤ min (2 ^ u64 * value) (2 ^ u128) - 1 := by
  have hpos : 0 < min (2 ^ u64 * value) (2 ^ u128) := lt_min (Nat.mul_pos (by decide) hvalue) (by decide)
  rw [Nat.le_sub_one_iff_lt hpos, lt_min_iff, Nat.div_lt_iff_lt_mul hvalue, and_comm]

/-- some deposit is quoted that many shares -/
theorem largestShare_attained (supply value : ℕ) :
    ∃ v, previewDepositBook v supply value = .ok (largestShare supply value) := by
  rcases Nat.eq_zero_or_pos value with rfl | hvalue
  · exact ⟨u64Max, by simp [previewDepositBook, largestShare, narrow, u64Max, u64]⟩
  · have hle := Nat.div_mul_le_self (min (2 ^ u64 * value) (2 ^ u128) - 1) supply
    obtain ⟨hfit, hbook⟩ := (product_lt_iff hvalue).2 hle
    refine ⟨(min (2 ^ u64 * value) (2 ^ u128) - 1) / supply, (previewDepositBook_ok hvalue).2 ⟨hfit, hbook, ?_⟩⟩
    rw [largestShare, if_neg hvalue.ne']

/-- and none is quoted more -/
theorem le_largestShare {v book : ℕ} (h : previewDepositBook v supply value = .ok book) : book ≤ largestShare supply value := by
  rcases Nat.eq_zero_or_pos value with rfl | hvalue
  · exact Nat.le_sub_one_of_lt (previewDepositBook_lt h)
  · obtain ⟨hfit, hbook, rfl⟩ := (previewDepositBook_ok hvalue).1 h
    rw [largestShare, if_neg hvalue.ne']
    refine Nat.div_le_div_right ?_
    rcases Nat.eq_zero_or_pos supply with rfl | hsupply
    · exact Nat.zero_le _
    · exact Nat.mul_le_mul_right _ ((Nat.le_div_iff_mul_le hsupply).2 ((product_lt_iff hvalue).1 ⟨hfit, hbook⟩))

/-- a deposit mints where its book shares are worth the ask of the premium -/
theorem previewDeposit_mints {v book : ℕ} (hrate : rate ≤ BPS) (hsince : 0 ≤ since) (hnow : now < 2 ^ 63)
    (hbook : previewDepositBook v supply value = .ok book) (g : ℕ) :
    previewDeposit v supply value rate since now = .ok g ↔
      premiumAsk rate (premiumYears since now) ≤ book * BPS ∧ g = book * BPS / premiumAsk rate (premiumYears since now) := by
  have hask : 0 < premiumAsk rate (premiumYears since now) := bps_pos.trans_le (bps_le_premiumAsk ..)
  have hprem := applyMintPremium_eq (previewDepositBook_lt hbook) hrate hsince hnow
  have hsoft : previewDepositSoft v supply value rate since now =
      .ok (book * BPS / premiumAsk rate (premiumYears since now)) := bind_ok.2 ⟨book, hbook, hprem⟩
  simp only [previewDeposit, bind_ok, require_ok, hsoft, Except.ok.injEq]
  constructor
  · rintro ⟨_, rfl, -, hpos, rfl⟩
    exact ⟨(Nat.div_pos_iff.1 hpos).2, rfl⟩
  · rintro ⟨hle, rfl⟩
    exact ⟨_, rfl, (), Nat.div_pos hle hask, rfl⟩

/-- **Who can mint.** Some deposit mints exactly where the ask of the premium is within the largest book share. -/
theorem exists_mints_iff (hrate : rate ≤ BPS) (hsince : 0 ≤ since) (hnow : now < 2 ^ 63) :
    (∃ v g, 0 < g ∧ previewDeposit v supply value rate since now = .ok g) ↔
      premiumAsk rate (premiumYears since now) ≤ largestShare supply value * BPS := by
  constructor
  · rintro ⟨v, g, -, h⟩
    obtain ⟨_, hsoft, -⟩ := bind_ok.1 h
    obtain ⟨book, hbook, -⟩ := bind_ok.1 hsoft
    exact ((previewDeposit_mints hrate hsince hnow hbook g).1 h).1.trans
      (Nat.mul_le_mul_right _ (le_largestShare hbook))
  · intro hle
    obtain ⟨v, hbook⟩ := largestShare_attained supply value
    refine ⟨v, _, ?_, (previewDeposit_mints hrate hsince hnow hbook _).2 ⟨hle, rfl⟩⟩
    exact Nat.div_pos hle (bps_pos.trans_le (bps_le_premiumAsk ..))

/-- an ask that doubles every year has outgrown every `u64` after 64 years -/
example : u64Max * BPS < premiumAsk BPS 64 ∧ premiumAsk BPS 63 ≤ u64Max * BPS := by decide +kernel

/-- a larger value mints no less, as long as its book share fits the quote -/
theorem previewDeposit_mono {v v' book' g : ℕ} (hrate : rate ≤ BPS) (hsince : 0 ≤ since) (hnow : now < 2 ^ 63) (hv : v ≤ v')
    (h : previewDeposit v supply value rate since now = .ok g) (hbook' : previewDepositBook v' supply value = .ok book') :
    ∃ g', g ≤ g' ∧ previewDeposit v' supply value rate since now = .ok g' := by
  obtain ⟨_, hsoft, -⟩ := bind_ok.1 h
  obtain ⟨book, hbook, -⟩ := bind_ok.1 hsoft
  have hle : book ≤ book' := by
    rcases Nat.eq_zero_or_pos value with rfl | hvalue
    · obtain ⟨-, rfl⟩ := narrow_ok.1 (show narrow u64 v ErrorCode.mathOverflow = .ok book from hbook)
      obtain ⟨-, rfl⟩ := narrow_ok.1 (show narrow u64 v' ErrorCode.mathOverflow = .ok book' from hbook')
      exact hv
    · obtain ⟨-, -, rfl⟩ := (previewDepositBook_ok hvalue).1 hbook
      obtain ⟨-, -, rfl⟩ := (previewDepositBook_ok hvalue).1 hbook'
      exact Nat.div_le_div_right (Nat.mul_le_mul_right _ hv)
  obtain ⟨hask, rfl⟩ := (previewDeposit_mints hrate hsince hnow hbook g).1 h
  exact ⟨_, Nat.div_le_div_right (Nat.mul_le_mul_right _ hle),
    (previewDeposit_mints hrate hsince hnow hbook' _).2 ⟨hask.trans (Nat.mul_le_mul_right _ hle), rfl⟩⟩

/-- with shares behind the value, or neither, a deposit is quoted a share: the least value worth one fits -/
theorem largestShare_pos (h : value = 0 ↔ supply = 0) (hfit : value + supply ≤ 2 ^ u128) (hsupply : supply < 2 ^ u64) :
    0 < largestShare supply value := by
  rcases Nat.eq_zero_or_pos value with rfl | hvalue
  · simp [largestShare, u64Max]
  · have h0 : 0 < supply := Nat.pos_of_ne_zero fun hz => hvalue.ne' (h.2 hz)
    obtain ⟨v, hdef⟩ : ∃ v, v = (value + supply - 1) / supply := ⟨_, rfl⟩
    have hge := Nat.lt_div_mul_add h0 (a := value + supply - 1)
    have hle := Nat.div_mul_le_self (value + supply - 1) supply
    rw [← hdef] at hge hle
    have hshare : v * supply / value < 2 ^ u64 := by
      refine lt_of_le_of_lt (Nat.div_le_of_le_mul ?_) hsupply
      obtain ⟨t, rfl⟩ := Nat.exists_eq_succ_of_ne_zero hvalue.ne'
      obtain ⟨n, rfl⟩ := Nat.exists_eq_succ_of_ne_zero h0.ne'
      calc v * n.succ ≤ t.succ + n.succ - 1 := hle
        _ = t + n + 1 := by omega
        _ ≤ t * n + t + n + 1 := by omega
        _ = t.succ * n.succ := by rw [Nat.succ_mul_succ]
    calc 0 < v * supply / value := Nat.div_pos (by omega) hvalue
      _ ≤ largestShare supply value := le_largestShare ((previewDepositBook_ok hvalue).2 ⟨by omega, hshare, rfl⟩)

/-- what deposits rely on while liquidation is closed: value and shares vanish together, so that no deposit meets an insolvent
book and a share is quoted; and at any time a deposit mints, and every larger one that the quote can hold, unless the compounded
ask of the premium has outgrown the largest book share -/
structure Redeemable (w : World) : Prop where
  value_iff : w.state.totalValue = 0 ↔ w.supply = 0
  solvent : 0 < w.state.totalValue ∨ w.supply = 0
  attained : w.state.totalValue + w.supply ≤ 2 ^ u128 → w.supply < 2 ^ u64 →
    ∃ v shares, 0 < shares ∧ previewDepositBook v w.supply w.state.totalValue = .ok shares
  mints : ∀ now, 0 ≤ w.state.mintPremiumAt → now < 2 ^ 63 →
    ((∃ v g, 0 < g ∧
        previewDeposit v w.supply w.state.totalValue w.state.config.mintPremiumBpsPerYear w.state.mintPremiumAt now = .ok g) ↔
      premiumAsk w.state.config.mintPremiumBpsPerYear (premiumYears w.state.mintPremiumAt now) ≤
        largestShare w.supply w.state.totalValue * BPS)
  larger : ∀ now, 0 ≤ w.state.mintPremiumAt → now < 2 ^ 63 → ∀ v v' g book', v ≤ v' →
    previewDeposit v w.supply w.state.totalValue w.state.config.mintPremiumBpsPerYear w.state.mintPremiumAt now = .ok g →
    previewDepositBook v' w.supply w.state.totalValue = .ok book' →
    ∃ g', g ≤ g' ∧
      previewDeposit v' w.supply w.state.totalValue w.state.config.mintPremiumBpsPerYear w.state.mintPremiumAt now = .ok g'

theorem Consistent.keepsBook {w : World} (h : Consistent w.view) (hrate : w.state.config.mintPremiumBpsPerYear ≤ BPS)
    (hclosed : w.state.liquidation = false) : Redeemable w := by
  have hiff : w.state.totalValue = 0 ↔ w.supply = 0 := ⟨h.1, h.2 hclosed⟩
  refine ⟨hiff, ?_, fun hfit hsupply => ?_, fun now hsince hnow => exists_mints_iff hrate hsince hnow,
    fun now hsince hnow v v' g book' hv hg hbook' => previewDeposit_mono hrate hsince hnow hv hg hbook'⟩
  · rcases Nat.eq_zero_or_pos w.state.totalValue with h0 | h0
    · exact .inr (hiff.1 h0)
    · exact .inl h0
  · obtain ⟨v, hv⟩ := largestShare_attained w.supply w.state.totalValue
    exact ⟨v, _, largestShare_pos hiff hfit hsupply, hv⟩

/-- **Book.** In every run in which no holder burns the last share of a closed book, deposits can rely on the book whenever
liquidation is closed. The clock of a deposit is a Unix time: it fits an `i64`, and initialisation was not before 1970. Whether
some deposit mints at a given time is stated as an equivalence, since the premium grows with the years and the parameters of the
owner: the condition is that the ask is within the largest book share the checked arithmetic can form. -/
theorem redeemable (g : Genesis) (is : List Instr) (hc : Meets step (fun w i => ¬ burnsLast w i) g.world is)
    (hclosed : (g.after is).state.liquidation = false) : Redeemable (g.after is) :=
  (after_consistent g is hc).keepsBook (g.after_wf is).config.mintPremium hclosed

/-- a book with value and no shares, while liquidation is closed: whatever is deposited is worth no share -/
theorem orphan_book :
    let w := Sample.genesis.after
      [Sample.listing Sample.usdc false, Sample.deposit 2 1000 .default [], Sample.burn 2 1000]
    w.state.liquidation = false ∧ ¬ (w.state.totalValue = 0 ↔ w.supply = 0) ∧
      ∀ v shares, previewDepositBook v w.supply w.state.totalValue = .ok shares → shares = 0 := by
  intro w
  have hvalue : w.state.totalValue = 1000 := by decide +kernel
  have hsupply : w.supply = 0 := by decide +kernel
  refine ⟨by decide +kernel, by simp [hvalue, hsupply], fun v shares h => ?_⟩
  rw [hvalue, hsupply] at h
  simp only [previewDepositBook, Nat.lt_add_one_iff, Nat.zero_le, if_true, bind_ok, checkedMul_ok, checkedDiv_ok, narrow_ok]
    at h
  obtain ⟨_, ⟨-, rfl⟩, _, ⟨-, rfl⟩, -, rfl⟩ := h
  simp

/-- a holder who burns part of the supply leaves the book in order -/
theorem redeemable_after_burn :
    Redeemable (Sample.genesis.after
      [Sample.listing Sample.usdc false, Sample.deposit 2 1000 .default [], Sample.burn 2 400]) := by
  refine redeemable _ _ ⟨fun _ _ h => ?_, fun _ _ h => ?_, fun _ _ h => ?_, trivial⟩ (by decide +kernel)
  · obtain ⟨-, -, s, src, hi⟩ := h
    cases hi
  · obtain ⟨-, -, s, src, hi⟩ := h
    cases hi
  · -- 400 of the 1000 shares
    obtain ⟨-, -, s, src, hi⟩ := h
    cases hi

end Grindurus.Grai
