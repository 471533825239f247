/-
Empty token accounts do not matter to a bank.

- `Opened blank b b'`: `b'` is `b` with some of the accounts that `blank` names, where nothing stands in `b`.
- `Opened.transfer`: a transfer that `b` allows is allowed by `b'`, and the two banks stay as they are to each other.
- `Opened.open`: opening one more of them, or one that is open already.
- `Moved.slots`: a transfer opens and closes no account, and hands none over.
-/
import Grindurus.Lib.TokenBank

namespace Grindurus.TokenBank.Bank

open Checked Function

variable {K : Type} [DecidableEq K]

/-- the mint and the owner of the account at every address -/
def slots (b : Bank K) (k : K) : Option (K × K) := (b.accounts k).map fun a => (a.mint, a.owner)

/-- `b'` is `b` with some more accounts, empty ones of the mint and the owner that `blank` gives -/
structure Opened (blank : K → Option (K × K)) (b b' : Bank K) : Prop where
  mints : b'.mints = b.mints
  accounts : ∀ k, b'.accounts k = b.accounts k ∨
    ∃ m o, blank k = some (m, o) ∧ b.accounts k = none ∧ b'.accounts k = some ⟨m, o, 0⟩

variable {blank : K → Option (K × K)} {b b' b₁ b₂ : Bank K} {k m o src dst auth : K} {x : ℕ} {a : TokenAccount K}

omit [DecidableEq K] in
theorem slots_some : b.slots k = some (m, o) ↔ ∃ a, b.accounts k = some a ∧ a.mint = m ∧ a.owner = o := by
  simp [slots]

omit [DecidableEq K] in
theorem slots_none : b.slots k = none ↔ b.accounts k = none := by simp [slots]

/-! ## Slots -/

/-- rewriting the amount of an account -/
theorem slots_put (ha : b.accounts k = some a) (n : ℕ) : (b.put k { a with amount := n }).slots = b.slots := by
  funext j
  unfold slots
  rcases eq_or_ne j k with rfl | hj
  · rw [put_accounts, update_self, ha]
    rfl
  · rw [put_accounts, update_of_ne hj]

theorem transfer_slots (h : b.transfer src dst auth x = .ok b') : b'.mints = b.mints ∧ b'.slots = b.slots := by
  obtain ⟨s, d, hs, hd, -, -, -, ⟨-, rfl⟩ | ⟨hne, rfl⟩⟩ := transfer_ok h
  · exact ⟨rfl, rfl⟩
  · refine ⟨rfl, (slots_put ?_ _).trans (slots_put hs _)⟩
    rw [put_accounts, update_of_ne (Ne.symm hne), hd]

/-- what stands is not in the way of an account that is opened -/
theorem openAccount_kept (h : b.openAccount o m src = .ok b') (ha : b.accounts k = some a) : b'.accounts k = some a := by
  obtain ⟨hnone, -, -, rfl⟩ := openAccount_ok h
  have hne : k ≠ o := by
    rintro rfl
    cases hnone.symm.trans ha
  rw [put_accounts, update_of_ne hne, ha]

/-! ## Opened -/

namespace Opened

omit [DecidableEq K] in
theorem refl (blank : K → Option (K × K)) (b : Bank K) : Opened blank b b := ⟨rfl, fun _ => .inl rfl⟩

omit [DecidableEq K] in
theorem trans (h : Opened blank b b₁) (h' : Opened blank b₁ b') : Opened blank b b' := by
  refine ⟨h'.mints.trans h.mints, fun k => ?_⟩
  rcases h'.accounts k with hk' | ⟨m, o, hblank, hnone, hk'⟩
  · rw [hk']
    exact h.accounts k
  · rcases h.accounts k with hk | ⟨m₁, o₁, -, -, hk⟩
    · exact .inr ⟨m, o, hblank, hk ▸ hnone, hk'⟩
    · cases hnone.symm.trans hk

omit [DecidableEq K] in
/-- what stands in `b` stands in `b'` -/
theorem kept (h : Opened blank b b') (ha : b.accounts k = some a) : b'.accounts k = some a := by
  rcases h.accounts k with hk | ⟨m, o, -, hk, -⟩
  · exact hk.trans ha
  · cases hk.symm.trans ha

omit [DecidableEq K] in
theorem same (h : Opened blank b b') (hk : blank k = none) : b'.accounts k = b.accounts k := by
  rcases h.accounts k with hsame | ⟨m, o, hblank, -⟩
  · exact hsame
  · cases hk.symm.trans hblank

omit [DecidableEq K] in
/-- nothing is held in the accounts that are opened -/
theorem balance (h : Opened blank b b') : b'.balance = b.balance := by
  funext k
  unfold Bank.balance
  rcases h.accounts k with hk | ⟨m, o, -, hnone, hk⟩
  · rw [hk]
  · rw [hk, hnone]

omit [DecidableEq K] in
theorem supply (h : Opened blank b b') : b'.supply = b.supply := by
  funext m
  unfold Bank.supply
  rw [h.mints]

/-- an account is written in both banks -/
theorem put (h : Opened blank b b') (ha : b.accounts k = some a) (n : ℕ) :
    Opened blank (b.put k { a with amount := n }) (b'.put k { a with amount := n }) := by
  refine ⟨h.mints, fun j => ?_⟩
  rcases eq_or_ne j k with rfl | hj
  · exact .inl (by simp)
  · simpa [hj] using h.accounts j

/-- **The same transfer.** -/
theorem transfer (h : Opened blank b b') (hx : b.transfer src dst auth x = .ok b₁) :
    ∃ b₁', b'.transfer src dst auth x = .ok b₁' ∧ Opened blank b₁ b₁' := by
  simp only [Bank.transfer, bind_ok, demand_ok, require_ok] at hx
  obtain ⟨s, hs, d, hd, -, hle, -, hmint, -, howner, hx⟩ := hx
  have hs' := h.kept hs
  have hd' := h.kept hd
  split_ifs at hx with hsd
  · cases hx
    refine ⟨b', ?_, h⟩
    simp only [Bank.transfer, bind_ok, demand_ok, require_ok]
    exact ⟨s, hs', d, hd', (), hle, (), hmint, (), howner, by rw [if_pos hsd]⟩
  · simp only [bind_ok] at hx
    obtain ⟨n, hn, hx⟩ := hx
    cases hx
    refine ⟨_, ?_, (h.put hs _).put (a := d) ?_ n⟩
    · simp only [Bank.transfer, bind_ok, demand_ok, require_ok]
      refine ⟨s, hs', d, hd', (), hle, (), hmint, (), howner, ?_⟩
      rw [if_neg hsd]
      exact bind_ok.2 ⟨n, hn, rfl⟩
    · rw [put_accounts, update_of_ne (Ne.symm hsd), hd]

/-- opening an account that `blank` names, where nothing stands in `b` -/
theorem openAccount (h : Opened blank b b') (hblank : blank k = some (m, o)) (hnone : b.accounts k = none)
    (hopen : b'.openAccount k m o = .ok b₂) : Opened blank b b₂ := by
  obtain ⟨-, -, -, rfl⟩ := openAccount_ok hopen
  refine ⟨h.mints, fun j => ?_⟩
  rcases eq_or_ne j k with rfl | hj
  · exact .inr ⟨m, o, hblank, hnone, by simp⟩
  · simpa [hj] using h.accounts j

end Opened

end Grindurus.TokenBank.Bank
