/-
What a poach does to the books of all accounts.

- `heldL1`, `heldL2`: what the totals of an account count of a slot that hangs under a referrer.
- `poached_l1`, `poached_l2`: a poached forest takes these off on the seller's side and adds them on the poacher's.
- `debitSeller_covers`: a debit that commits found what it took off, in every book that it touched.
- `Reparented`: the books before and after, account by account. Each total is stated without subtraction, so that it says
  what the book holds also where accounts of the two sides coincide.
- `poach_reparents`: a poach over a forest re-parents the slot.
-/
import Grindurus.Grai.Books

namespace Grindurus.Grai

open Checked Machine Uplines Ancestry Function

variable {w w' w₁ w₂ : World}

/-- what the `l1` of `x` counts of the slot `k` with the value `own` under the referrer `r`; a root is under nobody -/
def heldL1 (k r : Key) (own : ℕ) (x : Key) : ℕ := if r ≠ k ∧ r = x then own else 0

/-- what the `l2` of `x` counts of it: the direct referrals at the referrer, and its own value one level above -/
def heldL2 (up : Key → Option Key) (k r : Key) (own direct : ℕ) (x : Key) : ℕ :=
  if r = k then 0 else (if r = x then direct else 0) + if up r = some x then own else 0

/-- **Re-parented.** The slot `k` is under `p` now, and every book counts what it held of the slot under the new referrer in
place of what it held under the old one. -/
structure Reparented (w w' : World) (k p : Key) : Prop where
  slot : w'.bookOf k = { w.bookOf k with referrer := p }
  referrer : ∀ x, x ≠ k → (w'.bookOf x).referrer = (w.bookOf x).referrer
  nftMint : ∀ x, (w'.bookOf x).nftMint = (w.bookOf x).nftMint
  value : ∀ x, (w'.bookOf x).value = (w.bookOf x).value
  l1 : ∀ x, (w'.bookOf x).l1Value + heldL1 k (w.bookOf k).referrer (w.bookOf k).value x =
    (w.bookOf x).l1Value + heldL1 k p (w.bookOf k).value x
  l2 : ∀ x, (w'.bookOf x).l2Value + heldL2 w.upline k (w.bookOf k).referrer (w.bookOf k).value (w.bookOf k).l1Value x =
    (w.bookOf x).l2Value + heldL2 w.upline k p (w.bookOf k).value (w.bookOf k).l1Value x

attribute [ext] Referrer

/-! ## A poached forest -/

theorem poached_l1 (f : Forest Key) (k s p x : Key) :
    (poached f k s p).l1 x = f.l1 x - heldL1 k s (f.value k) x + heldL1 k p (f.value k) x := by
  unfold poached heldL1
  by_cases hs : s = k <;> by_cases hp : p = k <;> simp [hs, hp, Forest.attach, Forest.detach, raise_apply, lower_apply]

theorem poached_l2 (f : Forest Key) (k s p x : Key) :
    (poached f k s p).l2 x = f.l2 x - heldL2 f.up k s (f.value k) (f.l1 k) x + heldL2 f.up k p (f.value k) (f.l1 k) x := by
  unfold poached heldL2
  by_cases hs : s = k <;> by_cases hp : p = k <;>
    simp [hs, hp, Forest.attach, Forest.detach, raise_apply, lower_apply, Nat.sub_sub, Nat.add_assoc]

theorem poached_value (f : Forest Key) (k s p : Key) : (poached f k s p).value = f.value := by
  unfold poached
  by_cases hs : s = k <;> by_cases hp : p = k <;> simp [hs, hp, Forest.attach, Forest.detach]

/-! ## What a debit finds -/

theorem shiftL2_covers {info key skip k z : Key} {f : ℕ → Except ErrorCode ℕ} (hkey : key = (w.bookOf skip).referrer)
    (hz : w.upline skip = some z) (hk : z ≠ k) (h : shiftL2 w info key skip k true f = .ok w') :
    ∃ y, f (w.bookOf z).l2Value = .ok y := by
  obtain ⟨hzkey, hd, hskip⟩ := Referrer.upline_eq_some hz
  rw [← hkey] at hzkey
  subst hzkey
  unfold shiftL2 at h
  rw [if_pos ⟨rfl, hd, hskip, hk⟩] at h
  simp only [bind_ok, Prod.exists, Except.ok.injEq] at h
  obtain ⟨w₁, book, hensure, y, hy, -⟩ := h
  obtain ⟨rfl, hbooks, -⟩ := ensureRegistered_ok hensure
  refine ⟨y, ?_⟩
  rw [← World.bookOf_of_books hbooks]
  exact hy

/-- the books of the seller and of its upline hold what a debit takes off -/
theorem debitSeller_covers {a : Poach} {seller : Key} {own direct : ℕ} (hirrefl : w.upline seller ≠ some seller)
    (hk : w.upline seller ≠ some a.locker) (h : debitSeller w a seller own direct true = .ok w') :
    own ≤ (w.bookOf seller).l1Value ∧ direct ≤ (w.bookOf seller).l2Value ∧
      ∀ z, w.upline seller = some z → own ≤ (w.bookOf z).l2Value := by
  simp only [debitSeller, bind_ok, Prod.exists, if_true, checkedSub_ok] at h
  obtain ⟨w₁, book, hensure, _, ⟨hown, rfl⟩, _, ⟨hdirect, rfl⟩, h⟩ := h
  obtain ⟨rfl, hbooks, -⟩ := ensureRegistered_ok hensure
  have hbookOf := World.bookOf_of_books hbooks
  rw [hbookOf] at hown hdirect h
  refine ⟨hown, hdirect, fun z hz => ?_⟩
  have hzs : z ≠ seller := by
    rintro rfl
    exact hirrefl hz
  have hzk : z ≠ a.locker := by
    rintro rfl
    exact hk hz
  -- the seller's book is written first, and keeps its link
  have hlinks : (w₁.storeReferrer seller { w.bookOf seller with
      l1Value := (w.bookOf seller).l1Value - own, l2Value := (w.bookOf seller).l2Value - direct }).links = w.links := by
    have hlink := congrFun (World.links_of_books hbooks) seller
    refine (World.links_store_same ?_).trans (World.links_of_books hbooks)
    exact hlink.symm
  have hup := congrFun (upline_of_links hlinks) seller
  have hreferrer := referrer_of_links hlinks seller
  obtain ⟨y, hy⟩ := shiftL2_covers hreferrer.symm (hup.trans hz) hzk h
  rw [World.bookOf_store, update_of_ne hzs, hbookOf] at hy
  exact (checkedSub_ok.1 hy).1

/-- what the seller's side held of the slot was in its books -/
theorem rebindSlot_covers {a : Poach} (hlevels : w.state.affiliateLevels = 2) (hg : Grounded w.upline)
    (hd : (w.bookOf a.locker).referrer ≠ .default)
    (h : rebindSlot w a (w.bookOf a.locker) (w.bookOf a.locker).referrer = .ok w') (x : Key) :
    heldL1 a.locker (w.bookOf a.locker).referrer (w.bookOf a.locker).value x ≤ (w.bookOf x).l1Value ∧
      heldL2 w.upline a.locker (w.bookOf a.locker).referrer (w.bookOf a.locker).value (w.bookOf a.locker).l1Value x ≤
        (w.bookOf x).l2Value := by
  have hshift : decide (1 < w.state.affiliateLevels) = true := by
    rw [hlevels]
    rfl
  simp only [rebindSlot, hshift, bind_ok] at h
  obtain ⟨-, -, w₁, hdebit, -⟩ := h
  unfold heldL1 heldL2
  by_cases hroot : (w.bookOf a.locker).referrer = a.locker
  · simp [hroot]
  · rw [if_neg hroot] at hdebit
    have hbound : w.upline a.locker = some (w.bookOf a.locker).referrer := Referrer.upline_bound hd hroot
    obtain ⟨hown, hdirect, habove⟩ := debitSeller_covers (hg.irrefl _) (hg.asymm hbound) hdebit
    rw [if_neg hroot]
    constructor
    · split_ifs with hx
      · rwa [← hx.2]
      · exact Nat.zero_le _
    · -- no account is the seller and its upline at once
      split_ifs with hx hz hz
      · rw [← hx] at hz
        exact absurd hz (hg.irrefl _)
      · rwa [← hx]
      · rw [Nat.zero_add]
        exact habove x hz
      · exact Nat.zero_le _

/-! ## A poach -/

/-- a poach that passes found what it took off, in every book -/
theorem executePoach_covers {a : Poach} (hlevels : w.state.affiliateLevels = 2) (hg : Grounded w.upline)
    (h : executePoach w a = .ok w') (x : Key) :
    heldL1 a.locker (w.bookOf a.locker).referrer (w.bookOf a.locker).value x ≤ (w.bookOf x).l1Value ∧
      heldL2 w.upline a.locker (w.bookOf a.locker).referrer (w.bookOf a.locker).value (w.bookOf a.locker).l1Value x ≤
        (w.bookOf x).l2Value := by
  obtain ⟨hd, -, -, b, hrebind⟩ := executePoach_ok h
  exact rebindSlot_covers (w := { w with bank := b }) hlevels hg hd hrebind x

/-- each book counts what it held of the slot under the poacher in place of the seller -/
theorem executePoach_totals {a : Poach} (hlevels : w.state.affiliateLevels = 2) (hg : Grounded w.upline)
    (h : executePoach w a = .ok w') (x : Key) :
    (w'.bookOf x).value = (w.bookOf x).value ∧
      (w'.bookOf x).l1Value + heldL1 a.locker (w.bookOf a.locker).referrer (w.bookOf a.locker).value x =
        (w.bookOf x).l1Value + heldL1 a.locker a.poacher.key (w.bookOf a.locker).value x ∧
      (w'.bookOf x).l2Value +
          heldL2 w.upline a.locker (w.bookOf a.locker).referrer (w.bookOf a.locker).value (w.bookOf a.locker).l1Value x =
        (w.bookOf x).l2Value + heldL2 w.upline a.locker a.poacher.key (w.bookOf a.locker).value (w.bookOf a.locker).l1Value x := by
  obtain ⟨-, -, -, hforest, -, -⟩ := executePoach_rebinds hlevels hg h
  obtain ⟨hcover1, hcover2⟩ := executePoach_covers hlevels hg h x
  have hvalue := congrFun (congrArg Forest.value hforest) x
  have hl1 := congrFun (congrArg Forest.l1 hforest) x
  have hl2 := congrFun (congrArg Forest.l2 hforest) x
  rw [poached_value] at hvalue
  rw [poached_l1] at hl1
  rw [poached_l2] at hl2
  simp only [World.forest] at hvalue hl1 hl2
  exact ⟨hvalue, by omega, by omega⟩

/-- a slot is in no book of its own: not as its referrer's, and not as one above it -/
theorem held_slot {k r : Key} (own direct : ℕ) (hr : r ≠ k → w.upline r ≠ some k) :
    heldL1 k r own k = 0 ∧ heldL2 w.upline k r own direct k = 0 := by
  unfold heldL1 heldL2
  by_cases hrk : r = k
  · simp [hrk]
  · simp [hrk, hr hrk]

/-- **A poach re-parents its slot**, whichever of the seller, the poacher and their referrers coincide. The statement is about
all books at once. Where the accounts of the two sides coincide the code debits and credits the same book, one after the other,
and the sums are the same as those of the forest. -/
theorem poach_reparents {a : Poach} (hlevels : w.state.affiliateLevels = 2) (hg : Grounded w.upline)
    (h : executePoach w a = .ok w') : Reparented w w' a.locker a.poacher.key := by
  obtain ⟨hd, hup, -, -, hlinks, -⟩ := executePoach_rebinds hlevels hg h
  have htotals := executePoach_totals hlevels hg h
  have hlink := congrFun hlinks
  refine ⟨?_, fun x hx => ?_, fun x => ?_, fun x => (htotals x).1, fun x => (htotals x).2.1, fun x => (htotals x).2.2⟩
  · have hseller := held_slot (w.bookOf a.locker).value (w.bookOf a.locker).l1Value fun hroot =>
      hg.asymm (Referrer.upline_bound hd hroot)
    have hpoacher := held_slot (w.bookOf a.locker).value (w.bookOf a.locker).l1Value fun hself hbelow =>
      hup hself (.head hbelow (.refl _ _))
    have hslot := hlink a.locker
    obtain ⟨hvalue, hl1, hl2⟩ := htotals a.locker
    rw [update_self] at hslot
    rw [hseller.1, hpoacher.1] at hl1
    rw [hseller.2, hpoacher.2] at hl2
    have hreferrer : (w'.bookOf a.locker).referrer = a.poacher.key := congrArg Prod.fst hslot
    have hnft : (w'.bookOf a.locker).nftMint = (w.bookOf a.locker).nftMint := congrArg Prod.snd hslot
    exact Referrer.ext hreferrer hnft hvalue (Nat.add_right_cancel hl1) (Nat.add_right_cancel hl2)
  · have hx' := hlink x
    rw [update_of_ne hx] at hx'
    exact congrArg Prod.fst hx'
  · rcases eq_or_ne x a.locker with rfl | hx
    · have hx' := hlink a.locker
      rw [update_self] at hx'
      exact congrArg Prod.snd hx'
    · have hx' := hlink x
      rw [update_of_ne hx] at hx'
      exact congrArg Prod.snd hx'

/-- wallet 2 buys wallet 4 from wallet 3, which it is the upline of -/
def poachFromBelow : Poach where
  poacher := Sample.wallet 2
  locker := Sample.user 4
  buyerBook := .referrer (Sample.user 2)
  sellerBook := .referrer (Sample.user 3)
  oldL2Book := .referrer (Sample.user 2)
  newL2Book := Sample.user 2
  poacherGraiAta := .ata (Sample.user 2) Sample.grai
  sellerGraiAta := .ata (Sample.user 3) Sample.grai
  remaining := []

/-- the book of wallet 2 is debited as the one above the seller, and then credited as the poacher's -/
theorem poach_reparents_upline :
    let w := Sample.genesis.after (referrals.take 4)
    let w' := exec step w (.poach poachFromBelow)
    w.bookOf (Sample.user 2) = ⟨Sample.user 2, .treasuryNft (Sample.user 2), 1000, 200, 30⟩ ∧
      w'.bookOf (Sample.user 2) = ⟨Sample.user 2, .treasuryNft (Sample.user 2), 1000, 230, 0⟩ ∧
      Reparented w w' (Sample.user 4) (Sample.user 2) := by
  have hstep : step (Sample.genesis.after (referrals.take 4)) (.poach poachFromBelow) = .ok _ :=
    step_exec (by decide +kernel)
  exact ⟨by decide +kernel, by decide +kernel,
    poach_reparents (Sample.genesis.after_wf _).shares.levels (Sample.genesis.after_grounded _) hstep⟩

end Grindurus.Grai
