/-
The three totals of a referral book.

- `World.InStep`: `l1Value` totals the values of an account's own referrals, `l2Value` their `l1Value`, and what a poach takes
  off is there.
- `books_in_step`: it holds after every run in which no deposit binds a book that already has a value to another account.
- Where one does (a claim opens an unbound book and credits it, and the account deposits later) the value is not passed on,
  and a poach of that locker takes off what was never put there (`books_out_of_step`).
-/
import Grindurus.Grai.Lineage

namespace Grindurus.Grai

open Checked Tally Machine Uplines Ancestry Function

/-- is `y` bound under `x`, another account -/
def World.bound (w : World) (x y : Key) : Prop :=
  (w.bookOf y).referrer = x ∧ x ≠ .default ∧ x ≠ y

instance (w : World) (x y : Key) : Decidable (w.bound x y) := by
  unfold World.bound
  infer_instance

structure World.InStep (w : World) : Prop where
  /-- the values of those bound under `x` -/
  l1 : ∀ x, HasTotal (fun y => if w.bound x y then (w.bookOf y).value else 0) (w.bookOf x).l1Value
  /-- the `l1Value`s of those bound under `x` -/
  l2 : ∀ x, HasTotal (fun y => if w.bound x y then (w.bookOf y).l1Value else 0) (w.bookOf x).l2Value
  /-- what `execute_poach` debits the seller `s` of the slot `k`, and the account `z` that `s` is bound under -/
  debits : ∀ k s, w.bound s k → (w.bookOf k).value ≤ (w.bookOf s).l1Value ∧ (w.bookOf k).l1Value ≤ (w.bookOf s).l2Value ∧
    ∀ z, w.bound z s → (w.bookOf k).value ≤ (w.bookOf z).l2Value

/-- a deposit does not bind a book with a value to another account: the book is bound or empty, or the account it names is
none, the depositor, or one whose way up leads back to the depositor -/
def BindsEmpty (w : World) (i : Instr) : Prop :=
  ∀ a, i.asDeposit = some a → (w.bookOf a.depositor.key).referrer ≠ .default ∨ (w.bookOf a.depositor.key).value = 0 ∨
    a.referrer = .default ∨ a.referrer = a.depositor.key ∨ Above w.upline a.referrer a.depositor.key

variable {w w' : World}

theorem World.bound_iff {x y : Key} : w.bound x y ↔ w.upline y = some x := by
  constructor
  · rintro ⟨rfl, hd, hne⟩
    exact Referrer.upline_bound hd hne
  · exact Referrer.upline_eq_some

theorem World.fed_eq (q : Key → ℕ) (x y : Key) : fed w.upline q x y = if w.bound x y then q y else 0 := by
  unfold fed
  exact if_congr World.bound_iff.symm rfl rfl

theorem World.InStep.of_balanced (h : w.forest.Balanced) : w.InStep where
  l1 x := (h.l1 x).congr fun y => World.fed_eq _ x y
  l2 x := (h.l2 x).congr fun y => World.fed_eq _ x y
  debits k s hk := by
    have hk : w.forest.up k = some s := World.bound_iff.1 hk
    exact ⟨h.l1_covers hk, h.l2_covers hk, fun z hz => h.l2_up_covers hk (World.bound_iff.1 hz)⟩

/-! ## Every step -/

/-- a book without a value may be bound anywhere; nothing has to be moved with it -/
theorem Binding.balanced {k named r : Key} {f : Forest Key} (h : w.forest.Balanced) (hbind : Binding w k named r f)
    (hempty : (w.bookOf k).referrer ≠ .default ∨ (w.bookOf k).value = 0 ∨ named = .default ∨ named = k ∨
      Above w.upline named k) : f.Balanced := by
  cases hbind with
  | kept => exact h
  | root => exact h
  | hung hunbound hd hne hup =>
    have hvalue : (w.bookOf k).value = 0 := by
      rcases hempty with hbound | hvalue | hd' | hk | habove
      · exact absurd hunbound hbound
      · exact hvalue
      · exact absurd hd' hd
      · exact absurd hk hne
      · exact absurd habove hup
    rw [Forest.adopt_eq_attach hvalue]
    have hroot : w.forest.up k = none := Referrer.upline_root (.inl hunbound)
    exact h.attach hroot (Ne.symm hne) fun hk => hup (.head hk (.refl _ _))

/-- a poach moves the value of the slot, and of its referrals, from one side to the other -/
theorem poached_balanced {k p : Key} (h : w.forest.Balanced) (hd : (w.bookOf k).referrer ≠ .default)
    (hup : p ≠ k → ¬Above w.upline p k) : (poached w.forest k (w.bookOf k).referrer p).Balanced := by
  generalize hs : (w.bookOf k).referrer = s at hd
  -- the slot without its seller
  have hfree : (if s = k then w.forest else w.forest.detach k s).Balanced ∧
      (if s = k then w.forest else w.forest.detach k s).up k = none ∧
      ∀ x, (if s = k then w.forest else w.forest.detach k s).up x = some k → w.forest.up x = some k := by
    split_ifs with hsk
    · exact ⟨h, Referrer.upline_root (.inr (hs.trans hsk)), fun _ => id⟩
    · have hk : w.forest.up k = some s := by
        rw [← hs] at hd hsk ⊢
        exact Referrer.upline_bound hd hsk
      refine ⟨h.detach hk, update_self .., fun x hx => ?_⟩
      rcases eq_or_ne x k with rfl | hne
      · simp [Forest.detach] at hx
      · simpa [Forest.detach, hne] using hx
  unfold poached
  generalize (if s = k then w.forest else w.forest.detach k s) = f at hfree
  obtain ⟨hbalanced, hroot, habove⟩ := hfree
  dsimp only
  split_ifs with hpk
  · exact hbalanced
  · exact hbalanced.attach hroot (Ne.symm hpk) fun hx => hup hpk (.head (habove p hx) (.refl _ _))

theorem Rebook.balanced {i : Instr} (h : w.forest.Balanced) (hi : BindsEmpty w i) (hstep : Rebook w i w') :
    w'.forest.Balanced := by
  cases hstep with
  | credit k v hcredit _ =>
    rw [hcredit.forest]
    exact h.credit k v
  | bind a r f nft v ha hbind hforest =>
    rw [hforest]
    exact (hbind.balanced h (hi a ha)).credit _ v
  | poach a _ hd hup _ hforest =>
    rw [hforest]
    exact poached_balanced h hd hup

/-! ## Along a run -/

theorem Genesis.balanced (g : Genesis) : g.world.forest.Balanced := by
  have hroot : ∀ x, g.world.upline x = none := by
    intro x
    unfold World.upline
    rw [g.bookOf]
    exact Referrer.upline_root (.inl rfl)
  have hfed : ∀ q x y, fed g.world.upline q x y = 0 := by
    intro q x y
    unfold fed
    rw [if_neg]
    rw [hroot y]
    exact nofun
  refine ⟨fun x => ?_, fun x => ?_, fun x hx => ?_, fun x y hx => ?_⟩
  · have hzero : g.world.forest.l1 x = 0 := congrArg Referrer.l1Value (congrFun g.bookOf x)
    rw [hzero]
    exact hasTotal_zero.congr fun y => (hfed _ x y).symm
  · have hzero : g.world.forest.l2 x = 0 := congrArg Referrer.l2Value (congrFun g.bookOf x)
    rw [hzero]
    exact hasTotal_zero.congr fun y => (hfed _ x y).symm
  · cases (hroot x).symm.trans hx
  · cases (hroot x).symm.trans hx

/-- **Books in step.** Along every run whose deposits bind only books without a value to another account, every book totals
the referrals it stands for, and no poach can take off what is not there.

The condition is on the step: a deposit binds an unbound book, and if that book was credited before (by a claim, which opens books
without binding them) its value is not passed on. Every other instruction keeps the books in step without a condition. -/
theorem books_in_step (g : Genesis) (is : List Instr) (h : Meets step BindsEmpty g.world is) : (g.after is).InStep := by
  have hstep : ∀ w i w', w.WF → Grounded w.upline ∧ w.forest.Balanced → BindsEmpty w i → step w i = .ok w' →
      Grounded w'.upline ∧ w'.forest.Balanced := by
    intro w i w' hw ⟨hg, hb⟩ hi h
    have hrebook := step_rebooks hw hg h
    exact ⟨hrebook.grounded hg, hrebook.balanced hb hi⟩
  exact .of_balanced (g.after_meets ⟨g.grounded, g.balanced⟩ hstep is h).2

/-- wallet 2 deposits, wallet 3 deposits under it, wallet 4 under wallet 3, and wallet 5 poaches wallet 3 -/
def referrals : List Instr :=
  [Sample.listing Sample.usdc false, Sample.deposit 2 1000 .default (List.replicate 3 .default),
    Sample.deposit 3 200 (Sample.user 2) [.referrer (Sample.user 2)],
    Sample.deposit 4 30 (Sample.user 3) [.referrer (Sample.user 3), .referrer (Sample.user 2)],
    Sample.deposit 5 4000 .default [],
    .poach ⟨Sample.wallet 5, Sample.user 3, .referrer (Sample.user 5), .referrer (Sample.user 2), Sample.user 5, Sample.user 5,
      .ata (Sample.user 5) Sample.grai, .ata (Sample.user 2) Sample.grai, []⟩]

theorem books_in_step_after_poach :
    ((Sample.genesis.after referrals).bookOf (Sample.user 5)).l2Value = 30 ∧ (Sample.genesis.after referrals).InStep := by
  refine ⟨by decide +kernel, books_in_step Sample.genesis referrals ?_⟩
  have hnone : ∀ w i, i.asDeposit = none → BindsEmpty w i := by
    intro w i hi a ha
    cases hi.symm.trans ha
  refine ⟨fun _ _ => hnone _ _ rfl, fun _ _ => ?_, fun _ _ => ?_, fun _ _ => ?_, fun _ _ => ?_, fun _ _ => hnone _ _ rfl, trivial⟩
  all_goals
    intro a ha
    cases ha
    exact .inr (.inl (by decide +kernel))

/-- wallet 2 locks shares it was sent and claims a dividend, then deposits under wallet 3 -/
def claimedFirst : List Instr :=
  [Sample.listing Sample.usdc false, Sample.deposit 3 1000 .default [], Sample.deposit 4 2000 .default [],
    .token (Sample.wallet 4) (.openAccount (.ata (Sample.user 2) Sample.grai) Sample.grai (Sample.user 2)),
    .token (Sample.wallet 4) (.transfer (.ata (Sample.user 4) Sample.grai) (.ata (Sample.user 2) Sample.grai) 1000),
    Sample.lock 2 1000 [Sample.usdc], Sample.distribute 5 1000 Sample.usdc, Sample.claim 2 2 Sample.usdc,
    Sample.deposit 2 100 (Sample.user 3) [.referrer (Sample.user 3)]]

/-- wallet 4 poaches wallet 2 from wallet 3 -/
def poachOfTwo : Poach where
  poacher := Sample.wallet 4
  locker := Sample.user 2
  buyerBook := .referrer (Sample.user 4)
  sellerBook := .referrer (Sample.user 3)
  oldL2Book := Sample.user 4
  newL2Book := Sample.user 4
  poacherGraiAta := .ata (Sample.user 4) Sample.grai
  sellerGraiAta := .ata (Sample.user 3) Sample.grai
  remaining := []

/-- the book of wallet 3 has the deposit of wallet 2, but not what wallet 2 had claimed before; the poach underflows -/
theorem books_out_of_step : ¬(Sample.genesis.after claimedFirst).InStep ∧
    executePoach (Sample.genesis.after claimedFirst) poachOfTwo = .error .mathOverflow := by
  refine ⟨fun h => ?_, refusal_eq_some.1 (by decide +kernel)⟩
  have hdebit := (h.debits (Sample.user 2) (Sample.user 3) (by decide +kernel)).1
  revert hdebit
  decide +kernel

end Grindurus.Grai
