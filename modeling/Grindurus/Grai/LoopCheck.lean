/-
The loop check of a referral (`programs/grai/src/treasury.rs`: `hop`, `has_referral_loop`).

- `hopFrom`: a hop of the walk over the books that the caller passed in. `World.Follows`: it goes on from one account to the
  next. `Unsupplied`, `World.Loops`, `World.Ends`: what stops it.
- `hasReferralLoop_eq`: the check is Floyd's detection on that walk.
- `referral_loop_decided`: it terminates, and reports what a plain walk from the target meets first. An account that refers to
  itself ends the walk, also if it is the target (`self_rooted_target`).
-/
import Grindurus.Lib.Floyd
import Grindurus.Grai.Program

namespace Grindurus.Grai

open Checked Floyd

/-! ## The plain walk -/

/-- the account of `x` is not among those passed in -/
def Unsupplied (pool : List Key) (x : Key) : Prop := referrerInfo x pool = none

/-- the book of `x` is bound to `y`, which is another account -/
def World.Binds (w : World) (x y : Key) : Prop := ∃ book, w.books x = some book ∧ book.referrer = y ∧ y ≠ .default ∧ y ≠ x

/-- the walk stops at `x`, which has no book, or one that is unbound or refers to itself -/
def World.Ends (w : World) (pool : List Key) (x : Key) : Prop :=
  ¬Unsupplied pool x ∧ ∀ book, w.books x = some book → book.referrer = .default ∨ book.referrer = x

/-- the walk stops at `x`, which leads to the locker, or back to the target -/
def World.Loops (w : World) (locker target : Key) (pool : List Key) (x : Key) : Prop :=
  ¬Unsupplied pool x ∧ ∃ y, w.Binds x y ∧ (y = locker ∨ y = target)

/-- the walk goes on from `x` to `y` -/
def World.Follows (w : World) (locker target : Key) (pool : List Key) (x y : Key) : Prop :=
  ¬Unsupplied pool x ∧ w.Binds x y ∧ y ≠ locker ∧ y ≠ target

/-- the walk from the target passes `x`, and nothing stopped it before -/
def World.Passes (w : World) (locker target : Key) (pool : List Key) (x : Key) : Prop :=
  Relation.ReflTransGen (w.Follows locker target pool) target x

/-! ## The hops -/

variable {w : World} {locker target x y : Key} {pool : List Key} {status : LoopStatus}

theorem World.binds_none (h : w.books x = none) : ¬w.Binds x y := by
  rintro ⟨book, hbook, -⟩
  cases h.symm.trans hbook

theorem World.binds_some {book : Referrer} (h : w.books x = some book) :
    w.Binds x y ↔ book.referrer = y ∧ y ≠ .default ∧ y ≠ x := by
  constructor
  · rintro ⟨book', hbook, hbinds⟩
    cases h.symm.trans hbook
    exact hbinds
  · exact fun hbinds => ⟨book, h, hbinds⟩

def hopFrom (w : World) (locker target : Key) (pool : List Key) (x : Key) : LoopStatus ⊕ Key :=
  match hop w x locker target pool with
  | (none, status) => .inl status
  | (some next, _) => .inr next

theorem hopFrom_unsupplied (h : Unsupplied pool x) : hopFrom w locker target pool x = .inl .incomplete := by
  unfold hopFrom hop
  rw [h]

/-- what stands at a supplied account decides the hop -/
theorem hopFrom_supplied (h : ¬Unsupplied pool x) : hopFrom w locker target pool x =
    match w.books x with
    | none => .inl .no
    | some book =>
      if book.referrer = .default ∨ book.referrer = x then .inl .no
      else if book.referrer = locker ∨ book.referrer = target then .inl .yes
      else .inr book.referrer := by
  unfold hopFrom hop
  cases hinfo : referrerInfo x pool with
  | none => exact absurd hinfo h
  | some info =>
    cases w.books x with
    | none => rfl
    | some book =>
      dsimp only
      split_ifs <;> rfl

theorem hopFrom_incomplete : hopFrom w locker target pool x = .inl .incomplete ↔ Unsupplied pool x := by
  refine ⟨fun h => ?_, hopFrom_unsupplied⟩
  by_contra hsupplied
  rw [hopFrom_supplied hsupplied] at h
  split at h
  · cases h
  · split_ifs at h <;> cases h

theorem hopFrom_no : hopFrom w locker target pool x = .inl .no ↔ w.Ends pool x := by
  by_cases hsupplied : Unsupplied pool x
  · rw [hopFrom_unsupplied hsupplied]
    exact iff_of_false (fun h => nomatch h) fun h => h.1 hsupplied
  · rw [hopFrom_supplied hsupplied]
    unfold World.Ends
    cases w.books x with
    | none => simp [hsupplied]
    | some book =>
      dsimp only
      split_ifs with hroot hloop <;> simp [hsupplied, hroot]

theorem hopFrom_yes : hopFrom w locker target pool x = .inl .yes ↔ w.Loops locker target pool x := by
  by_cases hsupplied : Unsupplied pool x
  · rw [hopFrom_unsupplied hsupplied]
    exact iff_of_false (fun h => nomatch h) fun h => h.1 hsupplied
  rw [hopFrom_supplied hsupplied]
  unfold World.Loops
  cases hbook : w.books x with
  | none => exact iff_of_false (fun h => nomatch h) fun ⟨_, y, hbinds, _⟩ => World.binds_none hbook hbinds
  | some book =>
    simp only [World.binds_some hbook]
    split_ifs with hroot hloop
    · refine iff_of_false (fun h => nomatch h) ?_
      rintro ⟨-, y, ⟨rfl, hd, hx⟩, -⟩
      exact hroot.elim hd hx
    · exact iff_of_true rfl ⟨hsupplied, _, ⟨rfl, not_or.1 hroot⟩, hloop⟩
    · refine iff_of_false (fun h => nomatch h) ?_
      rintro ⟨-, y, ⟨rfl, -⟩, hloop'⟩
      exact hloop hloop'

theorem hopFrom_next : hopFrom w locker target pool x = .inr y ↔ w.Follows locker target pool x y := by
  by_cases hsupplied : Unsupplied pool x
  · rw [hopFrom_unsupplied hsupplied]
    exact iff_of_false (fun h => nomatch h) fun h => h.1 hsupplied
  rw [hopFrom_supplied hsupplied]
  unfold World.Follows
  cases hbook : w.books x with
  | none => exact iff_of_false (fun h => nomatch h) fun ⟨_, hbinds, _⟩ => World.binds_none hbook hbinds
  | some book =>
    simp only [World.binds_some hbook]
    split_ifs with hroot hloop
    · refine iff_of_false (fun h => nomatch h) ?_
      rintro ⟨-, ⟨rfl, hd, hx⟩, -⟩
      exact hroot.elim hd hx
    · refine iff_of_false (fun h => nomatch h) ?_
      rintro ⟨-, ⟨rfl, -⟩, hne⟩
      exact hloop.elim hne.1 hne.2
    · constructor
      · intro h
        cases h
        exact ⟨hsupplied, ⟨rfl, not_or.1 hroot⟩, not_or.1 hloop⟩
      · rintro ⟨-, ⟨rfl, -⟩, -⟩
        rfl

theorem reached_iff_passes : Reached (hopFrom w locker target pool) target x ↔ w.Passes locker target pool x := by
  unfold Reached World.Passes
  simp only [hopFrom_next]

/-! ## Two pointers on the walk -/

theorem floydRound_eq (w : World) (locker target : Key) (pool : List Key) (slow fast : Key) :
    floydRound w locker target pool slow fast = Floyd.round (hopFrom w locker target pool) .yes slow fast := by
  unfold floydRound Floyd.round hopFrom
  rcases hop w slow locker target pool with ⟨_ | slow, status⟩
  · rfl
  dsimp only
  rcases hop w fast locker target pool with ⟨_ | fast, status⟩
  · rfl
  dsimp only
  rcases hop w fast locker target pool with ⟨_ | fast, status⟩ <;> rfl

theorem floydWalk_eq (w : World) (locker target : Key) (pool : List Key) (fuel : ℕ) (slow fast : Key) :
    floydWalk w locker target pool fuel slow fast =
      match floyd (hopFrom w locker target pool) .yes fuel slow fast with
      | none => .error .outOfFuel
      | some status => .ok status := by
  induction fuel generalizing slow fast with
  | zero => rfl
  | succ fuel ih =>
    rw [floydWalk, floyd, floydRound_eq]
    cases Floyd.round (hopFrom w locker target pool) .yes slow fast with
    | inl status => rfl
    | inr pointers => exact ih _ _

/-- the check is Floyd's detection on the walk from the target -/
theorem hasReferralLoop_eq (w : World) (pool : List Key) (hne : target ≠ locker) : hasReferralLoop w locker target pool =
    match floyd (hopFrom w locker target pool) .yes (pool.length + 2) target target with
    | none => .error .outOfFuel
    | some status => .ok status := by
  rw [hasReferralLoop, if_neg hne, floydWalk_eq]

/-- the accounts whose books were passed in -/
def supplied (pool : List Key) : Finset Key :=
  (pool.filterMap fun info => match info with
    | .referrer x => some x
    | _ => none).toFinset

theorem supplied_card (pool : List Key) : (supplied pool).card < pool.length + 2 := by
  have hcard := (pool.filterMap fun info => match info with
    | .referrer x => some x
    | _ => none).toFinset_card_le
  have hlength := List.length_filterMap_le (fun info => match info with
    | Key.referrer x => some x
    | _ => none) pool
  unfold supplied
  omega

theorem mem_supplied (h : ¬Unsupplied pool x) : x ∈ supplied pool := by
  unfold Unsupplied referrerInfo at h
  rw [List.find?_eq_none] at h
  push Not at h
  obtain ⟨info, hmem, hinfo⟩ := h
  have hinfo : info = .referrer x := of_decide_eq_true hinfo
  subst hinfo
  unfold supplied
  rw [List.mem_toFinset, List.mem_filterMap]
  exact ⟨_, hmem, rfl⟩

/-- it reports what stops the walk, or a loop if nothing does -/
theorem hasReferralLoop_reports (w : World) (pool : List Key) (hne : target ≠ locker) :
    ∃ status, hasReferralLoop w locker target pool = .ok status ∧
      (Stops (hopFrom w locker target pool) target status ∨ status = .yes ∧ Endless (hopFrom w locker target pool) target) := by
  have hnodes : ∀ x y, hopFrom w locker target pool x = .inr y → x ∈ supplied pool := by
    intro x y h
    exact mem_supplied (hopFrom_next.1 h).1
  obtain ⟨status, hstatus, hreports⟩ := floyd_decides hnodes (supplied_card pool) .yes target
  refine ⟨status, ?_, hreports⟩
  rw [hasReferralLoop_eq w pool hne, hstatus]

theorem stops_iff_passes : Stops (hopFrom w locker target pool) target status ↔
    ∃ x, w.Passes locker target pool x ∧ hopFrom w locker target pool x = .inl status := by
  simp only [stops_iff, reached_iff_passes]

/-- **Loop check.** Whatever is passed in, the check of a target other than the locker terminates and reports what the walk from
the target meets first: an account that is not supplied, a link to the locker or back to the target, or an end. A walk that meets
none of these goes on forever, and is reported as a loop. Two pointers suffice because the walk has one successor at each node;
the number of rounds is bounded by the number of accounts that were passed in, so the check terminates on whatever a caller
supplies. -/
theorem referral_loop_decided (w : World) (pool : List Key) {locker target : Key} (hne : target ≠ locker) :
    ∃ status, hasReferralLoop w locker target pool = .ok status ∧
      (status = .incomplete ↔ ∃ x, w.Passes locker target pool x ∧ Unsupplied pool x) ∧
      (status = .yes ↔ (∃ x, w.Passes locker target pool x ∧ w.Loops locker target pool x) ∨
        ∀ x, w.Passes locker target pool x → ∃ y, w.Follows locker target pool x y) ∧
      (status = .no ↔ ∃ x, w.Passes locker target pool x ∧ w.Ends pool x) := by
  obtain ⟨status, hstatus, hreports⟩ := hasReferralLoop_reports w pool hne
  -- an event is reported exactly if it stops the walk; an endless walk is not stopped by any
  have hevent : ∀ event, Stops (hopFrom w locker target pool) target event → status = event := by
    intro event hstops
    rcases hreports with h | ⟨-, hend⟩
    · exact h.unique hstops
    · exact absurd hend hstops.not_endless
  have hstops : ∀ event, event ≠ .yes → status = event → Stops (hopFrom w locker target pool) target event := by
    intro event hyes heq
    rcases hreports with h | ⟨hyes', -⟩
    · exact heq ▸ h
    · exact absurd (heq.symm.trans hyes') hyes
  have hpasses : ∀ event, Stops (hopFrom w locker target pool) target event ↔
      ∃ x, w.Passes locker target pool x ∧ hopFrom w locker target pool x = .inl event := fun event => stops_iff_passes
  have hincomplete := hpasses .incomplete
  have hyes := hpasses .yes
  have hno := hpasses .no
  have hendless : Endless (hopFrom w locker target pool) target ↔
      ∀ x, Reached (hopFrom w locker target pool) target x → ∃ y, hopFrom w locker target pool x = .inr y := endless_iff
  simp only [hopFrom_incomplete] at hincomplete
  simp only [hopFrom_yes] at hyes
  simp only [hopFrom_no] at hno
  simp only [reached_iff_passes, hopFrom_next] at hendless
  refine ⟨status, hstatus, ?_, ?_, ?_⟩
  · rw [← hincomplete]
    exact ⟨hstops _ (fun h => nomatch h), hevent _⟩
  · rw [← hyes, ← hendless]
    constructor
    · intro heq
      subst heq
      exact hreports.imp_right And.right
    · rintro (h | hend)
      · exact hevent _ h
      · rcases hreports with h | ⟨h, -⟩
        · exact absurd hend h.not_endless
        · exact h
  · rw [← hno]
    exact ⟨hstops _ (fun h => nomatch h), hevent _⟩

/-- wallet 2 deposits and is its own root, wallet 3 deposits under it -/
def Sample.twoBooks : World :=
  genesis.after [listing usdc false, deposit 2 1000 .default [],
    deposit 3 1000 (user 2) [.referrer (user 2), .referrer (user 3)]]

theorem referral_loop_decided_two : ∃ status,
    hasReferralLoop Sample.twoBooks (Sample.user 4) (Sample.user 3) [.referrer (Sample.user 3)] = .ok status ∧
      (status = .incomplete ↔ ∃ x, Sample.twoBooks.Passes (Sample.user 4) (Sample.user 3) [.referrer (Sample.user 3)] x ∧
        Unsupplied [.referrer (Sample.user 3)] x) := by
  obtain ⟨status, hstatus, hincomplete, -⟩ :=
    referral_loop_decided Sample.twoBooks [.referrer (Sample.user 3)] (by decide : Sample.user 3 ≠ Sample.user 4)
  exact ⟨status, hstatus, hincomplete⟩

/-- the book of wallet 2 refers to wallet 2, the target; the check reports no loop -/
theorem self_rooted_target :
    (∃ book, Sample.twoBooks.books (Sample.user 2) = some book ∧ book.referrer = Sample.user 2) ∧
      referrerInfo (Sample.user 2) [.referrer (Sample.user 2)] = some (.referrer (Sample.user 2)) ∧
      hasReferralLoop Sample.twoBooks (Sample.user 4) (Sample.user 2) [.referrer (Sample.user 2)] = .ok .no := by
  refine ⟨⟨⟨Sample.user 2, .treasuryNft (Sample.user 2), 1000, 1000, 0⟩, ?_, rfl⟩, by decide +kernel, by decide +kernel⟩
  decide +kernel

end Grindurus.Grai
