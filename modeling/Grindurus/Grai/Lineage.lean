/-
What instructions do to the referral books.

- `World.bookOf`: the book of an account, empty if there is none. `World.forest`: its uplines and totals.
- `hasReferralLoop_no`: if the loop check finds no loop, the locker is not above the target.
- `Binding`: how a deposit binds a book. `Rebook`: everything that can happen to the books in one step (`step_rebooks`).
- `referral_forest`: the sticky referrers form a forest after every run, and a bound one changes by a poach of its locker only.

The code keeps the tree of referrals in the books themselves: each names its referrer, and two totals that are kept in step by
every deposit, claim and poach. Three things can go wrong with such a tree: a cycle, a referrer that changes by something other
than a poach, and totals that are debited in one place and credited in another. The first two are settled here, over all runs;
the totals are compared move by move with those of an abstract forest, and `Books` says when they agree.

The loop check looks at the accounts the caller passes, and gives up where one is missing. So the proof has to read its answer from
the walk it really made: `no` is given only after the walk has come to a root.
-/
import Grindurus.Lib.Ancestry
import Grindurus.Lib.Uplines
import Grindurus.Grai.Frames
import Grindurus.Grai.LoopCheck

namespace Grindurus.Grai

open Checked TokenBank Machine Uplines Ancestry Function

/-! ## Books as a forest -/

/-- the book of `x`; an account without one has an empty book -/
def World.bookOf (w : World) (x : Key) : Referrer := (w.books x).getD Referrer.empty

/-- the account a book of `x` is bound under, unless it is unbound or its own root -/
def Referrer.upline (book : Referrer) (x : Key) : Option Key :=
  if book.referrer = .default ∨ book.referrer = x then none else some book.referrer

def World.upline (w : World) (x : Key) : Option Key := (w.bookOf x).upline x

def World.forest (w : World) : Forest Key where
  up := w.upline
  value x := (w.bookOf x).value
  l1 x := (w.bookOf x).l1Value
  l2 x := (w.bookOf x).l2Value

/-- the referrer and the NFT of every book -/
def World.links (w : World) (x : Key) : Key × Key := ((w.bookOf x).referrer, (w.bookOf x).nftMint)

variable {w w' w₁ w₂ : World}

theorem World.bookOf_some {x : Key} {book : Referrer} (h : w.books x = some book) : w.bookOf x = book := by
  simp [World.bookOf, h]

theorem World.bookOf_store (w : World) (k : Key) (book : Referrer) :
    (w.storeReferrer k book).bookOf = update w.bookOf k book := by
  funext x
  rcases eq_or_ne x k with rfl | hx
  · simp [World.bookOf, World.storeReferrer]
  · simp [World.bookOf, World.storeReferrer, hx]

theorem ensureReferrerAccount_eq (w : World) (k : Key) :
    ensureReferrerAccount w k = (w.bookOf k, (w.books k).isNone) := by
  unfold ensureReferrerAccount World.bookOf
  cases w.books k <;> rfl

theorem Referrer.upline_eq_some {book : Referrer} {x y : Key} (h : book.upline x = some y) :
    book.referrer = y ∧ y ≠ .default ∧ y ≠ x := by
  unfold Referrer.upline at h
  split_ifs at h with hr
  cases h
  rw [not_or] at hr
  exact ⟨rfl, hr.1, hr.2⟩

theorem Referrer.upline_bound {book : Referrer} {x : Key} (hd : book.referrer ≠ .default) (hx : book.referrer ≠ x) :
    book.upline x = some book.referrer := by
  unfold Referrer.upline
  rw [if_neg (by rintro (h | h) <;> contradiction)]

theorem Referrer.upline_root {book : Referrer} {x : Key} (h : book.referrer = .default ∨ book.referrer = x) :
    book.upline x = none := if_pos h

theorem World.forest_of_bookOf (h : w'.bookOf = w.bookOf) : w'.forest = w.forest := by
  unfold World.forest World.upline
  rw [h]

theorem World.links_of_bookOf (h : w'.bookOf = w.bookOf) : w'.links = w.links := by
  unfold World.links
  rw [h]

theorem World.bookOf_of_books (h : w'.books = w.books) : w'.bookOf = w.bookOf := by
  unfold World.bookOf
  rw [h]

theorem World.forest_of_books (h : w'.books = w.books) : w'.forest = w.forest :=
  World.forest_of_bookOf (World.bookOf_of_books h)

theorem World.links_of_books (h : w'.books = w.books) : w'.links = w.links :=
  World.links_of_bookOf (World.bookOf_of_books h)

/-- a book is rewritten under the same referrer -/
theorem World.forest_store {k : Key} {book : Referrer} (h : book.referrer = (w.bookOf k).referrer) :
    (w.storeReferrer k book).forest =
      ⟨w.upline, update w.forest.value k book.value, update w.forest.l1 k book.l1Value, update w.forest.l2 k book.l2Value⟩ := by
  have hup : (w.storeReferrer k book).upline = w.upline := by
    funext x
    unfold World.upline
    rw [World.bookOf_store]
    rcases eq_or_ne x k with rfl | hx
    · rw [update_self]
      unfold Referrer.upline
      rw [h]
    · rw [update_of_ne hx]
  unfold World.forest
  rw [hup, World.bookOf_store]
  congr 1 <;> funext x <;> rcases eq_or_ne x k with rfl | hx <;> simp_all

theorem World.links_store (w : World) (k : Key) (book : Referrer) :
    (w.storeReferrer k book).links = update w.links k (book.referrer, book.nftMint) := by
  funext x
  unfold World.links
  rw [World.bookOf_store]
  rcases eq_or_ne x k with rfl | hx
  · simp
  · simp [hx]

/-! ## The loop check -/

theorem World.Binds.upline {x y : Key} (h : w.Binds x y) : w.upline x = some y := by
  obtain ⟨book, hbook, rfl, hd, hx⟩ := h
  unfold World.upline
  rw [World.bookOf_some hbook]
  exact Referrer.upline_bound hd hx

theorem World.Ends.upline {x : Key} {pool : List Key} (h : w.Ends pool x) : w.upline x = none := by
  unfold World.upline World.bookOf
  cases hbook : w.books x with
  | none => rfl
  | some book => exact Referrer.upline_root (h.2 book hbook)

/-- an account that the walk passes is not the locker, and what is left of a way to the locker starts there -/
theorem World.Passes.on_the_way {locker target x : Key} {pool : List Key} (hne : target ≠ locker)
    (h : w.Passes locker target pool x) : x ≠ locker ∧ (Above w.upline target locker → Above w.upline x locker) := by
  induction h with
  | refl => exact ⟨hne, id⟩
  | tail _ hxy ih =>
    obtain ⟨hx, hway⟩ := ih
    exact ⟨hxy.2.2.1, fun habove => (hway habove).next hx hxy.2.1.upline⟩

/-- **Loop check.** If the walk finds no loop, `locker` is not above `target`, whatever accounts were passed in. -/
theorem hasReferralLoop_no {locker target : Key} {pool : List Key} (hne : target ≠ locker)
    (h : hasReferralLoop w locker target pool = .ok .no) : ¬Above w.upline target locker := by
  intro habove
  obtain ⟨status, hstatus, hreports⟩ := hasReferralLoop_reports w pool hne
  cases h.symm.trans hstatus
  rcases hreports with hstops | ⟨hyes, -⟩
  · obtain ⟨x, hpasses, hends⟩ := stops_iff_passes.1 hstops
    obtain ⟨hx, hway⟩ := hpasses.on_the_way hne
    exact hx ((hway habove).of_root (hopFrom_no.1 hends).upline)
  · cases hyes

/-! ## Credit -/

/-- `v` was credited to `k` and to its uplines, and no book was bound -/
structure Credited (k : Key) (v : ℕ) (w w' : World) : Prop where
  forest : w'.forest = w.forest.credit k v
  links : w'.links = w.links

theorem Credited.zero (k : Key) (w : World) : Credited k 0 w w := ⟨(w.forest.credit_zero k).symm, rfl⟩

/-- a book is rewritten under the same referrer and with the same NFT -/
theorem World.links_store_same {k : Key} {book : Referrer} (h : (book.referrer, book.nftMint) = w.links k) :
    (w.storeReferrer k book).links = w.links := by
  rw [World.links_store, h, update_eq_self]

theorem referrer_of_links (h : w'.links = w.links) (x : Key) : (w'.bookOf x).referrer = (w.bookOf x).referrer :=
  congrArg Prod.fst (congrFun h x)

theorem upline_of_links (h : w'.links = w.links) : w'.upline = w.upline := by
  funext x
  unfold World.upline Referrer.upline
  rw [referrer_of_links h]

theorem World.forest_addValue (w : World) (k : Key) (v : ℕ) :
    (w.storeReferrer k { w.bookOf k with value := (w.bookOf k).value + v }).forest =
      { w.forest with value := raise w.forest.value (some k) v } := by
  refine (World.forest_store (by rfl)).trans ?_
  congr 1 <;> exact update_eq_self k _

theorem World.forest_addL1 (w : World) (k : Key) (v : ℕ) :
    (w.storeReferrer k { w.bookOf k with l1Value := (w.bookOf k).l1Value + v }).forest =
      { w.forest with l1 := raise w.forest.l1 (some k) v } := by
  refine (World.forest_store (by rfl)).trans ?_
  congr 1 <;> exact update_eq_self k _

theorem World.forest_setL2 (w : World) (k : Key) (y : ℕ) :
    (w.storeReferrer k { w.bookOf k with l2Value := y }).forest = { w.forest with l2 := update w.forest.l2 k y } := by
  refine (World.forest_store (by rfl)).trans ?_
  congr 1 <;> exact update_eq_self k _

/-- one level of the walk: it ends, or the book of `refKey` is credited -/
theorem creditUplines_ok {k refKey : Key} {v levels level : ℕ} {remaining : List Key}
    (h : creditUplines k v remaining true (levels + 1) level refKey w = .ok w') :
    (refKey = .default ∨ refKey = k) ∧ w' = w ∨
      (refKey ≠ .default ∧ refKey ≠ k) ∧ (w.books refKey).isSome ∧ ∃ up', creditLevel level v (w.bookOf refKey) = .ok up' ∧
        ((w.bookOf refKey).referrer = refKey ∧ w' = w.storeReferrer refKey up' ∨
          (w.bookOf refKey).referrer ≠ refKey ∧
            creditUplines k v remaining true levels (level + 1) (w.bookOf refKey).referrer (w.storeReferrer refKey up') = .ok w') := by
  unfold creditUplines at h
  split_ifs at h with hstop
  · cases h
    exact .inl ⟨hstop, rfl⟩
  rw [not_or] at hstop
  split at h
  · rename_i up _ hup
    rw [World.bookOf_some hup]
    simp only [bind_ok] at h
    obtain ⟨up', hlevel, h⟩ := h
    split_ifs at h with hself
    · cases h
      exact .inr ⟨hstop, by rw [hup]; rfl, up', hlevel, .inl ⟨hself, rfl⟩⟩
    · exact .inr ⟨hstop, by rw [hup]; rfl, up', hlevel, .inr ⟨hself, h⟩⟩
  · simp only [bind_ok, require_ok] at h
    obtain ⟨-, hrequired, -⟩ := h
    cases hrequired

theorem creditLevel_zero {v : ℕ} {up up' : Referrer} (h : creditLevel 0 v up = .ok up') :
    up' = { up with l1Value := up.l1Value + v } := by
  simp only [creditLevel, if_true, bind_ok, checkedAdd_ok, Except.ok.injEq] at h
  obtain ⟨_, ⟨-, rfl⟩, rfl⟩ := h
  rfl

theorem creditLevel_one {v : ℕ} {up up' : Referrer} (h : creditLevel 1 v up = .ok up') :
    up' = { up with l2Value := up.l2Value + v } := by
  simp only [creditLevel, one_ne_zero, if_false, if_true, bind_ok, checkedAdd_ok, Except.ok.injEq] at h
  obtain ⟨_, ⟨-, rfl⟩, rfl⟩ := h
  rfl

/-- the second level credits the upline above, if there is one -/
theorem creditUplines_second {k r : Key} {v : ℕ} {remaining : List Key} (hr : r = k → r = .default)
    (h : creditUplines k v remaining true 1 1 r w = .ok w') :
    w'.links = w.links ∧
      w'.forest = { w.forest with l2 := raise w.forest.l2 (if r = .default then none else some r) v } := by
  have hcredit : ∀ up', creditLevel 1 v (w.bookOf r) = .ok up' → r ≠ .default → (w.storeReferrer r up').links = w.links ∧
      (w.storeReferrer r up').forest = { w.forest with l2 := raise w.forest.l2 (if r = .default then none else some r) v } := by
    intro up' hup' hd
    cases creditLevel_one hup'
    rw [if_neg hd]
    exact ⟨World.links_store_same (by rfl), w.forest_setL2 r _⟩
  rcases creditUplines_ok h with ⟨hd | hk, rfl⟩ | ⟨⟨hd, -⟩, -, up', hup', ⟨-, rfl⟩ | ⟨-, h⟩⟩
  · rw [if_pos hd]
    exact ⟨rfl, rfl⟩
  · rw [if_pos (hr hk)]
    exact ⟨rfl, rfl⟩
  · exact hcredit up' hup' hd
  · cases h
    exact hcredit up' hup' hd

/-- the walk from a bound book credits its upline, and the upline above -/
theorem creditUplines_first {k r : Key} {v : ℕ} {remaining : List Key} (hd : r ≠ .default) (hr : r ≠ k)
    (hk : w.upline r ≠ some k) (h : creditUplines k v remaining true 2 0 r w = .ok w') :
    w'.links = w.links ∧
      w'.forest = { w.forest with l1 := raise w.forest.l1 (some r) v, l2 := raise w.forest.l2 (w.upline r) v } := by
  rcases creditUplines_ok h with ⟨hd' | hr', -⟩ | ⟨-, -, up', hup', h⟩
  · exact absurd hd' hd
  · exact absurd hr' hr
  cases creditLevel_zero hup'
  have hforest := w.forest_addL1 r v
  have hlinks : (w.storeReferrer r { w.bookOf r with l1Value := (w.bookOf r).l1Value + v }).links = w.links :=
    World.links_store_same (by rfl)
  generalize w.storeReferrer r { w.bookOf r with l1Value := (w.bookOf r).l1Value + v } = w₁ at h hforest hlinks
  rcases h with ⟨hself, rfl⟩ | ⟨hself, h⟩
  · have hup : w.upline r = none := Referrer.upline_root (.inr hself)
    rw [hup]
    exact ⟨hlinks, hforest⟩
  have hup : w.upline r = if (w.bookOf r).referrer = .default then none else some (w.bookOf r).referrer := by
    simp [World.upline, Referrer.upline, hself]
  have hne : (w.bookOf r).referrer = k → (w.bookOf r).referrer = .default := by
    intro heq
    by_contra hdef
    rw [hup, if_neg hdef, heq] at hk
    exact hk rfl
  obtain ⟨hlinks', hforest'⟩ := creditUplines_second hne h
  refine ⟨hlinks'.trans hlinks, ?_⟩
  rw [hforest', hforest, hup]

/-- what crediting leaves alone: everything but the totals in the books -/
structure KeepsLinks (w w' : World) : Prop where
  state : w'.state = w.state
  bank : w'.bank = w.bank
  links : w'.links = w.links
  isSome : ∀ x, (w'.books x).isSome = (w.books x).isSome

theorem KeepsLinks.refl (w : World) : KeepsLinks w w := ⟨rfl, rfl, rfl, fun _ => rfl⟩

theorem KeepsLinks.trans (h : KeepsLinks w w₁) (h' : KeepsLinks w₁ w₂) : KeepsLinks w w₂ :=
  ⟨h'.state.trans h.state, h'.bank.trans h.bank, h'.links.trans h.links, fun x => (h'.isSome x).trans (h.isSome x)⟩

theorem KeepsLinks.store {k : Key} {book : Referrer} (hlink : (book.referrer, book.nftMint) = w.links k)
    (hsome : (w.books k).isSome) : KeepsLinks w (w.storeReferrer k book) := by
  refine ⟨rfl, rfl, World.links_store_same hlink, fun x => ?_⟩
  rcases eq_or_ne x k with rfl | hx
  · rw [hsome]
    simp [World.storeReferrer]
  · simp [World.storeReferrer, hx]

theorem creditLevel_link {level v : ℕ} {up up' : Referrer} (h : creditLevel level v up = .ok up') :
    (up'.referrer, up'.nftMint) = (up.referrer, up.nftMint) := by
  unfold creditLevel at h
  split_ifs at h
  · simp only [bind_ok, Except.ok.injEq] at h
    obtain ⟨_, -, rfl⟩ := h
    rfl
  · simp only [bind_ok, Except.ok.injEq] at h
    obtain ⟨_, -, rfl⟩ := h
    rfl
  · cases h
    rfl

theorem creditUplines_keepsLinks {k refKey : Key} {v levels level : ℕ} {remaining : List Key}
    (h : creditUplines k v remaining true levels level refKey w = .ok w') : KeepsLinks w w' := by
  induction levels generalizing level refKey w with
  | zero =>
    cases h
    exact .refl _
  | succ levels ih =>
    rcases creditUplines_ok h with ⟨-, rfl⟩ | ⟨-, hsome, up', hup', ⟨-, rfl⟩ | ⟨-, h⟩⟩
    · exact .refl _
    · exact .store (creditLevel_link hup') hsome
    · exact (KeepsLinks.store (creditLevel_link hup') hsome).trans (ih h)

/-- a credit changes totals; every book keeps its referrer -/
theorem creditBooks_keepsLinks {k : Key} {v levels : ℕ} {remaining : List Key}
    (h : creditBooks w k v levels remaining true = .ok w') : KeepsLinks w w' := by
  unfold creditBooks at h
  split_ifs at h
  · cases h
    exact .refl w
  split at h
  · simp only [bind_ok, require_ok] at h
    obtain ⟨-, hrequired, -⟩ := h
    cases hrequired
  · rename_i book hbook
    simp only [bind_ok] at h
    obtain ⟨_, -, h⟩ := h
    refine KeepsLinks.trans (.store ?_ (by rw [hbook]; rfl)) (creditUplines_keepsLinks h)
    unfold World.links
    rw [World.bookOf_some hbook]

/-- **Credit.** What is credited to a book is credited to its upline and to the upline above. -/
theorem creditBooks_credited {k : Key} {v : ℕ} {remaining : List Key} (hg : Grounded w.upline)
    (h : creditBooks w k v 2 remaining true = .ok w') : Credited k v w w' := by
  unfold creditBooks at h
  split_ifs at h with hv
  · cases h
    subst hv
    exact .zero k w
  split at h
  · simp only [bind_ok, require_ok] at h
    obtain ⟨-, hrequired, -⟩ := h
    cases hrequired
  rename_i book hbook
  rw [← World.bookOf_some hbook] at h
  simp only [bind_ok, checkedAdd_ok] at h
  obtain ⟨_, ⟨-, rfl⟩, h⟩ := h
  have hforest := w.forest_addValue k v
  have hlinks : (w.storeReferrer k { w.bookOf k with value := (w.bookOf k).value + v }).links = w.links :=
    World.links_store_same (by rfl)
  generalize w.storeReferrer k { w.bookOf k with value := (w.bookOf k).value + v } = w₁ at h hforest hlinks
  have hupline : w₁.upline = w.upline := congrArg Forest.up hforest
  cases hup : w.upline k with
  | none =>
    have hstop : (w.bookOf k).referrer = .default ∨ (w.bookOf k).referrer = k := by
      by_contra hne
      rw [not_or] at hne
      cases hup.symm.trans (Referrer.upline_bound hne.1 hne.2)
    rcases creditUplines_ok h with ⟨-, rfl⟩ | ⟨⟨hd, hk⟩, -⟩
    · refine ⟨?_, hlinks⟩
      rw [hforest, Forest.credit, show w.forest.up k = none from hup]
      rfl
    · exact absurd hstop (not_or.2 ⟨hd, hk⟩)
  | some r =>
    obtain ⟨hr, hd, hk⟩ := Referrer.upline_eq_some hup
    rw [hr] at h
    obtain ⟨hlinks', hforest'⟩ := creditUplines_first hd hk (by rw [hupline]; exact hg.asymm hup) h
    refine ⟨?_, hlinks'.trans hlinks⟩
    rw [hforest', hforest, Forest.credit, show w.forest.up k = some r from hup, hupline]
    rfl

/-! ## The registry -/

/-- between `w` and `w'` no account left the registry of books, and none entered it twice -/
structure Enlists (w w' : World) : Prop where
  subset : w.state.referrers ⊆ w'.state.referrers
  nodup : w.state.referrers.Nodup → w'.state.referrers.Nodup

theorem Enlists.of_eq (h : w'.state.referrers = w.state.referrers) : Enlists w w' :=
  ⟨h ▸ List.Subset.refl _, h ▸ id⟩

theorem Enlists.trans (h : Enlists w w₁) (h' : Enlists w₁ w₂) : Enlists w w₂ :=
  ⟨List.Subset.trans h.subset h'.subset, h'.nodup ∘ h.nodup⟩

theorem registerReferrer_books (w : World) (k : Key) : (registerReferrer w k).books = w.books := by
  unfold registerReferrer reallocGraiState
  split_ifs <;> rfl

theorem registerReferrer_mem (w : World) (k : Key) : k ∈ (registerReferrer w k).state.referrers := by
  unfold registerReferrer
  split_ifs with hmem
  · exact hmem
  · exact List.mem_append_right _ List.mem_cons_self

theorem registerReferrer_enlists (w : World) (k : Key) : Enlists w (registerReferrer w k) := by
  unfold registerReferrer
  split_ifs with hmem
  · exact .of_eq rfl
  · refine ⟨List.subset_append_left _ _, fun hnodup => ?_⟩
    exact hnodup.append (List.nodup_singleton k) (by simpa using hmem)

theorem registerNew_books (w : World) (k : Key) (isNew : Bool) :
    (if isNew then registerReferrer w k else w).books = w.books := by
  split_ifs
  · exact registerReferrer_books w k
  · rfl

theorem registerNew_enlists (w : World) (k : Key) (isNew : Bool) : Enlists w (if isNew then registerReferrer w k else w) := by
  split_ifs
  · exact registerReferrer_enlists w k
  · exact .of_eq rfl

/-! ## Deposits -/

/-- how a deposit under `named` binds the book of `k`: the referrer it has then, and the books before the deposit is
credited -/
inductive Binding (w : World) (k named : Key) : Key → Forest Key → Prop where
  | kept (h : (w.bookOf k).referrer ≠ .default) : Binding w k named (w.bookOf k).referrer w.forest
  | root (h : (w.bookOf k).referrer = .default) : Binding w k named k w.forest
  | hung (h : (w.bookOf k).referrer = .default) (hd : named ≠ .default) (hne : named ≠ k) (hup : ¬Above w.upline named k) :
      Binding w k named named (w.forest.adopt k named)

theorem Binding.grounded {k named r : Key} {f : Forest Key} (hg : Grounded w.upline) (h : Binding w k named r f) :
    Grounded f.up := by
  cases h with
  | kept => exact hg
  | root => exact hg
  | hung _ _ _ hup => exact hg.hang hup

/-- only the link and the NFT of a book are rewritten -/
theorem World.forest_link (w : World) (k r nft : Key) :
    (w.storeReferrer k { w.bookOf k with referrer := r, nftMint := nft }).forest =
      { w.forest with up := update w.upline k (if r = .default ∨ r = k then none else some r) } := by
  unfold World.forest
  congr 1
  · funext x
    unfold World.upline
    rw [World.bookOf_store]
    rcases eq_or_ne x k with rfl | hx
    · simp only [update_self]
      rfl
    · simp only [update_of_ne hx]
  all_goals
    funext x
    rw [World.bookOf_store]
    rcases eq_or_ne x k with rfl | hx
    · simp only [update_self]
    · simp only [update_of_ne hx]

/-- the referrer a deposit settles on: the one that was bound, the one it names, or the depositor itself -/
theorem resolveReferrer_ok {k named r : Key} {remaining : List Key} (h : resolveReferrer w k named remaining = .ok r) :
    r = k ∨ r = named ∧ named ≠ .default ∧ named ≠ k ∧ ¬Above w.upline named k := by
  unfold resolveReferrer at h
  split_ifs at h with hd hk
  · cases h
    exact .inl rfl
  · cases h
    exact .inl hk
  · simp only [bind_ok] at h
    obtain ⟨-, -, status, hloop, h⟩ := h
    cases status with
    | incomplete => cases h
    | yes =>
      cases h
      exact .inl rfl
    | no =>
      cases h
      exact .inr ⟨rfl, hd, hk, hasReferralLoop_no hk hloop⟩

/-- the new upline takes over the `l1Value` of the book -/
theorem adoptReferrals_ok {book : Referrer} {r : Key} {remaining : List Key}
    (h : adoptReferrals w book r 2 remaining = .ok w') :
    w'.forest = { w.forest with l2 := raise w.forest.l2 (some r) book.l1Value } ∧ w'.links = w.links ∧ Enlists w w' ∧
      ∀ x, x ≠ r → w'.bookOf x = w.bookOf x := by
  simp only [adoptReferrals, ensureReferrerAccount_eq, bind_ok, Except.ok.injEq] at h
  obtain ⟨-, -, l2, hl2, rfl⟩ := h
  have hbooks := registerNew_books w r (w.books r).isNone
  have henlists := registerNew_enlists w r (w.books r).isNone
  generalize (if (w.books r).isNone = true then registerReferrer w r else w) = w₁ at hbooks henlists
  have hbook : w₁.bookOf = w.bookOf := World.bookOf_of_books hbooks
  have hl2 : l2 = (w₁.bookOf r).l2Value + book.l1Value := by
    rw [hbook]
    split_ifs at hl2 with hpos
    · obtain ⟨-, rfl⟩ := checkedAdd_ok.1 hl2
      rfl
    · cases hl2
      simp at hpos
      rw [hpos, Nat.add_zero]
  subst hl2
  rw [← hbook]
  refine ⟨?_, ?_, ⟨henlists.subset, henlists.nodup⟩, fun x hx => ?_⟩
  · rw [← World.forest_of_books hbooks]
    exact w₁.forest_setL2 r _
  · exact (World.links_store_same (by rfl)).trans (World.links_of_books hbooks)
  · rw [World.bookOf_store, update_of_ne hx]

/-- binding: the books before the one of the locker is stored again -/
theorem bindReferrer_ok {k named : Key} {book' : Referrer} {remaining : List Key}
    (h : bindReferrer w (w.bookOf k) k named 2 remaining = .ok (w', book')) :
    ∃ r f, Binding w k named r f ∧ book' = { w.bookOf k with referrer := r } ∧ w'.links = w.links ∧ Enlists w w' ∧
      w'.bookOf k = w.bookOf k ∧
      { w'.forest with up := update w.upline k (if r = .default ∨ r = k then none else some r) } = f := by
  unfold bindReferrer at h
  split_ifs at h with hbound
  · cases h
    refine ⟨_, _, .kept hbound, rfl, rfl, .of_eq rfl, rfl, ?_⟩
    show ({ w.forest with up := update w.upline k ((w.bookOf k).upline k) } : Forest Key) = _
    rw [show (w.bookOf k).upline k = w.upline k from rfl, update_eq_self]
    rfl
  rw [not_not] at hbound
  simp only [bind_ok, Except.ok.injEq, Prod.mk.injEq] at h
  obtain ⟨r, hr, w₁, hadopt, rfl, rfl⟩ := h
  split_ifs at hadopt with hself
  · cases hadopt
    subst hself
    refine ⟨_, _, .root hbound, rfl, rfl, .of_eq rfl, rfl, ?_⟩
    rw [if_pos (.inr rfl), ← show w.upline r = none from Referrer.upline_root (.inl hbound), update_eq_self]
    rfl
  · rcases resolveReferrer_ok hr with rfl | ⟨rfl, hd, hk, hup⟩
    · exact absurd rfl hself
    obtain ⟨hforest, hlinks, henlists, hother⟩ := adoptReferrals_ok hadopt
    refine ⟨_, _, .hung hbound hd hk hup, rfl, hlinks, henlists, hother k (Ne.symm hk), ?_⟩
    rw [hforest, if_neg (not_or.2 ⟨hd, hself⟩)]
    rfl

/-- **Deposits.** A deposit binds the book of the locker, at most once, and credits it; a new book is registered. -/
theorem mintReferrer_binds {k named nftAta : Key} {v : ℕ} {remaining : List Key} (hw : w.WF) (hg : Grounded w.upline)
    (h : mintReferrer w k named v remaining nftAta = .ok w') :
    ∃ r f nft, Binding w k named r f ∧ w'.forest = f.credit k v ∧ w'.links = update w.links k (r, nft) ∧ Enlists w w' ∧
      (w.books k = none → k ∈ w'.state.referrers) := by
  simp only [mintReferrer, ensureReferrerAccount_eq, hw.shares.levels, bind_ok, Prod.exists] at h
  obtain ⟨w₁, book₁, hbind, w₂, book₂, hnft, h⟩ := h
  have hbooked := registerNew_booked w k (w.books k).isNone
  have hbooks := registerNew_books w k (w.books k).isNone
  have henlists := registerNew_enlists w k (w.books k).isNone
  have hnew : w.books k = none → k ∈ (if (w.books k).isNone then registerReferrer w k else w).state.referrers := by
    intro hnone
    rw [hnone]
    exact registerReferrer_mem w k
  generalize (if (w.books k).isNone = true then registerReferrer w k else w) = w₀ at hbooked hbooks henlists hnew hbind
  have hbook₀ : w₀.bookOf = w.bookOf := World.bookOf_of_books hbooks
  have hup₀ : w₀.upline = w.upline := congrArg Forest.up (World.forest_of_books hbooks)
  have hbinding : ∀ {r f}, Binding w₀ k named r f → Binding w k named r f := by
    intro r f hb
    cases hb with
    | kept h =>
      rw [hbook₀, World.forest_of_books hbooks]
      exact .kept (hbook₀ ▸ h)
    | root h =>
      rw [World.forest_of_books hbooks]
      exact .root (hbook₀ ▸ h)
    | hung h hd hne hup =>
      rw [World.forest_of_books hbooks]
      exact .hung (hbook₀ ▸ h) hd hne (hup₀ ▸ hup)
  rw [← hbook₀] at hbind
  obtain ⟨r, f, hb, rfl, hlinks, henlists₁, hbook₁, hf⟩ := bindReferrer_ok hbind
  have hquiet₁ := (hbooked.trans (bindReferrer_booked hbind)).quiet
  obtain ⟨b, -, rfl, hbook₂⟩ := ensureTreasuryNft_ok (by rw [hquiet₁.graiMint]; exact hw.mint) hnft
  -- the locker's book is stored once its link and its NFT are known
  have hb := hbinding hb
  have hstore := World.forest_link { w₁ with bank := b } k r book₂.nftMint
  have hlinks₂ := World.links_store { w₁ with bank := b } k book₂
  have hbook₂ : book₂ = { (World.bookOf { w₁ with bank := b } k) with referrer := r, nftMint := book₂.nftMint } := by
    rw [hbook₂, show World.bookOf { w₁ with bank := b } k = w₀.bookOf k from hbook₁]
  have hup₁ : w₁.upline = w₀.upline := upline_of_links hlinks
  have hforest : (World.storeReferrer { w₁ with bank := b } k book₂).forest = f := by
    rw [hbook₂, hstore, ← hf, ← hup₁]
    rfl
  have hlinks₃ : (World.storeReferrer { w₁ with bank := b } k book₂).links = update w.links k (r, book₂.nftMint) := by
    rw [hlinks₂, show World.links { w₁ with bank := b } = w₁.links from rfl, hlinks, World.links_of_books hbooks]
    congr 1
    rw [hbook₂]
  have henlists₃ := henlists.trans henlists₁
  refine ⟨r, f, book₂.nftMint, hb, ?_⟩
  split_ifs at h with hv
  · have hup : (World.storeReferrer { w₁ with bank := b } k book₂).upline = f.up := congrArg Forest.up hforest
    have hcredit := creditBooks_credited (by rw [hup]; exact hb.grounded hg) h
    have hkept : w'.state.referrers = w₁.state.referrers := by rw [(creditBooks_keepsLinks h).state]; rfl
    refine ⟨by rw [hcredit.forest, hforest], hcredit.links.trans hlinks₃, henlists₃.trans (.of_eq hkept), fun hnone => ?_⟩
    rw [hkept]
    exact henlists₁.subset (hnew hnone)
  · cases h
    have hv : v = 0 := by omega
    subst hv
    exact ⟨by rw [hforest, Forest.credit_zero], hlinks₃, henlists₃.trans (.of_eq rfl),
      fun hnone => henlists₁.subset (hnew hnone)⟩

/-! ## Claims -/

/-- a distribution credits the book of the locker, which is opened unbound if there is none -/
theorem distributeClaimTreasury_credits {d : Distribution} {log : List TreasuryMsg} (hlevels : w.state.affiliateLevels = 2)
    (hg : Grounded w.upline) (h : distributeClaimTreasury w d = .ok (w', log)) :
    Credited d.locker d.claimedValue w w' ∧ w'.state.referrers = w.state.referrers := by
  obtain ⟨w₁, b, hcredit, -, rfl⟩ := distributeClaimTreasury_splits h
  simp only [creditClaim, ensureReferrerAccount_eq, hlevels, bind_ok] at hcredit
  obtain ⟨-, -, hcredit⟩ := hcredit
  obtain ⟨w₀, hw₀⟩ : ∃ w₀, w₀ = if (w.books d.locker).isNone = true then w.storeReferrer d.locker (w.bookOf d.locker) else w :=
    ⟨_, rfl⟩
  rw [← hw₀] at hcredit
  have hsame : w₀.bookOf = w.bookOf ∧ w₀.state = w.state := by
    rw [hw₀]
    split_ifs
    · rw [World.bookOf_store, update_eq_self]
      exact ⟨rfl, rfl⟩
    · exact ⟨rfl, rfl⟩
  have hforest : w₀.forest = w.forest := World.forest_of_bookOf hsame.1
  have hlinks : w₀.links = w.links := World.links_of_bookOf hsame.1
  have hcredited := creditBooks_credited (by rw [upline_of_links hlinks]; exact hg) hcredit
  refine ⟨⟨?_, ?_⟩, ?_⟩
  · rw [← hforest]
    exact hcredited.forest
  · rw [← hlinks]
    exact hcredited.links
  · show w₁.state.referrers = w.state.referrers
    rw [(creditBooks_keepsLinks hcredit).state, hsame.2]

/-- what was claimed for `k` was credited to it, and no account was registered -/
structure Claimed (k : Key) (w w' : World) : Prop where
  credited : ∃ v, Credited k v w w'
  referrers : w'.state.referrers = w.state.referrers
  levels : w'.state.affiliateLevels = w.state.affiliateLevels

theorem Claimed.of_books {k : Key} (hbooks : w'.books = w.books) (hstate : w'.state = w.state) : Claimed k w w' := by
  refine ⟨⟨0, ?_, World.links_of_books hbooks⟩, by rw [hstate], by rw [hstate]⟩
  rw [World.forest_of_books hbooks, Forest.credit_zero]

theorem Claimed.trans {k : Key} (h : Claimed k w w₁) (h' : Claimed k w₁ w₂) : Claimed k w w₂ := by
  obtain ⟨⟨v, hforest, hlinks⟩, hreferrers, hlevels⟩ := h
  obtain ⟨⟨u, hforest', hlinks'⟩, hreferrers', hlevels'⟩ := h'
  refine ⟨⟨v + u, ?_, hlinks'.trans hlinks⟩, hreferrers'.trans hreferrers, hlevels'.trans hlevels⟩
  rw [hforest', hforest, Forest.credit_credit]

theorem Claimed.grounded {k : Key} (hg : Grounded w.upline) (h : Claimed k w w') : Grounded w'.upline := by
  obtain ⟨v, hcredited⟩ := h.credited
  rwa [upline_of_links hcredited.links]

theorem payOut_claimed {p : Payout} {asset : AssetConfig} {position : Position} {log : List TreasuryMsg}
    (hlevels : w.state.affiliateLevels = 2) (hg : Grounded w.upline) (h : payOut w p asset position = .ok (w', log)) :
    Claimed p.holder w w' := by
  have hframe := congrArg GraiState.affiliateLevels (payOut_framed h).state
  obtain ⟨b, gross, revenue, w₁, -, -, hdist, -, rfl⟩ := payOut_pays h
  obtain ⟨hcredited, hreferrers⟩ := distributeClaimTreasury_credits (w := { w with bank := b }) hlevels hg hdist
  exact ⟨⟨_, hcredited.forest, hcredited.links⟩, hreferrers, hframe⟩

theorem executeClaim_claimed {a : Claim} {log : List TreasuryMsg} (hlevels : w.state.affiliateLevels = 2)
    (hg : Grounded w.upline) (h : executeClaim w a = .ok (w', log)) : Claimed a.holder w w' := by
  obtain ⟨_, _, _, _, _, _, -, -, -, ⟨rfl, -⟩ | ⟨_, _, -, hpay⟩⟩ := executeClaim_cases h
  · exact .of_books rfl rfl
  · exact Claimed.trans (.of_books (by rfl) (by rfl)) (payOut_claimed (by exact hlevels) (by exact hg) hpay)

theorem claimAsset_claimed {a : ClaimAll} {locked : ℕ} {m : Key} {slots : ClaimSlots} {affiliate : List Key}
    {log : List TreasuryMsg} (hlevels : w.state.affiliateLevels = 2) (hg : Grounded w.upline)
    (h : claimAsset w a locked m slots affiliate = .ok (w', log)) : Claimed a.holder w w' := by
  obtain ⟨_, _, _, -, -, -, ⟨rfl, -⟩ | ⟨_, _, -, hpay⟩⟩ := claimAsset_cases h
  · exact .of_books rfl rfl
  · exact Claimed.trans (.of_books (by rfl) (by rfl)) (payOut_claimed (by exact hlevels) (by exact hg) hpay)

theorem claimAssets_claimed {a : ClaimAll} {locked tail : ℕ} {mints remaining : List Key} {log : List TreasuryMsg}
    (hlevels : w.state.affiliateLevels = 2) (hg : Grounded w.upline)
    (h : claimAssets a locked tail mints remaining w = .ok (w', log)) : Claimed a.holder w w' := by
  induction mints generalizing remaining w log with
  | nil =>
    cases h
    exact .of_books rfl rfl
  | cons m mints ih =>
    simp only [claimAssets, bind_ok, Prod.exists, Except.ok.injEq, Prod.mk.injEq] at h
    obtain ⟨_, _, -, w₁, _, h₁, w₂, _, h₂, rfl, -⟩ := h
    have hclaimed := claimAsset_claimed hlevels hg h₁
    exact hclaimed.trans (ih (hclaimed.levels.trans hlevels) (hclaimed.grounded hg) h₂)

/-! ## Poaches -/

/-- a book is given by its links and its totals -/
theorem World.bookOf_congr {k : Key} (hlinks : w'.links k = w.links k) (hvalue : w'.forest.value k = w.forest.value k)
    (hl1 : w'.forest.l1 k = w.forest.l1 k) (hl2 : w'.forest.l2 k = w.forest.l2 k) : w'.bookOf k = w.bookOf k := by
  have hreferrer : (w'.bookOf k).referrer = (w.bookOf k).referrer := congrArg Prod.fst hlinks
  have hnft : (w'.bookOf k).nftMint = (w.bookOf k).nftMint := congrArg Prod.snd hlinks
  have hvalue : (w'.bookOf k).value = (w.bookOf k).value := hvalue
  have hl1 : (w'.bookOf k).l1Value = (w.bookOf k).l1Value := hl1
  have hl2 : (w'.bookOf k).l2Value = (w.bookOf k).l2Value := hl2
  cases hb : w'.bookOf k
  cases hb' : w.bookOf k
  simp_all

/-- the totals of a book are rewritten -/
theorem World.forest_levels (w : World) (k : Key) (x y : ℕ) :
    (w.storeReferrer k { w.bookOf k with l1Value := x, l2Value := y }).forest =
      { w.forest with l1 := update w.forest.l1 k x, l2 := update w.forest.l2 k y } := by
  refine (World.forest_store (by rfl)).trans ?_
  congr 1
  exact update_eq_self k _

theorem ensureRegistered_ok {info k : Key} {book : Referrer} (h : ensureRegistered w info k = .ok (w', book)) :
    book = w'.bookOf k ∧ w'.books = w.books ∧ Enlists w w' := by
  simp only [ensureRegistered, ensureReferrerAccount_eq, bind_ok, Except.ok.injEq, Prod.mk.injEq] at h
  obtain ⟨-, -, rfl, rfl⟩ := h
  have hbooks := registerNew_books w k (w.books k).isNone
  exact ⟨(congrFun (World.bookOf_of_books hbooks) k).symm, hbooks, registerNew_enlists w k _⟩

/-- the upline of `skip` has its `l2Value` rewritten, unless it has none -/
theorem shiftL2_ok {info key skip k : Key} {f : ℕ → Except ErrorCode ℕ} {g : ℕ → ℕ} (hkey : key = (w.bookOf skip).referrer)
    (hk : w.upline skip ≠ some k) (hf : ∀ x y, f x = .ok y → g x = y)
    (h : shiftL2 w info key skip k true f = .ok w') :
    w'.links = w.links ∧ Enlists w w' ∧ w'.forest =
      match w.upline skip with
      | none => w.forest
      | some z => { w.forest with l2 := update w.forest.l2 z (g (w.forest.l2 z)) } := by
  unfold shiftL2 at h
  split_ifs at h with hshift
  · obtain ⟨-, hd, hskip, -⟩ := hshift
    have hup : w.upline skip = some key := by
      rw [hkey] at hd hskip ⊢
      exact Referrer.upline_bound hd hskip
    simp only [bind_ok, Prod.exists, Except.ok.injEq] at h
    obtain ⟨w₁, book, hensure, y, hy, rfl⟩ := h
    obtain ⟨rfl, hbooks, henlists⟩ := ensureRegistered_ok hensure
    cases hf _ _ hy
    have hforest := World.forest_of_books hbooks
    refine ⟨(World.links_store_same (by rfl)).trans (World.links_of_books hbooks), henlists.trans (.of_eq rfl), ?_⟩
    rw [hup]
    dsimp only
    rw [← hforest]
    exact w₁.forest_setL2 key _
  · cases h
    refine ⟨rfl, .of_eq rfl, ?_⟩
    cases hup : w.upline skip with
    | none => rfl
    | some z =>
      obtain ⟨hz, hd, hskip⟩ := Referrer.upline_eq_some hup
      rw [← hkey] at hz
      subst hz
      exact absurd ⟨rfl, hd, hskip, fun hzk => hk (by rw [hup, hzk])⟩ hshift

/-- the seller loses the slot's own value and its direct referrals, the upline of the seller its own value -/
theorem debitSeller_ok {a : Poach} {seller : Key} {own direct : ℕ} (hk : w.upline seller ≠ some a.locker)
    (h : debitSeller w a seller own direct true = .ok w') :
    w'.links = w.links ∧ Enlists w w' ∧ w'.forest =
      { w.forest with
        l1 := lower w.forest.l1 (some seller) own
        l2 := lower (lower w.forest.l2 (some seller) direct) (w.upline seller) own } := by
  simp only [debitSeller, bind_ok, Prod.exists, if_true, checkedSub_ok] at h
  obtain ⟨w₁, book, hensure, _, ⟨-, rfl⟩, _, ⟨-, rfl⟩, h⟩ := h
  obtain ⟨rfl, hbooks, henlists⟩ := ensureRegistered_ok hensure
  have hforest := World.forest_of_books hbooks
  have hlevels := w₁.forest_levels seller ((w₁.bookOf seller).l1Value - own) ((w₁.bookOf seller).l2Value - direct)
  have hlinks : (w₁.storeReferrer seller { w₁.bookOf seller with
      l1Value := (w₁.bookOf seller).l1Value - own, l2Value := (w₁.bookOf seller).l2Value - direct }).links = w.links :=
    (World.links_store_same (by rfl)).trans (World.links_of_books hbooks)
  have hreferrer : (w₁.bookOf seller).referrer = (w.bookOf seller).referrer := by rw [World.bookOf_of_books hbooks]
  rw [hforest] at hlevels
  have henlists₂ : Enlists w (w₁.storeReferrer seller { w₁.bookOf seller with
      l1Value := (w₁.bookOf seller).l1Value - own, l2Value := (w₁.bookOf seller).l2Value - direct }) :=
    henlists.trans (.of_eq rfl)
  have hvalue : (w₁.bookOf seller).l1Value = w.forest.l1 seller ∧ (w₁.bookOf seller).l2Value = w.forest.l2 seller := by
    rw [World.bookOf_of_books hbooks]
    exact ⟨rfl, rfl⟩
  rw [hvalue.1, hvalue.2] at hlevels hlinks henlists₂ h
  generalize w₁.storeReferrer seller { w₁.bookOf seller with
      l1Value := w.forest.l1 seller - own, l2Value := w.forest.l2 seller - direct } = w₂ at h hlevels hlinks henlists₂
  have hup : w₂.upline = w.upline := upline_of_links hlinks
  obtain ⟨hlinks', henlists', hforest'⟩ := shiftL2_ok (hreferrer.trans (referrer_of_links hlinks seller).symm)
    (by rwa [hup]) (g := fun x => x - own) (fun x y hxy => (checkedSub_ok.1 hxy).2) h
  refine ⟨hlinks'.trans hlinks, henlists₂.trans henlists', ?_⟩
  rw [hforest', hlevels, hup]
  cases w.upline seller <;> rfl

/-- the buyer gains the slot's own value and its direct referrals -/
theorem creditBuyer_ok {a : Poach} {own direct : ℕ} {newL2 : Key} (h : creditBuyer w a own direct true = .ok (w', newL2)) :
    newL2 = (w.bookOf a.poacher.key).referrer ∧ w'.links = w.links ∧ Enlists w w' ∧ w'.forest =
      { w.forest with
        l1 := raise w.forest.l1 (some a.poacher.key) own
        l2 := raise w.forest.l2 (some a.poacher.key) direct } := by
  simp only [creditBuyer, bind_ok, Prod.exists, if_true, checkedAdd_ok, Except.ok.injEq, Prod.mk.injEq] at h
  obtain ⟨w₁, book, hensure, _, ⟨-, rfl⟩, _, ⟨-, rfl⟩, rfl, rfl⟩ := h
  obtain ⟨rfl, hbooks, henlists⟩ := ensureRegistered_ok hensure
  refine ⟨by rw [World.bookOf_of_books hbooks], ?_, henlists.trans (.of_eq rfl), ?_⟩
  · exact (World.links_store_same (by rfl)).trans (World.links_of_books hbooks)
  · rw [← World.forest_of_books hbooks]
    exact w₁.forest_levels _ _ _

/-- the slot `k` leaves the seller `s` if that is another account, and goes to the poacher `p` if that is another account -/
def poached (f : Forest Key) (k s p : Key) : Forest Key :=
  let f := if s = k then f else f.detach k s
  if p = k then f else f.attach k p

/-- between the two sides of a poach: the totals of `w₁` are those of `f`, and the slot `k` still has its book and its link -/
structure Released (w w₁ : World) (k : Key) (f : Forest Key) : Prop where
  links : w₁.links = w.links
  enlists : Enlists w w₁
  forest : w₁.forest = { f with up := w.upline }
  value : f.value = w.forest.value
  l1 : f.l1 k = w.forest.l1 k
  l2 : f.l2 k = w.forest.l2 k
  rest : ∀ r, update f.up k r = update w.upline k r

/-- the seller's side: a slot that has another account for its seller is detached from it -/
theorem released_by_seller {a : Poach} {s : Key} (hg : Grounded w.upline) (hs : (w.bookOf a.locker).referrer = s)
    (hd : s ≠ .default)
    (h : (if s = a.locker then .ok w
      else debitSeller w a s (w.bookOf a.locker).value (w.bookOf a.locker).l1Value true) = .ok w₁) :
    Released w w₁ a.locker (if s = a.locker then w.forest else w.forest.detach a.locker s) := by
  split_ifs at h ⊢ with hsk
  · cases h
    exact ⟨rfl, .of_eq rfl, rfl, rfl, rfl, rfl, fun _ => rfl⟩
  · have hupk : w.upline a.locker = some s := by
      rw [← hs] at hd hsk ⊢
      exact Referrer.upline_bound hd hsk
    obtain ⟨hlinks, henlists, hforest⟩ := debitSeller_ok (hg.asymm hupk) h
    have hups : w.forest.up s ≠ some a.locker := hg.asymm hupk
    refine ⟨hlinks, henlists, hforest, rfl, ?_, ?_, fun r => update_idem ..⟩
    · simp [Forest.detach, lower_apply, hsk]
    · simp [Forest.detach, lower_apply, hsk, hups]

/-- a poacher that buys its own slot is rooted: nobody is credited -/
theorem Released.root {k s : Key} (h : Released w w₁ k (w.forest.detach k s)) :
    (w₁.storeReferrer k { w.bookOf k with referrer := k }).forest = w.forest.detach k s ∧
      (w₁.storeReferrer k { w.bookOf k with referrer := k }).links = update w.links k (k, (w.bookOf k).nftMint) ∧
      Enlists w (w₁.storeReferrer k { w.bookOf k with referrer := k }) := by
  have hbook : w₁.bookOf k = w.bookOf k :=
    World.bookOf_congr (congrFun h.links _) (by rw [h.forest, h.value]) (by rw [h.forest, h.l1]) (by rw [h.forest, h.l2])
  rw [← hbook]
  have hlink := w₁.forest_link k k (w₁.bookOf k).nftMint
  refine ⟨hlink.trans ?_, ?_, h.enlists.trans (.of_eq rfl)⟩
  · rw [if_pos (.inr rfl), h.forest, upline_of_links h.links]
    rfl
  · rw [World.links_store, h.links]

/-- the poacher's side: the slot is attached to another account, which it is not above -/
theorem Released.rebind {a : Poach} {f : Forest Key} {newL2 : Key} (h : Released w w₁ a.locker f)
    (hpk : a.poacher.key ≠ a.locker) (hup : ¬Above w.upline a.poacher.key a.locker)
    (hbuyer : creditBuyer w₁ a (w.bookOf a.locker).value (w.bookOf a.locker).l1Value true = .ok (w₂, newL2))
    (hshift : shiftL2 (w₂.storeReferrer a.locker { w.bookOf a.locker with referrer := a.poacher.key }) a.newL2Book newL2
      a.poacher.key a.locker true (fun l2Value => checkedAdd u128 l2Value (w.bookOf a.locker).value .mathOverflow) = .ok w') :
    w'.forest = f.attach a.locker a.poacher.key ∧
      w'.links = update w.links a.locker (a.poacher.key, (w.bookOf a.locker).nftMint) ∧ Enlists w w' := by
  obtain ⟨hnew, hlinks₂, henlists₂, hforest₂⟩ := creditBuyer_ok hbuyer
  rw [h.forest] at hforest₂
  have hlinks : w₂.links = w.links := hlinks₂.trans h.links
  have hbook : w₂.bookOf a.locker = w.bookOf a.locker := by
    refine World.bookOf_congr (congrFun hlinks _) ?_ ?_ ?_
    · rw [hforest₂, h.value]
    · rw [hforest₂, ← h.l1]
      simp [raise_apply, hpk]
    · rw [hforest₂, ← h.l2]
      simp [raise_apply, hpk]
  rw [← hbook] at hshift ⊢
  have hlink := w₂.forest_link a.locker a.poacher.key (w₂.bookOf a.locker).nftMint
  have hlinks₃ := w₂.links_store a.locker { w₂.bookOf a.locker with referrer := a.poacher.key }
  rw [if_neg (not_or.2 ⟨by exact Key.noConfusion, hpk⟩), hforest₂, upline_of_links hlinks, ← h.rest] at hlink
  have henlists₃ : Enlists w (w₂.storeReferrer a.locker { w₂.bookOf a.locker with referrer := a.poacher.key }) :=
    (h.enlists.trans henlists₂).trans (.of_eq rfl)
  rw [hlinks] at hlinks₃
  generalize w₂.storeReferrer a.locker { w₂.bookOf a.locker with referrer := a.poacher.key } = w₃
    at hshift hlink hlinks₃ henlists₃
  -- the poacher's own link is the one it had before
  have hreferrer : (w₃.bookOf a.poacher.key).referrer = (w.bookOf a.poacher.key).referrer := by
    have hlinkp := congrFun hlinks₃ a.poacher.key
    rw [update_of_ne hpk] at hlinkp
    exact congrArg Prod.fst hlinkp
  have hupp : w₃.upline a.poacher.key = w.upline a.poacher.key := by
    unfold World.upline Referrer.upline
    rw [hreferrer]
  have hnew : newL2 = (w₃.bookOf a.poacher.key).referrer := by
    rw [hnew, hreferrer, referrer_of_links h.links]
  have hnot : w₃.upline a.poacher.key ≠ some a.locker := by
    rw [hupp]
    exact fun heq => hup (.head heq (.refl _ _))
  obtain ⟨hlinks', henlists', hforest'⟩ := shiftL2_ok hnew hnot (g := fun x => x + (w₂.bookOf a.locker).value)
    (fun x y hxy => (checkedAdd_ok.1 hxy).2) hshift
  refine ⟨?_, hlinks'.trans hlinks₃, henlists₃.trans henlists'⟩
  have hfup : f.up a.poacher.key = w.upline a.poacher.key := by
    have hsame := congrFun (h.rest a.locker) a.poacher.key
    rwa [update_of_ne hpk, update_of_ne hpk] at hsame
  have hown : (w.bookOf a.locker).value = f.value a.locker := (congrFun h.value _).symm
  have hdirect : (w.bookOf a.locker).l1Value = f.l1 a.locker := h.l1.symm
  rw [hforest', hlink, hupp, hbook, hown, hdirect, Forest.attach, hfup]
  cases w.upline a.poacher.key <;> rfl

/-- **Rebinding.** A slot is detached from its seller and attached to the poacher, which it is not above. -/
theorem rebindSlot_ok {a : Poach} (hlevels : w.state.affiliateLevels = 2) (hg : Grounded w.upline)
    (hd : (w.bookOf a.locker).referrer ≠ .default)
    (hself : a.poacher.key = a.locker → (w.bookOf a.locker).referrer ≠ a.locker)
    (hup : a.poacher.key ≠ a.locker → ¬Above w.upline a.poacher.key a.locker)
    (h : rebindSlot w a (w.bookOf a.locker) (w.bookOf a.locker).referrer = .ok w') :
    w'.forest = poached w.forest a.locker (w.bookOf a.locker).referrer a.poacher.key ∧
      w'.links = update w.links a.locker (a.poacher.key, (w.bookOf a.locker).nftMint) ∧ Enlists w w' := by
  have hshift : decide (1 < w.state.affiliateLevels) = true := by
    rw [hlevels]
    rfl
  simp only [rebindSlot, hshift, bind_ok] at h
  obtain ⟨-, -, w₁, hdebit, h⟩ := h
  have hreleased := released_by_seller hg rfl hd hdebit
  unfold poached
  dsimp only
  by_cases hpk : a.poacher.key = a.locker
  · rw [if_neg (hself hpk)] at hreleased ⊢
    rw [if_pos hpk] at h ⊢
    cases h
    rw [hpk]
    exact hreleased.root
  · rw [if_neg hpk] at h ⊢
    simp only [bind_ok, Prod.exists] at h
    obtain ⟨w₂, newL2, hbuyer, h⟩ := h
    exact hreleased.rebind hpk (hup hpk) hbuyer h

/-- a poach that passes rebinds a bound slot, to a poacher that is not below it -/
theorem executePoach_ok {a : Poach} (h : executePoach w a = .ok w') :
    (w.bookOf a.locker).referrer ≠ .default ∧ (a.poacher.key ≠ a.locker → ¬Above w.upline a.poacher.key a.locker) ∧
      (a.poacher.key = a.locker → (w.bookOf a.locker).referrer ≠ a.locker) ∧
      ∃ b, rebindSlot { w with bank := b } a (w.bookOf a.locker) (w.bookOf a.locker).referrer = .ok w' := by
  simp only [executePoach, bind_ok, require_ok, demand_ok, Prod.exists] at h
  obtain ⟨book, hbook, -, -, -, -, -, -, -, -, -, -, b, -, -, -, price, seller, hprice, -, hself, -, -, -, -, status, hloop, _, hno, -, -,
    -, -, -, -, b₁, -, b₂, -, h⟩ := h
  simp only [previewPoach, bind_ok, require_ok, Except.ok.injEq, Prod.mk.injEq] at hprice
  obtain ⟨-, hd, -, -, -, -, -, -, -, -, -, rfl⟩ := hprice
  have hup : a.poacher.key ≠ a.locker → ¬Above w.upline a.poacher.key a.locker := by
    intro hne
    cases status with
    | no =>
      have habove := hasReferralLoop_no hne hloop
      exact habove
    | yes => cases hno
    | incomplete => cases hno
  have hbook := World.bookOf_some hbook
  rw [← hbook] at hd hself h
  exact ⟨hd, hup, hself, b₂, h⟩

theorem executePoach_rebinds {a : Poach} (hlevels : w.state.affiliateLevels = 2) (hg : Grounded w.upline)
    (h : executePoach w a = .ok w') :
    (w.bookOf a.locker).referrer ≠ .default ∧ (a.poacher.key ≠ a.locker → ¬Above w.upline a.poacher.key a.locker) ∧
      (a.poacher.key = a.locker → (w.bookOf a.locker).referrer ≠ a.locker) ∧
      w'.forest = poached w.forest a.locker (w.bookOf a.locker).referrer a.poacher.key ∧
      w'.links = update w.links a.locker (a.poacher.key, (w.bookOf a.locker).nftMint) ∧ Enlists w w' := by
  obtain ⟨hd, hup, hself, b, h⟩ := executePoach_ok h
  obtain ⟨hforest, hlinks, henlists⟩ := rebindSlot_ok (w := { w with bank := b }) hlevels hg hd hself hup h
  exact ⟨hd, hup, hself, hforest, hlinks, henlists.subset, henlists.nodup⟩

/-! ## Every step -/

/-- the deposit that an instruction makes -/
def Instr.asDeposit : Instr → Option Deposit
  | .deposit a => some a
  | .depositSol a => some a.deposit
  | _ => none

/-- what a step may do to the books: credit one (nothing is credited where no book is touched), bind and credit the one of a
depositor, or rebind one by a poach -/
inductive Rebook (w : World) (i : Instr) (w' : World) : Prop where
  | credit (k : Key) (v : ℕ) (hcredit : Credited k v w w') (hlist : w'.state.referrers = w.state.referrers)
  | bind (a : Deposit) (r : Key) (f : Forest Key) (nft : Key) (v : ℕ) (hi : i.asDeposit = some a)
      (hbind : Binding w a.depositor.key a.referrer r f) (hforest : w'.forest = f.credit a.depositor.key v)
      (hlinks : w'.links = update w.links a.depositor.key (r, nft)) (hlist : Enlists w w')
      (hnew : w.books a.depositor.key = none → a.depositor.key ∈ w'.state.referrers)
  | poach (a : Poach) (hi : i = .poach a) (hd : (w.bookOf a.locker).referrer ≠ .default)
      (hup : a.poacher.key ≠ a.locker → ¬Above w.upline a.poacher.key a.locker)
      (hself : a.poacher.key = a.locker → (w.bookOf a.locker).referrer ≠ a.locker)
      (hforest : w'.forest = poached w.forest a.locker (w.bookOf a.locker).referrer a.poacher.key)
      (hlinks : w'.links = update w.links a.locker (a.poacher.key, (w.bookOf a.locker).nftMint)) (hlist : Enlists w w')

theorem Rebook.of_books {i : Instr} (hbooks : w'.books = w.books) (hlist : w'.state.referrers = w.state.referrers) :
    Rebook w i w' :=
  .credit .default 0 ⟨by rw [World.forest_of_books hbooks, Forest.credit_zero], World.links_of_books hbooks⟩ hlist

theorem Unbooked.rebooks {i : Instr} (h : Unbooked w w') : Rebook w i w' := .of_books h.books h.referrers

theorem Claimed.rebooks {i : Instr} {k : Key} (h : Claimed k w w') : Rebook w i w' := by
  obtain ⟨v, hcredited⟩ := h.credited
  exact .credit k v hcredited h.referrers

theorem lockDeposit_books {a : Deposit} {graiOut n : ℕ} (hw : w.WF) (h : lockDeposit w a graiOut n = .ok w') :
    w'.books = w.books ∧ w'.state.referrers = w.state.referrers := by
  obtain ⟨w₁, e₁, rfl, ⟨rfl, -⟩ | hlock⟩ := lockDeposit_cases h
  · exact ⟨rfl, rfl⟩
  · have hlock := performLock_unbooked hw hlock
    exact ⟨hlock.books, hlock.referrers⟩

/-- a deposit binds an unbound book, and credits the two books above it -/
theorem bookDeposit_rebooks {a : Deposit} {supply decimals : ℕ} {price : PriceData} {i : Instr} {b : Bank Key}
    (hw : World.WF { w with bank := b }) (hg : Grounded w.upline) (hi : i.asDeposit = some a)
    (h : bookDeposit { w with bank := b } a supply decimals price = .ok w') : Rebook w i w' := by
  obtain ⟨value, _, b₁, _, w₁, _, -, hb, hmint, h⟩ := bookDeposit_moves h
  have hwf := hw.bank (a.move_moves hb)
  have hquiet := mintReferrer_quiet (w := { w with bank := b₁ }) hw.mint hmint
  have hwf₁ := hquiet.wf hwf
  obtain ⟨hbooks, hreferrers⟩ := lockDeposit_books (by exact hwf₁.keep rfl (fun _ => rfl) hwf₁.guarded) h
  obtain ⟨r, f, nft, hbind, hforest, hlinks, hlist, hnew⟩ := mintReferrer_binds (w := { w with bank := b₁ }) hwf hg hmint
  have hbooks : w'.books = w₁.books := hbooks
  have hreferrers : w'.state.referrers = w₁.state.referrers := hreferrers
  refine .bind a r f nft value hi ?_ ?_ ?_ ⟨?_, ?_⟩ ?_
  · cases hbind with
    | kept h => exact .kept h
    | root h => exact .root h
    | hung h hd hne hup => exact .hung h hd hne hup
  · rw [World.forest_of_books hbooks, hforest]
  · rw [World.links_of_books hbooks, hlinks]
    rfl
  · rw [hreferrers]
    exact hlist.subset
  · rw [hreferrers]
    exact hlist.nodup
  · rw [hreferrers]
    exact hnew

/-- **Every step.** What commits credits a book, binds the one of a depositor, or is a poach. -/
theorem step_rebooks {i : Instr} (hw : w.WF) (hg : Grounded w.upline) (h : step w i = .ok w') : Rebook w i w' := by
  have hlevels := hw.shares.levels
  cases i with
  | transferOwnership a | acceptOwnership a | setBeneficiar a | setRoyaltyBps a | setRevenueShareBps a | setGrinders a =>
    obtain ⟨_, _, _, _, _, _, _, rfl⟩ := step_governs rfl h
    exact .of_books rfl rfl
  | setConfig a =>
    obtain ⟨-, rfl⟩ := executeSetConfig_adjusts h
    exact .of_books rfl rfl
  | setBribeable a =>
    obtain ⟨_, -, rfl⟩ := executeSetBribeable_marks h
    exact .of_books rfl rfl
  | setFeed a => exact (executeSetFeed_unbooked h).rebooks
  | deposit a =>
    obtain ⟨_, _, _, _, hwf, h⟩ := executeDeposit_books hw h
    exact bookDeposit_rebooks hwf hg rfl h
  | depositSol a =>
    obtain ⟨_, _, _, _, hwf, h⟩ := executeDepositSol_books hw h
    exact bookDeposit_rebooks hwf hg rfl h
  | distribute a => exact (executeDistribute_unbooked h).rebooks
  | lock a => exact (executeLock_unbooked hw h).rebooks
  | unlock a => exact (executeUnlock_unbooked hw h).rebooks
  | claim a =>
    simp only [step, bind_ok, Prod.exists, Except.ok.injEq] at h
    obtain ⟨_, _, h, rfl⟩ := h
    exact (executeClaim_claimed hlevels hg h).rebooks
  | claimAll a =>
    simp only [step, bind_ok, Prod.exists, Except.ok.injEq] at h
    obtain ⟨_, _, h, rfl⟩ := h
    obtain ⟨_, h⟩ := executeClaimAll_walks h
    exact (claimAssets_claimed hlevels hg h).rebooks
  | vote a => exact (executeVote_unbooked hw h).rebooks
  | bribe a => exact (executeBribe_unbooked hw h).rebooks
  | poach a =>
    obtain ⟨hd, hup, hself, hforest, hlinks, hlist⟩ := executePoach_rebinds hlevels hg h
    exact .poach a rfl hd hup hself hforest hlinks hlist
  | liquidate a =>
    obtain ⟨_, _, _, -, -, -, -, -, -, rfl⟩ := executeLiquidate_opens h
    exact .of_books rfl rfl
  | redeem a => exact (executeRedeem_unbooked hw h).rebooks
  | revive a =>
    obtain ⟨_, _, -, -, -, rfl⟩ := executeRevive_closes h
    exact .of_books rfl rfl
  | token s op =>
    simp only [step, bind_ok, Except.ok.injEq] at h
    obtain ⟨-, -, _, -, rfl⟩ := h
    exact .of_books rfl rfl
  | wrap k x =>
    simp only [step, bind_ok, Except.ok.injEq] at h
    obtain ⟨_, -, rfl⟩ := h
    exact .of_books rfl rfl
  | grinders k g =>
    cases h
    exact .of_books rfl rfl

/-! ## Along a run -/

/-- whatever happens to the books in one step, every line of referrers still comes to an end -/
theorem Rebook.grounded {i : Instr} (hg : Grounded w.upline) (h : Rebook w i w') : Grounded w'.upline := by
  cases h with
  | credit k v hcredit _ => rwa [upline_of_links hcredit.links]
  | bind a r f nft v _ hbind hforest =>
    have hup : w'.upline = f.up := congrArg Forest.up hforest
    rw [hup]
    exact hbind.grounded hg
  | poach a _ _ hup _ hforest =>
    have hup' : w'.upline = (poached w.forest a.locker (w.bookOf a.locker).referrer a.poacher.key).up := congrArg Forest.up hforest
    rw [hup']
    generalize (w.bookOf a.locker).referrer = s
    have hseller : Grounded (if s = a.locker then w.forest else w.forest.detach a.locker s).up := by
      split_ifs
      · exact hg
      · exact hg.cut a.locker
    have habove : ∀ x, Above (if s = a.locker then w.forest else w.forest.detach a.locker s).up x a.locker →
        Above w.upline x a.locker := by
      intro x h
      split_ifs at h
      · exact h
      · exact Grounded.above_of_cut h
    unfold poached
    generalize (if s = a.locker then w.forest else w.forest.detach a.locker s) = f at hseller habove
    dsimp only
    split_ifs with hpk
    · exact hseller
    · exact hseller.hang fun h => hup hpk (habove _ h)

namespace Genesis

theorem bookOf (g : Genesis) : g.world.bookOf = fun _ => Referrer.empty := by
  funext x
  unfold World.bookOf
  rw [g.blank.books]
  rfl

theorem grounded (g : Genesis) : Grounded g.world.upline := by
  have hroot : ∀ x, g.world.upline x = none := by
    intro x
    unfold World.upline
    rw [g.bookOf]
    exact Referrer.upline_root (.inl rfl)
  refine ⟨fun x => .intro x fun y hy => ?_⟩
  rw [hroot] at hy
  cases hy

theorem after_grounded (g : Genesis) (is : List Instr) : Grounded (g.after is).upline :=
  g.after_induct (P := fun w => Grounded w.upline) g.grounded (fun _ _ _ hw hg h => (step_rebooks hw hg h).grounded hg) is

end Genesis

/-- **Referral forest.** After every run one gets from every account, going up the sticky referrers, over distinct accounts to
one that is unbound or its own referrer; and the referrer of a bound book changes only by a poach of that locker. The induction
is over the run, with `step_rebooks` for the step: whatever happens to the books in one instruction is a credit, a binding or a
poach. A binding or a poach hangs an account below one that it is not above, which is what the loop check of the code
establishes. -/
theorem referral_forest (g : Genesis) (is : List Instr) :
    (∀ x, ∃ rest : List Key,
      (x :: rest).IsChain (fun a b => ((g.after is).bookOf a).referrer = b ∧ b ≠ .default ∧ b ≠ a) ∧ (x :: rest).Nodup ∧
        ∃ r, (x :: rest).getLast? = some r ∧ (((g.after is).bookOf r).referrer = .default ∨ ((g.after is).bookOf r).referrer = r)) ∧
    ∀ i w' x, step (g.after is) i = .ok w' → ((g.after is).bookOf x).referrer ≠ .default →
      (w'.bookOf x).referrer ≠ ((g.after is).bookOf x).referrer → ∃ a, i = .poach a ∧ a.locker = x := by
  have hg := g.after_grounded is
  refine ⟨fun x => ?_, fun i w' x h hbound hchanged => ?_⟩
  · obtain ⟨rest, hchain, hnodup, hroot⟩ := hg.path x
    refine ⟨rest, hchain.imp fun a b hab => Referrer.upline_eq_some hab, hnodup, _, List.getLast?_eq_some_getLast (List.cons_ne_nil x rest), ?_⟩
    by_contra hne
    rw [not_or] at hne
    cases hroot.symm.trans (Referrer.upline_bound hne.1 hne.2)
  · have hkept : w'.links x ≠ (g.after is).links x := fun heq => hchanged (congrArg Prod.fst heq)
    cases step_rebooks (g.after_wf is) hg h with
    | credit k v hcredit _ => exact absurd (congrFun hcredit.links x) hkept
    | bind a r f nft v _ hbind _ hlinks =>
      exfalso
      rcases eq_or_ne x a.depositor.key with rfl | hx
      · have hlink := congrArg Prod.fst (congrFun hlinks a.depositor.key)
        rw [update_self] at hlink
        -- a bound book keeps its referrer
        cases hbind with
        | kept _ => exact hchanged hlink
        | root hunbound => exact hbound hunbound
        | hung hunbound _ _ _ => exact hbound hunbound
      · rw [hlinks, update_of_ne hx] at hkept
        exact hkept rfl
    | poach a hi _ _ _ _ hlinks =>
      refine ⟨a, hi, ?_⟩
      by_contra hne
      rw [hlinks, update_of_ne (Ne.symm hne)] at hkept
      exact hkept rfl

end Grindurus.Grai
