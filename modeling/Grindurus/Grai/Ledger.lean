/-
What the GRAI program is for, as a ledger: stakes that vote and earn, listed assets that pay through an index, and a book
of shares with a value behind them. This layer is not the code. `step_committed` shows that every instruction of the code is a
transition here.

- `Ledger`: stakes (lock, vote, their totals and member lists), per listed asset an index and a reserve (`Pool`), the
  checkpoints of the accounts, what the program's token accounts hold, and the share book.
- `Head`: the moves that change the share book or the list of assets. `Step`: the moves of stakes. `Accrue`: a dividend.
- `Trans p s who act s'`: a transition. It is a head, then steps, then at most one dividend; or an account that collects.
  `who` is the one account whose stake changes size, if any, and `act` says who moved: an account that collects or opens
  a checkpoint, the owner who lists an asset, a holder who burns shares.

Invariants, each proved move by move and then for transitions:
- `Staked`: totals and member lists are those of the stakes, and the locked shares are held.
- `Funded`: the vault of a listed asset holds its reserve, its treasury the treasury's part of it.
- `Overhung slack`: what accounts may collect is covered up to `slack`, which grows by one per change of a stake.
- `Aligned`: no checkpoint owes more than its stake has earned. `OnAccount`, `Entitled`: what one account collected and may
  collect.
- `Consistent`: there is book value exactly when there are shares, while liquidation is closed.
- `Trans.price`: the value behind a share never falls.
-/
import Grindurus.Lib.Registry
import Grindurus.Lib.RewardIndex

namespace Grindurus.Grai

open Tally Registry RewardIndex Function

/-! ## The ledger -/

/-- a listed asset: its dividend index and what is reserved for claims -/
structure Pool where
  acc : ℕ
  reserve : ℕ
  deriving DecidableEq, Repr

/-- what the program's token accounts hold -/
structure Holdings (K : Type) where
  grai : ℕ
  vault : K → ℕ
  treasury : K → ℕ

structure Ledger (K : Type) where
  lock : K → ℕ
  voted : K → ℕ
  totalLocked : ℕ
  totalVoted : ℕ
  lockers : List K
  voters : List K
  asset : K → Option Pool
  pos : K → K → Option Checkpoint
  held : Holdings K
  dividendCut : ℕ
  treasuryCut : ℕ
  totalValue : ℕ
  supply : ℕ
  liquidation : Bool

variable {K : Type} [DecidableEq K] {p : ℕ}

/-- a member list after the stake of `u` went from `old` to `new` -/
def relist (l : List K) (u : K) (old new : ℕ) : List K :=
  if old = 0 ∧ new ≠ 0 then l ++ [u] else if old ≠ 0 ∧ new = 0 then swapRemove l u else l

namespace Ledger

/-- `u` is settled in every listed asset, to the stake `n` -/
def settleAll (p : ℕ) (s : Ledger K) (u : K) (n : ℕ) (m : K) : K → Option Checkpoint :=
  match s.asset m with
  | none => s.pos m
  | some q => update (s.pos m) u (some (touch p q.acc (s.lock u) n (s.pos m u)))

/-- the checkpoint of `u` in `m` is opened, empty, unless it exists -/
def openPosition (s : Ledger K) (u m : K) : Ledger K :=
  { s with pos := update s.pos m (update (s.pos m) u (some ((s.pos m u).getD ⟨0, 0⟩))) }

/-- the holdings `h` keep the reserve of every listed asset other than `but`, and its treasury -/
def KeepsAssets (s : Ledger K) (but : Option K) (h : Holdings K) : Prop :=
  ∀ m q, s.asset m = some q → some m ≠ but →
    min (s.held.vault m) q.reserve ≤ h.vault m ∧ s.held.treasury m ≤ h.treasury m

/-- the holdings `h` keep the locked shares -/
def KeepsLocked (s : Ledger K) (h : Holdings K) : Prop := min s.held.grai s.totalLocked ≤ h.grai

end Ledger

/-- who moved, where an invariant depends on it -/
inductive Actor (K : Type) where
  | nobody
  /-- a holder burns shares of its own -/
  | burner
  /-- the owner lists the asset -/
  | lister (m : K)
  /-- the account collects -/
  | collector (u : K)
  /-- the account opens its own checkpoint -/
  | opener (u : K)
  deriving DecidableEq

/-- the moves that change the share book or the list of assets -/
inductive Head (s : Ledger K) : Actor K → Ledger K → Prop where
  | none : Head s .nobody s
  | issue (value out : ℕ) (hout : 0 < out) (hvalue : 0 < value) (hclosed : s.liquidation = false)
      (hbook : 0 < s.totalValue ∨ s.supply = 0) (hprice : out * s.totalValue ≤ value * s.supply) :
      Head s .nobody { s with totalValue := s.totalValue + value, supply := s.supply + out }
  | retire (g : ℕ) (hg : 0 < g) (hle : g ≤ s.supply) (hopen : s.liquidation = true) :
      Head s .nobody { s with totalValue := s.totalValue - g * s.totalValue / s.supply, supply := s.supply - g }
  | burn (g : ℕ) (hle : g ≤ s.supply) : Head s .burner { s with supply := s.supply - g }
  | liquidate : Head s .nobody { s with liquidation := true }
  | revive (hopen : s.liquidation = true) :
      Head s .nobody { s with totalValue := if s.supply = 0 then 0 else s.totalValue, liquidation := false }
  | list (m : K) (hm : s.asset m = Option.none) :
      Head s (.lister m) { s with asset := update s.asset m (some ⟨0, 0⟩) }
  | delist (m : K) (acc : ℕ) (hm : s.asset m = some ⟨acc, 0⟩) :
      Head s .nobody { s with asset := update s.asset m Option.none }

/-- the moves of stakes; the label names the stake that changes size -/
inductive Step (p : ℕ) (s : Ledger K) : Option K → Ledger K → Prop where
  /-- tokens move, the locked shares, the reserves and the treasuries stay -/
  | flow (h : Holdings K) (hgrai : s.KeepsLocked h) (hassets : s.KeepsAssets none h) :
      Step p s none { s with held := h }
  /-- the stake of `u` becomes `n`, its vote `v`; `u` is settled in every listed asset -/
  | resize (u : K) (n v totalLocked totalVoted : ℕ) (h : Holdings K)
      (hlocked : totalLocked + s.lock u = s.totalLocked + n) (hvoted : totalVoted + s.voted u = s.totalVoted + v)
      (hle : s.voted u ≤ s.lock u → v ≤ n) (hgrai : s.held.grai + n ≤ h.grai + s.lock u)
      (hassets : s.KeepsAssets none h) :
      Step p s (if n = s.lock u then none else some u)
        { s with
          lock := update s.lock u n
          voted := update s.voted u v
          totalLocked, totalVoted
          lockers := relist s.lockers u (s.lock u) n
          voters := relist s.voters u (s.voted u) v
          pos := s.settleAll p u n
          held := h }

/-- a dividend: the index of `m` moves to `acc` and `r` arrives in its vault; its treasury gains `gain` -/
inductive Accrue (p : ℕ) (s : Ledger K) : Ledger K → Prop where
  | accrue (m : K) (q : Pool) (acc r gain : ℕ) (h : Holdings K) (hm : s.asset m = some q)
      (hacc : q.acc ≤ acc) (hr : earned p s.totalLocked acc = earned p s.totalLocked q.acc + r)
      (hgain : r * s.treasuryCut ≤ gain * s.dividendCut) (hvault : s.held.vault m + r ≤ h.vault m)
      (htreasury : s.held.treasury m + gain ≤ h.treasury m) (hgrai : s.KeepsLocked h)
      (hassets : s.KeepsAssets (some m) h) :
      Accrue p s { s with asset := update s.asset m (some ⟨acc, q.reserve + r⟩), held := h }

/-- the moves of an account that collects -/
inductive Collect (p : ℕ) (u : K) (s : Ledger K) : Ledger K → Prop where
  /-- `u` is settled in `m` at its stake -/
  | touch (m : K) (q : Pool) (hm : s.asset m = some q) :
      Collect p u s { s with
        pos := update s.pos m (update (s.pos m) u (some (touch p q.acc (s.lock u) (s.lock u) (s.pos m u)))) }
  /-- `u` collects `x` of `m`; its treasury pays out at most the part that goes with it -/
  | pay (m : K) (q : Pool) (c : Checkpoint) (x paid : ℕ) (h : Holdings K) (hm : s.asset m = some q)
      (hu : s.pos m u = some c) (hx : x ≤ c.claimable) (hres : x ≤ q.reserve)
      (hpaid : paid * s.dividendCut ≤ x * s.treasuryCut) (hvault : s.held.vault m ≤ h.vault m + x)
      (htreasury : s.held.treasury m ≤ h.treasury m + paid) (hgrai : s.KeepsLocked h)
      (hassets : s.KeepsAssets (some m) h) :
      Collect p u s { s with
        asset := update s.asset m (some ⟨q.acc, q.reserve - x⟩)
        pos := update s.pos m (update (s.pos m) u (some { c with claimable := c.claimable - x }))
        held := h }

/-- steps in a row, in which at most one stake changes size, once -/
inductive Steps (p : ℕ) : Ledger K → Option K → Ledger K → Prop where
  | nil (s : Ledger K) : Steps p s none s
  | quiet {s t r : Ledger K} {who : Option K} (h : Step p s none t) (hr : Steps p t who r) : Steps p s who r
  | change {s t r : Ledger K} {u : K} (h : Step p s (some u) t) (hr : Steps p t none r) : Steps p s (some u) r

/-- steps, and then at most one dividend -/
inductive Moves (p : ℕ) (s : Ledger K) (who : Option K) : Ledger K → Prop where
  | steps {t : Ledger K} (hs : Steps p s who t) : Moves p s who t
  | accrues {r t : Ledger K} (hs : Steps p s who r) (ha : Accrue p r t) : Moves p s who t

inductive Trans (p : ℕ) (s : Ledger K) : Option K → Actor K → Ledger K → Prop where
  | moves {r t : Ledger K} {who : Option K} {act : Actor K} (hh : Head s act r) (hm : Moves p r who t) :
      Trans p s who act t
  | opens {t : Ledger K} (u m : K) (hm : Moves p (s.openPosition u m) none t) : Trans p s none (.opener u) t
  | collects {t : Ledger K} {u : K} (hc : Relation.ReflTransGen (Collect p u) s t) : Trans p s none (.collector u) t

theorem Steps.single {s t : Ledger K} {who : Option K} (h : Step p s who t) : Steps p s who t := by
  cases who with
  | none => exact .quiet h (.nil t)
  | some u => exact .change h (.nil t)

theorem Steps.cons {who : Option K} {s t r : Ledger K} (h : Step p s who t) (hr : Steps p t none r) : Steps p s who r := by
  cases who with
  | none => exact .quiet h hr
  | some u => exact .change h hr

theorem Steps.append {who : Option K} {s t r : Ledger K} (h : Steps p s none t) (hr : Steps p t who r) :
    Steps p s who r := by
  generalize hn : (none : Option K) = n at h
  induction h with
  | nil => exact hr
  | quiet hs _ ih => exact .quiet hs (ih hr hn)
  | change => cases hn

theorem Steps.followed {who : Option K} {s t r : Ledger K} (h : Steps p s who t) (hr : Steps p t none r) : Steps p s who r := by
  induction h with
  | nil => exact hr
  | quiet hs _ ih => exact .quiet hs (ih hr)
  | change hs _ ih => exact .change hs (ih hr)

theorem Trans.steps {s t : Ledger K} {who : Option K} (h : Steps p s who t) : Trans p s who .nobody t :=
  .moves .none (.steps h)

theorem Trans.head {s t : Ledger K} {act : Actor K} (h : Head s act t) : Trans p s none act t := .moves h (.steps (.nil t))

/-- what every step preserves, steps in a row preserve -/
theorem Steps.invariant {P : Ledger K → Prop} (hstep : ∀ s who t, Step p s who t → P s → P t) {who : Option K}
    {s t : Ledger K} (h : Steps p s who t) (hs : P s) : P t := by
  induction h with
  | nil => exact hs
  | quiet h _ ih => exact ih (hstep _ _ _ h hs)
  | change h _ ih => exact ih (hstep _ _ _ h hs)

/-- what every move of a collecting account preserves, collecting preserves -/
theorem Collect.invariant {P : Ledger K → Prop} {u : K} (hstep : ∀ s t, Collect p u s t → P s → P t) {s t : Ledger K}
    (h : Relation.ReflTransGen (Collect p u) s t) (hs : P s) : P t := by
  induction h with
  | refl => exact hs
  | tail _ hst ih => exact hstep _ _ hst ih

theorem Moves.invariant {P : Ledger K → Prop} (hstep : ∀ s who t, Step p s who t → P s → P t)
    (haccrue : ∀ s t, Accrue p s t → P s → P t) {who : Option K} {s t : Ledger K} (h : Moves p s who t) (hs : P s) : P t := by
  cases h with
  | steps h => exact h.invariant hstep hs
  | accrues h ha => exact haccrue _ _ ha (h.invariant hstep hs)

/-- **Transition invariant.** What each kind of move preserves, transitions preserve. -/
theorem Trans.invariant {P : Ledger K → Prop} (hhead : ∀ s act t, Head s act t → P s → P t)
    (hopen : ∀ s u m, P s → P (s.openPosition u m)) (hstep : ∀ s who t, Step p s who t → P s → P t)
    (haccrue : ∀ s t, Accrue p s t → P s → P t) (hcollect : ∀ u s t, Collect p u s t → P s → P t) {s t : Ledger K}
    {who : Option K} {act : Actor K} (h : Trans p s who act t) (hs : P s) : P t := by
  cases h with
  | moves hh hm => exact hm.invariant hstep haccrue (hhead _ _ _ hh hs)
  | opens u m hm => exact hm.invariant hstep haccrue (hopen s u m hs)
  | collects hc => exact Collect.invariant (hcollect _) hc hs

/-! ## What a transition leaves alone -/

/-- steps do not touch the share book, the cuts, or which assets are listed -/
structure SameBook (s t : Ledger K) : Prop where
  totalValue : t.totalValue = s.totalValue
  supply : t.supply = s.supply
  liquidation : t.liquidation = s.liquidation
  dividendCut : t.dividendCut = s.dividendCut
  treasuryCut : t.treasuryCut = s.treasuryCut
  listed : ∀ m, (t.asset m).isSome = (s.asset m).isSome

omit [DecidableEq K] in
theorem SameBook.refl (s : Ledger K) : SameBook s s := ⟨rfl, rfl, rfl, rfl, rfl, fun _ => rfl⟩

omit [DecidableEq K] in
theorem SameBook.trans {s t r : Ledger K} (h : SameBook s t) (h' : SameBook t r) : SameBook s r :=
  ⟨h'.totalValue.trans h.totalValue, h'.supply.trans h.supply, h'.liquidation.trans h.liquidation,
    h'.dividendCut.trans h.dividendCut, h'.treasuryCut.trans h.treasuryCut, fun m => (h'.listed m).trans (h.listed m)⟩

theorem isSome_update {s : Ledger K} {m : K} {q q' : Pool} (hm : s.asset m = some q) (n : K) :
    (update s.asset m (some q') n).isSome = (s.asset n).isSome := by
  rcases eq_or_ne n m with rfl | hn
  · simp [hm]
  · rw [update_of_ne hn]

theorem Step.sameBook {s t : Ledger K} {who : Option K} (h : Step p s who t) : SameBook s t := by
  cases h <;> exact ⟨rfl, rfl, rfl, rfl, rfl, fun _ => rfl⟩

theorem Accrue.sameBook {s t : Ledger K} (h : Accrue p s t) : SameBook s t := by
  cases h with
  | accrue m q acc r gain h hm => exact ⟨rfl, rfl, rfl, rfl, rfl, isSome_update hm⟩

theorem Collect.sameBook {s t : Ledger K} {u : K} (h : Collect p u s t) : SameBook s t := by
  cases h with
  | touch => exact ⟨rfl, rfl, rfl, rfl, rfl, fun _ => rfl⟩
  | pay m q c x paid h hm => exact ⟨rfl, rfl, rfl, rfl, rfl, isSome_update hm⟩

theorem Steps.sameBook {s t : Ledger K} {who : Option K} (h : Steps p s who t) : SameBook s t := by
  induction h with
  | nil => exact .refl _
  | quiet h _ ih => exact h.sameBook.trans ih
  | change h _ ih => exact h.sameBook.trans ih

theorem Moves.sameBook {s t : Ledger K} {who : Option K} (h : Moves p s who t) : SameBook s t := by
  cases h with
  | steps h => exact h.sameBook
  | accrues h ha => exact h.sameBook.trans ha.sameBook

theorem Head.cuts {s t : Ledger K} {act : Actor K} (h : Head s act t) : t.dividendCut = s.dividendCut ∧ t.treasuryCut = s.treasuryCut := by
  cases h <;> exact ⟨rfl, rfl⟩

/-- no transition changes the cuts -/
theorem Trans.cuts {s t : Ledger K} {who : Option K} {act : Actor K} (h : Trans p s who act t) :
    t.dividendCut = s.dividendCut ∧ t.treasuryCut = s.treasuryCut := by
  refine Trans.invariant (P := fun r => r.dividendCut = s.dividendCut ∧ r.treasuryCut = s.treasuryCut) ?_ (fun _ _ _ => id)
    ?_ ?_ ?_ h ⟨rfl, rfl⟩
  · intro r _ t hh ⟨h₁, h₂⟩
    exact ⟨hh.cuts.1.trans h₁, hh.cuts.2.trans h₂⟩
  · intro r _ t hs ⟨h₁, h₂⟩
    exact ⟨hs.sameBook.dividendCut.trans h₁, hs.sameBook.treasuryCut.trans h₂⟩
  · intro r t ha ⟨h₁, h₂⟩
    exact ⟨ha.sameBook.dividendCut.trans h₁, ha.sameBook.treasuryCut.trans h₂⟩
  · intro u r t hc ⟨h₁, h₂⟩
    exact ⟨hc.sameBook.dividendCut.trans h₁, hc.sameBook.treasuryCut.trans h₂⟩

theorem Head.lock {s t : Ledger K} {act : Actor K} (h : Head s act t) : t.lock = s.lock := by cases h <;> rfl

theorem Accrue.lock {s t : Ledger K} (h : Accrue p s t) : t.lock = s.lock := by cases h; rfl

theorem Collect.lock {s t : Ledger K} {u : K} (h : Collect p u s t) : t.lock = s.lock := by cases h <;> rfl

/-- the stakes of `s` and `t` differ exactly in the stake of `who` -/
def StakeOf (s t : Ledger K) : Option K → Prop
  | none => t.lock = s.lock
  | some u => ∃ n, n ≠ s.lock u ∧ t.lock = update s.lock u n

/-- a move before, or after, that keeps the stakes -/
theorem StakeOf.of_eq {s s' t t' : Ledger K} {who : Option K} (h : StakeOf s t who) (hs : s.lock = s'.lock)
    (ht : t'.lock = t.lock) : StakeOf s' t' who := by
  cases who with
  | none => exact ht.trans ((show t.lock = s.lock from h).trans hs)
  | some u =>
    obtain ⟨n, hn, hr⟩ := h
    rw [hs] at hn hr
    exact ⟨n, hn, ht.trans hr⟩

/-- the label of a step is the stake that changes -/
theorem Step.stakeOf {s t : Ledger K} {who : Option K} (h : Step p s who t) : StakeOf s t who := by
  cases h with
  | flow => rfl
  | resize u n v totalLocked totalVoted h =>
    by_cases hn : n = s.lock u
    · rw [if_pos hn, hn]
      exact update_eq_self u s.lock
    · rw [if_neg hn]
      exact ⟨n, hn, rfl⟩

theorem Steps.stakeOf {s t : Ledger K} {who : Option K} (h : Steps p s who t) : StakeOf s t who := by
  induction h with
  | nil => rfl
  | @quiet s t r who h hr ih =>
    have hst : t.lock = s.lock := h.stakeOf
    exact ih.of_eq hst rfl
  | @change s t r u h hr ih =>
    have htr : r.lock = t.lock := ih
    exact h.stakeOf.of_eq rfl htr

theorem Moves.stakeOf {s t : Ledger K} {who : Option K} (h : Moves p s who t) : StakeOf s t who := by
  cases h with
  | steps h => exact h.stakeOf
  | accrues h ha => exact h.stakeOf.of_eq rfl ha.lock

theorem Trans.stakeOf {s t : Ledger K} {who : Option K} {act : Actor K} (h : Trans p s who act t) : StakeOf s t who := by
  cases h with
  | collects hc =>
    exact Collect.invariant (P := fun r => r.lock = s.lock) (fun _ _ hst hP => hst.lock.trans hP) hc rfl
  | moves hh hm => exact hm.stakeOf.of_eq hh.lock rfl
  | opens u m hm => exact hm.stakeOf

/-- the label of a transition is some account exactly when a stake changed -/
theorem Trans.changed_iff {s t : Ledger K} {who : Option K} {act : Actor K} (h : Trans p s who act t) :
    who.isSome ↔ ∃ u, t.lock u ≠ s.lock u := by
  have hl := h.stakeOf
  cases who with
  | none =>
    have hl : t.lock = s.lock := hl
    simp [hl]
  | some u =>
    obtain ⟨n, hn, ht⟩ := hl
    simp only [Option.isSome_some, true_iff]
    exact ⟨u, by simpa [ht] using hn⟩

/-! ## Stakes -/

/-- totals and member lists are those of the stakes, no stake votes beyond its size, and the locked shares are held -/
structure Staked (s : Ledger K) : Prop where
  locked : HasTotal s.lock s.totalLocked
  voted : HasTotal s.voted s.totalVoted
  voted_le : ∀ u, s.voted u ≤ s.lock u
  lockers : Tracks s.lockers fun u => 0 < s.lock u
  voters : Tracks s.voters fun u => 0 < s.voted u
  backed : s.totalLocked ≤ s.held.grai

theorem relist_tracks {l : List K} {q : K → ℕ} (h : Tracks l fun u => 0 < q u) (u : K) (n : ℕ) :
    Tracks (relist l u (q u) n) fun v => 0 < update q u n v := by
  have hframe : ∀ v, v ≠ u → (0 < update q u n v ↔ 0 < q v) := by
    intro v hv
    rw [update_of_ne hv]
  unfold relist
  split_ifs with h₁ h₂
  · exact h.push (by omega) (by rw [update_self]; omega) hframe
  · exact h.remove (by rw [update_self]; omega) hframe
  · refine h.congr fun v => ?_
    rcases eq_or_ne v u with rfl | hv
    · rw [update_self]
      omega
    · exact (hframe v hv).symm

theorem Staked.head {s t : Ledger K} {act : Actor K} (h : Staked s) (hh : Head s act t) : Staked t := by
  cases hh <;> exact ⟨h.locked, h.voted, h.voted_le, h.lockers, h.voters, h.backed⟩

omit [DecidableEq K] in
/-- holdings that keep the locked shares keep them backed -/
theorem Staked.keeps {s : Ledger K} (h : Staked s) {h' : Holdings K} (hk : s.KeepsLocked h') :
    s.totalLocked ≤ h'.grai := by
  have hb := h.backed
  unfold Ledger.KeepsLocked at hk
  omega

/-- locks and their total move together, whatever the ledger does -/
theorem Staked.step {who : Option K} {s t : Ledger K} (h : Staked s) (hs : Step p s who t) : Staked t := by
  cases hs with
  | flow h' hgrai => exact { h with backed := h.keeps hgrai }
  | resize u n v totalLocked totalVoted h' hlocked hvoted hle hgrai =>
    have hb := h.backed
    have hu := h.locked.le u
    refine ⟨h.locked.update u n hlocked, h.voted.update u v hvoted, ?_, relist_tracks h.lockers u n,
      relist_tracks h.voters u v, ?_⟩
    · intro w
      show update s.voted u v w ≤ update s.lock u n w
      rcases eq_or_ne w u with rfl | hw
      · rw [update_self, update_self]
        exact hle (h.voted_le w)
      · rw [update_of_ne hw, update_of_ne hw]
        exact h.voted_le w
    · show totalLocked ≤ h'.grai
      omega

theorem Staked.accrue {s t : Ledger K} (h : Staked s) (ha : Accrue p s t) : Staked t := by
  cases ha with
  | accrue m q acc r gain h' hm hacc hr hgain hvault htreasury hgrai => exact { h with backed := h.keeps hgrai }

theorem Staked.collect {u : K} {s t : Ledger K} (h : Staked s) (hs : Collect p u s t) : Staked t := by
  cases hs with
  | touch => exact { h with }
  | pay m q c x paid h' hm hu hx hres hpaid hvault htreasury hgrai => exact { h with backed := h.keeps hgrai }

theorem Staked.trans {s t : Ledger K} {who : Option K} {act : Actor K} (h : Staked s) (ht : Trans p s who act t) :
    Staked t :=
  ht.invariant (fun _ _ _ hh hP => Staked.head hP hh) (fun _ _ _ hP => { hP with })
    (fun _ _ _ hs hP => Staked.step hP hs) (fun _ _ ha hP => Staked.accrue hP ha)
    (fun _ _ _ hc hP => Staked.collect hP hc) h

/-! ## Reserves -/

/-- a listed asset's vault holds its reserve, and its treasury the treasury's part of it -/
def Funded (s : Ledger K) : Prop :=
  ∀ m q, s.asset m = some q →
    q.reserve ≤ s.held.vault m ∧ q.reserve * s.treasuryCut ≤ s.held.treasury m * s.dividendCut

/-- reading an updated table of assets -/
theorem update_some {s : Ledger K} {m n : K} {a : Option Pool} {q : Pool} (h : update s.asset m a n = some q) :
    n = m ∧ a = some q ∨ n ≠ m ∧ s.asset n = some q := by
  rcases eq_or_ne n m with rfl | hne
  · rw [update_self] at h
    exact .inl ⟨rfl, h⟩
  · rw [update_of_ne hne] at h
    exact .inr ⟨hne, h⟩

/-- the first part of a step: what is settled moves from the index to the positions, and the reserve covers both -/
theorem Funded.head {s t : Ledger K} {act : Actor K} (h : Funded s) (hh : Head s act t) : Funded t := by
  cases hh with
  | none | issue | retire | burn | liquidate | revive => exact h
  | list m hm =>
    intro n q hn
    rcases update_some hn with ⟨rfl, hq⟩ | ⟨-, hn⟩
    · cases hq
      exact ⟨Nat.zero_le _, by simp⟩
    · exact h n q hn
  | delist m acc hm =>
    intro n q hn
    rcases update_some hn with ⟨rfl, hq⟩ | ⟨-, hn⟩
    · cases hq
    · exact h n q hn

omit [DecidableEq K] in
/-- holdings that keep the other assets keep them funded -/
theorem Funded.keeps {s : Ledger K} (h : Funded s) {but : Option K} {h' : Holdings K} (hk : s.KeepsAssets but h') {n : K}
    {q : Pool} (hn : s.asset n = some q) (hne : some n ≠ but) :
    q.reserve ≤ h'.vault n ∧ q.reserve * s.treasuryCut ≤ h'.treasury n * s.dividendCut := by
  obtain ⟨h₁, h₂⟩ := hk n q hn hne
  obtain ⟨h₃, h₄⟩ := h n q hn
  exact ⟨by omega, h₄.trans (Nat.mul_le_mul_right _ h₂)⟩

theorem Funded.step {s t : Ledger K} {who : Option K} (h : Funded s) (hs : Step p s who t) : Funded t := by
  cases hs with
  | flow h' hgrai hassets =>
    intro n q hn
    exact h.keeps hassets hn (by simp)
  | resize u n v totalLocked totalVoted h' hlocked hvoted hle hgrai hassets =>
    intro n q hn
    exact h.keeps hassets hn (by simp)

/-- a dividend is added to the reserve before it is spread over the locks; what rounding loses stays in the reserve -/
theorem Funded.accrue {s t : Ledger K} (h : Funded s) (ha : Accrue p s t) : Funded t := by
  cases ha with
  | accrue m q acc r gain h' hm hacc hr hgain hvault htreasury hgrai hassets =>
    intro n q' hn
    rcases update_some hn with ⟨rfl, hq⟩ | ⟨hne, hn⟩
    · cases hq
      obtain ⟨h₁, h₂⟩ := h n q hm
      refine ⟨(Nat.add_le_add_right h₁ r).trans hvault, ?_⟩
      calc (q.reserve + r) * s.treasuryCut = q.reserve * s.treasuryCut + r * s.treasuryCut := Nat.add_mul ..
        _ ≤ s.held.treasury n * s.dividendCut + gain * s.dividendCut := Nat.add_le_add h₂ hgain
        _ = (s.held.treasury n + gain) * s.dividendCut := (Nat.add_mul ..).symm
        _ ≤ h'.treasury n * s.dividendCut := Nat.mul_le_mul_right _ htreasury
    · exact h.keeps hassets hn (by simpa using hne)

/-- what is collected was pending, and leaves the vault and the reserve together -/
theorem Funded.collect {s t : Ledger K} {u : K} (h : Funded s) (hs : Collect p u s t) : Funded t := by
  cases hs with
  | touch => exact h
  | pay m q c x paid h' hm hu hx hres hpaid hvault htreasury hgrai hassets =>
    intro n q' hn
    rcases update_some hn with ⟨rfl, hq⟩ | ⟨hne, hn⟩
    · cases hq
      obtain ⟨h₁, h₂⟩ := h n q hm
      have h₃ := Nat.mul_le_mul_right s.dividendCut htreasury
      rw [Nat.add_mul] at h₃
      refine ⟨show q.reserve - x ≤ h'.vault n by omega, ?_⟩
      show (q.reserve - x) * s.treasuryCut ≤ h'.treasury n * s.dividendCut
      rw [Nat.sub_mul]
      omega
    · exact h.keeps hassets hn (by simpa using hne)

theorem Funded.trans {s t : Ledger K} {who : Option K} {act : Actor K} (h : Funded s) (ht : Trans p s who act t) :
    Funded t :=
  ht.invariant (fun _ _ _ hh hP => Funded.head hP hh) (fun _ _ _ hP => hP) (fun _ _ _ hs hP => Funded.step hP hs)
    (fun _ _ ha hP => Funded.accrue hP ha) (fun _ _ _ hc hP => Funded.collect hP hc) h

/-! ## Overhang -/

/-- what accounts may collect of `m` is covered up to `slack` -/
def Overhung (p : ℕ) (m : K) (slack : ℕ) (s : Ledger K) : Prop :=
  match s.asset m with
  | some q => Covered p q.acc s.lock (s.pos m) s.totalLocked q.reserve slack
  | none => Stale (s.pos m) slack

omit [DecidableEq K] in
theorem Overhung.some_iff {m : K} {slack : ℕ} {s : Ledger K} {q : Pool} (hm : s.asset m = some q) :
    Overhung p m slack s ↔ Covered p q.acc s.lock (s.pos m) s.totalLocked q.reserve slack := by
  simp [Overhung, hm]

omit [DecidableEq K] in
theorem Overhung.none_iff {m : K} {slack : ℕ} {s : Ledger K} (hm : s.asset m = none) :
    Overhung p m slack s ↔ Stale (s.pos m) slack := by
  simp [Overhung, hm]

omit [DecidableEq K] in
/-- a ledger that agrees on the asset, its checkpoints and the stakes is as well covered -/
theorem Overhung.congr {m : K} {slack : ℕ} {s t : Ledger K} (h : Overhung p m slack s) (ha : t.asset m = s.asset m)
    (hp : t.pos m = s.pos m) (hl : t.lock = s.lock) (ht : t.totalLocked = s.totalLocked) : Overhung p m slack t := by
  unfold Overhung at h ⊢
  rwa [ha, hp, hl, ht]

theorem Overhung.head {m : K} {slack : ℕ} {s t : Ledger K} {act : Actor K} (h : Overhung p m slack s) (hs : Staked s) (hh : Head s act t) :
    Overhung p m slack t := by
  cases hh with
  | none | issue | retire | burn | liquidate | revive => exact h
  | list n hn =>
    rcases eq_or_ne m n with rfl | hne
    · refine (Overhung.some_iff (update_self ..)).2 ?_
      exact ((Overhung.none_iff hn).1 h).covered hs.locked
    · exact h.congr (update_of_ne hne ..) rfl rfl rfl
  | delist n acc hn =>
    rcases eq_or_ne m n with rfl | hne
    · refine (Overhung.none_iff (update_self ..)).2 ?_
      exact ((Overhung.some_iff hn).1 h).stale
    · exact h.congr (update_of_ne hne ..) rfl rfl rfl

/-- the cost of a step: one if `m` is listed and a stake changes -/
def settleCost (m : K) (who : Option K) (s : Ledger K) : ℕ := if (s.asset m).isSome ∧ who.isSome then 1 else 0

omit [DecidableEq K] in
@[simp] theorem settleCost_none (m : K) (s : Ledger K) : settleCost m none s = 0 := by simp [settleCost]

/-- only a settlement can add to what the floors leave over, by its cost at most -/
theorem Overhung.step (hp : 0 < p) {m : K} {slack : ℕ} {s t : Ledger K} {who : Option K} (h : Overhung p m slack s)
    (hs : Step p s who t) : Overhung p m (slack + settleCost m who s) t := by
  cases hs with
  | flow =>
    rw [settleCost_none]
    exact h
  | resize u n v totalLocked totalVoted h' hlocked =>
    cases hm : s.asset m with
    | none =>
      refine (Overhung.none_iff (by exact hm)).2 ?_
      simpa [settleCost, hm, Ledger.settleAll] using (Overhung.none_iff hm).1 h
    | some q =>
      have hc := ((Overhung.some_iff hm).1 h).settle hp u hlocked
      have hcost : settleCost m (if n = s.lock u then none else some u) s = if n = s.lock u then 0 else 1 := by
        split_ifs <;> simp [settleCost, hm]
      refine (Overhung.some_iff (by exact hm)).2 ?_
      simpa only [hcost, Ledger.settleAll, hm] using hc

theorem Overhung.accrue {m : K} {slack : ℕ} {s t : Ledger K} (h : Overhung p m slack s) (ha : Accrue p s t) :
    Overhung p m slack t := by
  cases ha with
  | accrue n q acc r gain h' hn hacc hr =>
    rcases eq_or_ne m n with rfl | hne
    · refine (Overhung.some_iff (update_self ..)).2 ?_
      exact ((Overhung.some_iff hn).1 h).accrue hacc hr
    · exact h.congr (by exact update_of_ne hne _ _) rfl rfl rfl

/-- an empty checkpoint claims nothing -/
theorem Overhung.opened {m : K} {slack : ℕ} {s : Ledger K} (h : Overhung p m slack s) (u n : K) :
    Overhung p m slack (s.openPosition u n) := by
  rcases eq_or_ne m n with rfl | hne
  · cases hu : s.pos m u with
    | some c => exact h.congr rfl (by simp [Ledger.openPosition, hu, update_eq_self_iff]) rfl rfl
    | none =>
      cases hm : s.asset m with
      | none =>
        obtain ⟨claims, hc, hle⟩ := (Overhung.none_iff hm).1 h
        refine (Overhung.none_iff (by exact hm)).2 ⟨claims, hc.congr fun v => ?_, hle⟩
        rcases eq_or_ne v u with rfl | hv
        · simp [Ledger.openPosition, claimableOf, hu]
        · simp [Ledger.openPosition, claimableOf, hv]
      | some q =>
        refine (Overhung.some_iff (by exact hm)).2 ?_
        simpa [Ledger.openPosition, hu] using ((Overhung.some_iff hm).1 h).open hu
  · exact h.congr rfl (by exact update_of_ne hne _ _) rfl rfl

/-- collecting takes from what is pending and from the reserve alike, so the difference stays -/
theorem Overhung.collect (hp : 0 < p) {m : K} {slack : ℕ} {s t : Ledger K} {u : K} (h : Overhung p m slack s)
    (hs : Collect p u s t) : Overhung p m slack t := by
  cases hs with
  | touch n q hn =>
    rcases eq_or_ne m n with rfl | hne
    · have hc := ((Overhung.some_iff hn).1 h).settle hp u (rfl : s.totalLocked + s.lock u = s.totalLocked + s.lock u)
      refine (Overhung.some_iff (by exact hn)).2 ?_
      simpa using hc
    · exact h.congr rfl (by exact update_of_ne hne _ _) rfl rfl
  | pay n q c x paid h' hn hu hx hres =>
    rcases eq_or_ne m n with rfl | hne
    · refine (Overhung.some_iff (update_self ..)).2 ?_
      simpa using ((Overhung.some_iff hn).1 h).pay hu hx hres
    · exact h.congr (by exact update_of_ne hne _ _) (by exact update_of_ne hne _ _) rfl rfl

/-- steps in a row cost what their label costs -/
theorem Overhung.steps (hp : 0 < p) {m : K} {slack : ℕ} {s t : Ledger K} {who : Option K} (h : Overhung p m slack s)
    (hs : Steps p s who t) : Overhung p m (slack + settleCost m who s) t := by
  induction hs generalizing slack with
  | nil =>
    rw [settleCost_none]
    exact h
  | @quiet s t r who hst hr ih =>
    have ht := h.step hp hst
    have hcost : settleCost m who t = settleCost m who s := by simp [settleCost, hst.sameBook.listed m]
    rw [settleCost_none, Nat.add_zero] at ht
    rw [← hcost]
    exact ih ht
  | change hst hr ih => simpa using ih (h.step hp hst)

theorem Overhung.moves (hp : 0 < p) {m : K} {slack : ℕ} {s t : Ledger K} {who : Option K} (h : Overhung p m slack s)
    (hm : Moves p s who t) : Overhung p m (slack + settleCost m who t) t := by
  have hcost : settleCost m who t = settleCost m who s := by simp [settleCost, hm.sameBook.listed m]
  rw [hcost]
  cases hm with
  | steps hs => exact h.steps hp hs
  | accrues hs ha => exact (h.steps hp hs).accrue ha

/-- **Overhang.** A transition adds one unit of slack if the asset is listed and a stake changed, and nothing otherwise. -/
theorem Overhung.trans (hp : 0 < p) {m : K} {slack : ℕ} {s t : Ledger K} {who : Option K} {act : Actor K}
    (h : Overhung p m slack s) (hs : Staked s) (ht : Trans p s who act t) :
    Overhung p m (slack + settleCost m who t) t := by
  cases ht with
  | collects hc =>
    rw [settleCost_none]
    exact Collect.invariant (fun _ _ hst hP => Overhung.collect hp hP hst) hc h
  | opens u n hm => exact (h.opened u n).moves hp hm
  | moves hh hm => exact (h.head hs hh).moves hp hm

/-! ## Checkpoints -/

/-- no checkpoint's debt exceeds what its stake has earned -/
def Aligned (p : ℕ) (s : Ledger K) : Prop :=
  ∀ m q u c, s.asset m = some q → s.pos m u = some c → c.Synced p q.acc (s.lock u)

theorem Aligned.head {s t : Ledger K} {act : Actor K} (h : Aligned p s) (hh : Head s act t)
    (hclean : ∀ m, act = .lister m → ∀ u c, s.pos m u = some c → c.debt = 0) : Aligned p t := by
  cases hh with
  | none | issue | retire | burn | liquidate | revive => exact h
  | list n hn =>
    intro m q u c hm hu
    rcases update_some hm with ⟨rfl, hq⟩ | ⟨-, hm⟩
    · have hdebt := hclean m rfl u c hu
      exact hdebt.le.trans (Nat.zero_le _)
    · exact h m q u c hm hu
  | delist n acc hn =>
    intro m q u c hm hu
    rcases update_some hm with ⟨rfl, hq⟩ | ⟨-, hm⟩
    · cases hq
    · exact h m q u c hm hu

/-- reading updated checkpoints -/
theorem pos_update {s : Ledger K} {m n u v : K} {c c' : Checkpoint}
    (h : update s.pos n (update (s.pos n) v (some c')) m u = some c) :
    m = n ∧ u = v ∧ c' = c ∨ (m ≠ n ∨ u ≠ v) ∧ s.pos m u = some c := by
  rcases eq_or_ne m n with rfl | hm
  · rw [update_self] at h
    rcases eq_or_ne u v with rfl | hu
    · rw [update_self] at h
      exact .inl ⟨rfl, rfl, Option.some.inj h⟩
    · rw [update_of_ne hu] at h
      exact .inr ⟨.inr hu, h⟩
  · rw [update_of_ne hm] at h
    exact .inr ⟨.inl hm, h⟩

/-- every transition of the ledger keeps the lists of holders in line with the stakes -/
theorem Aligned.step {s t : Ledger K} {who : Option K} (h : Aligned p s) (hs : Step p s who t) : Aligned p t := by
  cases hs with
  | flow => exact h
  | resize u n v totalLocked totalVoted h' =>
    intro m q w c hm hw
    have hm : s.asset m = some q := hm
    have hw : s.settleAll p u n m w = some c := hw
    simp only [Ledger.settleAll, hm] at hw
    show c.Synced p q.acc (update s.lock u n w)
    rcases eq_or_ne w u with rfl | hne
    · rw [update_self] at hw ⊢
      cases hw
      exact touch_synced ..
    · rw [update_of_ne hne] at hw ⊢
      exact h m q w c hm hw

theorem Aligned.accrue {s t : Ledger K} (h : Aligned p s) (ha : Accrue p s t) : Aligned p t := by
  cases ha with
  | accrue n q acc r gain h' hn hacc =>
    intro m q' u c hm hu
    rcases update_some hm with ⟨rfl, hq⟩ | ⟨-, hm⟩
    · cases hq
      exact (h m q u c hn hu).mono hacc
    · exact h m q' u c hm hu

theorem Aligned.opened {s : Ledger K} (h : Aligned p s) (v n : K) : Aligned p (s.openPosition v n) := by
  intro m q u c hm hu
  rcases pos_update hu with ⟨rfl, rfl, rfl⟩ | ⟨-, hu'⟩
  · cases hv : s.pos m u with
    | none => exact Nat.zero_le _
    | some c' => exact h m q u c' hm hv
  · exact h m q u c hm hu'

/-- a holder that collects is settled first, at the stake it has -/
theorem Aligned.collect {s t : Ledger K} {v : K} (h : Aligned p s) (hs : Collect p v s t) : Aligned p t := by
  cases hs with
  | touch n q hn =>
    intro m q' u c hm hu
    rcases pos_update hu with ⟨rfl, rfl, rfl⟩ | ⟨-, hu⟩
    · cases hn.symm.trans hm
      exact touch_synced ..
    · exact h m q' u c hm hu
  | pay n q c' x paid h' hn hv =>
    intro m q' u c hm hw
    rcases pos_update hw with ⟨rfl, rfl, rfl⟩ | ⟨-, hw'⟩
    · rcases update_some hm with ⟨-, hq⟩ | ⟨hne, -⟩
      · cases hq
        exact h m q u c' hn hv
      · exact absurd rfl hne
    · rcases update_some hm with ⟨rfl, hq⟩ | ⟨-, hm⟩
      · cases hq
        exact h m q u c hn hw'
      · exact h m q' u c hm hw'

theorem Aligned.moves {s t : Ledger K} {who : Option K} (h : Aligned p s) (hm : Moves p s who t) : Aligned p t :=
  hm.invariant (fun _ _ _ hs hP => Aligned.step hP hs) (fun _ _ ha hP => Aligned.accrue hP ha) h

/-- **Alignment** survives a transition that lists no asset over old debts. -/
theorem Aligned.trans {s t : Ledger K} {who : Option K} {act : Actor K} (h : Aligned p s) (ht : Trans p s who act t)
    (hclean : ∀ m, act = .lister m → ∀ u c, s.pos m u = some c → c.debt = 0) : Aligned p t := by
  cases ht with
  | collects hcol => exact Collect.invariant (fun _ _ hst hP => Aligned.collect hP hst) hcol h
  | opens u m hm => exact (h.opened u m).moves hm
  | moves hh hm => exact (h.head hh hclean).moves hm

/-! ## One account -/

/-- what is reserved for claims of `m` -/
def Ledger.reserveOf (s : Ledger K) (m : K) : ℕ := ((s.asset m).map Pool.reserve).getD 0

/-- `u` holds the stake `l` and has collected `k` of `m`; what it collected and may collect is `b` and what the stake has
earned, less `d` -/
def OnAccount (p : ℕ) (m u : K) (l d b k : ℕ) (s : Ledger K) : Prop :=
  ∃ q c, s.asset m = some q ∧ s.pos m u = some c ∧ s.lock u = l ∧ c.Synced p q.acc l ∧ d ≤ earned p l q.acc ∧
    k + c.pending p q.acc l + d = b + earned p l q.acc

/-- what `u` collects of `m` in a transition -/
def collected (m u : K) (act : Actor K) (s t : Ledger K) : ℕ :=
  if act = .collector u then s.reserveOf m - t.reserveOf m else 0

variable {m u : K} {l a d b k : ℕ}

omit [DecidableEq K] in
theorem OnAccount.congr {s t : Ledger K} (h : OnAccount p m u l d b k s) (ha : t.asset m = s.asset m)
    (hp : t.pos m u = s.pos m u) (hl : t.lock u = s.lock u) : OnAccount p m u l d b k t := by
  obtain ⟨q, c, hq, hc, hlock, hsync, hd, he⟩ := h
  exact ⟨q, c, ha.trans hq, hp.trans hc, hl.trans hlock, hsync, hd, he⟩

theorem OnAccount.head {s t : Ledger K} {act : Actor K} (h : OnAccount p m u l d b k s) (hh : Head s act t) (ht : (t.asset m).isSome) :
    OnAccount p m u l d b k t := by
  obtain ⟨q, c, hq, -⟩ := id h
  cases hh with
  | none | issue | retire | burn | liquidate | revive => exact h
  | list n hn =>
    have hne : m ≠ n := by rintro rfl; cases hn.symm.trans hq
    exact h.congr (update_of_ne hne ..) rfl rfl
  | delist n acc hn =>
    have hne : m ≠ n := by rintro rfl; simp at ht
    exact h.congr (update_of_ne hne ..) rfl rfl

theorem OnAccount.opened {s : Ledger K} (h : OnAccount p m u l d b k s) (v n : K) :
    OnAccount p m u l d b k (s.openPosition v n) := by
  obtain ⟨q, c, hq, hc, -⟩ := id h
  refine h.congr rfl ?_ rfl
  rcases eq_or_ne m n with rfl | hm
  · rcases eq_or_ne u v with rfl | hu
    · simp [Ledger.openPosition, hc]
    · simp [Ledger.openPosition, hu]
  · simp [Ledger.openPosition, hm]

/-- a settlement at the stake `u` holds banks what was pending, and moves the debt up to what is banked -/
theorem settle_onAccount {q : Pool} {c : Checkpoint} (he : k + c.pending p q.acc l + d = b + earned p l q.acc) :
    (c.settle p q.acc l l).Synced p q.acc l ∧
      k + (c.settle p q.acc l l).pending p q.acc l + d = b + earned p l q.acc := by
  rw [settle_pending]
  exact ⟨le_rfl, he⟩

theorem OnAccount.step {s t : Ledger K} {who : Option K} (h : OnAccount p m u l d b k s) (hs : Step p s who t)
    (ht : t.lock u = l) : OnAccount p m u l d b k t := by
  obtain ⟨q, c, hq, hc, hl, hsync, hd, he⟩ := id h
  cases hs with
  | flow => exact h
  | resize v n w totalLocked totalVoted h' =>
    have ht : update s.lock v n u = l := ht
    rcases eq_or_ne u v with rfl | hu
    · rw [update_self] at ht
      subst ht
      obtain ⟨hsync', he'⟩ := settle_onAccount he
      refine ⟨q, c.settle p q.acc n n, hq, ?_, update_self .., hsync', hd, he'⟩
      simp [Ledger.settleAll, hq, hc, touch, hl]
    · refine h.congr rfl ?_ (by exact update_of_ne hu _ _)
      simp [Ledger.settleAll, hq, hu]

theorem OnAccount.steps {s t : Ledger K} {who : Option K} (h : OnAccount p m u l d b k s) (hs : Steps p s who t)
    (ht : t.lock u = l) : OnAccount p m u l d b k t := by
  induction hs with
  | nil => exact h
  | @quiet s t r who hst hr ih =>
    -- a step that changes no stake keeps the stake of `u`
    have hlock : t.lock = s.lock := hst.stakeOf
    obtain ⟨q, c, -, -, hl, -⟩ := id h
    exact ih (h.step hst (by rw [hlock, hl])) ht
  | @change s t r v hst hr ih =>
    have hlock : r.lock = t.lock := hr.stakeOf
    exact ih (h.step hst (by rw [← hlock, ht])) ht

theorem OnAccount.accrue {s t : Ledger K} (h : OnAccount p m u l d b k s) (ha : Accrue p s t) : OnAccount p m u l d b k t := by
  obtain ⟨q, c, hq, hc, hl, hsync, hd, he⟩ := id h
  cases ha with
  | accrue n q' acc r gain h' hn hacc =>
    rcases eq_or_ne m n with rfl | hm
    · cases hq.symm.trans hn
      have hpend := pending_accrue hsync hacc
      refine ⟨⟨acc, q.reserve + r⟩, c, update_self .., hc, hl, hsync.mono hacc, hd.trans (earned_mono hacc), ?_⟩
      show k + c.pending p acc l + d = b + earned p l acc
      omega
    · exact h.congr (by exact update_of_ne hm _ _) rfl rfl

theorem OnAccount.moves {s t : Ledger K} {who : Option K} (h : OnAccount p m u l d b k s) (hm : Moves p s who t)
    (ht : t.lock u = l) : OnAccount p m u l d b k t := by
  cases hm with
  | steps hs => exact h.steps hs ht
  | accrues hs ha => exact (h.steps hs (by rw [← ha.lock, ht])).accrue ha

/-- another account that collects does not touch `u` -/
theorem OnAccount.collect_other {s t : Ledger K} {v : K} (h : OnAccount p m u l d b k s) (hc : Collect p v s t) (hv : u ≠ v) :
    OnAccount p m u l d b k t := by
  obtain ⟨q, c, hq, hu, hl, hsync, hd, he⟩ := id h
  have hpos : ∀ n c', update s.pos n (update (s.pos n) v (some c')) m u = s.pos m u := by
    intro n c'
    rcases eq_or_ne m n with rfl | hm
    · rw [update_self, update_of_ne hv]
    · rw [update_of_ne hm]
  cases hc with
  | touch n q' hn => exact h.congr rfl (hpos n _) rfl
  | pay n q' c' x paid h' hn =>
    rcases eq_or_ne m n with rfl | hm
    · cases hq.symm.trans hn
      exact ⟨⟨q.acc, q.reserve - x⟩, c, update_self .., (hpos m _).trans hu, hl, hsync, hd, he⟩
    · exact h.congr (by exact update_of_ne hm _ _) (hpos n _) rfl

/-- `u` collects: what leaves the reserve is no longer pending -/
theorem OnAccount.collect_self {s t : Ledger K} (h : OnAccount p m u l d b k s) (hc : Collect p u s t) :
    t.reserveOf m ≤ s.reserveOf m ∧ OnAccount p m u l d b (k + (s.reserveOf m - t.reserveOf m)) t := by
  obtain ⟨q, c, hq, hu, hl, hsync, hd, he⟩ := id h
  have hres : s.reserveOf m = q.reserve := by simp [Ledger.reserveOf, hq]
  cases hc with
  | touch n q' hn =>
    refine ⟨le_rfl, ?_⟩
    show OnAccount p m u l d b (k + (s.reserveOf m - s.reserveOf m)) _
    rw [Nat.sub_self, Nat.add_zero]
    rcases eq_or_ne m n with rfl | hm
    · cases hq.symm.trans hn
      obtain ⟨hsync', he'⟩ := settle_onAccount he
      refine ⟨q, c.settle p q.acc l l, hq, ?_, hl, hsync', hd, he'⟩
      simp [hu, touch, hl]
    · exact h.congr rfl (by simp [hm]) rfl
  | pay n q' c' x paid h' hn hv hx hle =>
    rcases eq_or_ne m n with rfl | hm
    · cases hq.symm.trans hn
      cases hu.symm.trans hv
      simp only [Ledger.reserveOf, update_self, Option.map_some, Option.getD_some, hq]
      refine ⟨Nat.sub_le .., ⟨q.acc, q.reserve - x⟩, { c with claimable := c.claimable - x }, by simp, by simp, hl, hsync, hd, ?_⟩
      unfold Checkpoint.pending at he ⊢
      show k + (q.reserve - (q.reserve - x)) + (c.claimable - x + (earned p l q.acc - c.debt)) + d = b + earned p l q.acc
      omega
    · simp only [Ledger.reserveOf, update_of_ne hm]
      refine ⟨le_rfl, ?_⟩
      rw [Nat.sub_self, Nat.add_zero]
      exact h.congr (by exact update_of_ne hm _ _) (by simp [hm]) rfl

theorem OnAccount.collects {s t : Ledger K} (h : OnAccount p m u l d b k s)
    (hc : Relation.ReflTransGen (Collect p u) s t) :
    t.reserveOf m ≤ s.reserveOf m ∧ OnAccount p m u l d b (k + (s.reserveOf m - t.reserveOf m)) t := by
  induction hc with
  | refl => exact ⟨le_rfl, by simpa using h⟩
  | tail _ hst ih =>
    obtain ⟨hle, hr⟩ := ih
    obtain ⟨hle', ht⟩ := hr.collect_self hst
    refine ⟨hle'.trans hle, ?_⟩
    convert ht using 1
    omega

/-- **Running account.** While `m` stays listed and the stake of `u` its size, what `u` collected and may collect of `m` grows
by what the stake earns. -/
theorem OnAccount.trans {s t : Ledger K} {who : Option K} {act : Actor K} (h : OnAccount p m u l d b k s)
    (ht : Trans p s who act t) (hl : t.lock u = l) (hm : (t.asset m).isSome) :
    OnAccount p m u l d b (k + collected m u act s t) t := by
  cases ht with
  | moves hh hmv =>
    have hact : act ≠ .collector u := by cases hh <;> simp
    rw [collected, if_neg hact, Nat.add_zero]
    exact (h.head hh (by rwa [← hmv.sameBook.listed m])).moves hmv hl
  | opens v n hmv =>
    rw [collected, if_neg (by simp), Nat.add_zero]
    exact (h.opened v n).moves hmv hl
  | @collects _ v hc =>
    rcases eq_or_ne u v with rfl | hv
    · rw [collected, if_pos rfl]
      exact (h.collects hc).2
    · rw [collected, if_neg (by simpa using Ne.symm hv), Nat.add_zero]
      exact Collect.invariant (fun _ _ hst hP => OnAccount.collect_other hP hst hv) hc h

/-- `u` holds the stake `l`; since the index `a` it has collected `k` of `m`, and what it collected and may collect is
what the stake earned since -/
def Entitled (p : ℕ) (m u : K) (l a k : ℕ) (s : Ledger K) : Prop :=
  ∃ q c, s.asset m = some q ∧ s.pos m u = some c ∧ s.lock u = l ∧ c.Synced p q.acc l ∧
    k + c.pending p q.acc l + earned p l a = earned p l q.acc

omit [DecidableEq K] in
theorem entitled_iff {s : Ledger K} : Entitled p m u l a k s ↔ OnAccount p m u l (earned p l a) 0 k s := by
  unfold Entitled OnAccount
  constructor
  · rintro ⟨q, c, hq, hc, hl, hsync, he⟩
    exact ⟨q, c, hq, hc, hl, hsync, by omega, by omega⟩
  · rintro ⟨q, c, hq, hc, hl, hsync, -, he⟩
    exact ⟨q, c, hq, hc, hl, hsync, by omega⟩

theorem Entitled.accrue {s t : Ledger K} (h : Entitled p m u l a k s) (ha : Accrue p s t) : Entitled p m u l a k t :=
  entitled_iff.2 ((entitled_iff.1 h).accrue ha)

theorem Entitled.moves {s t : Ledger K} {who : Option K} (h : Entitled p m u l a k s) (hm : Moves p s who t)
    (ht : t.lock u = l) : Entitled p m u l a k t :=
  entitled_iff.2 ((entitled_iff.1 h).moves hm ht)

/-- `m` stands as `q`, and a checkpoint of `u` in it was settled at the index of `q` and holds nothing yet -/
def Fresh (p : ℕ) (m u : K) (q : Pool) (s : Ledger K) : Prop :=
  s.asset m = some q ∧ ∀ c, s.pos m u = some c → c = ⟨earned p (s.lock u) q.acc, 0⟩

variable {q : Pool}

omit [DecidableEq K] in
theorem Fresh.congr {s t : Ledger K} (h : Fresh p m u q s) (ha : t.asset m = s.asset m) (hp : t.pos m u = s.pos m u)
    (hl : t.lock u = s.lock u) : Fresh p m u q t := by
  obtain ⟨hq, hf⟩ := h
  refine ⟨ha.trans hq, fun c hc => ?_⟩
  rw [hl]
  exact hf c (hp.symm.trans hc)

omit [DecidableEq K] in
theorem Fresh.entitled {s : Ledger K} (h : Fresh p m u q s) {c : Checkpoint} (hc : s.pos m u = some c) :
    Entitled p m u (s.lock u) q.acc 0 s := by
  obtain ⟨hq, hf⟩ := h
  refine ⟨q, c, hq, hc, rfl, (hf c hc ▸ le_rfl : c.debt ≤ _), ?_⟩
  simp [hf c hc, Checkpoint.pending]

/-- settling a fresh checkpoint leaves a fresh one -/
theorem touch_fresh {a old new : ℕ} {o : Option Checkpoint} (h : ∀ c, o = some c → c = ⟨earned p old a, 0⟩) :
    touch p a old new o = ⟨earned p new a, 0⟩ := by
  cases o with
  | none => exact touch_none ..
  | some c => simp [touch, Checkpoint.settle, h c rfl]

theorem Fresh.step {s t : Ledger K} {who : Option K} (h : Fresh p m u q s) (hs : Step p s who t) : Fresh p m u q t := by
  obtain ⟨hq, hf⟩ := id h
  cases hs with
  | flow => exact h
  | resize v n w totalLocked totalVoted h' =>
    rcases eq_or_ne u v with rfl | hu
    · refine ⟨hq, fun c hc => ?_⟩
      have hc : s.settleAll p u n m u = some c := hc
      simp only [Ledger.settleAll, hq, update_self, Option.some.injEq] at hc
      show c = ⟨earned p (update s.lock u n u) q.acc, 0⟩
      rw [← hc, touch_fresh hf, update_self]
    · exact h.congr rfl (by simp [Ledger.settleAll, hq, hu]) (by exact update_of_ne hu _ _)

theorem Fresh.collect {s t : Ledger K} (h : Fresh p m u q s) (hc : Collect p u s t) : Fresh p m u q t := by
  obtain ⟨hq, hf⟩ := id h
  cases hc with
  | touch n q' hn =>
    rcases eq_or_ne m n with rfl | hm
    · cases hq.symm.trans hn
      refine ⟨hq, fun c hc => ?_⟩
      rcases pos_update hc with ⟨-, -, rfl⟩ | ⟨-, hc'⟩
      · exact touch_fresh hf
      · exact hf c hc'
    · exact h.congr rfl (by simp [hm]) rfl
  | pay n q' c' x paid h' hn hv hx =>
    rcases eq_or_ne m n with rfl | hm
    · cases hq.symm.trans hn
      -- a fresh checkpoint has nothing to collect
      have hc' : c' = ⟨earned p (s.lock u) q.acc, 0⟩ := hf c' hv
      subst hc'
      have hx0 : x = 0 := Nat.le_zero.1 hx
      subst hx0
      refine ⟨by simp, fun c hc => ?_⟩
      rcases pos_update hc with ⟨-, -, rfl⟩ | ⟨-, hc'⟩
      · rfl
      · exact hf c hc'
    · exact h.congr (by exact update_of_ne hm _ _) (by simp [hm]) rfl

theorem Collect.pos_other {s t : Ledger K} {v : K} (h : Collect p v s t) (hv : u ≠ v) : t.pos m u = s.pos m u := by
  have hpos : ∀ n c', update s.pos n (update (s.pos n) v (some c')) m u = s.pos m u := by
    intro n c'
    rcases eq_or_ne m n with rfl | hm
    · rw [update_self, update_of_ne hv]
    · rw [update_of_ne hm]
  cases h <;> exact hpos _ _

/-- **First touch.** A checkpoint that a transition creates is entitled to what its stake earns from the index before the
transition on; one that its account opens itself, from the start. The transition collects nothing for it. -/
theorem Entitled.first {s t : Ledger K} {who : Option K} {act : Actor K} (ht : Trans p s who act t)
    (hq : s.asset m = some q) (hm : (t.asset m).isSome) (hu : s.pos m u = none) {c : Checkpoint}
    (hc : t.pos m u = some c) :
    ∃ a, (a = q.acc ∨ act = .opener u ∧ a = 0) ∧ collected m u act s t = 0 ∧ Entitled p m u (t.lock u) a 0 t := by
  have hfresh : Fresh p m u q s := ⟨hq, fun c hc => by cases hu.symm.trans hc⟩
  have hmoves : ∀ {s : Ledger K} {who : Option K}, Fresh p m u q s → Moves p s who t →
      Entitled p m u (t.lock u) q.acc 0 t := by
    intro s who hs hmv
    cases hmv with
    | steps hst => exact (hst.invariant (fun _ _ _ hst hP => Fresh.step hP hst) hs).entitled hc
    | @accrues r _ hst ha =>
      have hr := hst.invariant (fun _ _ _ hst hP => Fresh.step hP hst) hs
      have hpos : t.pos = r.pos := by cases ha; rfl
      rw [ha.lock]
      exact (hr.entitled (by rwa [← hpos])).accrue ha
  cases ht with
  | moves hh hmv =>
    have hact : act ≠ .collector u := by cases hh <;> simp
    refine ⟨q.acc, .inl rfl, if_neg hact, hmoves ?_ hmv⟩
    rw [hmv.sameBook.listed m] at hm
    cases hh with
    | none | issue | retire | burn | liquidate | revive => exact hfresh
    | list n hn =>
      have hne : m ≠ n := by rintro rfl; cases hn.symm.trans hq
      exact hfresh.congr (update_of_ne hne ..) rfl rfl
    | delist n acc hn =>
      have hne : m ≠ n := by rintro rfl; simp at hm
      exact hfresh.congr (update_of_ne hne ..) rfl rfl
  | opens v n hmv =>
    by_cases hopen : m = n ∧ u = v
    · obtain ⟨rfl, rfl⟩ := hopen
      refine ⟨0, .inr ⟨rfl, rfl⟩, if_neg (by simp), ?_⟩
      have hlock : t.lock = s.lock := hmv.stakeOf
      have he : Entitled p m u (s.lock u) 0 0 (s.openPosition u m) :=
        ⟨q, ⟨0, 0⟩, hq, by simp [Ledger.openPosition, hu], rfl, Nat.zero_le _, by
          simp [Checkpoint.pending, earned_zero_right]⟩
      rw [hlock]
      exact he.moves hmv (by rw [hlock])
    · refine ⟨q.acc, .inl rfl, if_neg (by simp), hmoves (s := s.openPosition v n) (hfresh.congr rfl ?_ rfl) hmv⟩
      rcases eq_or_ne m n with rfl | hn
      · have hv : u ≠ v := by rintro rfl; exact hopen ⟨rfl, rfl⟩
        simp [Ledger.openPosition, hv]
      · simp [Ledger.openPosition, hn]
  | @collects _ v hcol =>
    rcases eq_or_ne u v with rfl | hv
    · have ht : Fresh p m u q t := Collect.invariant (fun _ _ hst hP => Fresh.collect hP hst) hcol hfresh
      refine ⟨q.acc, .inl rfl, ?_, ht.entitled hc⟩
      simp [collected, Ledger.reserveOf, hq, ht.1]
    · have hpos := Collect.invariant (P := fun r => r.pos m u = none)
        (fun _ _ hst hP => (hst.pos_other hv).trans hP) hcol hu
      cases hpos.symm.trans hc

/-! ## The share book -/

/-- there is value exactly when there are shares; while liquidation is open, value may outlive the last share -/
def Consistent (s : Ledger K) : Prop :=
  (s.totalValue = 0 → s.supply = 0) ∧ (s.liquidation = false → s.supply = 0 → s.totalValue = 0)

omit [DecidableEq K] in
theorem SameBook.consistent {s t : Ledger K} (h : SameBook s t) (hs : Consistent s) : Consistent t := by
  unfold Consistent
  rw [h.totalValue, h.supply, h.liquidation]
  exact hs

/-- no share, or a share left: what a redemption takes of the value -/
theorem retire_value {v s g : ℕ} (hg : 0 < g) (hle : g ≤ s) (hv : v ≠ 0) : v - g * v / s = 0 → s - g = 0 := by
  intro h
  have hs : 0 < s := by omega
  by_contra hne
  have hlt : g * v / s < v := by
    rw [Nat.div_lt_iff_lt_mul hs, Nat.mul_comm v s]
    exact Nat.mul_lt_mul_of_pos_right (by omega) (by omega)
  omega

/-- the part all transitions share: a settlement, and a stake that changes with the lists that name it -/
theorem Consistent.head {s t : Ledger K} {act : Actor K} (h : Consistent s) (hh : Head s act t)
    (hburn : act = .burner → s.liquidation = false → s.supply ≠ 0 → t.supply ≠ 0) : Consistent t := by
  obtain ⟨hvalue, hshares⟩ := h
  cases hh with
  | none | list | delist => exact ⟨hvalue, hshares⟩
  | liquidate => exact ⟨hvalue, fun h => nomatch h⟩
  | issue value out hout hpos =>
    refine ⟨fun h => ?_, fun _ h => ?_⟩
    · have h : s.totalValue + value = 0 := h
      omega
    · have h : s.supply + out = 0 := h
      omega
  | retire g hg hle hopen =>
    refine ⟨fun h => ?_, fun hclosed => absurd (hopen.symm.trans hclosed) (by decide)⟩
    rcases eq_or_ne s.totalValue 0 with h0 | h0
    · have := hvalue h0
      show s.supply - g = 0
      omega
    · exact retire_value hg hle h0 h
  | burn g hle =>
    refine ⟨fun h => ?_, fun hclosed h => ?_⟩
    · have := hvalue h
      show s.supply - g = 0
      omega
    · rcases eq_or_ne s.supply 0 with h0 | h0
      · exact hshares hclosed h0
      · exact absurd h (hburn rfl hclosed h0)
  | revive hopen =>
    refine ⟨fun h => ?_, fun _ h => if_pos h⟩
    by_contra hs
    exact hs (hvalue (by simpa [hs] using h))

/-- **Consistency** survives a transition in which nobody burns the last share of a closed book. -/
theorem Consistent.trans {s t : Ledger K} {who : Option K} {act : Actor K} (h : Consistent s) (ht : Trans p s who act t)
    (hburn : act = .burner → s.liquidation = false → s.supply ≠ 0 → t.supply ≠ 0) : Consistent t := by
  cases ht with
  | moves hh hm => exact hm.sameBook.consistent (h.head hh (by rwa [← hm.sameBook.supply]))
  | opens u m hm => exact hm.sameBook.consistent h
  | collects hc => exact Collect.invariant (fun _ _ hst hP => hst.sameBook.consistent hP) hc h

/-- the part all transitions share does not lower the price of a share -/
theorem Head.price {s t : Ledger K} {act : Actor K} (h : Head s act t) : s.totalValue * t.supply ≤ t.totalValue * s.supply := by
  cases h with
  | none | list | delist | liquidate => exact le_rfl
  | issue value out hout hvalue hclosed hbook hprice =>
    show s.totalValue * (s.supply + out) ≤ (s.totalValue + value) * s.supply
    calc s.totalValue * (s.supply + out) = s.totalValue * s.supply + out * s.totalValue := by ring
      _ ≤ s.totalValue * s.supply + value * s.supply := Nat.add_le_add_left hprice _
      _ = (s.totalValue + value) * s.supply := (Nat.add_mul ..).symm
  | retire g hg hle =>
    show s.totalValue * (s.supply - g) ≤ (s.totalValue - g * s.totalValue / s.supply) * s.supply
    have hfloor : g * s.totalValue / s.supply * s.supply ≤ g * s.totalValue := Nat.div_mul_le_self _ _
    rw [Nat.sub_mul, Nat.mul_sub, Nat.mul_comm s.totalValue g]
    omega
  | burn g hle => exact Nat.mul_le_mul_left _ (Nat.sub_le ..)
  | revive =>
    show s.totalValue * s.supply ≤ (if s.supply = 0 then 0 else s.totalValue) * s.supply
    split_ifs with h0
    · simp [h0]
    · exact le_rfl

/-- **Price.** The value behind a share never falls. -/
theorem Trans.price {s t : Ledger K} {who : Option K} {act : Actor K} (h : Trans p s who act t) :
    s.totalValue * t.supply ≤ t.totalValue * s.supply := by
  cases h with
  | moves hh hm =>
    rw [hm.sameBook.supply, hm.sameBook.totalValue]
    exact hh.price
  | opens u m hm =>
    rw [hm.sameBook.supply, hm.sameBook.totalValue]
    exact le_rfl
  | collects hc =>
    refine Collect.invariant (P := fun r => s.totalValue * r.supply ≤ r.totalValue * s.supply) (fun _ _ hst hP => ?_) hc le_rfl
    rw [hst.sameBook.supply, hst.sameBook.totalValue]
    exact hP

end Grindurus.Grai
