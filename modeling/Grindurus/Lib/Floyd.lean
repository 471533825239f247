/-
Floyd's cycle detection on a walk that may stop.

A hop from a node stops the walk with an event, or goes on to one node. Two pointers walk from the same node, one of them
twice as fast, until one of them stops or they meet.

- `walk f n k`: `n` hops from `k`. `Stops f k e`, `Endless f k`: how the walk from `k` ends, if it does; not two of these
  (`Stops.unique`, `Stops.not_endless`).
- `floyd f met`: the rounds of the two pointers; `met` is what is reported when they meet.
- `floyd_sound`: what is reported is the event that stops the walk, or `met` if it is endless.
- `floyd_decides`: more rounds than there are nodes to go on from are enough to report.
-/
import Mathlib.Tactic

namespace Grindurus.Floyd

variable {K E : Type} {f : K → E ⊕ K} {k x y : K} {e e' met : E} {i j n m : ℕ}

/-! ## The walk -/

/-- one more hop, unless the walk has stopped -/
def hopFrom (f : K → E ⊕ K) : E ⊕ K → E ⊕ K
  | .inl e => .inl e
  | .inr k => f k

/-- where `n` hops from `k` lead, or what stopped them -/
def walk (f : K → E ⊕ K) (n : ℕ) (k : K) : E ⊕ K := (hopFrom f)^[n] (.inr k)

/-- the walk from `k` stops with `e` -/
def Stops (f : K → E ⊕ K) (k : K) (e : E) : Prop := ∃ n, walk f n k = .inl e

def Endless (f : K → E ⊕ K) (k : K) : Prop := ∀ n, ∃ x, walk f n k = .inr x

/-- the walk from `k` passes `x` -/
def Reached (f : K → E ⊕ K) : K → K → Prop := Relation.ReflTransGen fun x y => f x = .inr y

theorem walk_succ (f : K → E ⊕ K) (n : ℕ) (k : K) : walk f (n + 1) k = hopFrom f (walk f n k) :=
  Function.iterate_succ_apply' ..

/-- from where the walk is, it goes on by a hop -/
theorem walk_hop (h : walk f n k = .inr x) : walk f (n + 1) k = f x := by
  rw [walk_succ, h]
  rfl

theorem walk_add (f : K → E ⊕ K) (n m : ℕ) (k : K) : walk f (n + m) k = (hopFrom f)^[n] (walk f m k) :=
  Function.iterate_add_apply ..

/-- a walk that stopped stays stopped -/
theorem walk_stopped (h : walk f n k = .inl e) (hle : n ≤ m) : walk f m k = .inl e := by
  induction m, hle using Nat.le_induction with
  | base => exact h
  | succ m _ ih =>
    rw [walk_succ, ih]
    rfl

/-- a walk that has not stopped has not stopped before -/
theorem walk_going (h : walk f m k = .inr x) (hle : n ≤ m) : ∃ y, walk f n k = .inr y := by
  cases hn : walk f n k with
  | inl e => cases (walk_stopped hn hle).symm.trans h
  | inr y => exact ⟨y, rfl⟩

theorem Stops.unique (h : Stops f k e) (h' : Stops f k e') : e = e' := by
  obtain ⟨n, hn⟩ := h
  obtain ⟨m, hm⟩ := h'
  have hleft := walk_stopped hn (Nat.le_max_left n m)
  have hright := walk_stopped hm (Nat.le_max_right n m)
  exact Sum.inl.inj (hleft.symm.trans hright)

theorem Stops.not_endless (h : Stops f k e) : ¬Endless f k := by
  intro hend
  obtain ⟨n, hn⟩ := h
  obtain ⟨x, hx⟩ := hend n
  cases hn.symm.trans hx

theorem reached_iff : Reached f k x ↔ ∃ n, walk f n k = .inr x := by
  constructor
  · intro h
    induction h with
    | refl => exact ⟨0, rfl⟩
    | tail _ hxy ih =>
      obtain ⟨n, hn⟩ := ih
      exact ⟨n + 1, (walk_hop hn).trans hxy⟩
  · rintro ⟨n, hn⟩
    induction n generalizing x with
    | zero =>
      cases hn
      exact .refl
    | succ n ih =>
      obtain ⟨y, hy⟩ := walk_going hn (Nat.le_succ n)
      exact (ih hy).tail ((walk_hop hy).symm.trans hn)

/-- a walk stops at the first node it passes that has an event -/
theorem stops_iff : Stops f k e ↔ ∃ x, Reached f k x ∧ f x = .inl e := by
  constructor
  · rintro ⟨n, hn⟩
    induction n with
    | zero => cases hn
    | succ n ih =>
      cases hw : walk f n k with
      | inl e' =>
        cases (walk_stopped hw (Nat.le_succ n)).symm.trans hn
        exact ih hw
      | inr x => exact ⟨x, reached_iff.2 ⟨n, hw⟩, (walk_hop hw).symm.trans hn⟩
  · rintro ⟨x, hx, he⟩
    obtain ⟨n, hn⟩ := reached_iff.1 hx
    exact ⟨n + 1, (walk_hop hn).trans he⟩

theorem endless_iff : Endless f k ↔ ∀ x, Reached f k x → ∃ y, f x = .inr y := by
  constructor
  · intro h x hx
    obtain ⟨n, hn⟩ := reached_iff.1 hx
    obtain ⟨y, hy⟩ := h (n + 1)
    exact ⟨y, (walk_hop hn).symm.trans hy⟩
  · intro h n
    induction n with
    | zero => exact ⟨k, rfl⟩
    | succ n ih =>
      obtain ⟨x, hx⟩ := ih
      obtain ⟨y, hy⟩ := h x (reached_iff.2 ⟨n, hx⟩)
      exact ⟨y, (walk_hop hx).trans hy⟩

/-- a walk that comes back to where it was goes round from there -/
theorem walk_periodic (h : walk f j k = walk f i k) (hij : i ≤ j) (hle : i ≤ n) (q : ℕ) :
    walk f (n + q * (j - i)) k = walk f n k := by
  induction q with
  | zero => rw [Nat.zero_mul, Nat.add_zero]
  | succ q ih =>
    have hsplit : n + (q + 1) * (j - i) = n + q * (j - i) - i + j := by
      have hmul : (q + 1) * (j - i) = q * (j - i) + (j - i) := Nat.succ_mul ..
      omega
    have hback : n + q * (j - i) - i + i = n + q * (j - i) := by omega
    calc walk f (n + (q + 1) * (j - i)) k
        = (hopFrom f)^[n + q * (j - i) - i] (walk f j k) := by rw [hsplit, walk_add]
      _ = (hopFrom f)^[n + q * (j - i) - i] (walk f i k) := by rw [h]
      _ = walk f (n + q * (j - i)) k := by rw [← walk_add, hback]
      _ = walk f n k := ih

theorem endless_of_repeat (hi : walk f i k = .inr x) (hj : walk f j k = .inr x) (hij : i < j) : Endless f k := by
  intro n
  cases hn : walk f n k with
  | inr y => exact ⟨y, rfl⟩
  | inl e =>
    -- after enough periods the walk is past `n`, and still where it was
    have hround := walk_periodic (hj.trans hi.symm) hij.le le_rfl n
    have hpast : n ≤ i + n * (j - i) := (Nat.le_mul_of_pos_right n (by omega)).trans (Nat.le_add_left ..)
    rw [walk_stopped hn hpast, hi] at hround
    cases hround

/-! ## Two pointers -/

variable [DecidableEq K]

/-- the slow pointer hops once, the fast one twice -/
def round (f : K → E ⊕ K) (met : E) (slow fast : K) : E ⊕ (K × K) :=
  match f slow with
  | .inl e => .inl e
  | .inr slow =>
    match f fast with
    | .inl e => .inl e
    | .inr fast =>
      match f fast with
      | .inl e => .inl e
      | .inr fast => if slow = fast then .inl met else .inr (slow, fast)

/-- at most that many rounds -/
def floyd (f : K → E ⊕ K) (met : E) : ℕ → K → K → Option E
  | 0, _, _ => none
  | n + 1, slow, fast =>
    match round f met slow fast with
    | .inl e => some e
    | .inr (slow, fast) => floyd f met n slow fast

/-- after `i` rounds the pointers are at `slow` and `fast` -/
structure Pointers (f : K → E ⊕ K) (k : K) (i : ℕ) (slow fast : K) : Prop where
  slow : walk f i k = .inr slow
  fast : walk f (2 * i) k = .inr fast

variable {slow fast slow' fast' : K}

omit [DecidableEq K] in
theorem Pointers.start (f : K → E ⊕ K) (k : K) : Pointers f k 0 k k := ⟨rfl, rfl⟩

/-- an event that a pointer meets stops the walk; pointers that meet are on a cycle -/
theorem Pointers.stop (h : Pointers f k i slow fast) (hr : round f met slow fast = .inl e) :
    Stops f k e ∨ e = met ∧ Endless f k := by
  unfold round at hr
  cases hslow : f slow with
  | inl a =>
    simp only [hslow, Sum.inl.injEq] at hr
    subst hr
    exact .inl ⟨i + 1, (walk_hop h.slow).trans hslow⟩
  | inr s =>
    simp only [hslow] at hr
    cases hfast : f fast with
    | inl a =>
      simp only [hfast, Sum.inl.injEq] at hr
      subst hr
      exact .inl ⟨2 * i + 1, (walk_hop h.fast).trans hfast⟩
    | inr t =>
      simp only [hfast] at hr
      have ht : walk f (2 * i + 1) k = .inr t := (walk_hop h.fast).trans hfast
      cases hfast₂ : f t with
      | inl a =>
        simp only [hfast₂, Sum.inl.injEq] at hr
        subst hr
        exact .inl ⟨2 * i + 2, (walk_hop ht).trans hfast₂⟩
      | inr t₂ =>
        simp only [hfast₂] at hr
        split_ifs at hr with hmeet
        cases hr
        subst hmeet
        exact .inr ⟨rfl, endless_of_repeat ((walk_hop h.slow).trans hslow) ((walk_hop ht).trans hfast₂) (by omega)⟩

theorem Pointers.next (h : Pointers f k i slow fast) (hr : round f met slow fast = .inr (slow', fast')) :
    Pointers f k (i + 1) slow' fast' ∧ slow' ≠ fast' := by
  unfold round at hr
  cases hslow : f slow with
  | inl a => simp [hslow] at hr
  | inr s =>
    simp only [hslow] at hr
    cases hfast : f fast with
    | inl a => simp [hfast] at hr
    | inr t =>
      simp only [hfast] at hr
      have ht : walk f (2 * i + 1) k = .inr t := (walk_hop h.fast).trans hfast
      cases hfast₂ : f t with
      | inl a => simp [hfast₂] at hr
      | inr t₂ =>
        simp only [hfast₂] at hr
        split_ifs at hr with hmeet
        cases hr
        exact ⟨⟨(walk_hop h.slow).trans hslow, (walk_hop ht).trans hfast₂⟩, hmeet⟩

theorem Pointers.sound (h : Pointers f k i slow fast) (hr : floyd f met n slow fast = some e) :
    Stops f k e ∨ e = met ∧ Endless f k := by
  induction n generalizing i slow fast with
  | zero => cases hr
  | succ n ih =>
    unfold floyd at hr
    cases hround : round f met slow fast with
    | inl a =>
      simp only [hround, Option.some.injEq] at hr
      subst hr
      exact h.stop hround
    | inr p =>
      simp only [hround] at hr
      exact ih (h.next hround).1 hr

/-- **Soundness.** What is reported is the event that stops the walk, or `met` if it is endless. -/
theorem floyd_sound (h : floyd f met n k k = some e) : Stops f k e ∨ e = met ∧ Endless f k := (Pointers.start f k).sound h

/-- without a report the pointers were apart after every round -/
theorem Pointers.apart (h : Pointers f k i slow fast) (hr : floyd f met n slow fast = none) (hi : i < m) (hm : m ≤ i + n) :
    ∃ s t, Pointers f k m s t ∧ s ≠ t := by
  induction n generalizing i slow fast with
  | zero => omega
  | succ n ih =>
    unfold floyd at hr
    cases hround : round f met slow fast with
    | inl a => simp [hround] at hr
    | inr p =>
      simp only [hround] at hr
      obtain ⟨hnext, hne⟩ := h.next hround
      rcases Nat.lt_or_ge (i + 1) m with hlt | hge
      · exact ih hnext hr hlt (by omega)
      · obtain rfl : m = i + 1 := by omega
        exact ⟨_, _, hnext, hne⟩

omit [DecidableEq K] in
/-- a walk of more hops than there are nodes to go on from comes back to a node -/
theorem walk_repeats {s : Finset K} (hs : ∀ x y, f x = .inr y → x ∈ s) (h : walk f (s.card + 1) k = .inr x) :
    ∃ i j, i < j ∧ j ≤ s.card ∧ walk f j k = walk f i k := by
  have : Nonempty K := ⟨k⟩
  have hnode : ∀ n, n ≤ s.card → ∃ y ∈ s, walk f n k = .inr y := by
    intro n hn
    obtain ⟨z, hz⟩ := walk_going h (Nat.succ_le_succ hn)
    obtain ⟨y, hy⟩ := walk_going hz (Nat.le_succ n)
    exact ⟨y, hs y z ((walk_hop hy).symm.trans hz), hy⟩
  choose! node hmem hwalk using hnode
  have hcard : s.card < (Finset.range (s.card + 1)).card := by
    rw [Finset.card_range]
    exact Nat.lt_succ_self _
  obtain ⟨i, hi, j, hj, hne, heq⟩ := Finset.exists_ne_map_eq_of_card_lt_of_maps_to hcard
    (fun n hn => hmem n (Nat.lt_succ_iff.1 (Finset.mem_range.1 hn)))
  have hi := Nat.lt_succ_iff.1 (Finset.mem_range.1 hi)
  have hj := Nat.lt_succ_iff.1 (Finset.mem_range.1 hj)
  have hsame : walk f i k = walk f j k := by rw [hwalk i hi, hwalk j hj, heq]
  rcases Nat.lt_or_gt_of_ne hne with hlt | hgt
  · exact ⟨i, j, hlt, hj, hsame.symm⟩
  · exact ⟨j, i, hgt, hi, hsame⟩

/-- **Decision.** With more rounds than there are nodes to go on from, something is reported: the event that stops the walk,
or `met` if it is endless. -/
theorem floyd_decides {s : Finset K} (hs : ∀ x y, f x = .inr y → x ∈ s) (hn : s.card < n) (met : E) (k : K) :
    ∃ e, floyd f met n k k = some e ∧ (Stops f k e ∨ e = met ∧ Endless f k) := by
  cases hr : floyd f met n k k with
  | some e => exact ⟨e, rfl, floyd_sound hr⟩
  | none =>
    have happart : ∀ m, 0 < m → m ≤ n → ∃ a b, Pointers f k m a b ∧ a ≠ b := fun m hpos hm =>
      (Pointers.start f k).apart hr hpos (by omega)
    obtain ⟨a, b, hlast, -⟩ := happart n (by omega) le_rfl
    obtain ⟨z, hz⟩ := walk_going hlast.slow (by omega : s.card + 1 ≤ n)
    obtain ⟨i, j, hij, hj, hback⟩ := walk_repeats hs hz
    -- the first multiple of the period past the entry of the cycle is where the pointers meet
    have hentry : i < (i / (j - i) + 1) * (j - i) := by
      rw [Nat.succ_mul]
      exact Nat.lt_div_mul_add (by omega)
    have hperiod : (i / (j - i) + 1) * (j - i) ≤ j := by
      have hdiv := Nat.div_mul_le_self i (j - i)
      rw [Nat.succ_mul]
      omega
    obtain ⟨c, d, hmeet, hne⟩ := happart ((i / (j - i) + 1) * (j - i)) (by omega) (by omega)
    have hround := walk_periodic hback hij.le hentry.le (i / (j - i) + 1)
    rw [← Nat.two_mul, hmeet.fast, hmeet.slow] at hround
    exact absurd (Sum.inr.inj hround).symm hne

end Grindurus.Floyd
