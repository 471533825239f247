/-
Books that are read page by page.

- `page`: the rows from `offset` on, `limit` of them at most. `Serves`: a view that shows a book in pages, and refuses past its
  end.
- `collect`: a reader asks for page after page until one is short, or past the end.
- `collect_reads`: the book may change under the reader, as long as it does not shrink: he gets every row that was there when he
  began, each once and under its number, as it stood when its page was read.
- `collect_whole`: a book that stands still he reads from end to end.
- `filed`: the rows kept under the ids `1, 2, …`. `filed_total`: what they are worth together. `listed_total`: the same for rows in
  a list of keys.
-/
import Grindurus.Lib.Tally

namespace Grindurus.Pages

open Tally

variable {ρ ε : Type}

/-! ## Pages -/

def page (rows : List ρ) (offset limit : ℕ) : List ρ := (rows.drop offset).take limit

theorem page_length (rows : List ρ) (offset limit : ℕ) : (page rows offset limit).length = min limit (rows.length - offset) := by
  simp [page]

theorem page_getElem? (rows : List ρ) {offset limit k : ℕ} (hk : k < limit) :
    (page rows offset limit)[k]? = rows[offset + k]? := by
  simp [page, hk]

/-- `ask` shows the book `rows`, and refuses with `past` beyond its end -/
structure Serves (ask : ℕ → ℕ → Except ε (List ρ)) (past : ε) (rows : List ρ) : Prop where
  shows : ∀ {offset limit}, 0 < limit → offset < rows.length → ask offset limit = .ok (page rows offset limit)
  refuses : ∀ {offset limit}, 0 < limit → rows.length ≤ offset → ask offset limit = .error past

/-! ## Reading on -/

variable [DecidableEq ε]

/-- `n` requests at most, from the time `t` on, one at a time: until a page is short, or past the end -/
def collect (ask : ℕ → ℕ → ℕ → Except ε (List ρ)) (past : ε) (limit : ℕ) : ℕ → ℕ → ℕ → Option (List ρ)
  | 0, _, _ => none
  | n + 1, t, offset =>
    match ask t offset limit with
    | .ok rows =>
      if rows.length < limit then some rows
      else (collect ask past limit n (t + 1) (offset + limit)).map fun rest => rows ++ rest
    | .error e => if e = past then some [] else none

variable {ask : ℕ → ℕ → ℕ → Except ε (List ρ)} {past : ε} {limit : ℕ} {book : ℕ → List ρ}

/-- requests enough for the book as it is in the end read it all -/
theorem collect_reads (hserves : ∀ t, Serves (ask t) past (book t)) (hgrows : Monotone fun t => (book t).length)
    (hlimit : 0 < limit) (n t offset : ℕ) (hoffset : offset ≤ (book t).length) (hfuel : (book (t + n)).length < offset + n * limit) :
    ∃ rows, collect ask past limit n t offset = some rows ∧ (book t).length ≤ offset + rows.length ∧
      ∀ k row, rows[k]? = some row → ∃ s, t ≤ s ∧ s < t + n ∧ (book s)[offset + k]? = some row := by
  induction n generalizing t offset with
  | zero =>
    simp only [zero_mul, add_zero] at hfuel
    omega
  | succ n ih =>
    unfold collect
    rcases hoffset.lt_or_eq with hlt | hend
    · have hlength := page_length (book t) offset limit
      rw [(hserves t).shows hlimit hlt]
      dsimp only
      split_ifs with hshort
      · refine ⟨_, rfl, by omega, fun k row hrow => ⟨t, le_rfl, by omega, ?_⟩⟩
        obtain ⟨hk, -⟩ := List.getElem?_eq_some_iff.1 hrow
        rwa [page_getElem? _ (by omega)] at hrow
      · have hnext : (book t).length ≤ (book (t + 1)).length := hgrows (Nat.le_succ t)
        have hfuel' : (book (t + 1 + n)).length < offset + limit + n * limit := by
          rw [Nat.succ_mul] at hfuel
          rw [show t + 1 + n = t + (n + 1) by omega]
          omega
        obtain ⟨rest, hrest, hreach, hrows⟩ := ih (t + 1) (offset + limit) (by omega) hfuel'
        refine ⟨page (book t) offset limit ++ rest, by rw [hrest, Option.map_some], ?_, fun k row hrow => ?_⟩
        · rw [List.length_append]
          omega
        · rcases lt_or_ge k limit with hk | hk
          · rw [List.getElem?_append_left (by omega), page_getElem? _ hk] at hrow
            exact ⟨t, le_rfl, by omega, hrow⟩
          · rw [List.getElem?_append_right (by omega)] at hrow
            obtain ⟨s, hs, hs', hrow⟩ := hrows _ row hrow
            refine ⟨s, by omega, by omega, ?_⟩
            rwa [show offset + limit + (k - (page (book t) offset limit).length) = offset + k by omega] at hrow
    · rw [(hserves t).refuses hlimit hend.ge]
      simp [hend]

/-- a book that stands still is read from end to end -/
theorem collect_whole {ask : ℕ → ℕ → Except ε (List ρ)} {rows : List ρ} (h : Serves ask past rows) (hlimit : 0 < limit) {n : ℕ}
    (hfuel : rows.length < n * limit) : collect (fun _ => ask) past limit n 0 0 = some rows := by
  obtain ⟨all, hall, hreach, hplace⟩ := collect_reads (fun _ => h) monotone_const hlimit n 0 0 (Nat.zero_le _)
    (by simpa using hfuel)
  rw [hall]
  refine congrArg some (List.ext_getElem? fun k => ?_)
  cases hk : all[k]? with
  | none =>
    have hend := List.getElem?_eq_none_iff.1 hk
    exact (List.getElem?_eq_none_iff.2 (by omega)).symm
  | some row =>
    obtain ⟨_, -, -, hrow⟩ := hplace k row hk
    rw [Nat.zero_add] at hrow
    exact hrow.symm

omit [DecidableEq ε]

/-! ## Rows kept in a list -/

theorem page_map {κ : Type} (f : κ → ρ) (keys : List κ) (offset limit : ℕ) :
    page (keys.map f) offset limit = (page keys offset limit).map f := by
  rw [page, page, List.map_take, List.map_drop]

/-- if only listed keys are worth anything, all there is is worth what the list says -/
theorem listed_total {κ : Type} [DecidableEq κ] {f : κ → ℕ} {keys : List κ} (hnodup : keys.Nodup)
    (h : ∀ k, f k ≠ 0 → k ∈ keys) : HasTotal f (keys.map f).sum := by
  refine .of_sum keys.toFinset (fun k hk => ?_) (List.sum_toFinset _ hnodup)
  by_contra hne
  exact hk (List.mem_toFinset.2 (h k hne))

/-! ## Rows kept under ids -/

def filed (shown : ℕ → Option ρ) (count : ℕ) : List ρ := (List.range' 1 count).filterMap shown

variable {shown : ℕ → Option ρ} {count : ℕ}

/-- no id up to the count is missing -/
def Full (shown : ℕ → Option ρ) (count : ℕ) : Prop := ∀ id, 0 < id → id ≤ count → (shown id).isSome

theorem filed_eq (h : Full shown count) : (filed shown count).map some = (List.range' 1 count).map shown := by
  unfold filed
  have hall : ∀ id ∈ List.range' 1 count, (shown id).isSome := fun id hid => by
    have hmem := List.mem_range'_1.1 hid
    exact h id (by omega) (by omega)
  generalize List.range' 1 count = ids at hall
  induction ids with
  | nil => rfl
  | cons id ids ih =>
    obtain ⟨row, hrow⟩ := Option.isSome_iff_exists.1 (hall id List.mem_cons_self)
    rw [List.filterMap_cons_some hrow, List.map_cons, List.map_cons, hrow, ih fun k hk => hall k (List.mem_cons_of_mem _ hk)]

theorem filed_length (h : Full shown count) : (filed shown count).length = count := by
  simpa using congrArg List.length (filed_eq h)

theorem filed_getElem? (h : Full shown count) {k : ℕ} (hk : k < count) : (filed shown count)[k]? = shown (k + 1) := by
  have hrow := congrArg (fun rows => rows[k]?) (filed_eq h)
  simp only [List.getElem?_map, List.getElem?_range' hk, Option.map_some, Nat.add_comm 1 k, one_mul] at hrow
  obtain ⟨row, hrow', hshown⟩ := Option.map_eq_some_iff.1 hrow
  rw [hrow', hshown]

/-- if only counted rows are worth anything, all there is is worth what the book lists -/
theorem filed_total {f : ρ → ℕ} (h : ∀ id row, shown id = some row → f row ≠ 0 → 0 < id ∧ id ≤ count) :
    HasTotal (fun id => (shown id).elim 0 f) ((filed shown count).map f).sum := by
  have hworth : ((filed shown count).map f).sum = ((List.range' 1 count).map fun id => (shown id).elim 0 f).sum := by
    unfold filed
    generalize List.range' 1 count = ids
    induction ids with
    | nil => rfl
    | cons id ids ih =>
      rw [List.map_cons, List.sum_cons, ← ih]
      cases hrow : shown id with
      | none => simp [hrow]
      | some row => simp [hrow]
  rw [hworth]
  refine listed_total List.nodup_range' fun id hne => ?_
  cases hrow : shown id with
  | none => exact absurd (by rw [hrow, Option.elim_none]) hne
  | some row =>
    have hcounted := h id row hrow (by rwa [hrow, Option.elim_some] at hne)
    exact List.mem_range'_1.2 (by omega)

end Grindurus.Pages
