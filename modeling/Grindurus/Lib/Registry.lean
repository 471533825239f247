/-
A set of keys kept as a vector: members are appended and removed by swapping in the last element.

`Tracks l p`: the vector `l` lists exactly the keys satisfying `p`, each once. `swapRemove` is a permutation of erasing
the key, so appending a new member and removing an old one both keep a vector tracking its predicate.

`Lists key l f`: the entries of `l` are those of the partial map `f`, each key once. Entering, replacing and removing an entry are
updates of the map.
-/
import Mathlib.Tactic

namespace Grindurus.Registry

open Function

variable {K : Type} [DecidableEq K]

/-- remove the first occurrence of `k`: the last element takes its place, then the vector is popped -/
def swapRemove (l : List K) (k : K) : List K :=
  match l.idxOf? k with
  | none => l
  | some pos =>
    let last := l.length - 1
    let moved := if pos ≠ last then l.set pos (l.getLastD k) else l
    moved.dropLast

/-- `l` lists the keys satisfying `p`, each once -/
def Tracks (l : List K) (p : K → Prop) : Prop := l.Nodup ∧ ∀ k, k ∈ l ↔ p k

theorem swapRemove_not_mem {l : List K} {k : K} (h : k ∉ l) : swapRemove l k = l := by
  unfold swapRemove
  rw [List.idxOf?_eq_none_iff.2 h]

/-- the last entry takes the place of the one removed -/
theorem swapRemove_append (a b : List K) (k : K) (ha : k ∉ a) :
    swapRemove (a ++ k :: b) k = if b = [] then a else a ++ b.getLastD k :: b.dropLast := by
  have hidx : (a ++ k :: b).idxOf? k = some a.length := by
    rw [List.idxOf?, List.findIdx?_append]
    have hnone : a.findIdx? (· == k) = none := by
      rw [List.findIdx?_eq_none_iff]
      intro x hx
      simpa using fun h : x = k => ha (h ▸ hx)
    simp [hnone, List.findIdx?_cons]
  unfold swapRemove
  rw [hidx]
  rcases List.eq_nil_or_concat b with rfl | ⟨b', z, rfl⟩
  · simp
  · have hset : (a ++ k :: (b' ++ [z])).set a.length z = (a ++ z :: b') ++ [z] := by simp
    have hlast : (a ++ k :: (b' ++ [z])).getLastD k = z := by
      rw [← List.cons_append, ← List.append_assoc, List.getLastD_concat]
    simp only [List.concat_eq_append, hlast, hset, List.dropLast_concat]
    simp
    exact @List.dropLast_concat K (z :: b') z

theorem swapRemove_perm (l : List K) (k : K) : (swapRemove l k).Perm (l.erase k) := by
  by_cases hk : k ∈ l
  · obtain ⟨a, b, ha, rfl, herase⟩ := List.exists_erase_eq hk
    rw [herase, swapRemove_append a b k ha]
    rcases List.eq_nil_or_concat b with rfl | ⟨b', z, rfl⟩
    · simp
    · simp only [List.concat_eq_append, List.append_eq_nil_iff, List.cons_ne_self, and_false, if_false,
        List.dropLast_concat, List.getLastD_eq_getLast?]
      exact List.Perm.append_left a (by simpa using (List.perm_append_singleton z b').symm)
  · rw [swapRemove_not_mem hk, List.erase_of_not_mem hk]

omit [DecidableEq K] in
theorem Tracks.nil : Tracks ([] : List K) (fun _ => False) := ⟨List.nodup_nil, by simp⟩

omit [DecidableEq K] in
theorem Tracks.congr {l : List K} {p q : K → Prop} (h : Tracks l p) (hpq : ∀ k, p k ↔ q k) : Tracks l q :=
  ⟨h.1, fun k => (h.2 k).trans (hpq k)⟩

/-- appending a key that was not a member adds exactly that key -/
theorem Tracks.push {l : List K} {p q : K → Prop} {k : K} (h : Tracks l p) (hk : ¬ p k) (hq : q k)
    (hframe : ∀ j, j ≠ k → (q j ↔ p j)) : Tracks (l ++ [k]) q := by
  refine ⟨List.nodup_append.2 ⟨h.1, List.nodup_singleton k, ?_⟩, fun j => ?_⟩
  · rintro a ha b hb rfl
    rw [List.mem_singleton] at hb
    exact hk ((h.2 k).1 (hb ▸ ha))
  · by_cases hj : j = k
    · subst hj; simp [hq]
    · simp [hj, h.2 j, hframe j hj]

/-- swap-removing a member removes exactly that key -/
theorem Tracks.remove {l : List K} {p q : K → Prop} {k : K} (h : Tracks l p) (hq : ¬ q k)
    (hframe : ∀ j, j ≠ k → (q j ↔ p j)) : Tracks (swapRemove l k) q := by
  have hperm := swapRemove_perm l k
  refine ⟨hperm.nodup_iff.2 (h.1.erase k), fun j => ?_⟩
  rw [hperm.mem_iff, h.1.mem_erase_iff]
  by_cases hj : j = k
  · subst hj; simp [hq]
  · simp [hj, h.2 j, hframe j hj]

example : swapRemove [1, 2, 3, 4] 2 = [1, 4, 3] := by decide

/-! ## Entries under keys -/

section Keyed

variable {E : Type} [DecidableEq E] (key : E → K)

/-- `l` lists the entries of `f`, each key once -/
structure Lists (l : List E) (f : K → Option E) : Prop where
  keys : (l.map key).Nodup
  keyed : ∀ k e, f k = some e → key e = k
  mem : ∀ e, e ∈ l ↔ f (key e) = some e

variable {key} {l : List E} {f : K → Option E} {e : E} {k : K}

omit [DecidableEq K] [DecidableEq E] in
theorem Lists.nil : Lists key [] fun _ => none := ⟨List.nodup_nil, by simp, by simp⟩

omit [DecidableEq E] in
theorem Lists.find (h : Lists key l f) (k : K) :
    (l.find? fun e => key e = k) = f k := by
  cases hk : f k with
  | none =>
    rw [List.find?_eq_none]
    intro e he hkey
    have hfe := (h.mem e).1 he
    simp_all
  | some e =>
    have hkey := h.keyed k e hk
    have he : e ∈ l := (h.mem e).2 (hkey ▸ hk)
    cases hfind : l.find? fun e => key e = k with
    | none =>
      rw [List.find?_eq_none] at hfind
      exact absurd (by simpa using hkey) (hfind e he)
    | some e' =>
      have hkey' : key e' = k := by simpa using List.find?_some hfind
      have he' := (h.mem e').1 (List.mem_of_find?_eq_some hfind)
      rw [hkey', hk] at he'
      exact he'.symm

omit [DecidableEq E] in
theorem Lists.keyed_update (h : Lists key l f) : ∀ k' e', update f (key e) (some e) k' = some e' → key e' = k' := by
  intro k' e' he'
  rw [update_apply] at he'
  split_ifs at he' with hk
  · cases he'
    exact hk.symm
  · exact h.keyed k' e' he'

omit [DecidableEq E] in
/-- an entry under a new key -/
theorem Lists.push (h : Lists key l f) (hk : f (key e) = none) : Lists key (l ++ [e]) (update f (key e) (some e)) := by
  have hnew : ∀ e' ∈ l, key e' ≠ key e := by
    intro e' he' heq
    have hfe := (h.mem e').1 he'
    rw [heq, hk] at hfe
    cases hfe
  refine ⟨?_, h.keyed_update, fun e' => ?_⟩
  · rw [List.map_append, List.nodup_append]
    refine ⟨h.keys, List.nodup_singleton _, ?_⟩
    rintro a ha b hb rfl
    obtain ⟨e', he', rfl⟩ := List.mem_map.1 ha
    exact hnew e' he' (by simpa using hb)
  · rw [List.mem_append, List.mem_singleton, update_apply]
    split_ifs with heq
    · refine ⟨fun he' => ?_, fun he' => .inr (Option.some.inj he').symm⟩
      rcases he' with he' | rfl
      · exact absurd heq (hnew e' he')
      · rfl
    · rw [h.mem e']
      refine ⟨fun he' => he'.resolve_right ?_, .inl⟩
      rintro rfl
      exact heq rfl

omit [DecidableEq E] in
/-- replacing the first entry under a key replaces the only one -/
theorem replaceF_eq_map (hn : (l.map key).Nodup) :
    (l.replaceF fun e' => if key e' = key e then some e else none) = l.map fun e' => if key e' = key e then e else e' := by
  induction l with
  | nil => rfl
  | cons a l ih =>
    rw [List.map_cons, List.nodup_cons] at hn
    by_cases ha : key a = key e
    · have hrest : (l.map fun e' => if key e' = key e then e else e') = l := by
        refine (List.map_congr_left fun e' he' => if_neg fun heq => hn.1 ?_).trans (List.map_id _)
        rw [ha, ← heq]
        exact List.mem_map_of_mem he'
      rw [List.map_cons, if_pos ha, hrest]
      exact List.replaceF_cons_of_some _ (if_pos ha)
    · rw [List.map_cons, if_neg ha, ← ih hn.2]
      exact List.replaceF_cons_of_none _ (if_neg ha)

omit [DecidableEq E] in
/-- another entry under a key that has one -/
theorem Lists.replace (h : Lists key l f) (hk : f (key e) ≠ none) :
    Lists key (l.replaceF fun e' => if key e' = key e then some e else none) (update f (key e) (some e)) := by
  rw [replaceF_eq_map h.keys]
  have hkeys : ∀ e', key (if key e' = key e then e else e') = key e' := by
    intro e'
    split_ifs with heq
    · exact heq.symm
    · rfl
  refine ⟨?_, h.keyed_update, fun e' => ?_⟩
  · rw [List.map_map, Function.comp_def]
    simp only [hkeys]
    exact h.keys
  · rw [List.mem_map, update_apply]
    split_ifs with heq
    · obtain ⟨old, hold⟩ := Option.ne_none_iff_exists'.1 hk
      refine ⟨?_, fun he' => ?_⟩
      · rintro ⟨a, -, rfl⟩
        rw [hkeys] at heq
        rw [if_pos heq]
      · cases Option.some.inj he'
        have hsame := h.keyed _ old hold
        exact ⟨old, (h.mem old).2 (hsame ▸ hold), if_pos hsame⟩
    · rw [← h.mem e']
      refine ⟨?_, fun he' => ⟨e', he', if_neg heq⟩⟩
      rintro ⟨a, ha, rfl⟩
      rw [hkeys] at heq
      rwa [if_neg heq]

/-- no entry under a key any more -/
theorem Lists.remove (h : Lists key l f) (hk : f k = some e) : Lists key (swapRemove l e) (update f k none) := by
  have hkey := h.keyed k e hk
  have hperm := swapRemove_perm l e
  have hnodup : l.Nodup := .of_map _ h.keys
  have hmem : ∀ e', e' ∈ swapRemove l e ↔ e' ≠ e ∧ e' ∈ l := fun e' => by rw [hperm.mem_iff, hnodup.mem_erase_iff]
  refine ⟨?_, fun k' e' he' => ?_, fun e' => ?_⟩
  · have hkeys : ((l.erase e).map key).Sublist (l.map key) := List.erase_sublist.map key
    exact (hperm.map key).nodup_iff.2 (hkeys.nodup h.keys)
  · rw [update_apply] at he'
    split_ifs at he'
    exact h.keyed k' e' he'
  · rw [hmem, h.mem, update_apply]
    split_ifs with heq
    · rw [heq, hk]
      simp only [Option.some.injEq, iff_false, not_and]
      rintro hne rfl
      exact hne rfl
    · refine ⟨fun he' => he'.2, fun he' => ⟨?_, he'⟩⟩
      rintro rfl
      exact heq hkey

end Keyed

end Grindurus.Registry
