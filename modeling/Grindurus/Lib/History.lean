/-
Where a value at the end of a run comes from.

- `Written`: the last instruction of a kind that committed in a run, and where it stands.
- `last_write`: what only instructions of one kind change is as it was, or as the last of them left it.
-/
import Grindurus.Lib.Machine

namespace Grindurus.Machine

variable {S I ε α : Type} {step : S → I → Except ε S} {P : S → Prop} {f : S → α} {writes : I → Prop} {s : S}

/-- in the run `is` from `s` the instruction `i` committed after `pre`, to the state `t`, and none of its kind after it -/
structure Written (step : S → I → Except ε S) (writes : I → Prop) (s : S) (is pre : List I) (i : I) (t : S) : Prop where
  kind : writes i
  commits : step (run step s pre) i = .ok t
  last : ∃ post, is = pre ++ i :: post ∧ Meets step (fun _ j => ¬ writes j) t post

theorem Written.snoc {is pre : List I} {i j : I} {t : S} (h : Written step writes s is pre i t)
    (hj : ∀ s', step (run step s is) j = .ok s' → ¬ writes j) : Written step writes s (is ++ [j]) pre i t := by
  obtain ⟨post, his, hpost⟩ := h.last
  have hrun : run step s is = run step t post := by rw [his, run_append, run_cons, exec_ok h.commits]
  rw [hrun] at hj
  exact ⟨h.kind, h.commits, post ++ [j], by simp [his], meets_append.2 ⟨hpost, hj, trivial⟩⟩

/-- **Last write.** What no other committed step changes is as it was at the start, if there was no write, and else as the last
write left it. -/
theorem last_write (hP : ∀ s i s', P s → step s i = .ok s' → P s')
    (hframe : ∀ s i s', P s → ¬ writes i → step s i = .ok s' → f s' = f s) (h : P s) (is : List I) :
    f (run step s is) = f s ∧ Meets step (fun _ i => ¬ writes i) s is ∨
      ∃ pre i t, Written step writes s is pre i t ∧ f t = f (run step s is) := by
  induction is using List.reverseRecOn with
  | nil => exact .inl ⟨rfl, trivial⟩
  | append_singleton is i ih =>
    have hrun : run step s (is ++ [i]) = exec step (run step s is) i := run_append s is [i]
    cases hs : step (run step s is) i with
    | error e =>
      have hsame : run step s (is ++ [i]) = run step s is := by simp [hrun, exec, hs]
      have hnever : ∀ s', step (run step s is) i = .ok s' → ¬ writes i := by
        intro s' hok
        cases hs.symm.trans hok
      rw [hsame]
      rcases ih with ⟨hf, hquiet⟩ | ⟨pre, j, t, hj, hf⟩
      · exact .inl ⟨hf, meets_append.2 ⟨hquiet, hnever, trivial⟩⟩
      · exact .inr ⟨pre, j, t, hj.snoc hnever, hf⟩
    | ok s' =>
      rw [hrun, exec_ok hs]
      by_cases hi : writes i
      · exact .inr ⟨is, i, s', ⟨hi, hs, [], rfl, trivial⟩, rfl⟩
      · have hsame := hframe _ i s' (run_invariant hP s is h) hi hs
        rw [hsame]
        rcases ih with ⟨hf, hquiet⟩ | ⟨pre, j, t, hj, hf⟩
        · exact .inl ⟨hf, meets_append.2 ⟨hquiet, fun _ _ => hi, trivial⟩⟩
        · exact .inr ⟨pre, j, t, hj.snoc fun _ _ => hi, hf⟩

end Grindurus.Machine
