/-
Runs of a transactional machine: `step` either commits a new state or fails and leaves the state as it was.

- `exec`, `run`: one transaction, and a list of them from left to right.
- `run_invariant`: what every committed step preserves, every run preserves.
- `Meets`, `run_invariant_of`: the same for runs whose committed steps all satisfy a side condition.
- `tally`, `run_bounded`, `run_bounded_of`: a quantity accumulated along a run, and an invariant that mentions it;
  `run_bounded₂_of`: two quantities.
-/
import Mathlib.Tactic

namespace Grindurus.Machine

variable {S I ε : Type} (step : S → I → Except ε S)

/-- one transaction: a failed step is rolled back -/
def exec (s : S) (i : I) : S :=
  match step s i with
  | .ok s' => s'
  | .error _ => s

def run (s : S) (is : List I) : S := is.foldl (exec step) s

/-- every committed step of the run satisfies `c` in the state it starts from -/
def Meets (c : S → I → Prop) : S → List I → Prop
  | _, [] => True
  | s, i :: is => (∀ s', step s i = .ok s' → c s i) ∧ Meets c (exec step s i) is

/-- the sum of `cost` over the committed steps of the run -/
def tally (cost : S → I → S → ℕ) : S → List I → ℕ
  | _, [] => 0
  | s, i :: is =>
    (match step s i with
      | .ok s' => cost s i s'
      | .error _ => 0) + tally cost (exec step s i) is

variable {step}

theorem exec_ok {s s' : S} {i : I} (h : step s i = .ok s') : exec step s i = s' := by simp [exec, h]

theorem step_exec {s : S} {i : I} (h : (step s i).toBool = true) : step s i = .ok (exec step s i) := by
  cases hs : step s i with
  | ok s' => rw [exec_ok hs]
  | error e => simp [hs, Except.toBool] at h

theorem run_cons (s : S) (i : I) (is : List I) : run step s (i :: is) = run step (exec step s i) is := rfl

theorem run_append (s : S) (is js : List I) : run step s (is ++ js) = run step (run step s is) js :=
  List.foldl_append ..

variable (step) in
/-- case split on a transaction: committed, or rolled back -/
theorem exec_cases (s : S) (i : I) : (∃ s', step s i = .ok s' ∧ exec step s i = s') ∨ exec step s i = s := by
  cases h : step s i with
  | ok s' => exact .inl ⟨s', rfl, exec_ok h⟩
  | error e => exact .inr (by simp [exec, h])

theorem meets_of_forall {c : S → I → Prop} (h : ∀ s i, c s i) (s : S) (is : List I) : Meets step c s is := by
  induction is generalizing s with
  | nil => trivial
  | cons i is ih => exact ⟨fun _ _ => h s i, ih _⟩

theorem meets_append {c : S → I → Prop} {s : S} {is js : List I} :
    Meets step c s (is ++ js) ↔ Meets step c s is ∧ Meets step c (run step s is) js := by
  induction is generalizing s with
  | nil => simp [Meets, run]
  | cons i is ih => simp only [List.cons_append, Meets, ih, run_cons, and_assoc]

theorem tally_le_length {cost : S → I → S → ℕ} (h : ∀ s i s', cost s i s' ≤ 1) (s : S) (is : List I) :
    tally step cost s is ≤ is.length := by
  induction is generalizing s with
  | nil => exact le_rfl
  | cons i is ih =>
    rw [tally, List.length_cons, Nat.add_comm]
    refine Nat.add_le_add (ih _) ?_
    cases step s i with
    | ok s' => exact h s i s'
    | error e => exact Nat.zero_le 1

/-- **Run invariant.** What every committed step preserves holds after every run. -/
theorem run_invariant {P : S → Prop} (hstep : ∀ s i s', P s → step s i = .ok s' → P s') (s : S) (is : List I)
    (h : P s) : P (run step s is) := by
  induction is generalizing s with
  | nil => exact h
  | cons i is ih =>
    rw [run_cons]
    apply ih
    rcases exec_cases step s i with ⟨s', hs, he⟩ | he
    · rw [he]; exact hstep s i s' h hs
    · rwa [he]

/-- **Run invariant under a side condition** that every committed step of the run meets. -/
theorem run_invariant_of {P : S → Prop} {c : S → I → Prop}
    (hstep : ∀ s i s', P s → c s i → step s i = .ok s' → P s') (s : S) (is : List I) (hc : Meets step c s is)
    (h : P s) : P (run step s is) := by
  induction is generalizing s with
  | nil => exact h
  | cons i is ih =>
    rw [run_cons]
    refine ih _ hc.2 ?_
    rcases exec_cases step s i with ⟨s', hs, he⟩ | he
    · rw [he]; exact hstep s i s' h (hc.1 s' hs) hs
    · rwa [he]

/-- **Bounded run.** An invariant that mentions an accumulated cost: if each committed step that meets `c` moves the
invariant from `k` to `k + cost`, then a run of such steps moves it from `k` to `k` plus the run's tally. -/
theorem run_bounded_of {P : S → ℕ → Prop} {c : S → I → Prop} {cost : S → I → S → ℕ}
    (hstep : ∀ s i s' k, P s k → c s i → step s i = .ok s' → P s' (k + cost s i s')) (s : S) (is : List I)
    (hc : Meets step c s is) (k : ℕ) (h : P s k) : P (run step s is) (k + tally step cost s is) := by
  induction is generalizing s k with
  | nil => exact h
  | cons i is ih =>
    rw [run_cons, tally]
    cases hs : step s i with
    | ok s' =>
      have hc' := hc.2
      rw [exec_ok hs] at hc' ⊢
      rw [← Nat.add_assoc]
      exact ih s' hc' _ (hstep s i s' k h (hc.1 s' hs) hs)
    | error e =>
      have he : exec step s i = s := by simp [exec, hs]
      have hc' := hc.2
      rw [he] at hc' ⊢
      rw [Nat.zero_add]
      exact ih s hc' k h

theorem run_bounded {P : S → ℕ → Prop} {cost : S → I → S → ℕ}
    (hstep : ∀ s i s' k, P s k → step s i = .ok s' → P s' (k + cost s i s')) (s : S) (is : List I) (k : ℕ)
    (h : P s k) : P (run step s is) (k + tally step cost s is) :=
  run_bounded_of (c := fun _ _ => True) (fun s i s' k hP _ => hstep s i s' k hP) s is
    (meets_of_forall (fun _ _ => trivial) s is) k h

/-- the same for two costs at a time -/
theorem run_bounded₂_of {P : S → ℕ → ℕ → Prop} {c : S → I → Prop} {cost cost' : S → I → S → ℕ}
    (hstep : ∀ s i s' n k, P s n k → c s i → step s i = .ok s' → P s' (n + cost s i s') (k + cost' s i s')) (s : S) (is : List I)
    (hc : Meets step c s is) (n k : ℕ) (h : P s n k) : P (run step s is) (n + tally step cost s is) (k + tally step cost' s is) := by
  induction is generalizing s n k with
  | nil => exact h
  | cons i is ih =>
    rw [run_cons, tally, tally]
    cases hs : step s i with
    | ok s' =>
      have hc' := hc.2
      rw [exec_ok hs] at hc' ⊢
      rw [← Nat.add_assoc, ← Nat.add_assoc]
      exact ih s' hc' _ _ (hstep s i s' n k h (hc.1 s' hs) hs)
    | error e =>
      have he : exec step s i = s := by simp [exec, hs]
      have hc' := hc.2
      rw [he] at hc' ⊢
      rw [Nat.zero_add, Nat.zero_add]
      exact ih s hc' n k h

theorem meets_of_mem {c : I → Prop} {is : List I} (h : ∀ i ∈ is, c i) (s : S) : Meets step (fun _ i => c i) s is := by
  induction is generalizing s with
  | nil => trivial
  | cons i is ih => exact ⟨fun _ _ => h i List.mem_cons_self, ih (fun j hj => h j (List.mem_cons_of_mem i hj)) _⟩

theorem tally_add (cost cost' : S → I → S → ℕ) (s : S) (is : List I) :
    tally step (fun s i s' => cost s i s' + cost' s i s') s is = tally step cost s is + tally step cost' s is := by
  induction is generalizing s with
  | nil => rfl
  | cons i is ih =>
    rw [tally, tally, tally, ih]
    cases step s i <;> simp only [] <;> omega

/-- **Balance.** What each step takes out of a quantity and brings into it, a run does. -/
theorem tally_balance {P : S → Prop} {f : S → ℕ} {inn out : S → I → S → ℕ} (hP : ∀ s i s', P s → step s i = .ok s' → P s')
    (hf : ∀ s i s', P s → step s i = .ok s' → f s' + out s i s' = f s + inn s i s') (s : S) (is : List I) (h : P s) :
    f (run step s is) + tally step out s is = f s + tally step inn s is := by
  induction is generalizing s with
  | nil => rfl
  | cons i is ih =>
    rw [run_cons, tally, tally]
    cases hs : step s i with
    | ok s' =>
      have hstep := hf s i s' h hs
      have hrest := ih s' (hP s i s' h hs)
      rw [exec_ok hs]
      simp only []
      omega
    | error e =>
      have he : exec step s i = s := by simp [exec, hs]
      rw [he, Nat.zero_add, Nat.zero_add]
      exact ih s h

/-- what no step costs, no run does -/
theorem tally_eq_zero {P : S → Prop} {cost : S → I → S → ℕ} (hP : ∀ s i s', P s → step s i = .ok s' → P s')
    (hc : ∀ s i s', P s → step s i = .ok s' → cost s i s' = 0) (s : S) (is : List I) (h : P s) : tally step cost s is = 0 := by
  have hrun : P (run step s is) ∧ 0 + tally step cost s is = 0 :=
    run_bounded (P := fun s k => P s ∧ k = 0) (fun s i s' k hk hs => ⟨hP s i s' hk.1 hs, by rw [hk.2, hc s i s' hk.1 hs]⟩)
      s is 0 ⟨h, rfl⟩
  omega

end Grindurus.Machine
