/-
Token buckets, up to the loss of tokens.

A bucket fills at a rate, up to its capacity, and what is consumed must be in it. An implementation may lose tokens (a sum that
saturates), and must not make any: `Follows b t op b'` bounds what a bucket `b` may hold once `op` has succeeded at the time `t`.

- `level b t`: what can be in the bucket at `t`. `Follows.kept`: no operation overfills it.
- `Within b r t₀ n k`: filling at the rate `r`, the bucket and the `k` tokens taken out of it since `t₀` come to no more than `n`
  and what was filled in since. `Within.consume`, `Within.refill`: what one operation does to that.
- `run_within`, `taken_le`: so over every run, refused operations included, of a machine whose steps follow a bucket.
-/
import Grindurus.Lib.Machine

namespace Grindurus

open Machine

structure TokenBucket where
  capacity : ℕ
  tokens : ℕ
  rate : ℕ
  last : ℕ

namespace TokenBucket

inductive Op where
  | consume (x : ℕ)
  | refill (x : ℕ)
  | setRate (rate : ℕ)
  | setCapacity (capacity : ℕ)
  deriving DecidableEq, Repr

namespace Op

/-- the terms of the bucket stay as they are -/
def keepsTerms : Op → Bool
  | .consume _ => true
  | .refill _ => true
  | _ => false

def taken : Op → ℕ
  | .consume x => x
  | _ => 0

def added : Op → ℕ
  | .refill x => x
  | _ => 0

end Op

variable {b b' : TokenBucket} {t t₀ t₁ r n k x : ℕ} {op : Op}

def level (b : TokenBucket) (t : ℕ) : ℕ := min b.capacity (b.tokens + b.rate * (t - b.last))

def Follows (b : TokenBucket) (t : ℕ) (op : Op) (b' : TokenBucket) : Prop :=
  b'.last = t ∧
    match op with
    | .consume x => b'.capacity = b.capacity ∧ b'.rate = b.rate ∧ b'.tokens + x ≤ b.level t
    | .refill x => b'.capacity = b.capacity ∧ b'.rate = b.rate ∧ b'.tokens ≤ min b.capacity (b.level t + x)
    | .setRate rate => b'.capacity = b.capacity ∧ b'.rate = rate ∧ b'.tokens ≤ b.level t
    | .setCapacity capacity => b'.capacity = capacity ∧ b'.rate = b.rate ∧ b'.tokens ≤ capacity

theorem level_le_capacity (b : TokenBucket) (t : ℕ) : b.level t ≤ b.capacity := min_le_left ..

theorem level_last (b : TokenBucket) : b.level b.last ≤ b.tokens := by simp [level]

/-- waiting adds what is filled in -/
theorem level_later (b : TokenBucket) (h₀ : b.last ≤ t₀) (h : t₀ ≤ t) : b.level t ≤ b.level t₀ + b.rate * (t - t₀) := by
  have hsplit : t - b.last = (t₀ - b.last) + (t - t₀) := by omega
  unfold level
  rw [hsplit, Nat.mul_add]
  omega

/-- **Never overfull.** -/
theorem Follows.kept (h : b.Follows t op b') : b'.tokens ≤ b'.capacity := by
  have hlevel := b.level_le_capacity t
  cases op with
  | consume x =>
    obtain ⟨-, hc, -, htok⟩ := h
    omega
  | refill x =>
    obtain ⟨-, hc, -, htok⟩ := h
    exact hc ▸ htok.trans (min_le_left ..)
  | setRate rate =>
    obtain ⟨-, hc, -, htok⟩ := h
    omega
  | setCapacity capacity =>
    obtain ⟨-, hc, -, htok⟩ := h
    omega

/-! ## What is taken out -/

def Within (b : TokenBucket) (r t₀ n k : ℕ) : Prop :=
  b.rate = r ∧ ∀ t, t₀ ≤ t → b.last ≤ t → k + b.level t ≤ n + r * (t - t₀)

theorem Within.start (h : b.last ≤ t₀) : b.Within b.rate t₀ (b.level t₀) 0 := by
  refine ⟨rfl, fun t ht _ => ?_⟩
  rw [Nat.zero_add]
  exact b.level_later h ht

/-- what an operation leaves, filled up until later -/
theorem Within.later (hrate : b'.rate = r) (hlast : b'.last = t) (ht : t₀ ≤ t) (h : k + b'.tokens ≤ n + r * (t - t₀)) :
    b'.Within r t₀ n k := by
  refine ⟨hrate, fun s _ hs => ?_⟩
  rw [hlast] at hs
  have hsplit : s - t₀ = (t - t₀) + (s - t) := by omega
  have hfill : b'.level s ≤ b'.tokens + r * (s - t) := by
    rw [level, hrate, hlast]
    exact min_le_right ..
  rw [hsplit, Nat.mul_add]
  omega

theorem Within.consume (hw : b.Within r t₀ n k) (ht : t₀ ≤ t) (hl : b.last ≤ t) (h : b.Follows t (.consume x) b') :
    b'.Within r t₀ n (k + x) := by
  obtain ⟨hrate, hlevel⟩ := hw
  obtain ⟨hlast, -, hrate', htok⟩ := h
  have hle := hlevel t ht hl
  exact .later (hrate'.trans hrate) hlast ht (by omega)

theorem Within.refill (hw : b.Within r t₀ n k) (ht : t₀ ≤ t) (hl : b.last ≤ t) (h : b.Follows t (.refill x) b') :
    b'.Within r t₀ (n + x) k := by
  obtain ⟨hrate, hlevel⟩ := hw
  obtain ⟨hlast, -, hrate', htok⟩ := h
  have hle := hlevel t ht hl
  have hadd : b'.tokens ≤ b.level t + x := htok.trans (min_le_right ..)
  exact .later (hrate'.trans hrate) hlast ht (by omega)

theorem Within.follows (hw : b.Within r t₀ n k) (ht : t₀ ≤ t) (hl : b.last ≤ t) (hop : op.keepsTerms = true)
    (h : b.Follows t op b') : b'.Within r t₀ (n + op.added) (k + op.taken) := by
  cases op with
  | consume x => exact hw.consume ht hl h
  | refill x => exact hw.refill ht hl h
  | setRate rate => cases hop
  | setCapacity capacity => cases hop

/-! ## Runs -/

section Runs

variable {S I ε : Type} {step : S → I → Except ε S} {bucket : S → TokenBucket} {time : I → ℕ} {op : I → Op}

/-- what was taken and what was added on purpose, over the operations that succeed -/
theorem run_within (hstep : ∀ s i s', step s i = .ok s' → (bucket s).Follows (time i) (op i) (bucket s')) (s : S) (is : List I)
    (hclock : (is.map time).Pairwise (· ≤ ·)) (hstart : ∀ i ∈ is, t₀ ≤ time i ∧ (bucket s).last ≤ time i)
    (hterms : ∀ i ∈ is, (op i).keepsTerms = true) (h : (bucket s).Within r t₀ n k) :
    (bucket (run step s is)).Within r t₀ (n + tally step (fun _ i _ => (op i).added) s is)
      (k + tally step (fun _ i _ => (op i).taken) s is) := by
  induction is generalizing s n k with
  | nil => exact h
  | cons i is ih =>
    rw [List.map_cons, List.pairwise_cons] at hclock
    obtain ⟨ht, hl⟩ := hstart i List.mem_cons_self
    have hterms' : ∀ j ∈ is, (op j).keepsTerms = true := fun j hj => hterms j (List.mem_cons_of_mem i hj)
    rw [run_cons, tally, tally]
    cases hs : step s i with
    | ok s' =>
      have hfollows := hstep s i s' hs
      have hstart' : ∀ j ∈ is, t₀ ≤ time j ∧ (bucket s').last ≤ time j := by
        intro j hj
        rw [hfollows.1]
        exact ⟨(hstart j (List.mem_cons_of_mem i hj)).1, hclock.1 _ (List.mem_map_of_mem hj)⟩
      have hnext := h.follows ht hl (hterms i List.mem_cons_self) hfollows
      rw [exec_ok hs, ← Nat.add_assoc, ← Nat.add_assoc]
      exact ih s' hclock.2 hstart' hterms' hnext
    | error e =>
      have hsame : exec step s i = s := by simp [exec, hs]
      rw [hsame, Nat.zero_add, Nat.zero_add]
      exact ih s hclock.2 (fun j hj => hstart j (List.mem_cons_of_mem i hj)) hterms' h

theorem run_last (hstep : ∀ s i s', step s i = .ok s' → (bucket s).Follows (time i) (op i) (bucket s')) (s : S) (is : List I)
    (hlast : (bucket s).last ≤ t) (htimes : ∀ i ∈ is, time i ≤ t) : (bucket (run step s is)).last ≤ t := by
  induction is generalizing s with
  | nil => exact hlast
  | cons i is ih =>
    refine ih _ ?_ fun j hj => htimes j (List.mem_cons_of_mem i hj)
    rcases exec_cases step s i with ⟨s', hs, he⟩ | he
    · rw [he, (hstep s i s' hs).1]
      exact htimes i List.mem_cons_self
    · rwa [he]

/-- **The law of the bucket.** From `t₀` to `t₁`, no more is taken out than was in the bucket, was filled in, and was added. -/
theorem taken_le (hstep : ∀ s i s', step s i = .ok s' → (bucket s).Follows (time i) (op i) (bucket s')) (s : S) (is : List I)
    (hclock : (is.map time).Pairwise (· ≤ ·)) (hterms : ∀ i ∈ is, (op i).keepsTerms = true) (hlast : (bucket s).last ≤ t₀)
    (ht : t₀ ≤ t₁) (htimes : ∀ i ∈ is, t₀ ≤ time i ∧ time i ≤ t₁) :
    tally step (fun _ i _ => (op i).taken) s is ≤
      (bucket s).level t₀ + (bucket s).rate * (t₁ - t₀) + tally step (fun _ i _ => (op i).added) s is := by
  have hstart : ∀ i ∈ is, t₀ ≤ time i ∧ (bucket s).last ≤ time i :=
    fun i hi => ⟨(htimes i hi).1, hlast.trans (htimes i hi).1⟩
  have hend := run_last hstep s is (hlast.trans ht) fun i hi => (htimes i hi).2
  obtain ⟨-, hwithin⟩ := run_within hstep s is hclock hstart hterms (.start hlast)
  have hle := hwithin t₁ ht hend
  omega

end Runs

end TokenBucket
end Grindurus
