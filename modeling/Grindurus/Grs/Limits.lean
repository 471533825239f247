/-
The rate limiters are token buckets (`programs/grs/src/state/peer_config.rs`).

- `RateLimiter.act`: the four methods at a time of the clock. `act_follows`: each keeps to a token bucket.
- `limiter_is_bucket`: no run of them overfills a limiter, nor grants more than was in it, was filled in and was added.
-/
import Grindurus.Lib.TokenBucket
import Grindurus.Grs.Effects

namespace Grindurus.Grs

open Checked Machine TokenBank Function

variable {r r' : RateLimiter} {now : ℤ} {x : ℕ}

/-! ## Methods -/

def RateLimiter.bucket (r : RateLimiter) : TokenBucket := ⟨r.capacity, r.tokens, r.refillPerSecond, r.lastRefillTime⟩

/-- one method of a limiter, at a time -/
def RateLimiter.act (r : RateLimiter) : ℤ × TokenBucket.Op → Except OFTError RateLimiter
  | (now, .consume x) => r.tryConsume now x
  | (now, .refill x) => r.refill now x
  | (now, .setRate rate) => r.setRate now rate
  | (now, .setCapacity capacity) => r.setCapacity now capacity

/-- a refill adds no more than the time and the extra tokens allow: it may saturate -/
theorem RateLimiter.refill_ok (h : r.refill now x = .ok r') :
    r'.capacity = r.capacity ∧ r'.refillPerSecond = r.refillPerSecond ∧ r'.lastRefillTime = now.toNat ∧
      r'.tokens ≤ min r.capacity (r.bucket.level now.toNat + x) := by
  simp only [RateLimiter.refill, bind_ok, Except.ok.injEq] at h
  obtain ⟨t, ht, rfl⟩ := h
  obtain ⟨-, rfl⟩ := unixTime_ok ht
  refine ⟨rfl, rfl, rfl, ?_⟩
  have hcomm : (now.toNat - r.lastRefillTime) * r.refillPerSecond = r.refillPerSecond * (now.toNat - r.lastRefillTime) :=
    Nat.mul_comm ..
  simp only [TokenBucket.level, RateLimiter.bucket, saturatingAdd, saturatingMul]
  rw [hcomm]
  split_ifs <;> omega

/-- a limiter does what the bucket does, with the clock in whole seconds -/
theorem RateLimiter.act_follows {i : ℤ × TokenBucket.Op} (h : r.act i = .ok r') :
    r.bucket.Follows i.1.toNat i.2 r'.bucket := by
  obtain ⟨now, op⟩ := i
  cases op with
  | consume x =>
    simp only [RateLimiter.act, RateLimiter.tryConsume, bind_ok, checkedSub_ok, Except.ok.injEq] at h
    obtain ⟨r₁, hr₁, _, ⟨hle, rfl⟩, rfl⟩ := h
    obtain ⟨hcap, hrate, hlast, htok⟩ := RateLimiter.refill_ok hr₁
    refine ⟨hlast, hcap, hrate, ?_⟩
    calc r₁.tokens - x + x = r₁.tokens := Nat.sub_add_cancel hle
      _ ≤ r.bucket.level now.toNat := htok.trans (min_le_right ..)
  | refill x =>
    obtain ⟨hcap, hrate, hlast, htok⟩ := RateLimiter.refill_ok h
    exact ⟨hlast, hcap, hrate, htok⟩
  | setRate rate =>
    simp only [RateLimiter.act, RateLimiter.setRate, bind_ok, Except.ok.injEq] at h
    obtain ⟨r₁, hr₁, rfl⟩ := h
    obtain ⟨hcap, -, hlast, htok⟩ := RateLimiter.refill_ok hr₁
    exact ⟨hlast, hcap, rfl, htok.trans (min_le_right ..)⟩
  | setCapacity capacity =>
    simp only [RateLimiter.act, RateLimiter.setCapacity, bind_ok, Except.ok.injEq] at h
    obtain ⟨t, ht, rfl⟩ := h
    obtain ⟨-, rfl⟩ := unixTime_ok ht
    exact ⟨rfl, rfl, rfl, le_rfl⟩

/-- what the methods that succeed grant, and what they add on purpose -/
def granted (r : RateLimiter) (is : List (ℤ × TokenBucket.Op)) : ℕ := tally RateLimiter.act (fun _ i _ => i.2.taken) r is

def refilled (r : RateLimiter) (is : List (ℤ × TokenBucket.Op)) : ℕ := tally RateLimiter.act (fun _ i _ => i.2.added) r is

/-- from `t₀` on, at which nothing may have happened to the limiter for a while -/
theorem granted_le {is : List (ℤ × TokenBucket.Op)} {t₀ t₁ : ℕ} (hclock : (is.map Prod.fst).Pairwise (· ≤ ·))
    (htimes : ∀ i ∈ is, (t₀ : ℤ) ≤ i.1 ∧ i.1 ≤ t₁) (hterms : ∀ i ∈ is, i.2.keepsTerms = true) (hlast : r.lastRefillTime ≤ t₀)
    (ht : t₀ ≤ t₁) :
    granted r is ≤ r.bucket.level t₀ + r.refillPerSecond * (t₁ - t₀) + refilled r is := by
  have hstep : ∀ r i r', RateLimiter.act r i = .ok r' → r.bucket.Follows i.1.toNat i.2 r'.bucket := fun _ _ _ => RateLimiter.act_follows
  refine TokenBucket.taken_le hstep r is ?_ hterms hlast ht ?_
  · have hmap : is.map (fun i => i.1.toNat) = (is.map Prod.fst).map Int.toNat := by simp
    rw [hmap]
    exact hclock.map _ fun _ _ h => Int.toNat_le_toNat h
  · intro i hi
    obtain ⟨hle, hge⟩ := htimes i hi
    omega

/-- from the last time that the limiter was touched -/
theorem granted_le_last {is : List (ℤ × TokenBucket.Op)} {t₁ : ℕ} (hclock : (is.map Prod.fst).Pairwise (· ≤ ·))
    (htimes : ∀ i ∈ is, (r.lastRefillTime : ℤ) ≤ i.1 ∧ i.1 ≤ t₁) (hterms : ∀ i ∈ is, i.2.keepsTerms = true) :
    granted r is ≤ r.tokens + r.refillPerSecond * (t₁ - r.lastRefillTime) + refilled r is := by
  have htimes' : ∀ i ∈ is, (r.lastRefillTime : ℤ) ≤ i.1 ∧ i.1 ≤ (max t₁ r.lastRefillTime : ℕ) := by
    intro i hi
    obtain ⟨hle, hge⟩ := htimes i hi
    omega
  have hlaw := granted_le hclock htimes' hterms le_rfl (le_max_right ..)
  have hlevel : r.bucket.level r.lastRefillTime ≤ r.tokens := r.bucket.level_last
  have htime : max t₁ r.lastRefillTime - r.lastRefillTime = t₁ - r.lastRefillTime := by omega
  rw [htime] at hlaw
  omega

theorem act_kept {i : ℤ × TokenBucket.Op} (h : r.act i = .ok r') : r'.tokens ≤ r'.capacity := (RateLimiter.act_follows h).kept

/-- **A limiter is a token bucket.** It is never overfull. While its terms stand, the runs of its methods at the times of a clock
grant no more than it held, what the rate filled in since, and what was refilled; a refused consumption grants nothing.

The methods saturate where a sum leaves 64 bits, which loses tokens and makes none; that is why the abstract bucket bounds what the
limiter holds instead of fixing it. -/
theorem limiter_is_bucket (r : RateLimiter) (is : List (ℤ × TokenBucket.Op)) :
    (r.tokens ≤ r.capacity → (run RateLimiter.act r is).tokens ≤ (run RateLimiter.act r is).capacity) ∧
    ((is.map Prod.fst).Pairwise (· ≤ ·) → (∀ i ∈ is, i.2.keepsTerms = true) →
      (∀ t₁ : ℕ, (∀ i ∈ is, (r.lastRefillTime : ℤ) ≤ i.1 ∧ i.1 ≤ t₁) →
        granted r is ≤ r.tokens + r.refillPerSecond * (t₁ - r.lastRefillTime) + refilled r is) ∧
      ∀ t₀ t₁ : ℕ, r.lastRefillTime ≤ t₀ → t₀ ≤ t₁ → (∀ i ∈ is, (t₀ : ℤ) ≤ i.1 ∧ i.1 ≤ t₁) →
        granted r is ≤ r.bucket.level t₀ + r.refillPerSecond * (t₁ - t₀) + refilled r is) ∧
    ∀ now x e, r.tryConsume now x = .error e → Machine.exec RateLimiter.act r (now, .consume x) = r ∧ granted r [(now, .consume x)] = 0 := by
  refine ⟨?_, ?_, ?_⟩
  · intro hr
    exact run_invariant (P := fun r : RateLimiter => r.tokens ≤ r.capacity) (fun _ _ _ _ h => act_kept h) r is hr
  · intro hclock hterms
    exact ⟨fun t₁ htimes => granted_le_last hclock htimes hterms,
      fun t₀ t₁ hlast ht htimes => granted_le hclock htimes hterms hlast ht⟩
  · intro now x e he
    have hact : RateLimiter.act r (now, .consume x) = .error e := he
    exact ⟨by simp [Machine.exec, hact], by simp [granted, tally, hact]⟩

/-- 100 a second up to 1000, and 50 in the bucket: in three seconds, with 40 added, at most 390 are granted, and 390 are -/
theorem limiter_is_bucket_burst :
    granted ⟨1000, 50, 100, 10⟩ [(11, .consume 150), (12, .refill 40), (12, .consume 500), (13, .consume 240)] = 390 ∧
      390 ≤ 50 + 100 * (13 - 10) + 40 := by
  have hrun : granted ⟨1000, 50, 100, 10⟩ [(11, .consume 150), (12, .refill 40), (12, .consume 500), (13, .consume 240)] = 390 := by
    decide +kernel
  have hlaw := ((limiter_is_bucket ⟨1000, 50, 100, 10⟩
    [(11, .consume 150), (12, .refill 40), (12, .consume 500), (13, .consume 240)]).2.1 (by decide) (by decide)).1 13 (by decide)
  have hadd : refilled ⟨1000, 50, 100, 10⟩
      [(11, .consume 150), (12, .refill 40), (12, .consume 500), (13, .consume 240)] = 40 := by decide +kernel
  rw [hadd, hrun] at hlaw
  exact ⟨hrun, hlaw⟩

end Grindurus.Grs
