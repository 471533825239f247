/-
Rows of payments.

`Paid ps b b'`: from `b` to `b'` the payments `ps` were made, and no balance changed otherwise. An account may be payer and
payee, several times over: only what it has in the end is said. Rows of payments compose (`Paid.append`).
-/
import Grindurus.Lib.TokenBank

namespace Grindurus.TokenBank

structure Payment (K : Type) where
  payer : K
  payee : K
  amount : ℕ

variable {K : Type} [DecidableEq K]

namespace Payment

/-- what `k` pays -/
def debit (k : K) (p : Payment K) : ℕ := if k = p.payer then p.amount else 0

/-- what `k` is paid -/
def credit (k : K) (p : Payment K) : ℕ := if k = p.payee then p.amount else 0

end Payment

namespace Bank

def Paid (ps : List (Payment K)) (b b' : Bank K) : Prop :=
  ∀ k, b'.balance k + (ps.map (Payment.debit k)).sum = b.balance k + (ps.map (Payment.credit k)).sum

variable {b b' b₁ b₂ b₃ : Bank K} {ps qs : List (Payment K)} {src dst : K} {x : ℕ}

theorem Paid.nothing (h : b'.balance = b.balance) : Paid [] b b' := fun k => by simp [h]

theorem Paid.single (h : ∀ k, b'.balance k + (if k = src then x else 0) = b.balance k + if k = dst then x else 0) :
    Paid [⟨src, dst, x⟩] b b' := fun k => by simpa [Payment.debit, Payment.credit] using h k

theorem Paid.append (h : Paid ps b₁ b₂) (h' : Paid qs b₂ b₃) : Paid (ps ++ qs) b₁ b₃ := by
  intro k
  have h₁ := h k
  have h₂ := h' k
  simp only [List.map_append, List.sum_append]
  omega

end Bank
end Grindurus.TokenBank
