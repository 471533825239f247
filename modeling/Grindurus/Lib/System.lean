/-
The System Program: accounts with lamports, an owner and data.

- `create`, `transfer`, `allocate`, `assign`: its instructions, on a ledger of accounts. A payer signs, and so does the account
  that is created, allocated or assigned.
- `create_iff`: an empty account is created exactly if it holds no lamports.
- `topUp_ok`: one that is topped up, allocated and assigned is opened whatever it holds.
-/
import Grindurus.Lib.Checked

namespace Grindurus.System

open Checked Function

/-- `space` is the length of the data; an account that was never touched has none of anything -/
structure Account (K : Type) where
  lamports : ℕ
  owner : K
  space : ℕ
  deriving DecidableEq, Repr

inductive Error (K : Type) where
  | accountAlreadyInUse (account : K)
  | insufficientLamports (account : K)
  | invalidOwner (account : K)
  deriving DecidableEq, Repr

variable {K : Type} [DecidableEq K]

/-- every address has an account, most of them untouched -/
abbrev Ledger (K : Type) := K → Account K

def transfer (l : Ledger K) (payer k : K) (x : ℕ) : Except (Error K) (Ledger K) := do
  require (x ≤ (l payer).lamports) (.insufficientLamports payer)
  let debited := update l payer { l payer with lamports := (l payer).lamports - x }
  .ok (update debited k { debited k with lamports := (debited k).lamports + x })

/-- data is given to an account of the System Program that has none -/
def allocate (system : K) (l : Ledger K) (k : K) (space : ℕ) : Except (Error K) (Ledger K) := do
  require ((l k).space = 0 ∧ (l k).owner = system) (.accountAlreadyInUse k)
  .ok (update l k { l k with space })

def assign (system : K) (l : Ledger K) (k owner : K) : Except (Error K) (Ledger K) := do
  require ((l k).owner = system) (.invalidOwner k)
  .ok (update l k { l k with owner })

/-- refused if the account holds lamports, even if there is nothing else to it -/
def create (system : K) (l : Ledger K) (payer k : K) (lamports space : ℕ) (owner : K) : Except (Error K) (Ledger K) := do
  require ((l k).lamports = 0) (.accountAlreadyInUse k)
  let l ← allocate system l k space
  let l ← assign system l k owner
  transfer l payer k lamports

variable {system payer k o : K} {l : Ledger K} {x n : ℕ}

omit [DecidableEq K] in
/-- an account of the System Program without data -/
def Empty (system : K) (l : Ledger K) (k : K) : Prop := (l k).space = 0 ∧ (l k).owner = system

/-- **Creating.** A payer that has the rent creates an empty account exactly if that holds no lamports. -/
theorem create_iff (he : Empty system l k) (hne : payer ≠ k) (hx : x ≤ (l payer).lamports) :
    Succeeds (create system l payer k x n o) ↔ (l k).lamports = 0 := by
  constructor
  · rintro ⟨l', h⟩
    simp only [create, bind_ok, require_ok] at h
    obtain ⟨-, hzero, -⟩ := h
    exact hzero
  · intro hzero
    simp only [Succeeds, create, allocate, assign, transfer, bind_ok, require_ok, Except.ok.injEq]
    exact ⟨_, (), hzero, _, ⟨(), he, rfl⟩, _, ⟨(), by simpa using he.2, rfl⟩, (), by simpa [hne] using hx, rfl⟩

/-- what is created has its owner, its data and the rent -/
theorem create_at {l' : Ledger K} (hne : payer ≠ k) (h : create system l payer k x n o = .ok l') :
    l' k = ⟨x, o, n⟩ := by
  simp only [create, allocate, assign, transfer, bind_ok, require_ok, Except.ok.injEq] at h
  obtain ⟨-, hzero, _, ⟨-, -, rfl⟩, _, ⟨-, -, rfl⟩, -, -, rfl⟩ := h
  simp [Ne.symm hne, hzero]

/-- an empty account is allocated and assigned, whatever it holds -/
theorem open_ok (he : Empty system l k) :
    ∃ l₂ l₃, allocate system l k n = .ok l₂ ∧ assign system l₂ k o = .ok l₃ ∧ l₃ k = ⟨(l k).lamports, o, n⟩ := by
  simp only [allocate, assign, bind_ok, require_ok, Except.ok.injEq]
  exact ⟨_, _, ⟨(), he, rfl⟩, ⟨(), by simpa using he.2, rfl⟩, by simp⟩

/-- **Topping up.** An empty account that is sent lamports, allocated and assigned is opened, whatever it held before. -/
theorem topUp_ok (he : Empty system l k) (hne : payer ≠ k) (hx : x ≤ (l payer).lamports) :
    ∃ l₁ l₂ l₃, transfer l payer k x = .ok l₁ ∧ allocate system l₁ k n = .ok l₂ ∧ assign system l₂ k o = .ok l₃ ∧
      l₃ k = ⟨(l k).lamports + x, o, n⟩ := by
  obtain ⟨l₁, h₁, hempty, hlamports⟩ : ∃ l₁, transfer l payer k x = .ok l₁ ∧ Empty system l₁ k ∧
      (l₁ k).lamports = (l k).lamports + x := by
    simp only [transfer, bind_ok, require_ok, Except.ok.injEq]
    exact ⟨_, ⟨(), hx, rfl⟩, by simpa [Ne.symm hne, Empty] using he, by simp [Ne.symm hne]⟩
  obtain ⟨l₂, l₃, h₂, h₃, hl₃⟩ := open_ok (n := n) (o := o) hempty
  exact ⟨l₁, l₂, l₃, h₁, h₂, h₃, by rw [hl₃, hlamports]⟩

end Grindurus.System
