/-
Ownership that changes hands in two steps: the owner proposes a successor, and the successor accepts.

- `Seats`: who owns, and who may take over. `Move`: what an instruction does to them.
- `Follows`: the committed instructions of a machine move the seats as they say.
- `Offered`: in a run the owner proposed somebody, and nobody was proposed or accepted since. `Handover`: an offer that was
  accepted, and nobody accepted after it.
- `Inherits`, `owner_handover`: whoever owns after a run owned from the start, or was handed the ownership. `pending_offered`:
  whoever is proposed was proposed by the one who owns. `owner_tenure`: an owner who proposes nobody stays.
-/
import Grindurus.Lib.Checked
import Grindurus.Lib.History

namespace Grindurus.Ownable

open Checked Machine

/-- who owns, and who may take over -/
structure Seats (K : Type) where
  owner : K
  pending : K

inductive Move (K : Type) where
  | keep
  /-- the signer, who has to own, proposes a successor; the proposal before is void -/
  | propose (signer successor : K)
  | accept (signer : K)

namespace Move

variable {K : Type}

/-- what a committed move does; `nobody` stands for an empty seat -/
def Takes (nobody : K) (s s' : Seats K) : Move K → Prop
  | .keep => s' = s
  | .propose signer successor => signer = s.owner ∧ s' = ⟨s.owner, successor⟩
  | .accept signer => s.pending = signer ∧ signer ≠ nobody ∧ s' = ⟨signer, nobody⟩

def Accepts : Move K → Prop
  | .accept _ => True
  | _ => False

def Proposes (k : K) : Move K → Prop
  | .propose signer _ => signer = k
  | _ => False

end Move

section Runs

variable {S I ε K : Type} (step : S → I → Except ε S) (seats : S → Seats K) (move : I → Move K)

/-- the committed steps from states with `P` keep it, and move the seats as they say -/
structure Follows (P : S → Prop) (nobody : K) : Prop where
  keeps : ∀ s i s', P s → step s i = .ok s' → P s'
  takes : ∀ s i s', P s → step s i = .ok s' → (move i).Takes nobody (seats s) (seats s')

/-- in the run `is` from `s` the owner `o` proposed `k`, and nobody was proposed or accepted since -/
def Offered (s : S) (is : List I) (o k : K) : Prop :=
  ∃ pre p t, Written step (fun i => move i ≠ .keep) s is pre p t ∧ move p = .propose o k ∧ (seats (run step s pre)).owner = o

/-- in the run `is` from `s` the owner `o` offered the ownership to `k`, who accepted, and nobody accepted since -/
def Handover (s : S) (is : List I) (o k : K) : Prop :=
  ∃ pre a t, Written step (fun i => (move i).Accepts) s is pre a t ∧ move a = .accept k ∧ Offered step seats move s pre o k

/-- `k` owned from the start and nobody accepted, or an owner handed the ownership to `k` -/
def Inherits (s : S) (is : List I) (k : K) : Prop :=
  k = (seats s).owner ∧ Meets step (fun _ i => ¬ (move i).Accepts) s is ∨ ∃ o, Handover step seats move s is o k

variable {step seats move} {P : S → Prop} {nobody : K} {s : S}

/-- **Offer.** After a run that starts without a proposal, whoever is proposed was proposed by the one who owns. -/
theorem pending_offered (hf : Follows step seats move P nobody) (hP : P s) (hnone : (seats s).pending = nobody) (is : List I) :
    (seats (run step s is)).pending = nobody ∨
      Offered step seats move s is (seats (run step s is)).owner (seats (run step s is)).pending := by
  have hframe : ∀ s i s', P s → ¬ move i ≠ .keep → step s i = .ok s' → seats s' = seats s := by
    intro s i s' hs hi h
    have htakes := hf.takes s i s' hs h
    rwa [not_not.1 hi] at htakes
  rcases last_write hf.keeps hframe hP is with ⟨hseats, -⟩ | ⟨pre, i, t, hi, hseats⟩
  · exact .inl (by rw [hseats, hnone])
  · rw [← hseats]
    have htakes := hf.takes _ i t (run_invariant hf.keeps s pre hP) hi.commits
    cases hmove : move i with
    | keep => exact absurd hmove hi.kind
    | propose signer successor =>
      rw [hmove] at htakes
      obtain ⟨rfl, ht⟩ := htakes
      rw [ht]
      exact .inr ⟨pre, i, t, hi, hmove, rfl⟩
    | accept signer =>
      rw [hmove] at htakes
      exact .inl (by rw [htakes.2.2])

/-- **Handover.** After a run that starts without a proposal, whoever owns owned from the start, and nobody accepted, or the last
one to accept was offered the ownership by the owner before. -/
theorem owner_handover (hf : Follows step seats move P nobody) (hP : P s) (hnone : (seats s).pending = nobody) (is : List I) :
    Inherits step seats move s is (seats (run step s is)).owner := by
  have hframe : ∀ s i s', P s → ¬ (move i).Accepts → step s i = .ok s' → (seats s').owner = (seats s).owner := by
    intro s i s' hs hi h
    have htakes := hf.takes s i s' hs h
    cases hmove : move i with
    | keep =>
      rw [hmove] at htakes
      exact congrArg Seats.owner htakes
    | propose signer successor =>
      rw [hmove] at htakes
      rw [htakes.2]
    | accept signer => exact absurd (by rw [hmove]; trivial) hi
  refine (last_write hf.keeps hframe hP is).imp_right ?_
  rintro ⟨pre, a, t, ha, howner⟩
  have htakes := hf.takes _ a t (run_invariant hf.keeps s pre hP) ha.commits
  have hkind := ha.kind
  cases hmove : move a with
  | accept signer =>
    rw [hmove] at htakes
    obtain ⟨rfl, hne, ht⟩ := htakes
    -- who accepts was proposed, and whoever is proposed holds an offer
    have hoffer := (pending_offered hf hP hnone pre).resolve_left hne
    rw [← howner, ht]
    exact ⟨(seats (run step s pre)).owner, pre, a, t, ha, hmove, hoffer⟩
  | _ =>
    rw [hmove] at hkind
    exact hkind.elim

/-- **Tenure.** An owner who proposes nobody stays the owner. -/
theorem owner_tenure (hf : Follows step seats move P nobody) (hP : P s) (hnone : (seats s).pending = nobody) {is : List I}
    (hno : Meets step (fun _ i => ¬ (move i).Proposes (seats s).owner) s is) :
    (seats (run step s is)).owner = (seats s).owner := by
  have hinv : P (run step s is) ∧ seats (run step s is) = seats s := by
    refine run_invariant_of (P := fun t => P t ∧ seats t = seats s) ?_ s is hno ⟨hP, rfl⟩
    rintro t i t' ⟨ht, hseats⟩ hi hs
    refine ⟨hf.keeps t i t' ht hs, ?_⟩
    have htakes := hf.takes t i t' ht hs
    cases hmove : move i with
    | keep =>
      rw [hmove] at htakes
      exact Eq.trans htakes hseats
    | propose signer successor =>
      rw [hmove] at htakes hi
      exact absurd (htakes.1.trans (by rw [hseats])) hi
    | accept signer =>
      rw [hmove, hseats] at htakes
      exact absurd (htakes.1.symm.trans hnone) htakes.2.1
  rw [hinv.2]

end Runs

end Grindurus.Ownable
