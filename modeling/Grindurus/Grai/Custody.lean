/-
Locked GRAI: the two totals, the two member lists and the vault agree with the escrows after every run.

The seven instructions that move a stake do so in different orders; each is a `Step.resize` of the ledger, which keeps
`Staked`. `custody` reads the invariant back in the accounts of the program.
-/
import Grindurus.Grai.Program

namespace Grindurus.Grai

open Tally Registry Machine

/-- the accounts that hold locked and voting GRAI agree with each other -/
structure World.Custody (w : World) : Prop where
  totalLocked : HasTotal (fun u => ((w.escrows u).map Escrow.amount).getD 0) w.state.totalLocked
  totalVoted : HasTotal (fun u => ((w.escrows u).map Escrow.voted).getD 0) w.state.totalVoted
  voted_le : ∀ u e, w.escrows u = some e → e.voted ≤ e.amount
  lockers_nodup : w.state.lockers.Nodup
  mem_lockers : ∀ u, u ∈ w.state.lockers ↔ ∃ e, w.escrows u = some e ∧ 0 < e.amount
  voters_nodup : w.state.voters.Nodup
  mem_voters : ∀ u, u ∈ w.state.voters ↔ ∃ e, w.escrows u = some e ∧ 0 < e.voted
  vault : w.state.totalLocked ≤ w.bank.balance (.vault w.state.graiMint)

theorem lockOf_pos {w : World} {u : Key} : 0 < w.lockOf u ↔ ∃ e, w.escrows u = some e ∧ 0 < e.amount := by
  unfold World.lockOf
  cases w.escrows u <;> simp

theorem voteOf_pos {w : World} {u : Key} : 0 < w.voteOf u ↔ ∃ e, w.escrows u = some e ∧ 0 < e.voted := by
  unfold World.voteOf
  cases w.escrows u <;> simp

/-- the ledger's stakes are the escrows -/
theorem Staked.keepsCustody {w : World} (h : Staked w.view) : w.Custody where
  totalLocked := h.locked
  totalVoted := h.voted
  voted_le u e he := by
    have hle : w.voteOf u ≤ w.lockOf u := h.voted_le u
    rwa [World.voteOf_some he, World.lockOf_some he] at hle
  lockers_nodup := h.lockers.1
  mem_lockers u := (h.lockers.2 u).trans lockOf_pos
  voters_nodup := h.voters.1
  mem_voters u := (h.voters.2 u).trans voteOf_pos
  vault := h.backed

theorem Staked.empty (held : Holdings Key) : Staked (.empty held) where
  locked := hasTotal_zero
  voted := hasTotal_zero
  voted_le _ := le_rfl
  lockers := Tracks.nil.congr fun _ => by simp [Ledger.empty]
  voters := Tracks.nil.congr fun _ => by simp [Ledger.empty]
  backed := Nat.zero_le _

theorem after_staked (g : Genesis) (is : List Instr) : Staked (g.after is).view :=
  Genesis.after_ledger Staked.empty (fun _ _ _ _ hs ht => hs.trans ht) g is

/-- **Custody.** After every run the totals and the member lists are those of the escrows, no escrow votes beyond its size,
and the vault holds what is locked.

Locking, voting, unlocking, bribing and redeeming all write the same three places, in different orders. Nothing is assumed of the
holders: what they send to the vault on top counts for nobody. -/
theorem custody (g : Genesis) (is : List Instr) : (g.after is).Custody := (after_staked g is).keepsCustody

end Grindurus.Grai
