/-
The awards of a store: what its vest escrow is good for.

- `Vesting.Regular`: a schedule in order, of an allocation that fits. `vestedAt` is then a schedule: nothing before the cliff,
  never less later, the whole allocation from the end on.
- `World.awards`: what is not released yet, and the vest escrow, as a stock. `Awarded.step`: every instruction keeps it covered.
- `step_flow`: an instruction does to the tokens of the store what bank operations do. So a token that was real when the store
  was initialized stays real (`Genesis.backed`): its accounts hold no more than its supply, which fits a `u64`.
- `Release.apply_succeeds`: a release from the end on goes through, if there is an account to pay to.
- `awards_sound`: after any run the escrow covers all that is not released, nothing is released before it is vested, and a
  release at or after the end goes through and pays exactly the rest. `awards_sound_overdue` is a run with one.

The token withholds no transfer fee (`Deployment.withholdsNothing`): `vest` and a grant book what they send to the escrow, and
with a fee less would arrive.
-/
import Grindurus.Lib.Stock
import Grindurus.Grs.Inventory

namespace Grindurus.Grs

open Checked TokenBank Machine Tally Function

/-! ## Schedules -/

namespace Vesting

structure Regular (v : Vesting) : Prop where
  ordered : v.cliffEnd ≤ v.endAt
  fits : v.allocationLd < 2 ^ 64

variable {v : Vesting} {t t' : ℕ}

theorem vestedAt_before (h : t < v.cliffEnd) : v.vestedAt t = 0 := if_pos h

theorem Regular.vestedAt_after (hv : v.Regular) (h : v.endAt ≤ t) : v.vestedAt t = v.allocationLd := by
  have hordered := hv.ordered
  rw [vestedAt, if_neg (by omega), if_pos (.inr h)]

/-- between the cliff and the end it is a share of the allocation, which fits -/
theorem Regular.vestedAt_between (hv : v.Regular) (h : v.cliffEnd ≤ t) (h' : t < v.endAt) :
    v.vestedAt t = v.allocationLd * (t - v.cliffEnd) / (v.endAt - v.cliffEnd) := by
  have hshare : v.allocationLd * (t - v.cliffEnd) / (v.endAt - v.cliffEnd) ≤ v.allocationLd := by
    apply Nat.div_le_of_le_mul
    rw [Nat.mul_comm]
    exact Nat.mul_le_mul_right _ (by omega)
  rw [vestedAt, if_neg (by omega), if_neg (by omega), Nat.mod_eq_of_lt (hshare.trans_lt hv.fits)]

theorem Regular.vestedAt_le (hv : v.Regular) (t : ℕ) : v.vestedAt t ≤ v.allocationLd := by
  rcases Nat.lt_or_ge t v.cliffEnd with hcliff | hcliff
  · rw [vestedAt_before hcliff]
    exact Nat.zero_le _
  rcases Nat.lt_or_ge t v.endAt with hend | hend
  · rw [hv.vestedAt_between hcliff hend]
    apply Nat.div_le_of_le_mul
    rw [Nat.mul_comm]
    exact Nat.mul_le_mul_right _ (by omega)
  · exact (hv.vestedAt_after hend).le

theorem Regular.vestedAt_mono (hv : v.Regular) (h : t ≤ t') : v.vestedAt t ≤ v.vestedAt t' := by
  rcases Nat.lt_or_ge t v.cliffEnd with hcliff | hcliff
  · rw [vestedAt_before hcliff]
    exact Nat.zero_le _
  rcases Nat.lt_or_ge t' v.endAt with hend | hend
  · rw [hv.vestedAt_between hcliff (by omega), hv.vestedAt_between (by omega) hend]
    exact Nat.div_le_div_right (Nat.mul_le_mul_left _ (by omega))
  · rw [hv.vestedAt_after hend]
    exact hv.vestedAt_le t

/-- a row in order: nothing is released that is not vested -/
structure Sound (v : Vesting) (t : ℕ) : Prop where
  regular : v.Regular
  released : v.releasedLd ≤ v.vestedAt t

theorem Sound.later (hv : v.Sound t) (h : t ≤ t') : v.Sound t' := ⟨hv.regular, hv.released.trans (hv.regular.vestedAt_mono h)⟩

/-- a release brings what is released up to what is vested -/
theorem Sound.release (hv : v.Sound t) : v.releasedLd + v.releasableAt t = v.vestedAt t := Nat.add_sub_cancel' hv.released

/-- what can be released is part of what is not -/
theorem Sound.releasable_le (hv : v.Sound t) : v.releasableAt t ≤ v.allocationLd - v.releasedLd :=
  Nat.sub_le_sub_right (hv.regular.vestedAt_le t) _

end Vesting

/-! ## The stock -/

variable (d : Deployment)

/-- what an award still has to release; a missing one nothing -/
def World.unreleased (w : World) (id : ℕ) : ℕ := (w.vestings id).elim 0 fun v => v.allocationLd - v.releasedLd

/-- the awards of a store and its vest escrow; the program keeps no total of them, `owed` stands for it -/
def World.awards (w : World) (owed : ℕ) : Stock ℕ := ⟨w.unreleased, owed, w.bank.balance d.vestEscrow⟩

structure Awarded (w : World) : Prop where
  escrowed : w.Escrowed d
  rows : ∀ id v, w.vestings id = some v → v.Sound w.now.toNat
  named : ∀ id v, w.vestings id = some v → v.id = id
  covered : ∃ owed, (w.awards d owed).Sound

variable {d} {w w' : World} {δ ι : ℤ} {b : Bank Pubkey} {id : ℕ} {v : Vesting}

theorem unreleased_some (h : w.vestings id = some v) : w.unreleased id = v.allocationLd - v.releasedLd := by
  simp [World.unreleased, h]

theorem unreleased_none (h : w.vestings id = none) : w.unreleased id = 0 := by simp [World.unreleased, h]

theorem unreleased_update (h : w'.vestings = update w.vestings id (some v)) :
    w'.unreleased = update w.unreleased id (v.allocationLd - v.releasedLd) := by
  funext k
  unfold World.unreleased
  rw [h]
  by_cases hk : k = id
  · subst hk
    simp
  · simp [hk]

/-- the one row that is written is in order, and the others stay so as time passes -/
theorem rows_update (hrows : ∀ id v, w.vestings id = some v → v.Sound w.now.toNat) (hclock : w.now ≤ w'.now)
    (hw : w'.vestings = update w.vestings id (some v)) (hv : v.Sound w'.now.toNat) (k : ℕ) (u : Vesting)
    (hu : w'.vestings k = some u) : u.Sound w'.now.toNat := by
  rw [hw] at hu
  by_cases hk : k = id
  · subst hk
    rw [update_self] at hu
    cases hu
    exact hv
  · rw [update_of_ne hk] at hu
    exact (hrows k u hu).later (Int.toNat_le_toNat hclock)

theorem named_update (hnamed : ∀ id v, w.vestings id = some v → v.id = id) (hw : w'.vestings = update w.vestings id (some v))
    (hv : v.id = id) (k : ℕ) (u : Vesting) (hu : w'.vestings k = some u) : u.id = k := by
  rw [hw] at hu
  by_cases hk : k = id
  · subst hk
    rw [update_self] at hu
    cases hu
    exact hv
  · rw [update_of_ne hk] at hu
    exact hnamed k u hu

/-- what leaves the awards alone -/
theorem Awarded.same {f : Pubkey → ℤ} (h : Awarded d w) (hs : SameStore w w') (ha : SameAwards w w') (hclock : w.now ≤ w'.now)
    (hf : Flow d w f ι w.bank w'.bank) (hpos : 0 ≤ f d.vestEscrow) : Awarded d w' := by
  obtain ⟨owed, hsound⟩ := h.covered
  have hflow := hf.vest h.escrowed
  refine ⟨hs.escrowed hf h.escrowed, fun id v hv => ?_, fun id v hv => ?_, owed, hsound.moves (.hold ?_ rfl ?_)⟩
  · rw [ha.vestings] at hv
    exact (h.rows id v hv).later (Int.toNat_le_toNat hclock)
  · rw [ha.vestings] at hv
    exact h.named id v hv
  · funext id
    simp [World.awards, World.unreleased, ha.vestings]
  · simp only [World.awards]
    omega

theorem Awarded.idle (h : Awarded d w) (hi : Idle d ι w w') : Awarded d w' :=
  h.same hi.store hi.awards hi.clock hi.flow le_rfl

theorem Awarded.trades (h : Awarded d w) (ht : Trades d δ ι w w') : Awarded d w' := by
  refine h.same ht.store ht.awards ht.clock ht.flow ?_
  rw [Pi.single_eq_of_ne (Ne.symm d.addresses.1)]

/-- an award is opened, with all of its allocation in the escrow -/
theorem Awarded.open (h : Awarded d w) (ha : Awards d v.allocationLd ι w w') (hnone : w.vestings id = none)
    (hw : w'.vestings = update w.vestings id (some v)) (hid : v.id = id) (hv : v.Regular)
    (hzero : v.releasedLd = 0) : Awarded d w' := by
  obtain ⟨owed, hsound⟩ := h.covered
  have hflow := ha.flow.vest h.escrowed
  rw [Pi.single_eq_same] at hflow
  have hlots : w'.unreleased = update w.unreleased id (w.unreleased id + v.allocationLd) := by
    rw [unreleased_none hnone, unreleased_update hw, hzero, Nat.sub_zero, Nat.zero_add]
  have hmoves : Stock.Moves (w.awards d owed) (w'.awards d (owed + v.allocationLd)) := by
    refine .list hlots rfl (.inr ?_)
    simp only [World.awards]
    omega
  refine ⟨ha.store.escrowed ha.flow h.escrowed, rows_update h.rows ha.clock hw ⟨hv, ?_⟩, named_update h.named hw hid, _,
    hsound.moves hmoves⟩
  rw [hzero]
  exact Nat.zero_le _

/-- what is vested and not released leaves the escrow -/
theorem Awarded.release (h : Awarded d w) (hrow : w.vestings id = some v) {x : ℕ} (hx : x = v.releasableAt w.now.toNat)
    (ha : Awards d (-x) ι w w') (hw : w'.vestings = update w.vestings id (some { v with releasedLd := v.releasedLd + x })) :
    Awarded d w' := by
  obtain ⟨owed, hsound⟩ := h.covered
  have hv := h.rows id v hrow
  have hflow := ha.flow.vest h.escrowed
  rw [Pi.single_eq_same] at hflow
  have hpart : x ≤ w.unreleased id := by
    rw [unreleased_some hrow, hx]
    exact hv.releasable_le
  have hlots : w'.unreleased = update w.unreleased id (w.unreleased id - x) := by
    rw [unreleased_update hw, unreleased_some hrow]
    exact congrArg _ (Nat.sub_sub ..).symm
  have hmoves : Stock.Moves (w.awards d owed) (w'.awards d (owed - x)) := by
    refine .sell hpart hlots rfl ?_
    simp only [World.awards]
    omega
  refine ⟨ha.store.escrowed ha.flow h.escrowed, rows_update h.rows ha.clock hw ?_,
    named_update h.named hw (h.named id v hrow), _, hsound.moves hmoves⟩
  have hsound' : Vesting.Sound { v with releasedLd := v.releasedLd + x } w.now.toNat := by
    refine ⟨⟨hv.regular.ordered, hv.regular.fits⟩, ?_⟩
    rw [hx]
    exact hv.release.le
  exact hsound'.later (Int.toNat_le_toNat ha.clock)

/-! ## Runs -/

theorem LzReceive.apply_awarded {a : LzReceive} {params : LzReceiveParams} (h : a.apply d w params = .ok w') (hw : Awarded d w) :
    Awarded d w' := by
  rcases LzReceive.apply_ok h with ⟨b, hb, -, h⟩ | ⟨b, hb, -, -, h⟩ | ⟨b, peer, hb, -, -, h⟩
  · have hready := hw.idle (.of_bank hb.flow)
    obtain ⟨m, -, -, -, ⟨_, -, -, -, rfl⟩ | ⟨-, hr⟩⟩ := receiveSale_ok h
    · exact hready
    · exact hready.trades hr.trades
  · have hready := hw.idle (.of_bank hb.flow)
    obtain ⟨m, id, s, hm, -, -, hnone, hordered, hrows, -, ha⟩ := receiveGrant_ok h
    exact hready.open ha hnone hrows rfl ⟨hordered, decodeGrant_ok hm⟩ rfl
  · have hready := hw.idle (.of_bank hb.flow)
    obtain ⟨sd, -, hi⟩ := receiveOft_ok h
    exact hready.idle hi

/-- **Step lemma.** Every instruction leaves the awards covered and in order. -/
theorem Awarded.step {i : Instr} (h : Awarded d w) (hs : step d w i = .ok w') : Awarded d w' := by
  obtain ⟨posted, he⟩ := step_ok.1 hs
  by_cases hq : i.quiet = true
  · exact h.idle (exec_quiet he hq).2
  obtain ⟨hsigner, he⟩ := exec_ok he
  cases i with
  | setSale a =>
    obtain ⟨-, ⟨i, row, -, -, -, -, -, -, -, -, -, δ, ht, -⟩ | ⟨row, -, -, -, -, -, ht⟩⟩ :=
      SetSale.apply_ok (silent_ok he).1 (hsigner _ rfl)
    · exact h.trades ht
    · exact h.trades ht
  | buy a =>
    obtain ⟨row, cost, -, -, -, -, -, -, -, ht⟩ := Buy.apply_ok (silent_ok he).1 (hsigner _ rfl)
    exact h.trades ht
  | publishSale a =>
    obtain ⟨o, he, -⟩ := posting_ok he
    obtain ⟨row, -, -, -, -, -, -, -, -, -, ht⟩ := PublishSale.apply_ok he
    exact h.trades ht
  | send a =>
    obtain ⟨o, he, -⟩ := posting_ok he
    obtain ⟨r, -, -, -, hi⟩ := Send.apply_ok he (hsigner _ rfl)
    exact h.idle hi
  | bridge a =>
    obtain ⟨o, he, -⟩ := posting_ok he
    obtain ⟨r, -, -, -, hi⟩ := Send.apply_ok he (hsigner _ rfl)
    exact h.idle hi
  | lzReceive a params => exact LzReceive.apply_awarded (silent_ok he).1 h
  | vest a =>
    obtain ⟨s, hnone, -, hordered, hfits, hrows, -, ha⟩ := Vest.apply_ok (silent_ok he).1 (hsigner _ rfl)
    exact h.open ha hnone hrows rfl ⟨hordered, hfits⟩ rfl
  | release a =>
    obtain ⟨v, hrow, -, -, -, -, hrows, -, ha, -⟩ := Release.apply_ok (silent_ok he).1
    exact h.release hrow rfl ha hrows
  | _ => exact absurd rfl hq

theorem Genesis.awarded (g : Genesis d) : Awarded d g.world := by
  have hb := g.blank
  refine ⟨hb.escrowed, fun id v hv => ?_, fun id v hv => ?_, 0, ⟨?_, Nat.zero_le _⟩⟩
  · rw [hb.vestings id] at hv
    cases hv
  · rw [hb.vestings id] at hv
    cases hv
  · have hlots : (g.world.awards d 0).lots = fun _ => 0 := funext fun id => unreleased_none (hb.vestings id)
    rw [hlots]
    exact hasTotal_zero

theorem Awarded.run (h : Awarded d w) (is : List Instr) : Awarded d (Machine.run (Grs.step d) w is) :=
  run_invariant (fun _ _ _ h hs => h.step hs) w is h

/-! ## A real token -/

/-- an instruction does to the store's token what bank operations do, and the token stays the same -/
theorem step_flow {i : Instr} (hs : step d w i = .ok w') : SameStore w w' ∧ ∃ f ι, Flow d w f ι w.bank w'.bank := by
  obtain ⟨posted, he⟩ := step_ok.1 hs
  by_cases hq : i.quiet = true
  · have hi := (exec_quiet he hq).2
    exact ⟨hi.store, _, _, hi.flow⟩
  obtain ⟨hsigner, he⟩ := exec_ok he
  cases i with
  | setSale a =>
    obtain ⟨-, ⟨i, row, -, -, -, -, -, -, -, -, -, δ, ht, -⟩ | ⟨row, -, -, -, -, -, ht⟩⟩ :=
      SetSale.apply_ok (silent_ok he).1 (hsigner _ rfl)
    · exact ⟨ht.store, _, _, ht.flow⟩
    · exact ⟨ht.store, _, _, ht.flow⟩
  | buy a =>
    obtain ⟨row, cost, -, -, -, -, -, -, -, ht⟩ := Buy.apply_ok (silent_ok he).1 (hsigner _ rfl)
    exact ⟨ht.store, _, _, ht.flow⟩
  | publishSale a =>
    obtain ⟨o, he, -⟩ := posting_ok he
    obtain ⟨row, -, -, -, -, -, -, -, -, -, ht⟩ := PublishSale.apply_ok he
    exact ⟨ht.store, _, _, ht.flow⟩
  | send a =>
    obtain ⟨o, he, -⟩ := posting_ok he
    obtain ⟨r, -, -, -, hi⟩ := Send.apply_ok he (hsigner _ rfl)
    exact ⟨hi.store, _, _, hi.flow⟩
  | bridge a =>
    obtain ⟨o, he, -⟩ := posting_ok he
    obtain ⟨r, -, -, -, hi⟩ := Send.apply_ok he (hsigner _ rfl)
    exact ⟨hi.store, _, _, hi.flow⟩
  | lzReceive a params =>
    rcases LzReceive.apply_ok (silent_ok he).1 with ⟨b, hb, -, h⟩ | ⟨b, hb, -, -, h⟩ | ⟨b, peer, hb, -, -, h⟩
    · obtain ⟨m, -, -, -, ⟨_, -, -, -, rfl⟩ | ⟨-, hr⟩⟩ := receiveSale_ok h
      · exact ⟨⟨rfl, rfl, rfl, rfl⟩, _, _, hb.flow⟩
      · have ht := hr.trades.before hb.flow
        exact ⟨ht.store, _, _, ht.flow⟩
    · obtain ⟨m, id, s, -, -, -, -, -, -, -, ha⟩ := receiveGrant_ok h
      exact ⟨⟨ha.store.1, ha.store.2, ha.store.3, ha.store.4⟩, _, _, Bank.Flows.before hb.flow ha.flow⟩
    · obtain ⟨sd, -, hi⟩ := receiveOft_ok h
      exact ⟨⟨hi.store.1, hi.store.2, hi.store.3, hi.store.4⟩, _, _, Bank.Flows.before hb.flow hi.flow⟩
  | vest a =>
    obtain ⟨s, -, -, -, -, -, -, ha⟩ := Vest.apply_ok (silent_ok he).1 (hsigner _ rfl)
    exact ⟨ha.store, _, _, ha.flow⟩
  | release a =>
    obtain ⟨v, -, -, -, -, -, -, -, ha, -⟩ := Release.apply_ok (silent_ok he).1
    exact ⟨ha.store, _, _, ha.flow⟩
  | _ => exact absurd rfl hq

/-- the accounts of the store's token hold no more than its supply, which fits a `u64`: the token program's own invariant -/
def World.Real (w : World) : Prop := w.bank.Backed w.store.tokenMint

theorem World.Real.run (h : w.Real) (is : List Instr) : (Machine.run (Grs.step d) w is).Real := by
  refine run_invariant (P := World.Real) (fun w i w' hw hs => ?_) w is h
  obtain ⟨hstore, f, ι, hflow⟩ := step_flow hs
  unfold World.Real
  rw [hstore.tokenMint]
  exact hflow.backed hw

/-! ## Releases -/

/-- every error but a lack of tokens in the vest escrow -/
def Covered (d : Deployment) : Set OFTError := {e | e ≠ .token (.insufficientFunds d.vestEscrow)}

@[simp] theorem mem_covered {e : OFTError} : e ∈ Covered d ↔ e ≠ .token (.insufficientFunds d.vestEscrow) := Iff.rfl

theorem spl_covered {α : Type} {r : Except (TokenError Pubkey) α} (h : Throws (Bank.Funded d.vestEscrow) r) :
    Throws (Covered d) (spl r) := by
  cases r with
  | ok a => exact throws_ok a
  | error e =>
    have he := h e rfl
    simpa [spl, Except.mapError] using he

/-- a release sends no more than the award still has, and the escrow has it -/
theorem Release.apply_covered {a : Release} (h : Awarded d w) : Throws (Covered d) (a.apply d w) := by
  unfold Release.apply
  refine .bind (by simp) fun v hrow => .bind (by simp) fun _ _ => .bind (by simp [loadOwned, loadToken, loadTokenAccount]) fun _ _ => ?_
  have hinit : Throws (Covered d) (initAta d w.bank a.beneficiary w.store.tokenMint) := by
    unfold initAta initTokenAccount
    split
    · simp
    · exact spl_covered (by simp [Bank.openAccount])
  refine .bind (by simp) fun _ _ => .bind hinit fun b₁ hb₁ => .bind (by simp [nowTs, unixTime]) fun t ht => ?_
  refine .bind (by simp) fun _ _ => .bind (by simp) fun _ _ => .bind (spl_covered (Bank.transfer_throws fun _ => ?_)) fun _ _ => by simp
  obtain ⟨owed, hsound⟩ := h.covered
  obtain ⟨-, rfl⟩ := unixTime_ok ht
  rw [demand_ok] at hrow
  calc v.releasableAt w.now.toNat ≤ v.allocationLd - v.releasedLd := (h.rows a.id v hrow).releasable_le
    _ = w.unreleased a.id := (unreleased_some hrow).symm
    _ ≤ w.bank.balance d.vestEscrow := hsound.lot_held a.id
    _ = b₁.balance d.vestEscrow := by rw [(initAta_balance hb₁).1]

/-- there is an account to pay the store's token to: the associated account of `k` is its own, or can be opened -/
def World.Payable (d : Deployment) (w : World) (k : Pubkey) : Prop :=
  match w.bank.accounts (d.ata k w.store.tokenMint) with
  | some a => a.mint = w.store.tokenMint ∧ a.owner = k
  | none => w.bank.mints (d.ata k w.store.tokenMint) = none

theorem initAta_succeeds {k : Pubkey} (h : w.Payable d k) (hmint : ∃ t, w.bank.mints w.store.tokenMint = some t) :
    Succeeds (initAta d w.bank k w.store.tokenMint) := by
  obtain ⟨t, ht⟩ := hmint
  unfold World.Payable at h
  unfold initAta initTokenAccount
  split at h
  · rename_i a ha
    exact ⟨w.bank, by simp [ha, h, require, bind, Except.bind]⟩
  · rename_i ha
    exact ⟨_, by simp [ha, h, ht, Bank.openAccount, require, demand, bind, Except.bind, spl, Except.mapError]; rfl⟩

/-- an account that holds something of a real token is of a mint that stands -/
theorem World.Real.minted {a : TokenAccount Pubkey} {k : Pubkey} (hr : w.Real) (ha : w.bank.accounts k = some a)
    (hm : a.mint = w.store.tokenMint) (hpos : 0 < a.amount) : ∃ t, w.bank.mints w.store.tokenMint = some t := by
  have hle := Bank.Backed.amount_le hr ha hm
  cases ht : w.bank.mints w.store.tokenMint with
  | some t => exact ⟨t, rfl⟩
  | none =>
    have hzero : w.bank.supply w.store.tokenMint = 0 := by simp [Bank.supply, ht]
    omega

/-- **Overdue releases.** From its end on, what an award still owes can be released by anyone to whom its beneficiary can be
paid. -/
theorem Release.apply_succeeds {a : Release} (h : Awarded d w) (hr : w.Real) (hrow : w.vestings a.id = some v)
    (hend : (v.endAt : ℤ) ≤ w.now) (hleft : v.releasedLd < v.allocationLd) (hto : a.beneficiary = v.beneficiary)
    (hpay : w.Payable d v.beneficiary) : Succeeds (a.apply d w) := by
  have hnow : 0 ≤ w.now := (Int.natCast_nonneg v.endAt).trans hend
  have hv := h.rows a.id v hrow
  have hrest := hv.release
  rw [hv.regular.vestedAt_after (by omega)] at hrest
  obtain ⟨owed, hsound⟩ := h.covered
  -- what is left lies in the escrow, so the escrow and its mint stand
  have hheld : v.allocationLd - v.releasedLd ≤ w.bank.balance d.vestEscrow := by
    rw [← unreleased_some hrow]
    exact hsound.lot_held a.id
  obtain ⟨e, he⟩ : ∃ e, w.bank.accounts d.vestEscrow = some e := by
    cases he : w.bank.accounts d.vestEscrow with
    | some e => exact ⟨e, rfl⟩
    | none =>
      have hzero : w.bank.balance d.vestEscrow = 0 := by simp [Bank.balance, he]
      omega
  obtain ⟨howner, hmint⟩ := h.escrowed d.vestEscrow w.store.tokenMint (by simp [Deployment.custody]) e he
  rw [Bank.balance_some he] at hheld
  obtain ⟨b₁, hb₁⟩ := initAta_succeeds hpay (hr.minted he hmint (by omega))
  have hne : d.vestEscrow ≠ d.ata v.beneficiary w.store.tokenMint := fun heq =>
    (not_derived (ata_not_derived d v.beneficiary w.store.tokenMint)).2.2.2.2 heq.symm
  have he₁ : b₁.accounts d.vestEscrow = some e := (initTokenAccount_frame hb₁ hne).trans he
  obtain ⟨t, ht, htm, -⟩ := initTokenAccount_stands hb₁
  have hr₁ : b₁.Backed w.store.tokenMint := (initAta_flow hb₁).backed hr
  obtain ⟨b₂, hb₂⟩ : ∃ b₂, b₁.transfer d.vestEscrow (d.ata v.beneficiary w.store.tokenMint) d.grsConfig
      (v.releasableAt w.now.toNat) = .ok b₂ := hr₁.transfer_succeeds he₁ ht hmint htm howner (by omega)
  have hfits := hv.regular.fits
  refine ⟨{ w with
    bank := b₂
    vestings := update w.vestings a.id (some { v with releasedLd := v.releasedLd + v.releasableAt w.now.toNat }) }, ?_⟩
  simp only [Release.apply, bind_ok, demand_ok, require_ok, checkedAdd_ok, Except.ok.injEq]
  refine ⟨v, hrow, (), h.named a.id v hrow, e, ?_, (), hto, b₁, hto ▸ hb₁, w.now.toNat, ?_, (), by omega, _, ⟨?_, rfl⟩, b₂, ?_, rfl⟩
  · simp [loadOwned, loadToken, loadTokenAccount, he, hmint, howner, demand, require, bind, Except.bind]
  · simp [nowTs, unixTime, hnow, require, bind, Except.bind]
  · unfold u64
    omega
  · rw [hto]
    exact spl_ok.2 hb₂

/-- what the schedule of an award promises, for all times -/
structure Vesting.Promises (v : Vesting) : Prop where
  mono : Monotone v.vestedAt
  before : ∀ t, t < v.cliffEnd → v.vestedAt t = 0
  after : ∀ t, v.endAt ≤ t → v.vestedAt t = v.allocationLd

theorem Vesting.Regular.promises {v : Vesting} (hv : v.Regular) : v.Promises :=
  ⟨fun _ _ h => hv.vestedAt_mono h, fun _ h => vestedAt_before h, fun _ h => hv.vestedAt_after h⟩

/-- **Vesting.** Of a token that withholds nothing of a transfer: after every run the escrow covers what is not released; of each
award no more is released than is vested, on a schedule that starts at the cliff and ends with all of it; no release lacks
tokens, and one that commits at or after the end pays the rest. It does commit, of a real token, while there is a rest and an
account of the beneficiary to pay it to. The last clause assumes that the token was real when the store was initialized
(`World.Real`): its accounts together held no more than its supply. Without it the credit of the beneficiary could overflow in
the token program. -/
theorem awards_sound (g : Genesis d) (is : List Instr) :
    (∃ owed, HasTotal (g.after is).unreleased owed ∧ owed ≤ (g.after is).bank.balance d.vestEscrow) ∧
    (∀ id v, (g.after is).vestings id = some v →
      v.releasedLd ≤ v.vestedAt (g.after is).now.toNat ∧ v.vestedAt (g.after is).now.toNat ≤ v.allocationLd ∧ v.Promises) ∧
    ∀ a : Release, Throws (Covered d) (step d (g.after is) (.release a)) ∧
      (∀ v w', (g.after is).vestings a.id = some v → v.endAt ≤ (g.after is).now.toNat →
        step d (g.after is) (.release a) = .ok w' →
        w'.bank.balance (d.ata v.beneficiary (g.after is).store.tokenMint) =
          (g.after is).bank.balance (d.ata v.beneficiary (g.after is).store.tokenMint) + (v.allocationLd - v.releasedLd) ∧
        w'.vestings a.id = some { v with releasedLd := v.allocationLd }) ∧
      ∀ v, g.world.Real → (g.after is).vestings a.id = some v → (v.endAt : ℤ) ≤ (g.after is).now →
        v.releasedLd < v.allocationLd → a.beneficiary = v.beneficiary → (g.after is).Payable d v.beneficiary →
        a.payer ∉ d.derived → Succeeds (step d (g.after is) (.release a)) := by
  have h : Awarded d (g.after is) := g.awarded.run is
  obtain ⟨owed, hsound⟩ := h.covered
  refine ⟨⟨owed, hsound.total, hsound.covered⟩, fun id v hv => ?_,
    fun a => ⟨?_, fun v w' hv hend hs => ?_, fun v hreal hv hend hleft hto hpay hpayer => ?_⟩⟩
  · have hrow := h.rows id v hv
    exact ⟨hrow.released, hrow.regular.vestedAt_le _, hrow.regular.promises⟩
  · have hcheck : Throws (Covered d) (checkSigner d (some a.payer)) := by simp [checkSigner]
    simpa [step, exec, Instr.signer, perform, silent, hcheck] using fun _ _ => Release.apply_covered h
  · obtain ⟨posted, he⟩ := step_ok.1 hs
    obtain ⟨u, hu, -, -, -, -, hrows, -, -, hpaid⟩ := Release.apply_ok (silent_ok (exec_ok he).2).1
    cases hu.symm.trans hv
    have hrow := h.rows a.id v hv
    have hall := hrow.release
    rw [hrow.regular.vestedAt_after hend] at hall
    have hrest : v.releasableAt (g.after is).now.toNat = v.allocationLd - v.releasedLd := by omega
    refine ⟨hrest ▸ hpaid, ?_⟩
    rw [hrows, update_self, hall]
  · obtain ⟨w', hw'⟩ := Release.apply_succeeds h (hreal.run is) hv hend hleft hto hpay
    refine ⟨w', step_ok.2 ⟨none, ?_⟩⟩
    simp only [exec, Instr.signer, checkSigner, require, hpayer, not_false_eq_true, if_true, perform, silent, hw', bind, Except.bind]

namespace Sample

def beneficiary : Pubkey := .ofNat 70

/-- 500 for the beneficiary, all of it due after 1000 seconds, and nothing claimed so far -/
def overdue : List Instr :=
  [.mintGenesis ⟨admin, treasury⟩, .vest ⟨admin, treasury, 1, beneficiary, 500, 0, 0, 1000⟩, .tick 1000]

/-- the token starts with an empty account, and the store opens another one -/
theorem home_real : home.world.Real := by
  have hopen : bank.openAccount deployment.tokenEscrow token deployment.oftStore = .ok home.world.bank := rfl
  refine Bank.Backed.openAccount ⟨0, hasTotal_zero.congr fun k => ?_, Nat.zero_le _, by decide +kernel⟩ hopen
  by_cases hk : k = treasury <;> simp [Bank.holds, bank, hk]

end Sample

/-- anyone releases all of the overdue award to its beneficiary -/
theorem awards_sound_overdue :
    ∃ w', step Sample.deployment (Sample.home.after Sample.overdue) (.release ⟨.ofNat 71, 1, Sample.beneficiary⟩) = .ok w' ∧
      w'.bank.balance (Sample.deployment.ata Sample.beneficiary Sample.token) = 500 := by
  have h := (awards_sound Sample.home Sample.overdue).2.2 ⟨.ofNat 71, 1, Sample.beneficiary⟩
  have hrow : (Sample.home.after Sample.overdue).vestings 1 =
      some ⟨1, Sample.admin, Sample.beneficiary, 500, 0, 0, 0, 1000⟩ := by decide +kernel
  have hata : (Sample.home.after Sample.overdue).bank.accounts
      (Sample.deployment.ata Sample.beneficiary (Sample.home.after Sample.overdue).store.tokenMint) = none := by decide +kernel
  have hpay : (Sample.home.after Sample.overdue).Payable Sample.deployment Sample.beneficiary := by
    unfold World.Payable
    rw [hata]
    decide +kernel
  obtain ⟨w', hw'⟩ := h.2.2 _ Sample.home_real hrow (by decide +kernel) (by decide) rfl hpay (by decide +kernel)
  have hpaid := (h.2.1 _ w' hrow (by decide +kernel) hw').1
  have htoken : (Sample.home.after Sample.overdue).store.tokenMint = Sample.token := by decide +kernel
  have hbefore : (Sample.home.after Sample.overdue).bank.balance (Sample.deployment.ata Sample.beneficiary Sample.token) = 0 := by
    rw [← htoken, Bank.balance, hata]
  dsimp only at hpaid
  rw [htoken, hbefore] at hpaid
  exact ⟨w', hw', hpaid⟩

end Grindurus.Grs
