/-
Who rules the program (`programs/grai/src/config.rs`, `assets.rs`, `treasury.rs`).

- `World.rules`: the roles, the parameters, and the terms on which each asset is listed. `Instr.governor`: the instructions the
  owner has to sign.
- `step_rules`: no other instruction changes the rules, except that a successor takes over.
- `rules_of_owner`: along every run the rules are changed by the one who initialized the program, or by one to whom the ownership
  was handed down from it; and a successor takes over on an offer of the owner that still stands.
-/
import Grindurus.Lib.Ownable
import Grindurus.Grai.Frames
import Grindurus.Grai.Payments

namespace Grindurus.Grai

open Checked TokenBank Machine Ownable Function

/-! ## Rules -/

/-- the state account without the books, the registries and the clock of liquidation -/
def GraiState.rules (s : GraiState) : GraiState := { s.frame with liquidation := false, liquidationAt := 0 }

/-- a listing without its index and its reserve -/
def AssetConfig.terms (a : AssetConfig) : AssetConfig := { a with accShare := 0, totalClaimable := 0, totalYielded := 0 }

def World.terms (w : World) (m : Key) : Option AssetConfig := (w.assets m).map AssetConfig.terms

def World.rules (w : World) : GraiState × (Key → Option AssetConfig) := (w.state.rules, w.terms)

def World.seats (w : World) : Seats Key := ⟨w.state.owner, w.state.pendingOwner⟩

/-- the owner who has to sign -/
def Instr.governor : Instr → Option Key
  | .transferOwnership a => some a.owner.key
  | .setBeneficiar a => some a.owner.key
  | .setRoyaltyBps a => some a.owner.key
  | .setRevenueShareBps a => some a.owner.key
  | .setGrinders a => some a.owner.key
  | .setBribeable a => some a.owner.key
  | .setConfig a => some a.owner.key
  | .setFeed a => some a.owner.key
  | _ => none

def Instr.move : Instr → Move Key
  | .transferOwnership a => .propose a.owner.key a.newOwner
  | .acceptOwnership a => .accept a.pendingOwner.key
  | _ => .keep

variable {w w' w₁ w₂ w₃ : World} {i : Instr} {m : Key} {asset asset' : AssetConfig}

theorem Framed.rules (h : Framed w w') : w'.state.rules = w.state.rules := by
  unfold GraiState.rules
  rw [h.state]

theorem seats_of_rules (h : w'.state.rules = w.state.rules) : w'.seats = w.seats := by
  have howner : w'.state.rules.owner = w.state.rules.owner := by rw [h]
  have hpending : w'.state.rules.pendingOwner = w.state.rules.pendingOwner := by rw [h]
  exact congrArg₂ Seats.mk howner hpending

theorem requireOwner_ok {s : Signer} {x : Unit} (h : requireOwner w s = .ok x) : w.state.owner = s.key := require_ok.1 h

/-- whoever signs for the owner owns -/
theorem governor_owns {k : Key} (hi : i.governor = some k) (h : step w i = .ok w') : w.state.owner = k := by
  cases i with
  | transferOwnership a | setBeneficiar a | setRoyaltyBps a | setRevenueShareBps a | setGrinders a | setBribeable a
  | setConfig a =>
    cases hi
    obtain ⟨_, howner, -⟩ := bind_ok.1 h
    exact requireOwner_ok howner
  | setFeed a =>
    cases hi
    obtain ⟨_, -, h⟩ := bind_ok.1 h
    obtain ⟨_, howner, -⟩ := bind_ok.1 h
    exact requireOwner_ok howner
  | _ => cases hi

/-! ## Terms -/

/-- a listing that is stored again with another index or reserve -/
theorem terms_storeAsset (ha : w.assets m = some asset) (hterms : asset'.terms = asset.terms) :
    (w.storeAsset m asset').terms = w.terms := by
  funext n
  unfold World.terms World.storeAsset
  rcases eq_or_ne n m with rfl | hn
  · simp [ha, hterms]
  · simp [hn]

theorem terms_of_assets (h : w'.assets = w.assets) : w'.terms = w.terms := by
  unfold World.terms
  rw [h]

/-- what a holder does to its stake touches no listing -/
theorem performLock_assets {x : ℕ} {e e' : Escrow} {source : Key} {owner : Signer} {remaining : List Key} (hw : w.WF)
    (h : performLock w e x source owner remaining = .ok (w', e')) : w'.assets = w.assets := by
  obtain ⟨-, -, -, _, _, _, _, -, -, rfl⟩ := performLock_ok hw.nodup h
  rfl

theorem executeLock_assets {a : Lock} (hw : w.WF) (h : executeLock w a = .ok w') : w'.assets = w.assets := by
  obtain ⟨b, w₁, e₁, hb, hlock, rfl⟩ := executeLock_locks h
  have hlock := performLock_assets (hw.bank (initVault_moves w.state.graiMint hb)) hlock
  exact hlock

theorem executeVote_assets {a : Vote} (hw : w.WF) (h : executeVote w a = .ok w') : w'.assets = w.assets := by
  obtain ⟨b, w₁, e₁, w₂, e₂, hb, hauto, hvote, rfl⟩ := executeVote_votes h
  have hwf := hw.bank (initVault_moves w.state.graiMint hb)
  have hauto : w₁.state.assetMints.Nodup ∧ w₁.assets = w.assets := by
    rcases hauto with ⟨rfl, -⟩ | ⟨x, hlock⟩
    · exact ⟨hw.nodup, rfl⟩
    · have hassets := performLock_assets hwf hlock
      exact ⟨(performLock_step hwf hlock).1.nodup, hassets⟩
  obtain ⟨-, -, -, -, _, _, _, -, rfl⟩ := performVote_ok hauto.1 hvote
  exact hauto.2

theorem executeUnlock_assets {a : Unlock} (hw : w.WF) (h : executeUnlock w a = .ok w') : w'.assets = w.assets := by
  obtain ⟨_, _, _, _, _, _, _, _, _, -, -, -, -, -, -, -, -, -, -, rfl⟩ := executeUnlock_releases hw h
  rfl

theorem bookDeposit_assets {a : Deposit} {supply decimals : ℕ} {price : PriceData} (hw : w.WF)
    (h : bookDeposit w a supply decimals price = .ok w') : w'.assets = w.assets := by
  obtain ⟨_, _, b, _, w₁, _, -, hb, hmint, h⟩ := bookDeposit_moves h
  have hwf := hw.bank (a.move_moves hb)
  have hq := mintReferrer_quiet (w := { w with bank := b }) hw.mint hmint
  obtain ⟨w₂, e₂, rfl, ⟨rfl, -⟩ | hlock⟩ := lockDeposit_cases h
  · exact hq.assets
  · have hnodup : w₁.state.assetMints.Nodup := (hq.wf hwf).nodup
    obtain ⟨-, -, -, _, _, _, _, -, -, rfl⟩ := performLock_ok (by exact hnodup) hlock
    exact hq.assets

theorem executeDeposit_assets {a : Deposit} (hw : w.WF) (h : executeDeposit w a = .ok w') : w'.assets = w.assets := by
  obtain ⟨_, _, _, _, hwf, h⟩ := executeDeposit_books hw h
  have hassets := bookDeposit_assets hwf h
  exact hassets

theorem executeDepositSol_assets {a : DepositSol} (hw : w.WF) (h : executeDepositSol w a = .ok w') : w'.assets = w.assets := by
  obtain ⟨_, _, _, _, hwf, h⟩ := executeDepositSol_books hw h
  have hassets := bookDeposit_assets hwf h
  exact hassets

theorem executePoach_assets {a : Poach} (h : executePoach w a = .ok w') : w'.assets = w.assets := by
  obtain ⟨_, _, _, _, _, _, _, -, -, -, h⟩ := executePoach_slot h
  exact (rebindSlot_booked h).quiet.assets

/-- what pays a dividend, or pays one out, stores the listing with another index or reserve -/
theorem executeBribe_terms {a : Bribe} (hw : w.WF) (h : executeBribe w a = .ok w') : w'.terms = w.terms := by
  obtain ⟨_, e, _, asset, b, _, _, _, _, ps, w₂, e', b₁, w₃, hload, -, -, -, -, hbuy, -, hpay, rfl⟩ := executeBribe_buys hw h
  obtain ⟨-, -, -, -, -, b₂, -, rfl⟩ := buyOut_ok hbuy
  obtain ⟨_, asset', b₃, b₄, -, -, hfund, -, rfl⟩ := payBribe_pays hpay
  obtain ⟨-, ha, -⟩ := a.load_ok hload
  obtain ⟨_, _, _, -, -, -, rfl, -, -⟩ := fundCuts_ok (by exact hw.config) hfund
  exact terms_storeAsset ha (by rfl)

theorem executeDistribute_terms {a : Distribute} (hw : w.WF) (h : executeDistribute w a = .ok w') : w'.terms = w.terms := by
  obtain ⟨asset, b, asset', b', _, ha, -, hfund, -, rfl⟩ := executeDistribute_pulls h
  obtain ⟨_, _, _, -, -, -, rfl, -, -⟩ := fundCuts_ok (by exact hw.config) hfund
  exact terms_storeAsset ha (by rfl)

theorem payOut_terms {p : Payout} {position : Position} {log : List TreasuryMsg} (ha : w.assets p.mint = some asset)
    (h : payOut w p asset position = .ok (w', log)) : w'.terms = w.terms := by
  obtain ⟨b, _, _, w₁, -, -, hdist, -, rfl⟩ := payOut_pays h
  obtain ⟨w₂, b₂, _, hq, -, -, rfl⟩ := distributeClaimTreasury_ok hdist
  have hassets : w₂.assets = w.assets := hq.assets
  have ha₂ : w₂.assets p.mint = some asset := hassets ▸ ha
  have hsame : ({ asset with totalClaimable := asset.totalClaimable - p.claimed } : AssetConfig).terms = asset.terms := rfl
  exact (terms_storeAsset ha₂ hsame).trans (terms_of_assets hassets)

theorem executeClaim_terms {a : Claim} {log : List TreasuryMsg} (h : executeClaim w a = .ok (w', log)) : w'.terms = w.terms := by
  obtain ⟨_, _, asset, b, _, _, hload, -, -, ⟨rfl, -⟩ | ⟨_, _, -, hpay⟩⟩ := executeClaim_cases h
  · rfl
  · obtain ⟨-, ha, -⟩ := Claim.load_ok hload
    have hterms := payOut_terms (by exact ha) hpay
    exact hterms

theorem claimAsset_terms {a : ClaimAll} {locked : ℕ} {slots : ClaimSlots} {affiliate : List Key} {log : List TreasuryMsg}
    (h : claimAsset w a locked m slots affiliate = .ok (w', log)) : w'.terms = w.terms := by
  obtain ⟨asset, _, _, ha, -, -, ⟨rfl, -⟩ | ⟨_, _, -, hpay⟩⟩ := claimAsset_cases h
  · rfl
  · have hterms := payOut_terms (by exact ha) hpay
    exact hterms

theorem executeClaimAll_terms {a : ClaimAll} {log : List TreasuryMsg} (h : executeClaimAll w a = .ok (w', log)) :
    w'.terms = w.terms := by
  obtain ⟨_, h⟩ := executeClaimAll_walks h
  exact claimAssets_induct (P := fun w w' => w'.terms = w.terms) (fun _ => rfl) (fun h₁ h₂ => h₂.trans h₁) claimAsset_terms h

/-! ## Steps -/

/-- **Holders change no rule.** An instruction the owner does not sign leaves the rules alone, unless a successor takes over. -/
theorem step_rules (hw : w.WF) (hgov : i.governor = none) (hkeep : i.move = .keep) (h : step w i = .ok w') :
    w'.rules = w.rules := by
  have hrules : w'.state.rules = w.state.rules ∧ w'.terms = w.terms := by
    cases i with
    | transferOwnership a | setBeneficiar a | setRoyaltyBps a | setRevenueShareBps a | setGrinders a | setBribeable a
      | setConfig a | setFeed a => cases hgov
    | acceptOwnership a => cases hkeep
    | deposit a => exact ⟨(executeDeposit_framed hw h).rules, terms_of_assets (executeDeposit_assets hw h)⟩
    | depositSol a => exact ⟨(executeDepositSol_framed hw h).rules, terms_of_assets (executeDepositSol_assets hw h)⟩
    | distribute a => exact ⟨(executeDistribute_unbooked h).rules, executeDistribute_terms hw h⟩
    | lock a => exact ⟨(executeLock_unbooked hw h).rules, terms_of_assets (executeLock_assets hw h)⟩
    | unlock a => exact ⟨(executeUnlock_unbooked hw h).rules, terms_of_assets (executeUnlock_assets hw h)⟩
    | claim a =>
      simp only [step, bind_ok, Prod.exists, Except.ok.injEq] at h
      obtain ⟨_, _, h, rfl⟩ := h
      exact ⟨(executeClaim_framed h).rules, executeClaim_terms h⟩
    | claimAll a =>
      simp only [step, bind_ok, Prod.exists, Except.ok.injEq] at h
      obtain ⟨_, _, h, rfl⟩ := h
      exact ⟨(executeClaimAll_framed h).rules, executeClaimAll_terms h⟩
    | vote a => exact ⟨(executeVote_unbooked hw h).rules, terms_of_assets (executeVote_assets hw h)⟩
    | bribe a => exact ⟨(executeBribe_unbooked hw h).rules, executeBribe_terms hw h⟩
    | poach a => exact ⟨(executePoach_framed h).rules, terms_of_assets (executePoach_assets h)⟩
    | liquidate a =>
      -- opening liquidation and closing it move its clock only
      obtain ⟨_, _, _, -, -, -, -, -, -, rfl⟩ := executeLiquidate_opens h
      exact ⟨rfl, rfl⟩
    | redeem a => exact ⟨(executeRedeem_unbooked hw h).rules, terms_of_assets (executeRedeem_assets hw h)⟩
    | revive a =>
      obtain ⟨_, _, -, -, -, rfl⟩ := executeRevive_closes h
      exact ⟨rfl, rfl⟩
    | token s op =>
      simp only [step, bind_ok, Except.ok.injEq] at h
      obtain ⟨-, -, _, -, rfl⟩ := h
      exact ⟨rfl, rfl⟩
    | wrap k x =>
      simp only [step, bind_ok, Except.ok.injEq] at h
      obtain ⟨_, -, rfl⟩ := h
      exact ⟨rfl, rfl⟩
    | grinders k g =>
      cases h
      exact ⟨rfl, rfl⟩
  exact Prod.ext hrules.1 hrules.2

/-- the owner and the proposed successor, before and after an instruction -/
theorem step_follows : Follows step World.seats Instr.move World.WF .default where
  keeps _ _ _ hw h := (step_committed hw h).wf
  takes w i w' hw h := by
    cases i with
    | transferOwnership a =>
      obtain ⟨_, howner, h⟩ := bind_ok.1 h
      simp only [bind_ok, Except.ok.injEq] at h
      obtain ⟨-, -, rfl⟩ := h
      exact ⟨(requireOwner_ok howner).symm, rfl⟩
    | acceptOwnership a =>
      simp only [step, executeAcceptOwnership, bind_ok, require_ok, Except.ok.injEq] at h
      obtain ⟨-, hne, -, heq, rfl⟩ := h
      exact ⟨heq, heq ▸ hne, rfl⟩
    | setBeneficiar a =>
      simp only [step, executeSetBeneficiar, bind_ok, Except.ok.injEq] at h
      obtain ⟨-, -, -, -, -, -, rfl⟩ := h
      rfl
    | setRoyaltyBps a =>
      simp only [step, executeSetRoyaltyBps, bind_ok, Except.ok.injEq] at h
      obtain ⟨-, -, -, -, -, -, rfl⟩ := h
      rfl
    | setRevenueShareBps a =>
      simp only [step, executeSetRevenueShareBps, bind_ok, Except.ok.injEq] at h
      obtain ⟨-, -, -, -, -, -, -, -, rfl⟩ := h
      rfl
    | setGrinders a =>
      simp only [step, executeSetGrinders, bind_ok, Except.ok.injEq] at h
      obtain ⟨-, -, -, -, -, -, -, -, _, -, -, -, rfl⟩ := h
      rfl
    | setBribeable a =>
      obtain ⟨_, -, rfl⟩ := executeSetBribeable_marks h
      rfl
    | setConfig a =>
      obtain ⟨-, rfl⟩ := executeSetConfig_adjusts h
      rfl
    | setFeed a => exact seats_of_rules (executeSetFeed_unbooked h).rules
    | _ => exact seats_of_rules (congrArg Prod.fst (step_rules hw rfl rfl h))

/-! ## Runs -/

theorem Genesis.world_seats (g : Genesis) : g.world.seats = ⟨g.args.owner.key, .default⟩ := by
  have h := g.initialized
  simp only [executeInitialize, bind_ok, Except.ok.injEq] at h
  obtain ⟨_, -, hw⟩ := h
  rw [← hw]
  rfl

/-- **The rules are the owner's.** Whatever the run, an instruction that changes a role, a parameter or the terms of a listing is
signed by the owner, who initialized the program or was handed the ownership down; or it is a successor who takes over what the
owner offered, and has not offered to anybody else since. Instructions are public, and anybody may send any of them with any
accounts; what makes the difference is the signature that the step checks. -/
theorem rules_of_owner (g : Genesis) (is : List Instr) (i : Instr) (w : World) (h : step (g.after is) i = .ok w)
    (hchange : w.rules ≠ (g.after is).rules) :
    g.world.state.owner = g.args.owner.key ∧ Inherits step World.seats Instr.move g.world is (g.after is).state.owner ∧
      (i.governor = some (g.after is).state.owner ∨
        ∃ a, i = .acceptOwnership a ∧
          Offered step World.seats Instr.move g.world is (g.after is).state.owner a.pendingOwner.key) := by
  have hseats := g.world_seats
  have hnone : g.world.seats.pending = .default := by rw [hseats]
  refine ⟨congrArg Seats.owner hseats, owner_handover step_follows g.wf hnone is, ?_⟩
  · cases hgov : i.governor with
    | some k => exact .inl (by rw [governor_owns hgov h])
    | none =>
      cases hmove : i.move with
      | keep => exact absurd (step_rules (g.after_wf is) hgov hmove h) hchange
      | propose signer successor =>
        cases i <;> cases hmove
        cases hgov
      | accept signer =>
        have htakes := step_follows.takes _ i w (g.after_wf is) h
        cases i <;> cases hmove
        obtain ⟨hpending, hne, -⟩ := htakes
        rcases pending_offered step_follows g.wf hnone is with hnobody | hoffer
        · exact absurd (hpending.symm.trans hnobody) hne
        · refine .inr ⟨_, rfl, ?_⟩
          rw [← hpending]
          exact hoffer

/-- wallet 1 hands over to wallet 2 -/
def succession : List Instr :=
  [.transferOwnership ⟨Sample.wallet 1, Sample.user 2⟩, .acceptOwnership ⟨Sample.wallet 2⟩]

theorem rules_of_successor :
    let w := Sample.genesis.after succession
    let w' := exec step w (.setBeneficiar ⟨Sample.wallet 2, Sample.user 3⟩)
    w'.state.beneficiar = Sample.user 3 ∧
      Inherits step World.seats Instr.move Sample.genesis.world succession (Sample.user 2) := by
  have hstep : step (Sample.genesis.after succession) (.setBeneficiar ⟨Sample.wallet 2, Sample.user 3⟩) = .ok _ :=
    step_exec (by decide +kernel)
  refine ⟨by decide +kernel, (rules_of_owner Sample.genesis succession _ _ hstep fun hsame => ?_).2.1⟩
  have hbeneficiar := congrArg (fun r => r.1.beneficiar) hsame
  revert hbeneficiar
  decide +kernel

end Grindurus.Grai
