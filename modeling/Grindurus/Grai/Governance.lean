/-
Parameters and ownership (`programs/grai/src/config.rs`, and the setters of `treasury.rs`).

The owner sets the protocol config, but for the two yield cuts, the beneficiar, the royalty, the affiliate shares, and the
Grinders account; ownership moves in two steps. None of it is visible to the ledger.

Every parameter is checked against its bound when it is set, and the two yield cuts keep what initialization gave them, so a
validated configuration stays one. The new owner has to sign before the ownership moves.
-/
import Grindurus.Grai.Listing

namespace Grindurus.Grai

open Checked TokenBank

/-! ## Protocol config -/

structure SetConfig where
  owner : Signer
  cfg : Config

/-- update the config; the yield cuts are immutable -/
def executeSetConfig (w : World) (a : SetConfig) : Except ErrorCode World := do
  requireOwner w a.owner
  require (w.state.liquidation = false) .liquidationOpen
  let old := w.state.config
  require (a.cfg.dividendCutBps = old.dividendCutBps ∧ a.cfg.treasuryCutBps = old.treasuryCutBps) .invalidCuts
  validateProtocolConfig a.cfg
  .ok { w with state := { w.state with config := a.cfg } }

structure SetGrinders where
  owner : Signer
  grindersState : Key
  grinders : Key

/-- point deposits, penalties and sweeps at a Grinders account that links back to this program -/
def executeSetGrinders (w : World) (a : SetGrinders) : Except ErrorCode World := do
  requireOwner w a.owner
  require (w.state.liquidation = false) .liquidationOpen
  require (a.grinders ≠ .default) .invalidGrinders
  require (a.grindersState = a.grinders) .invalidGrinders
  let g ← demand .invalidGrinders (w.grinders a.grindersState)
  require (g.graiProgram = .program) .grindersGraiMismatch
  .ok { w with state := { w.state with grinders := a.grinders } }

/-! ## Ownership -/

structure TransferOwnership where
  owner : Signer
  newOwner : Key

def executeTransferOwnership (w : World) (a : TransferOwnership) : Except ErrorCode World := do
  requireOwner w a.owner
  require (a.newOwner ≠ a.owner.key) .invalidPendingOwner
  .ok { w with state := { w.state with pendingOwner := a.newOwner } }

structure AcceptOwnership where
  pendingOwner : Signer

def executeAcceptOwnership (w : World) (a : AcceptOwnership) : Except ErrorCode World := do
  require (w.state.pendingOwner ≠ .default) .unauthorized
  require (w.state.pendingOwner = a.pendingOwner.key) .unauthorized
  .ok { w with state := { w.state with owner := a.pendingOwner.key, pendingOwner := .default } }

/-! ## Treasury parameters -/

structure SetBeneficiar where
  owner : Signer
  beneficiar : Key

def executeSetBeneficiar (w : World) (a : SetBeneficiar) : Except ErrorCode World := do
  requireOwner w a.owner
  require (w.state.liquidation = false) .liquidationOpen
  require (a.beneficiar ≠ .default) .zeroAddress
  .ok { w with state := { w.state with beneficiar := a.beneficiar } }

structure SetRoyaltyBps where
  owner : Signer
  royaltyBps : ℕ

def executeSetRoyaltyBps (w : World) (a : SetRoyaltyBps) : Except ErrorCode World := do
  requireOwner w a.owner
  require (w.state.liquidation = false) .liquidationOpen
  require (a.royaltyBps ≤ BPS) .bpsTooHigh
  .ok { w with state := { w.state with royaltyBps := a.royaltyBps } }

structure SetRevenueShareBps where
  owner : Signer
  shares : List ℕ

/-- two affiliate levels that split the whole revenue share -/
def executeSetRevenueShareBps (w : World) (a : SetRevenueShareBps) : Except ErrorCode World := do
  requireOwner w a.owner
  require (w.state.liquidation = false) .liquidationOpen
  require (a.shares.length = 2) .invalidShares
  require (a.shares.sum = BPS) .invalidShares
  .ok { w with state := { w.state with affiliateShareBps := a.shares, affiliateLevels := 2 } }

/-! ## What they do -/

variable {w w' : World}

theorem executeSetConfig_committed {a : SetConfig} (hw : w.WF) (h : executeSetConfig w a = .ok w') :
    Committed .nobody w w' := by
  simp only [executeSetConfig, bind_ok, require_ok, Except.ok.injEq] at h
  obtain ⟨-, -, -, -, -, ⟨hdividend, htreasury⟩, _, hvalid, rfl⟩ := h
  refine .of_view ⟨hw.mint, hw.guarded, hw.listed, hw.unlisted, validateProtocolConfig_ok hvalid,
    ⟨hw.shares.levels, hw.shares.length, hw.shares.sum⟩⟩ ?_
  have hview : ({ w with state := { w.state with config := a.cfg } } : World).view =
      { w.view with dividendCut := a.cfg.dividendCutBps, treasuryCut := a.cfg.treasuryCutBps } := rfl
  rw [hview, hdividend, htreasury]
  rfl

/-- the config may change while liquidation is closed -/
theorem executeSetConfig_adjusts {a : SetConfig} (h : executeSetConfig w a = .ok w') :
    w.state.liquidation = false ∧ w' = { w with state := { w.state with config := a.cfg } } := by
  simp only [executeSetConfig, bind_ok, require_ok, Except.ok.injEq] at h
  obtain ⟨-, -, -, hclosed, -, -, -, -, rfl⟩ := h
  exact ⟨hclosed, rfl⟩

theorem executeSetGrinders_committed {a : SetGrinders} (hw : w.WF) (h : executeSetGrinders w a = .ok w') :
    Committed .nobody w w' := by
  simp only [executeSetGrinders, bind_ok, Except.ok.injEq] at h
  obtain ⟨-, -, -, -, -, -, -, -, _, -, -, -, rfl⟩ := h
  exact .of_view (hw.keep rfl (fun _ => rfl) hw.guarded) rfl

theorem executeTransferOwnership_committed {a : TransferOwnership} (hw : w.WF)
    (h : executeTransferOwnership w a = .ok w') : Committed .nobody w w' := by
  simp only [executeTransferOwnership, bind_ok, Except.ok.injEq] at h
  obtain ⟨-, -, -, -, rfl⟩ := h
  exact .of_view (hw.keep rfl (fun _ => rfl) hw.guarded) rfl

theorem executeAcceptOwnership_committed {a : AcceptOwnership} (hw : w.WF) (h : executeAcceptOwnership w a = .ok w') :
    Committed .nobody w w' := by
  simp only [executeAcceptOwnership, bind_ok, Except.ok.injEq] at h
  obtain ⟨-, -, -, -, rfl⟩ := h
  exact .of_view (hw.keep rfl (fun _ => rfl) hw.guarded) rfl

theorem executeSetBeneficiar_committed {a : SetBeneficiar} (hw : w.WF) (h : executeSetBeneficiar w a = .ok w') :
    Committed .nobody w w' := by
  simp only [executeSetBeneficiar, bind_ok, Except.ok.injEq] at h
  obtain ⟨-, -, -, -, -, -, rfl⟩ := h
  exact .of_view (hw.keep rfl (fun _ => rfl) hw.guarded) rfl

theorem executeSetRoyaltyBps_committed {a : SetRoyaltyBps} (hw : w.WF) (h : executeSetRoyaltyBps w a = .ok w') :
    Committed .nobody w w' := by
  simp only [executeSetRoyaltyBps, bind_ok, Except.ok.injEq] at h
  obtain ⟨-, -, -, -, -, -, rfl⟩ := h
  exact .of_view (hw.keep rfl (fun _ => rfl) hw.guarded) rfl

theorem executeSetRevenueShareBps_committed {a : SetRevenueShareBps} (hw : w.WF)
    (h : executeSetRevenueShareBps w a = .ok w') : Committed .nobody w w' := by
  simp only [executeSetRevenueShareBps, bind_ok, require_ok, Except.ok.injEq] at h
  obtain ⟨-, -, -, -, -, hlen, -, hsum, rfl⟩ := h
  exact .of_view ⟨hw.mint, hw.guarded, hw.listed, hw.unlisted, hw.config, ⟨rfl, hlen, hsum⟩⟩ rfl

end Grindurus.Grai
