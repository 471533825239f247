/-
Adapters that lock and native stores that mint: what circulates elsewhere is locked.

- `Harbour`: adapters, and native spokes, just initialized, with the endpoint between them. `Harbour.after`: the net after a run.
- `World.outstanding`: the supply of a native store, and what an adapter has not locked. `spills`: only a lot that an adapter
  publishes, which it burns and does not lock, adds to it.
- `lock_and_mint`: so the supplies of the native stores and what is in flight stay within what the adapters have locked and what
  they published. With a single adapter that publishes nothing, every transfer home finds its tokens.
-/
import Grindurus.Grs.Lockbox

namespace Grindurus.Grs

open Checked TokenBank Machine Network Function

variable {ds : ℕ → Deployment} {d : Deployment} {w w' : World}

/-! ## Outstanding tokens -/

/-- the supply of a native store, and what an adapter has not locked yet -/
def World.outstanding (w : World) : ℕ :=
  match w.store.oftType with
  | .native => w.supply
  | .adapter => 2 ^ 64 - w.store.tvlLd

/-- what an adapter publishes it burns, and does not lock -/
def World.unlocked (w : World) (i : Instr) : ℕ :=
  match w.store.oftType with
  | .native => 0
  | .adapter => w.published i

theorem outstanding_native (h : w.store.oftType = .native) : w.outstanding = w.supply := by simp [World.outstanding, h]

theorem outstanding_adapter (h : w.store.oftType = .adapter) : w.outstanding = 2 ^ 64 - w.store.tvlLd := by
  simp [World.outstanding, h]

/-- a store as it was set up, solvent, and a native one mints its token -/
structure Moored (d : Deployment) (w₀ w : World) : Prop where
  same : SameStore w₀ w
  solvent : w.Solvent d
  live : w.store.oftType = .native → Live d w

variable {w₀ : World}

theorem WithdrawFee.apply_tvl {a : WithdrawFee} (h : a.apply d w = .ok w') : w'.store = w.store := by
  simp only [WithdrawFee.apply, bind_ok, Except.ok.injEq] at h
  obtain ⟨-, -, _, -, _, -, _, -, -, -, b₁, -, rfl⟩ := h
  rfl

/-- what a store sends it burns or locks, but for the lots an adapter publishes -/
theorem exec_moored {i : Instr} {posted : Option Outbound} (h : exec d w i = .ok (w', posted)) (hi : i.delivers = false)
    (hw : Moored d w₀ w) : Moored d w₀ w' ∧ w'.outstanding + carried posted ≤ w.outstanding + w.unlocked i := by
  have hsame := exec_store h
  have hsolvent : w'.Solvent d := Solvent.step hw.solvent (step_ok.2 ⟨posted, h⟩)
  cases hkind : w.store.oftType with
  | native =>
    obtain ⟨hlive, hle⟩ := exec_live h hi (hw.live hkind)
    refine ⟨⟨hw.same.trans hsame, hsolvent, fun _ => hlive⟩, ?_⟩
    rw [outstanding_native hkind, outstanding_native (hsame.oftType.trans hkind)]
    exact hle.trans (Nat.le_add_right ..)
  | adapter =>
    have hkind' := hsame.oftType.trans hkind
    refine ⟨⟨hw.same.trans hsame, hsolvent, fun hn => by simp [hkind'] at hn⟩, ?_⟩
    rw [outstanding_adapter hkind, outstanding_adapter hkind', World.unlocked, hkind]
    have hfits := hw.solvent.fits
    cases exec_locks h hw.solvent.rate with
    | withdrawn a hi ha =>
      subst hi
      rw [WithdrawFee.apply_tvl ha, (exec_quiet h rfl).1]
      simp [carried]
    | configured hi hposted hbank htvl =>
      rw [htvl, hposted]
      simp [carried]
    | locked δ hδ =>
      have htvl := hδ.locks.tvl
      have hcarried := hδ.adapter hkind
      have hbrings : i.brings = 0 := by
        cases i with
        | lzReceive a params => cases hi
        | _ => rfl
      have hfits' := hsolvent.fits
      dsimp only
      omega

/-- a store mints or unlocks no more than the message carried -/
theorem LzReceive.apply_moored {a : LzReceive} {params : LzReceiveParams} (h : a.apply d w params = .ok w') (hw : Moored d w₀ w)
    (hsolvent : w'.Solvent d) : Moored d w₀ w' ∧ w'.outstanding ≤ w.outstanding + grsCarried params.message := by
  have hsame := LzReceive.apply_store h
  cases hkind : w.store.oftType with
  | native =>
    obtain ⟨hlive, hle⟩ := LzReceive.apply_live h (hw.live hkind)
    refine ⟨⟨hw.same.trans hsame, hsolvent, fun _ => hlive⟩, ?_⟩
    rwa [outstanding_native hkind, outstanding_native (hsame.oftType.trans hkind)]
  | adapter =>
    have hkind' := hsame.oftType.trans hkind
    refine ⟨⟨hw.same.trans hsame, hsolvent, fun hn => by simp [hkind'] at hn⟩, ?_⟩
    rw [outstanding_adapter hkind, outstanding_adapter hkind']
    obtain ⟨δ, hle, -, hl⟩ := LzReceive.apply_locks h hw.solvent.rate
    have htvl := hl.tvl
    omega

variable (ds) in
/-- adapters, and native spokes, just initialized -/
structure Harbour where
  nodes : Finset ℕ
  genesis : ∀ n, Genesis (ds n)
  spokes : ∀ n ∈ nodes, (genesis n).world.store.oftType = .native → (genesis n).world.config.homeEid ≠ 0

/-- **Spills.** No store of a harbour creates any of what is outstanding, but for the lots an adapter publishes. -/
theorem Harbour.spills (H : Harbour ds) :
    Spills (protocol ds) (fun n => Moored (ds n) (H.genesis n).world) (fun _ => World.outstanding) Letter.carried
      World.unlocked where
  act {n w i w' posted} hw h := by
    obtain ⟨hi, o, he, rfl⟩ := act_ok h
    obtain ⟨hmoored, hle⟩ := exec_moored he hi hw
    refine ⟨hmoored, ?_⟩
    cases o <;> exact hle
  receive {n w l a w'} hw h := by
    have hsolvent : w'.Solvent (ds n) := by
      simp only [protocol, receive, bind_ok] at h
      obtain ⟨-, -, hs⟩ := h
      exact Solvent.step hw.solvent hs
    exact LzReceive.apply_moored (receive_ok h) hw hsolvent

/-! ## The net -/

namespace Harbour

variable (H : Harbour ds)

def net : Net ℕ World Letter := ⟨H.nodes, fun n => (H.genesis n).world, []⟩

/-- every state the net can get into -/
def after (evs : List (Event ℕ Instr LzReceive)) : Net ℕ World Letter := Machine.run (Network.step (protocol ds)) H.net evs

def natives : Finset ℕ := {n ∈ H.nodes | (H.genesis n).world.store.oftType = .native}

def adapters : Finset ℕ := {n ∈ H.nodes | (H.genesis n).world.store.oftType = .adapter}

/-- what the adapters published in a run -/
def published (evs : List (Event ℕ Instr LzReceive)) : ℕ :=
  tally (Network.step (protocol ds)) (spilled World.unlocked) H.net evs

variable {H} {evs : List (Event ℕ Instr LzReceive)}

theorem moored : ∀ n ∈ H.nodes, Moored (ds n) (H.genesis n).world (H.genesis n).world := by
  intro n hn
  have hblank := (H.genesis n).blank
  refine ⟨.refl _, Init.apply_solvent (H.genesis n).initialized, fun hnative => ?_⟩
  exact ⟨hnative, hblank.rate, hblank.minter (H.spokes n hn hnative)⟩

/-- the stores are native or adapters -/
theorem sum_kinds (f : ℕ → ℕ) : ∑ n ∈ H.nodes, f n = ∑ n ∈ H.natives, f n + ∑ n ∈ H.adapters, f n := by
  have hrest : {n ∈ H.nodes | ¬ (H.genesis n).world.store.oftType = .native} = H.adapters := by
    refine Finset.filter_congr fun n _ => ?_
    cases (H.genesis n).world.store.oftType <;> simp
  rw [natives, ← hrest, Finset.sum_filter_add_sum_filter_not]

theorem bounded : Bounded (fun n => Moored (ds n) (H.genesis n).world) (fun _ => World.outstanding) Letter.carried
    (∑ n ∈ H.nodes, (H.genesis n).world.outstanding + H.published evs) (H.after evs) :=
  Spills.run H.spills (⟨moored, le_rfl⟩ : Bounded _ _ _ _ H.net) evs

/-- the supplies and what is in flight were there, or are locked, or were published -/
theorem circulation :
    ∑ n ∈ H.natives, ((H.after evs).node n).supply + load Letter.carried (H.after evs).mail ≤
      ∑ n ∈ H.natives, (H.genesis n).world.supply + ∑ n ∈ H.adapters, ((H.after evs).node n).store.tvlLd + H.published evs := by
  have hbounded : Bounded _ _ _ _ (H.after evs) := bounded
  have hnodes : (H.after evs).nodes = H.nodes := run_nodes H.net evs
  have htotal := hbounded.total
  have hmoored : ∀ n ∈ H.nodes, Moored (ds n) (H.genesis n).world ((H.after evs).node n) := fun n hn =>
    hbounded.nodes n (hnodes ▸ hn)
  rw [Net.total, hnodes, sum_kinds, sum_kinds] at htotal
  have hnatives : ∀ n ∈ H.natives, ((H.after evs).node n).outstanding = ((H.after evs).node n).supply := fun n hn =>
    outstanding_native ((hmoored n (Finset.mem_filter.1 hn).1).same.oftType.trans (Finset.mem_filter.1 hn).2)
  have hinitial : ∀ n ∈ H.natives, (H.genesis n).world.outstanding = (H.genesis n).world.supply := fun n hn =>
    outstanding_native (Finset.mem_filter.1 hn).2
  rw [Finset.sum_congr rfl hnatives, Finset.sum_congr rfl hinitial] at htotal
  have hadapters : ∑ n ∈ H.adapters, (H.genesis n).world.outstanding ≤
      ∑ n ∈ H.adapters, (((H.after evs).node n).outstanding + ((H.after evs).node n).store.tvlLd) := by
    refine Finset.sum_le_sum fun n hn => ?_
    obtain ⟨hn, hkind⟩ := Finset.mem_filter.1 hn
    have hm := hmoored n hn
    have hfits := hm.solvent.fits
    rw [outstanding_adapter hkind, outstanding_adapter (hm.same.oftType.trans hkind)]
    omega
  rw [Finset.sum_add_distrib] at hadapters
  omega

end Harbour

/-! ## The way home -/

/-- every error but that more is asked for than is locked -/
def Locked : Set OFTError := {e | e ≠ .invalidFee}

@[simp] theorem mem_locked {e : OFTError} : e ∈ Locked ↔ e ≠ .invalidFee := Iff.rfl

theorem checks_locked : Checks ⊆ Locked := by
  rintro e he rfl
  simp at he

theorem creditEscrow_locked {a : LzReceive} {dst : Pubkey} {x : ℕ} (h : w.store.oftType = .adapter → x ≤ w.store.tvlLd) :
    Throws Locked (creditEscrow d w a dst x) := by
  unfold creditEscrow
  split
  · rename_i hkind
    exact .bind (throws_checkedSub.2 (.inl (h hkind))) fun _ _ => by simp
  · simp

/-- the home chain takes transfers only, and one that is covered by what is locked is not refused for it -/
theorem LzReceive.apply_locked {a : LzReceive} {params : LzReceiveParams} (hhome : w.config.homeEid = 0)
    (hrate : w.store.ld2sdRate = GRS_LD2SD_RATE)
    (h : w.store.oftType = .adapter → grsCarried params.message ≤ w.store.tvlLd) : Throws Locked (a.apply d w params) := by
  refine apply_throws checks_locked fun b peer _ _ => ?_
  split_ifs with hsale hgrant
  · simp [receiveSale, GrsConfig.isHome, hhome, require]
  · simp [receiveGrant, GrsConfig.isHome, hhome, require]
  · refine receiveOft_throws checks_locked fun sd x w' dst hsd hx _ hstore => creditEscrow_locked fun hkind => ?_
    obtain ⟨-, rfl⟩ := checkedMul_ok.1 hx
    rw [hstore] at hkind ⊢
    have hcarried := h hkind
    rw [grsCarried_credit (by simpa using hsale) (by simpa using hgrant) hsd] at hcarried
    rwa [hrate]

theorem receive_locked {eid : ℕ} {l : Letter} {a : LzReceive} (hhome : w.config.homeEid = 0)
    (hrate : w.store.ld2sdRate = GRS_LD2SD_RATE) (h : w.store.oftType = .adapter → l.carried ≤ w.store.tvlLd) :
    Throws Locked (receive ds eid w l a) := by
  refine .bind (by simp) fun _ _ => .bind (.bind (by simp [checkSigner, Instr.signer]) fun _ _ => ?_) fun _ _ => by simp
  exact .bind (LzReceive.apply_locked hhome hrate h) fun _ _ => by simp

/-- what is sent to the only adapter is locked there -/
theorem Harbour.locked_at_home {H : Harbour ds} {evs : List (Event ℕ Instr LzReceive)} {home k : ℕ} {l : Letter}
    (honly : H.adapters = {home}) (hempty : ∀ n ∈ H.natives, (H.genesis n).world.supply = 0) (hnone : H.published evs = 0)
    (hl : (H.after evs).mail[k]? = some ⟨l, false⟩) : l.carried ≤ ((H.after evs).node home).store.tvlLd := by
  have hcirculation := @circulation _ H evs
  rw [honly, Finset.sum_singleton, Finset.sum_eq_zero hempty, hnone] at hcirculation
  have hload : l.carried ≤ load Letter.carried (H.after evs).mail := le_load hl
  omega

/-- **Lock and mint.** Between stores whose tokens withhold nothing of a transfer, whatever they do and however their messages
are delivered: the supplies of the native stores and what is in flight are covered by the supplies they began with, what the
adapters have locked, and the lots the adapters published; what is locked lies in the escrows. So where a single adapter is the
home of stores that began with nothing, and it published no lot, no transfer back to it is refused for want of tokens. -/
theorem lock_and_mint (H : Harbour ds) (evs : List (Event ℕ Instr LzReceive)) :
    ∑ n ∈ H.natives, ((H.after evs).node n).supply + load Letter.carried (H.after evs).mail ≤
      ∑ n ∈ H.natives, (H.genesis n).world.supply + ∑ n ∈ H.adapters, ((H.after evs).node n).store.tvlLd + H.published evs ∧
    (∀ n ∈ H.adapters, ((H.after evs).node n).store.tvlLd ≤ ((H.after evs).node n).bank.balance (ds n).tokenEscrow) ∧
    ∀ home, H.adapters = {home} → (H.genesis home).world.config.homeEid = 0 →
      (∀ n ∈ H.natives, (H.genesis n).world.supply = 0) → H.published evs = 0 →
      ∀ k l a, (H.after evs).mail[k]? = some ⟨l, false⟩ → l.posted.dstEid = home →
        Network.step (protocol ds) (H.after evs) (.deliver k a) ≠ .error (.node .invalidFee) ∧
        Network.step (protocol ds) (H.after evs) (.deliver k a) ≠
          .error (.node (.token (.insufficientFunds (ds home).tokenEscrow))) := by
  have hbounded : Bounded _ _ _ _ (H.after evs) := Harbour.bounded
  have hnodes : (H.after evs).nodes = H.nodes := run_nodes H.net evs
  have hmoored : ∀ n ∈ H.nodes, Moored (ds n) (H.genesis n).world ((H.after evs).node n) := fun n hn =>
    hbounded.nodes n (hnodes ▸ hn)
  refine ⟨Harbour.circulation, fun n hn => (hmoored n (Finset.mem_filter.1 hn).1).solvent.covered, ?_⟩
  rintro home honly hhome hempty hnone k l a hl rfl
  have hmem : l.posted.dstEid ∈ H.nodes := by
    have hadapter : l.posted.dstEid ∈ H.adapters := honly ▸ Finset.mem_singleton_self _
    exact (Finset.mem_filter.1 hadapter).1
  have hm := hmoored _ hmem
  refine ⟨fun he => ?_, fun he => ?_⟩
  · obtain ⟨l', hl', -, hrec⟩ := step_deliver_error he
    cases Option.some.inj (hl.symm.trans hl')
    exact receive_locked (hm.same.homeEid.trans hhome) hm.solvent.rate
      (fun _ => Harbour.locked_at_home honly hempty hnone hl) _ hrec rfl
  · obtain ⟨l', hl', -, hrec⟩ := step_deliver_error he
    cases Option.some.inj (hl.symm.trans hl')
    have hthrows : Throws (Backed (ds l.posted.dstEid))
        (receive ds l.posted.dstEid ((H.after evs).node l.posted.dstEid) l a) := by
      refine .bind (by simp) fun _ _ => .bind (.bind (by simp [checkSigner, Instr.signer]) fun _ _ => ?_) fun _ _ => by simp
      exact .bind (LzReceive.apply_backed hm.solvent.covered) fun _ _ => by simp
    exact hthrows _ hrec rfl

end Grindurus.Grs
