/-
The registry of peers (`programs/grs/src/state/peer_registry.rs`, `instructions/get_peers.rs`).

- `GetPeers.apply`: the view. `World.entry`: what the peer account of a chain should have in the registry.
- `upsertPeer_lists`: `upsert` is an update of that map. `World.Registered`, `step_registered`: every instruction keeps them in
  step.
- `peers_registered`: in every reachable state the view lists the peers that are set, each once, and messages are exchanged with
  these alone; and a peer is one too many exactly if it is new and sixteen are set.

The registry repeats what the peer accounts say, so that a client can list them without knowing the chains. It is a list of at most
sixteen entries, written by `set_peer_config` alone. A peer that is set to zero is dropped from the list and its account stays: the
view shows who may be written to, and the accounts are what sends and deliveries look at.
-/
import Grindurus.Lib.Registry
import Grindurus.Grs.Settings

namespace Grindurus.Grs

open Checked TokenBank Machine Registry Function

variable {d : Deployment} {w w' : World} {eid : ℕ} {k : Pubkey} {entries entries' : List PeerEntry} {f : ℕ → Option PeerEntry}
  {p p' : PeerConfig}

/-! ## Entries -/

/-- `get_peers` -/
def GetPeers.apply (w : World) : List PeerEntry := w.peerRegistry

/-- what a peer address is worth in the registry: the zero address is no peer -/
def peerEntry (eid : ℕ) (k : Pubkey) : Option PeerEntry := if k = .default then none else some ⟨eid, k⟩

def World.entry (w : World) (eid : ℕ) : Option PeerEntry := (w.peers eid).bind fun p => peerEntry eid p.peerAddress

/-- an entry is replaced where its chain is listed, dropped if the peer is zero, and appended else -/
theorem upsertPeer_lists (h : Lists PeerEntry.eid entries f) (hok : upsertPeer entries eid k = .ok entries') :
    Lists PeerEntry.eid entries' (update f eid (peerEntry eid k)) := by
  have hfind : (entries.find? fun e => e.eid = eid) = f eid := h.find eid
  unfold upsertPeer at hok
  rw [hfind] at hok
  unfold peerEntry
  dsimp only at hok
  split_ifs at hok ⊢ with hk
  · cases hf : f eid with
    | none =>
      rw [hf] at hok
      cases hok
      rwa [← hf, update_eq_self]
    | some e =>
      rw [hf] at hok
      cases hok
      exact h.remove hf
  · cases hf : f eid with
    | none =>
      simp only [hf, bind_ok, Except.ok.injEq] at hok
      obtain ⟨-, -, rfl⟩ := hok
      exact h.push hf
    | some e =>
      rw [hf] at hok
      cases hok
      have hreplaced : (fun e : PeerEntry => if e.eid = eid then some { e with peer := k } else none) =
          fun e => if e.eid = eid then some ⟨eid, k⟩ else none := by
        funext e
        split_ifs with heid
        · rw [← heid]
        · rfl
      rw [hreplaced]
      exact h.replace (e := ⟨eid, k⟩) (by simp [hf])

/-- no update makes the list longer than sixteen -/
theorem upsertPeer_length (hok : upsertPeer entries eid k = .ok entries') (hlen : entries.length ≤ GRS_MAX_PEERS) :
    entries'.length ≤ GRS_MAX_PEERS := by
  unfold upsertPeer at hok
  dsimp only at hok
  split_ifs at hok
  · split at hok
    · cases hok
      rw [(swapRemove_perm ..).length_eq]
      exact (List.erase_sublist.length_le).trans hlen
    · cases hok
      exact hlen
  · split at hok
    · cases hok
      rwa [List.length_replaceF]
    · simp only [bind_ok, require_ok, Except.ok.injEq] at hok
      obtain ⟨-, hroom, rfl⟩ := hok
      simpa using hroom

/-! ## Steps -/

/-- the registry lists the peers that are set, and has room for them -/
structure World.Registered (w : World) : Prop where
  lists : Lists PeerEntry.eid w.peerRegistry w.entry
  length : w.peerRegistry.length ≤ GRS_MAX_PEERS

theorem entry_update (hpeers : w'.peers = update w.peers eid (some p')) :
    w'.entry = update w.entry eid (peerEntry eid p'.peerAddress) := by
  funext e
  unfold World.entry
  rw [hpeers, update_apply, update_apply]
  split_ifs with he
  · rw [he]
    rfl
  · rfl

theorem entry_single (hpeers : w.peers = update (fun _ => none) eid (some p)) :
    w.entry = update (fun _ => none) eid (peerEntry eid p.peerAddress) := by
  funext e
  unfold World.entry
  rw [hpeers, update_apply, update_apply]
  split_ifs with he
  · rw [he]
    rfl
  · rfl

/-- a peer that keeps its address keeps its entry -/
theorem entry_same (hp : w.entry eid = peerEntry eid p'.peerAddress) (hpeers : w'.peers = update w.peers eid (some p')) :
    w'.entry = w.entry := by rw [entry_update hpeers, ← hp, update_eq_self]

theorem address_of_terms (h : p'.terms = p.terms) : p'.peerAddress = p.peerAddress := by
  have haddress : p'.terms.peerAddress = p.terms.peerAddress := by rw [h]
  exact haddress

theorem set_entries {c : PeerConfigParam} (h : p.set w eid c = .ok (p', entries)) :
    (∃ k, c = .peerAddress k ∧ upsertPeer w.peerRegistry eid k = .ok entries ∧ p'.peerAddress = k) ∨
      entries = w.peerRegistry ∧ p'.peerAddress = p.peerAddress := by
  cases c with
  | peerAddress k =>
    simp only [PeerConfig.set, bind_ok, Except.ok.injEq, Prod.mk.injEq] at h
    obtain ⟨_, hset, rfl, rfl⟩ := h
    exact .inl ⟨k, rfl, hset, rfl⟩
  | feeBps _ | outboundRateLimit _ | inboundRateLimit _ =>
    simp only [PeerConfig.set, bind_ok, Except.ok.injEq, Prod.mk.injEq] at h
    obtain ⟨_, -, rfl, rfl⟩ := h
    exact .inr ⟨rfl, rfl⟩

theorem SetPeerConfig.apply_registered {a : SetPeerConfig} (h : a.apply w = .ok w') (hw : w.Registered) : w'.Registered := by
  simp only [SetPeerConfig.apply, bind_ok, Prod.exists, Except.ok.injEq] at h
  obtain ⟨-, -, p', entries, hset, rfl⟩ := h
  rcases set_entries hset with ⟨k, -, hupsert, hk⟩ | ⟨rfl, hk⟩
  · refine ⟨?_, upsertPeer_length hupsert hw.length⟩
    rw [entry_update rfl, hk]
    exact upsertPeer_lists hw.lists hupsert
  · refine ⟨?_, hw.length⟩
    have hentry : w.entry a.remoteEid = peerEntry a.remoteEid p'.peerAddress := by
      rw [hk]
      unfold World.entry
      cases w.peers a.remoteEid <;> rfl
    rw [entry_same hentry rfl]
    exact hw.lists

/-- one instruction writes peers, and it writes the registry with them -/
theorem step_registered {i : Instr} (hw : w.Registered) (hrate : w.store.ld2sdRate = GRS_LD2SD_RATE) (h : step d w i = .ok w') :
    w'.Registered := by
  by_cases hi : ∃ a, i = .setPeerConfig a
  · obtain ⟨a, rfl⟩ := hi
    obtain ⟨posted, he⟩ := step_ok.1 h
    exact SetPeerConfig.apply_registered (silent_ok (exec_ok he).2).1 hw
  have hregistry : w'.peerRegistry = w.peerRegistry := by
    obtain ⟨posted, he⟩ := step_ok.1 h
    have hsettings : i.configures = false → w'.peerRegistry = w.peerRegistry := fun hconf =>
      congrArg (fun r => r.1.2) (step_rules hrate hconf h)
    have ha := (exec_ok he).2
    cases i with
    | setPeerConfig a => exact absurd ⟨a, rfl⟩ hi
    | setOftConfig a =>
      have ha := (silent_ok ha).1
      simp only [SetOFTConfig.apply, bind_ok, Except.ok.injEq] at ha
      obtain ⟨-, -, s, -, rfl⟩ := ha
      rfl
    | transferOwnership a =>
      have ha := (silent_ok ha).1
      simp only [TransferOwnership.apply, bind_ok, Except.ok.injEq] at ha
      obtain ⟨-, -, s, -, rfl⟩ := ha
      rfl
    | acceptOwnership a =>
      have ha := (silent_ok ha).1
      simp only [AcceptOwnership.apply, bind_ok, Except.ok.injEq] at ha
      obtain ⟨-, -, -, -, rfl⟩ := ha
      rfl
    | setPause a =>
      have ha := (silent_ok ha).1
      simp only [SetPause.apply, bind_ok, Except.ok.injEq] at ha
      obtain ⟨-, -, rfl⟩ := ha
      rfl
    | _ => exact hsettings rfl
  have hentry : w'.entry = w.entry := by
    cases step_effect h with
    | idle hpeers =>
      unfold World.entry
      rw [hpeers]
    | sent eid p p' hp hp' hpeers =>
      refine entry_same ?_ hpeers
      rw [address_of_terms (outbound_terms hp'), World.entry, hp]
      rfl
    | received eid p p' hp hp' hpeers =>
      refine entry_same ?_ hpeers
      rw [address_of_terms (inbound_terms hp'), World.entry, hp]
      rfl
    | configured a p' entries ha => exact absurd ⟨a, ha⟩ hi
  exact ⟨by rw [hregistry, hentry]; exact hw.lists, by rw [hregistry]; exact hw.length⟩

theorem Init.apply_registered {a : Init} {b : Bank Pubkey} {lamports : Pubkey → ℕ} {now : ℤ}
    (h : a.apply d b lamports now = .ok w) : w.Registered := by
  simp only [Init.apply, bind_ok] at h
  obtain ⟨_, -, _, -, -, -, -, -, -, -, -, -, h⟩ := h
  split_ifs at h with hhome
  · simp only [bind_ok, Except.ok.injEq] at h
    obtain ⟨-, -, -, -, rfl⟩ := h
    exact ⟨Lists.nil, Nat.zero_le _⟩
  · simp only [bind_ok] at h
    obtain ⟨-, -, -, -, entries, hentries, h⟩ := h
    obtain ⟨b, rfl, -⟩ := handoffSpokeMint_ok h
    refine ⟨?_, upsertPeer_length hentries (Nat.zero_le _)⟩
    have hlists := upsertPeer_lists (f := fun _ => none) Lists.nil hentries
    rw [entry_single rfl]
    exact hlists

theorem Genesis.registered (g : Genesis d) (is : List Instr) : (g.after is).Registered := by
  have hboth : (g.after is).Solvent d ∧ (g.after is).Registered :=
    run_invariant (P := fun w => w.Solvent d ∧ w.Registered)
      (fun _ _ _ h hs => ⟨Solvent.step h.1 hs, step_registered h.2 h.1.rate hs⟩) g.world is
      ⟨Init.apply_solvent g.initialized, Init.apply_registered g.initialized⟩
  exact hboth.2

/-! ## The view -/

theorem World.Registered.mem (hw : w.Registered) (e : PeerEntry) :
    e ∈ GetPeers.apply w ↔ e.peer ≠ .default ∧ ∃ p, w.peers e.eid = some p ∧ p.peerAddress = e.peer := by
  rw [GetPeers.apply, hw.lists.mem e]
  obtain ⟨eid, k⟩ := e
  unfold World.entry peerEntry
  cases hp : w.peers eid with
  | none => simp
  | some p =>
    simp only [Option.bind_some, Option.some.injEq, exists_eq_left']
    split_ifs with hk
    · rw [hk]
      simp [eq_comm]
    · simp only [Option.some.injEq, PeerEntry.mk.injEq, true_and]
      refine ⟨?_, And.right⟩
      rintro rfl
      exact ⟨hk, rfl⟩

/-- what is handed to the endpoint goes to a peer, and what the endpoint hands over comes from one -/
theorem World.Registered.traffic {i : Instr} {posted : Option Outbound} (hw : w.Registered) (h : exec d w i = .ok (w', posted)) :
    (∀ o, posted = some o → o.receiver = .default ∨ ⟨o.dstEid, o.receiver⟩ ∈ GetPeers.apply w) ∧
    ∀ a params, i = .lzReceive a params → params.sender = .default ∨ ⟨params.srcEid, params.sender⟩ ∈ GetPeers.apply w := by
  have hknown : ∀ eid p, w.peers eid = some p → p.peerAddress = .default ∨ ⟨eid, p.peerAddress⟩ ∈ GetPeers.apply w := by
    intro eid p hp
    rw [hw.mem, or_iff_not_imp_left]
    exact fun hne => ⟨hne, p, hp, rfl⟩
  have ha := (exec_ok h).2
  refine ⟨fun o ho => ?_, fun a params hi => ?_⟩
  · subst ho
    cases i with
    | send a =>
      obtain ⟨_, ha, ho⟩ := posting_ok ha
      cases ho
      simp only [Send.apply, bind_ok, demand_ok, Except.ok.injEq, Prod.mk.injEq] at ha
      obtain ⟨peer, hpeer, _, -, _, -, -, -, r, -, -, -, peer', hout, w₁, -, -, -, -, -, -, -, -, rfl⟩ := ha
      have hsame := address_of_terms (outbound_terms hout)
      dsimp only
      rw [hsame]
      exact hknown _ _ hpeer
    | bridge a =>
      obtain ⟨_, ha, ho⟩ := posting_ok ha
      cases ho
      simp only [Send.apply, bind_ok, demand_ok, Except.ok.injEq, Prod.mk.injEq] at ha
      obtain ⟨peer, hpeer, _, -, _, -, -, -, r, -, -, -, peer', hout, w₁, -, -, -, -, -, -, -, -, rfl⟩ := ha
      have hsame := address_of_terms (outbound_terms hout)
      dsimp only
      rw [hsame]
      exact hknown _ _ hpeer
    | publishSale a =>
      obtain ⟨_, ha, ho⟩ := posting_ok ha
      cases ho
      simp only [PublishSale.apply, bind_ok, demand_ok, Except.ok.injEq, Prod.mk.injEq] at ha
      obtain ⟨peer, hpeer, -, -, _, -, _, -, -, -, -, -, -, -, -, -, w₁, -, -, rfl⟩ := ha
      exact hknown _ _ hpeer
    | _ => cases (silent_ok ha).2
  · subst hi
    have ha := (silent_ok ha).1
    simp only [LzReceive.apply, bind_ok, demand_ok, require_ok] at ha
    obtain ⟨peer, hpeer, -, hsender, -⟩ := ha
    rw [← hsender]
    exact hknown _ _ hpeer

/-! ## One too many -/

/-- the only failure is a seventeenth entry -/
theorem upsertPeer_error {e : OFTError} : upsertPeer entries eid k = .error e ↔
    k ≠ .default ∧ (∀ e ∈ entries, e.eid ≠ eid) ∧ GRS_MAX_PEERS ≤ entries.length ∧ e = .tooManyPeers := by
  unfold upsertPeer
  dsimp only
  split_ifs with hk
  · cases entries.find? fun e => e.eid = eid <;> simp [hk]
  · cases hfind : entries.find? fun e => e.eid = eid with
    | some e' =>
      have hmem := List.mem_of_find?_eq_some hfind
      have heid : e'.eid = eid := by simpa using List.find?_some hfind
      simp only [reduceCtorEq, ne_eq, false_iff, not_and]
      exact fun _ hnew => absurd heid (hnew e' hmem)
    | none =>
      have hnew : ∀ e ∈ entries, e.eid ≠ eid := by simpa using hfind
      simp only [bind_error, reduceCtorEq, and_false, exists_false, or_false]
      unfold require
      split_ifs with hlen
      · simp [Nat.not_le.2 hlen]
      · simp only [Except.error.injEq, ne_eq, hk, not_false_eq_true, Nat.not_lt.1 hlen, true_and]
        exact ⟨fun he => ⟨hnew, he.symm⟩, fun he => he.2.symm⟩

/-- so a setting is refused for it exactly if the peer is new, not zero, and sixteen are listed -/
theorem set_tooMany {c : PeerConfigParam} : p.set w eid c = .error .tooManyPeers ↔
    ∃ k, c = .peerAddress k ∧ upsertPeer w.peerRegistry eid k = .error .tooManyPeers := by
  have hlimiter : ∀ o params, updateRateLimiter w.now o params ≠ .error .tooManyPeers := by
    intro o params h
    have hthrows : Throws {e | e ≠ OFTError.tooManyPeers} (updateRateLimiter w.now o params) := by
      cases params with
      | none => simp [updateRateLimiter]
      | some params =>
        refine .bind ?_ fun r _ => .bind ?_ fun _ _ => by simp
        · cases params.capacity <;> simp [RateLimiter.setCapacity, unixTime]
        · cases params.refillPerSecond <;> simp [RateLimiter.setRate, RateLimiter.refill, unixTime]
    exact hthrows _ h rfl
  cases c with
  | peerAddress k => simp [PeerConfig.set, bind_error]
  | feeBps bps =>
    simp only [PeerConfig.set, bind_error, require]
    split_ifs <;> simp
  | outboundRateLimit params => simp [PeerConfig.set, bind_error, hlimiter]
  | inboundRateLimit params => simp [PeerConfig.set, bind_error, hlimiter]

/-- a peer is one too many if it is new, and the registry is full -/
theorem World.Registered.tooMany_iff {a : SetPeerConfig} (hw : w.Registered) :
    step d w (.setPeerConfig a) = .error .tooManyPeers ↔
      a.admin ∉ d.derived ∧ w.store.admin = a.admin ∧ (GetPeers.apply w).length = GRS_MAX_PEERS ∧
        ∃ k, a.config = .peerAddress k ∧ k ≠ .default ∧ ∀ e ∈ GetPeers.apply w, e.eid ≠ a.remoteEid := by
  have hfull : GRS_MAX_PEERS ≤ w.peerRegistry.length ↔ w.peerRegistry.length = GRS_MAX_PEERS :=
    ⟨fun h => le_antisymm hw.length h, fun h => h.ge⟩
  have hsigner : ∀ e, checkSigner d (some a.admin) = .error e ↔ a.admin ∈ d.derived ∧ e = .missingSignature a.admin := by
    intro e
    unfold checkSigner require
    dsimp only
    split_ifs with hs <;> simp_all [eq_comm]
  have hadmin : ∀ e, require (w.store.admin = a.admin) OFTError.unauthorized = .error e ↔
      w.store.admin ≠ a.admin ∧ e = .unauthorized := by
    intro e
    unfold require
    split_ifs with hs <;> simp_all [eq_comm]
  simp only [step, exec, Instr.signer, perform, silent, SetPeerConfig.apply, bind_error, hsigner, hadmin, set_tooMany,
    upsertPeer_error, GetPeers.apply, hfull, reduceCtorEq, and_false, exists_false, or_false, false_or, and_true]
  constructor
  · rintro ⟨_, hs, _, ha, k, hk, hne, hnew, hlen⟩
    exact ⟨require_ok.1 hs, require_ok.1 ha, hlen, k, hk, hne, hnew⟩
  · rintro ⟨hs, ha, hlen, k, hk, hne, hnew⟩
    exact ⟨(), require_ok.2 hs, (), require_ok.2 ha, k, hk, hne, hnew, hlen⟩

/-- **The registry of peers.** In every reachable state `get_peers` lists the peers that are set, each chain once and sixteen at
most; messages are sent to these and taken from these alone, but for a zero address; and the admin is told that a peer is one too
many exactly if sixteen others are set. The registry is a copy, so the statement is that it never differs from the accounts it
copies, in any state that a run can reach. -/
theorem peers_registered (g : Genesis d) (is : List Instr) :
    ((GetPeers.apply (g.after is)).map PeerEntry.eid).Nodup ∧ (GetPeers.apply (g.after is)).length ≤ GRS_MAX_PEERS ∧
    (∀ e, e ∈ GetPeers.apply (g.after is) ↔
      e.peer ≠ .default ∧ ∃ p, (g.after is).peers e.eid = some p ∧ p.peerAddress = e.peer) ∧
    (∀ i w' posted, exec d (g.after is) i = .ok (w', posted) →
      (∀ o, posted = some o → o.receiver = .default ∨ ⟨o.dstEid, o.receiver⟩ ∈ GetPeers.apply (g.after is)) ∧
      ∀ a params, i = .lzReceive a params →
        params.sender = .default ∨ ⟨params.srcEid, params.sender⟩ ∈ GetPeers.apply (g.after is)) ∧
    ∀ a : SetPeerConfig, step d (g.after is) (.setPeerConfig a) = .error .tooManyPeers ↔
      a.admin ∉ d.derived ∧ (g.after is).store.admin = a.admin ∧ (GetPeers.apply (g.after is)).length = GRS_MAX_PEERS ∧
        ∃ k, a.config = .peerAddress k ∧ k ≠ .default ∧ ∀ e ∈ GetPeers.apply (g.after is), e.eid ≠ a.remoteEid := by
  have hw := g.registered is
  exact ⟨hw.lists.keys, hw.length, hw.mem, fun _ _ _ h => hw.traffic h, fun _ => hw.tooMany_iff⟩

end Grindurus.Grs
