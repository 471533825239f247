/-
The views of the registries (`programs/grai/src/views.rs`: `get_assets`, `get_lockers`, `get_voters`; `has_quorum` in `lib.rs`).

- `getLockers`, `getVoters`: a row per member in a range of ids, from the escrows the caller names. `Roll`: what such a view reads.
- `Roll.Exact`: the rows of a roll are the members, each once, and add up to the total.
- `Roll.Shown`: a view shows any range of its roll to a caller that names the escrows of the range, and refuses anything else.
- `rolls_public`: so it is in every reachable state, one who reads range after range gets all the rows, and what he adds up decides
  the quorum.
-/
import Grindurus.Lib.Pages
import Grindurus.Grai.Custody

namespace Grindurus.Grai

open Checked Tally Registry Pages

/-! ## The views -/

structure EscrowView where
  account : Key
  lockerId : ℕ
  amount : ℕ
  voted : ℕ
  votedAt : ℤ
  voterId : ℕ
  deriving DecidableEq, Repr

def Escrow.view (account : Key) (e : Escrow) : EscrowView := ⟨account, e.lockerId, e.amount, e.voted, e.votedAt, e.voterId⟩

inductive ViewError where
  | invalidLockerRange
  | invalidVoterRange
  | code (e : ErrorCode)
  deriving DecidableEq, Repr

def readEscrow (w : World) (owner escrowInfo : Key) : Except ErrorCode EscrowView := do
  require (escrowInfo = .escrow owner) .invalidRemainingAccounts
  let escrow ← demand .invalidRemainingAccounts (w.escrows owner)
  .ok (escrow.view owner)

def readEscrows (w : World) : List Key → List Key → Except ErrorCode (List EscrowView)
  | [], _ => .ok []
  | owner :: owners, escrowInfo :: escrowInfos => do
    let row ← readEscrow w owner escrowInfo
    let rows ← readEscrows w owners escrowInfos
    .ok (row :: rows)
  | _ :: _, [] => .error .panicked

def readEscrowRange (w : World) (owners : List Key) (start stop : ℕ) (remaining : List Key) :
    Except ErrorCode (List EscrowView) := do
  require (remaining.length = stop - start) .invalidRemainingAccounts
  readEscrows w ((owners.take stop).drop start) remaining

/-- `get_lockers` and `get_voters` differ in the registry, and in what they refuse a range with -/
def getMembers (w : World) (owners : List Key) (invalidRange : ViewError) (fromId toId : ℕ) (remaining : List Key) :
    Except ViewError (List EscrowView) := do
  require (fromId < toId) invalidRange
  let stop := min toId owners.length
  require (fromId < stop) invalidRange
  (readEscrowRange w owners fromId stop remaining).mapError .code

def getLockers (w : World) : ℕ → ℕ → List Key → Except ViewError (List EscrowView) :=
  getMembers w w.state.lockers .invalidLockerRange

def getVoters (w : World) : ℕ → ℕ → List Key → Except ViewError (List EscrowView) :=
  getMembers w w.state.voters .invalidVoterRange

def getAssets (w : World) : List Key := w.state.assetMints

def executeHasQuorum (w : World) : Except ErrorCode Bool := do
  let mint ← loadGraiMint w
  .ok (hasQuorum w.state.totalVoted mint.supply w.state.config.quorumBps)

/-! ## Rolls -/

/-- what a view reads: the members in order, what each has at stake, what they have together, and what a range beyond them is -/
structure Roll where
  owners : List Key
  stake : EscrowView → ℕ
  total : ℕ
  invalidRange : ViewError

def World.lockersRoll (w : World) : Roll := ⟨w.state.lockers, EscrowView.amount, w.state.totalLocked, .invalidLockerRange⟩

def World.votersRoll (w : World) : Roll := ⟨w.state.voters, EscrowView.voted, w.state.totalVoted, .invalidVoterRange⟩

def Roll.rows (r : Roll) (w : World) : List EscrowView := r.owners.map fun u => (initEscrow w u).view u

/-- what the rows add up to -/
def Roll.worth (r : Roll) (w : World) : ℕ := ((r.rows w).map r.stake).sum

/-- the escrows of a range -/
def Roll.keys (r : Roll) (offset limit : ℕ) : List Key := (page r.owners offset limit).map .escrow

/-- the rows are those with a stake, each once, and their stakes add up -/
structure Roll.Exact (r : Roll) (w : World) : Prop where
  once : ((r.rows w).map EscrowView.account).Nodup
  members : ∀ row, row ∈ r.rows w ↔ 0 < r.stake row ∧ ∃ e, w.escrows row.account = some e ∧ row = e.view row.account
  total : r.worth w = r.total

/-- any range is shown to who names its escrows, and anything else refused -/
structure Roll.Shown (r : Roll) (w : World) (view : ℕ → ℕ → List Key → Except ViewError (List EscrowView)) : Prop where
  shows : ∀ fromId toId remaining rows, view fromId toId remaining = .ok rows ↔
    fromId < min toId (r.rows w).length ∧ remaining = r.keys fromId (toId - fromId) ∧
      rows = page (r.rows w) fromId (toId - fromId)
  refuses : ∀ fromId toId remaining e, view fromId toId remaining = .error e →
    e = if fromId < min toId (r.rows w).length then .code .invalidRemainingAccounts else r.invalidRange

/-- reading on, `limit` members at a time, until a range is short or past the end -/
def Roll.readOn (r : Roll) (view : ℕ → ℕ → List Key → Except ViewError (List EscrowView)) (limit n : ℕ) :
    Option (List EscrowView) :=
  collect (fun _ offset limit => view offset (offset + limit) (r.keys offset limit)) r.invalidRange limit n 0 0

variable {w : World} {r : Roll} {owners : List Key}

/-! ## Ranges -/

theorem initEscrow_some {u : Key} {e : Escrow} (h : w.escrows u = some e) : initEscrow w u = e := by
  rw [initEscrow, h, Option.getD_some]

theorem Roll.rows_length (r : Roll) (w : World) : (r.rows w).length = r.owners.length := List.length_map _

/-- a page of the roll is read if and only if the escrows passed for it are those of its members -/
theorem readEscrows_iff {escrowInfos : List Key} {rows : List EscrowView} (hopen : ∀ u ∈ owners, ∃ e, w.escrows u = some e)
    (hlength : escrowInfos.length = owners.length) : readEscrows w owners escrowInfos = .ok rows ↔
      escrowInfos = owners.map .escrow ∧ rows = owners.map fun u => (initEscrow w u).view u := by
  induction owners generalizing escrowInfos rows with
  | nil => simp [readEscrows, List.length_eq_zero_iff.1 hlength, eq_comm]
  | cons u owners ih =>
    obtain ⟨info, infos, rfl⟩ := List.exists_cons_of_length_eq_add_one hlength
    obtain ⟨e, he⟩ := hopen u List.mem_cons_self
    have hopen' : ∀ v ∈ owners, ∃ e, w.escrows v = some e := fun v hv => hopen v (List.mem_cons_of_mem u hv)
    simp only [readEscrows, readEscrow, bind_ok, require_ok, demand_ok, he, Option.some.injEq,
      ih hopen' (Nat.succ.inj hlength), Except.ok.injEq, List.map_cons, List.cons.injEq, initEscrow_some he]
    constructor
    · rintro ⟨_, ⟨-, hinfo, _, rfl, rfl⟩, _, ⟨hinfos, rfl⟩, rfl⟩
      exact ⟨⟨hinfo, hinfos⟩, rfl⟩
    · rintro ⟨⟨hinfo, hinfos⟩, rfl⟩
      exact ⟨_, ⟨(), hinfo, _, rfl, rfl⟩, _, ⟨hinfos, rfl⟩, rfl⟩

theorem readEscrows_refuses (owners escrowInfos : List Key) (hlength : escrowInfos.length = owners.length) :
    Throws {.invalidRemainingAccounts} (readEscrows w owners escrowInfos) := by
  induction owners generalizing escrowInfos with
  | nil => simp [readEscrows]
  | cons u owners ih =>
    obtain ⟨info, infos, rfl⟩ := List.exists_cons_of_length_eq_add_one hlength
    refine .bind (.bind (by simp) fun _ _ => .bind (by simp) fun _ _ => by simp) fun _ _ => ?_
    exact .bind (ih infos (Nat.succ.inj hlength)) fun _ _ => by simp

/-- a range is cut at the end of the registry, as a page is -/
theorem range_page (owners : List Key) (fromId toId : ℕ) :
    (owners.take (min toId owners.length)).drop fromId = page owners fromId (toId - fromId) := by
  rw [List.drop_take, page, List.take_eq_take_iff, List.length_drop]
  omega

theorem mapError_ok {α : Type} {x : Except ErrorCode α} {a : α} : x.mapError ViewError.code = .ok a ↔ x = .ok a := by
  cases x <;> simp [Except.mapError]

theorem mapError_error {α : Type} {x : Except ErrorCode α} {e : ViewError} :
    x.mapError ViewError.code = .error e ↔ ∃ c, x = .error c ∧ ViewError.code c = e := by
  cases x <;> simp [Except.mapError]

/-- and shows their stakes as they are -/
theorem getMembers_shown (hopen : ∀ u ∈ r.owners, ∃ e, w.escrows u = some e) :
    r.Shown w (getMembers w r.owners r.invalidRange) where
  shows fromId toId remaining rows := by
    have hopen' : ∀ u ∈ page r.owners fromId (toId - fromId), ∃ e, w.escrows u = some e := fun u hu =>
      hopen u (List.mem_of_mem_drop (List.mem_of_mem_take hu))
    have hlength := page_length r.owners fromId (toId - fromId)
    rw [r.rows_length, Roll.rows, page_map, Roll.keys]
    simp only [getMembers, readEscrowRange, bind_ok, require_ok, mapError_ok, range_page]
    constructor
    · rintro ⟨-, hlt, -, hstop, -, hremaining, hread⟩
      exact ⟨hstop, (readEscrows_iff hopen' (by omega)).1 hread⟩
    · rintro ⟨hstop, rfl, rfl⟩
      rw [List.length_map]
      exact ⟨(), by omega, (), hstop, (), by omega, (readEscrows_iff hopen' (List.length_map _)).2 ⟨rfl, rfl⟩⟩
  refuses fromId toId remaining e he := by
    have hlength := page_length r.owners fromId (toId - fromId)
    rw [r.rows_length]
    by_cases hstop : fromId < min toId r.owners.length
    · have hlt : fromId < toId := by omega
      rw [getMembers, require_bind hlt, require_bind hstop, mapError_error] at he
      obtain ⟨c, hc, rfl⟩ := he
      rw [if_pos hstop]
      simp only [readEscrowRange, bind_error, range_page] at hc
      rcases hc with hc | ⟨_, hremaining, hc⟩
      · simp only [require] at hc
        split_ifs at hc
        exact congrArg ViewError.code (Except.error.inj hc).symm
      · rw [require_ok] at hremaining
        exact congrArg ViewError.code (readEscrows_refuses _ _ (by omega) c hc)
    · rw [if_neg hstop]
      simp only [getMembers, require, hstop, if_false] at he
      split_ifs at he
      · exact (Except.error.inj he).symm
      · exact (Except.error.inj he).symm

theorem Roll.Shown.serves {view : ℕ → ℕ → List Key → Except ViewError (List EscrowView)} (h : r.Shown w view) :
    Serves (fun offset limit => view offset (offset + limit) (r.keys offset limit)) r.invalidRange (r.rows w) where
  shows {offset limit} hlimit hoffset := by
    rw [h.shows, Nat.add_sub_cancel_left]
    exact ⟨by omega, rfl, rfl⟩
  refuses {offset limit} hlimit hoffset := by
    cases hview : view offset (offset + limit) (r.keys offset limit) with
    | ok rows =>
      obtain ⟨hstop, -⟩ := (h.shows _ _ _ _).1 hview
      omega
    | error e =>
      have he := h.refuses _ _ _ _ hview
      rw [if_neg (by omega)] at he
      rw [he]

/-! ## In every reachable state -/

/-- a registry that tracks who has a stake, under a counter of the stakes -/
theorem Roll.Exact.of_tracks {q : Key → ℕ} (hlisted : Tracks r.owners fun u => 0 < q u) (htotal : HasTotal q r.total)
    (hopen : ∀ u, 0 < q u → ∃ e, w.escrows u = some e) (hstake : ∀ u, r.stake ((initEscrow w u).view u) = q u) : r.Exact w where
  once := by
    have haccounts : (r.rows w).map EscrowView.account = r.owners := by
      rw [Roll.rows, List.map_map]
      exact List.map_id _
    exact haccounts ▸ hlisted.1
  members row := by
    rw [Roll.rows, List.mem_map]
    constructor
    · rintro ⟨u, hu, rfl⟩
      have hpos := (hlisted.2 u).1 hu
      obtain ⟨e, he⟩ := hopen u hpos
      exact ⟨(hstake u).symm ▸ hpos, e, he, congrArg (Escrow.view u) (initEscrow_some he)⟩
    · rintro ⟨hpos, e, he, hrow⟩
      have hview : (initEscrow w row.account).view row.account = row := by rw [initEscrow_some he, ← hrow]
      have hstaked : 0 < q row.account := by rwa [← hstake, hview]
      exact ⟨row.account, (hlisted.2 _).2 hstaked, hview⟩
  total := by
    have hsum : (r.rows w).map r.stake = r.owners.map q := by
      rw [Roll.rows, List.map_map]
      exact List.map_congr_left fun u _ => hstake u
    rw [Roll.worth, hsum]
    exact (listed_total hlisted.1 fun u hne => (hlisted.2 u).2 (Nat.pos_of_ne_zero hne)).unique htotal

theorem World.lockersRoll_exact (h : Staked w.view) : w.lockersRoll.Exact w :=
  .of_tracks h.lockers h.locked (fun _ hpos => (lockOf_pos.1 hpos).imp fun _ he => he.1) fun u => initEscrow_amount w u

theorem World.votersRoll_exact (h : Staked w.view) : w.votersRoll.Exact w :=
  .of_tracks h.voters h.voted (fun _ hpos => (voteOf_pos.1 hpos).imp fun _ he => he.1) fun u => initEscrow_voted w u

/-- who has a row has an escrow -/
theorem Roll.Exact.opened (h : r.Exact w) : ∀ u ∈ r.owners, ∃ e, w.escrows u = some e := fun u hu => by
  obtain ⟨-, e, he, -⟩ := (h.members ((initEscrow w u).view u)).1 (List.mem_map_of_mem hu)
  exact ⟨e, he⟩

/-- a view and the roll it reads -/
structure Roll.Public (r : Roll) (w : World) (view : ℕ → ℕ → List Key → Except ViewError (List EscrowView)) : Prop where
  exact : r.Exact w
  shown : r.Shown w view
  read : ∀ limit n, 0 < limit → (r.rows w).length < n * limit → r.readOn view limit n = some (r.rows w)

theorem Roll.Exact.public (h : r.Exact w) : r.Public w (getMembers w r.owners r.invalidRange) := by
  have hshown := getMembers_shown h.opened
  exact ⟨h, hshown, fun _ _ hlimit hn => collect_whole hshown.serves hlimit hn⟩

theorem executeHasQuorum_eq (hw : w.WF) :
    executeHasQuorum w = .ok (hasQuorum w.state.totalVoted w.supply w.state.config.quorumBps) := by
  obtain ⟨t, ht, hauthority⟩ := hw.guarded.authority
  have hmint : loadGraiMint w = .ok t := by
    simp only [loadGraiMint, loadMint, bind_ok, demand_ok, require_ok]
    exact ⟨t, ht, (), hauthority, rfl⟩
  rw [executeHasQuorum, hmint, ← loadGraiMint_ok hmint]
  rfl

/-- **The registries.** In every reachable state the views of the lockers and of the voters show, range by range, all who have
GRAI locked, or voting, each once and as his escrow stands, to a caller who names the escrows of the range, and refuse as
documented. One who reads on to the end has rows that add up to what is locked, and to what votes: they decide the quorum, and
liquidation opens on nothing less. The assets shown are those listed, each once. -/
theorem rolls_public (g : Genesis) (is : List Instr) :
    let w := g.after is
    let quorum := hasQuorum (w.votersRoll.worth w) w.supply w.state.config.quorumBps
    w.lockersRoll.Public w (getLockers w) ∧ w.votersRoll.Public w (getVoters w) ∧
      Tracks (getAssets w) (fun m => ∃ asset, w.assets m = some asset) ∧ executeHasQuorum w = .ok quorum ∧
        ∀ a w', executeLiquidate w a = .ok w' → quorum = true := by
  intro w quorum
  have hstaked : Staked w.view := after_staked g is
  have hw : w.WF := g.after_wf is
  have hvoters := World.votersRoll_exact hstaked
  have hquorum : quorum = hasQuorum w.state.totalVoted w.supply w.state.config.quorumBps := by
    dsimp only [quorum]
    rw [hvoters.total]
    rfl
  refine ⟨(World.lockersRoll_exact hstaked).public, hvoters.public, ?_, ?_, fun a w' h => ?_⟩
  · exact hw.listed.congr fun m => Option.isSome_iff_exists
  · rw [hquorum, executeHasQuorum_eq hw]
  · obtain ⟨-, -, -, -, -, -, hreached, -⟩ := executeLiquidate_opens h
    rw [hquorum, hreached]

end Grindurus.Grai
