/-
The registry of referral books (`programs/grai/src/views.rs`: `get_lockers_data`).

- `getLockersData`: a row per account of the registry, with its book and its pending dividends.
- `World.Rostered`: the registry has no duplicates and contains every account whose book is bound or has an NFT.
- `registry_complete`: it holds after every run whose deposits find the depositor's book registered, if there is one.
- A claim opens a book without registering it; the deposit that binds it finds it there and does not register it either
  (`registry_incomplete`).
-/
import Grindurus.Grai.Books

namespace Grindurus.Grai

open Checked Machine Ancestry Function

/-! ## The view -/

structure ReferralBookView where
  value : ℕ
  l1Value : ℕ
  l2Value : ℕ
  referrer : Key
  deriving DecidableEq, Repr

structure LockerDataView where
  locker : Key
  referrer : Key
  ownerOf : Key
  nftMint : Key
  book : ReferralBookView
  assets : List Key
  claimable : List ℕ
  deriving DecidableEq, Repr

def readReferrerRow (w : World) (referrerInfo locker : Key) : Except ErrorCode LockerDataView := do
  require (referrerInfo = .referrer locker) .invalidRemainingAccounts
  let row : LockerDataView :=
    { locker, referrer := .default, ownerOf := .default, nftMint := .default, book := ⟨0, 0, 0, .default⟩, assets := [], claimable := [] }
  match w.books locker with
  | none => .ok row
  | some book =>
    .ok { row with
      referrer := book.referrer, nftMint := book.nftMint, book := ⟨book.value, book.l1Value, book.l2Value, book.referrer⟩ }

def readEscrowLocked (w : World) (escrowInfo locker : Key) : Except ErrorCode ℕ := do
  require (escrowInfo = .escrow locker) .invalidRemainingAccounts
  .ok (w.lockOf locker)

def readPositionDebtClaimable (w : World) (positionInfo user mint : Key) : Except ErrorCode (ℕ × ℕ) := do
  require (positionInfo = .position user mint) .invalidRemainingAccounts
  match w.positions (user, mint) with
  | none => .ok (0, 0)
  | some position => .ok (position.debt, position.claimable)

def pendingForHolder (w : World) (assetInfo positionInfo user mint : Key) (locked : ℕ) : Except ErrorCode ℕ := do
  let asset ← loadAssetConfig w assetInfo mint
  let (debt, claimable) ← readPositionDebtClaimable w positionInfo user mint
  pendingDividend locked asset.accShare debt claimable

/-- the pending dividends of `user`, in registry order of the assets -/
def pendingsForHolder (w : World) (user : Key) (locked : ℕ) : List Key → List Key → List Key → Except ErrorCode (List ℕ)
  | [], _, _ => .ok []
  | mint :: mints, assetInfo :: assetInfos, positionInfo :: positionInfos => do
    let pending ← pendingForHolder w assetInfo positionInfo user mint locked
    let rest ← pendingsForHolder w user locked mints assetInfos positionInfos
    .ok (pending :: rest)
  | _ :: _, _, _ => .error .panicked

/-- a row per locker; the positions come locker by locker -/
def lockerRows (w : World) (mints assetInfos : List Key) :
    List Key → List Key → List Key → List Key → Except ErrorCode (List LockerDataView)
  | [], _, _, _ => .ok []
  | locker :: lockers, referrerInfo :: referrerInfos, escrowInfo :: escrowInfos, positionInfos => do
    let row ← readReferrerRow w referrerInfo locker
    let locked ← readEscrowLocked w escrowInfo locker
    let claimable ← pendingsForHolder w locker locked mints assetInfos (positionInfos.take mints.length)
    let rows ← lockerRows w mints assetInfos lockers referrerInfos escrowInfos (positionInfos.drop mints.length)
    .ok ({ row with assets := mints, claimable } :: rows)
  | _ :: _, _, _, _ => .error .panicked

def getLockersData (w : World) (fromId toId : ℕ) (remaining : List Key) : Except ErrorCode (List LockerDataView) := do
  require (fromId < toId) .invalidReferralRange
  let referrers := w.state.referrers
  if referrers.length ≤ fromId then .ok []
  else do
    let last := min toId referrers.length
    require (fromId < last) .invalidReferralRange
    let lockers := (referrers.take last).drop fromId
    let m := lockers.length
    let n := w.state.assetMints.length
    require (remaining.length = m * 2 + n + m * n) .invalidRemainingAccounts
    let (referrerInfos, rest) := remaining.splitAt m
    let (escrowInfos, rest) := rest.splitAt m
    let (assetInfos, positionInfos) := rest.splitAt n
    lockerRows w w.state.assetMints assetInfos lockers referrerInfos escrowInfos positionInfos

/-- the accounts `get_lockers_data` takes for the whole registry -/
def World.rosterAccounts (w : World) : List Key :=
  w.state.referrers.map .referrer ++ (w.state.referrers.map .escrow ++ (w.state.assetMints.map .asset ++
    w.state.referrers.flatMap fun u => w.state.assetMints.map (.position u)))

variable {w w' : World}

theorem lockerRows_lockers {mints assetInfos lockers referrerInfos escrowInfos positionInfos : List Key}
    {rows : List LockerDataView}
    (h : lockerRows w mints assetInfos lockers referrerInfos escrowInfos positionInfos = .ok rows) :
    rows.map LockerDataView.locker = lockers := by
  induction lockers generalizing referrerInfos escrowInfos positionInfos rows with
  | nil =>
    cases h
    rfl
  | cons locker lockers ih =>
    rcases referrerInfos with _ | ⟨r, referrerInfos⟩
    · cases h
    rcases escrowInfos with _ | ⟨e, escrowInfos⟩
    · cases h
    simp only [lockerRows, bind_ok, Except.ok.injEq] at h
    obtain ⟨row, hrow, _, -, claimable, -, rows', hrows, rfl⟩ := h
    have hlocker : row.locker = locker := by
      simp only [readReferrerRow, bind_ok] at hrow
      obtain ⟨-, -, hrow⟩ := hrow
      split at hrow
      · cases hrow
        rfl
      · cases hrow
        rfl
    rw [List.map_cons, ih hrows, hlocker]

/-- the whole range is the registry, in its order -/
theorem getLockersData_lockers {n : ℕ} {remaining : List Key} {rows : List LockerDataView}
    (hn : w.state.referrers.length ≤ n) (h : getLockersData w 0 n remaining = .ok rows) :
    rows.map LockerDataView.locker = w.state.referrers := by
  simp only [getLockersData, bind_ok] at h
  obtain ⟨-, -, h⟩ := h
  split_ifs at h with hempty
  · cases h
    rw [List.length_eq_zero_iff.1 (Nat.le_zero.1 hempty)]
    rfl
  · simp only [bind_ok] at h
    obtain ⟨-, -, -, -, h⟩ := h
    rw [lockerRows_lockers h, List.drop_zero, Nat.min_eq_right hn, List.take_length]

theorem pendingsForHolder_succeeds {u : Key} {locked : ℕ} {mints : List Key}
    (h : ∀ m ∈ mints, Succeeds (pendingForHolder w (.asset m) (.position u m) u m locked)) :
    Succeeds (pendingsForHolder w u locked mints (mints.map .asset) (mints.map (.position u))) := by
  induction mints with
  | nil => exact ⟨[], rfl⟩
  | cons m mints ih =>
    obtain ⟨pending, hpending⟩ := h m List.mem_cons_self
    obtain ⟨rest, hrest⟩ := ih fun m' hm' => h m' (List.mem_cons_of_mem m hm')
    refine ⟨pending :: rest, ?_⟩
    simp only [List.map_cons, pendingsForHolder, bind_ok, Except.ok.injEq]
    exact ⟨_, hpending, _, hrest, rfl⟩

theorem readReferrerRow_succeeds (w : World) (u : Key) : Succeeds (readReferrerRow w (.referrer u) u) := by
  unfold readReferrerRow
  rw [require_bind rfl]
  dsimp only
  split <;> exact ⟨_, rfl⟩

theorem lockerRows_succeeds {mints lockers : List Key} (h : ∀ u ∈ lockers, ∀ m ∈ mints,
      Succeeds (pendingForHolder w (.asset m) (.position u m) u m (w.lockOf u))) :
    Succeeds (lockerRows w mints (mints.map .asset) lockers (lockers.map .referrer) (lockers.map .escrow)
      (lockers.flatMap fun u => mints.map (.position u))) := by
  induction lockers with
  | nil => exact ⟨[], rfl⟩
  | cons u lockers ih =>
    obtain ⟨row, hrow⟩ := readReferrerRow_succeeds w u
    obtain ⟨claimable, hclaimable⟩ := pendingsForHolder_succeeds (h u List.mem_cons_self)
    obtain ⟨rows, hrows⟩ := ih fun v hv => h v (List.mem_cons_of_mem u hv)
    refine ⟨{ row with assets := mints, claimable } :: rows, ?_⟩
    simp only [List.map_cons, List.flatMap_cons, lockerRows, bind_ok, Except.ok.injEq]
    refine ⟨row, hrow, w.lockOf u, require_bind rfl _ _, claimable, ?_, rows, ?_, rfl⟩
    · rwa [List.take_left' (List.length_map _)]
    · rwa [List.drop_left' (List.length_map _)]

/-- given the accounts it takes, the view of the whole registry fails only where a pending dividend overflows -/
theorem getLockersData_succeeds {n : ℕ} (hn : w.state.referrers.length ≤ n) (hpos : 0 < n)
    (hpending : ∀ u ∈ w.state.referrers, ∀ m ∈ w.state.assetMints,
      Succeeds (pendingForHolder w (.asset m) (.position u m) u m (w.lockOf u))) :
    Succeeds (getLockersData w 0 n w.rosterAccounts) := by
  unfold getLockersData
  rw [require_bind hpos]
  dsimp only
  split_ifs with hempty
  · exact ⟨[], rfl⟩
  rw [Nat.min_eq_right hn, List.take_length, List.drop_zero, require_bind (by omega), require_bind]
  · obtain ⟨rows, hrows⟩ := lockerRows_succeeds hpending
    refine ⟨rows, ?_⟩
    unfold World.rosterAccounts
    simp only [List.splitAt_eq, List.take_left' (List.length_map _), List.drop_left' (List.length_map _)]
    exact hrows
  · simp only [World.rosterAccounts, List.length_append, List.length_map, List.length_flatMap, List.map_const', List.sum_replicate,
      smul_eq_mul]
    omega

/-! ## The registry -/

/-- is the book of `x` bound, or has it an NFT -/
def World.seated (w : World) (x : Key) : Prop := (w.bookOf x).referrer ≠ .default ∨ (w.bookOf x).nftMint ≠ .default

/-- the registry has no duplicates and contains every seated account; the view over its whole range shows each of them once,
and it answers unless a pending dividend overflows -/
structure World.Rostered (w : World) : Prop where
  nodup : w.state.referrers.Nodup
  complete : ∀ x, w.seated x → x ∈ w.state.referrers
  view : ∀ n remaining rows, w.state.referrers.length ≤ n → getLockersData w 0 n remaining = .ok rows →
    (rows.map LockerDataView.locker).Nodup ∧ ∀ x, w.seated x → x ∈ rows.map LockerDataView.locker
  answers : ∀ n, w.state.referrers.length ≤ n → 0 < n →
    (∀ u ∈ w.state.referrers, ∀ m ∈ w.state.assetMints,
      Succeeds (pendingForHolder w (.asset m) (.position u m) u m (w.lockOf u))) →
    Succeeds (getLockersData w 0 n w.rosterAccounts)

/-- a depositor that has a book is registered -/
def DepositsRegistered (w : World) (i : Instr) : Prop :=
  ∀ a, i.asDeposit = some a → w.books a.depositor.key ≠ none → a.depositor.key ∈ w.state.referrers

theorem seated_of_links {x : Key} (h : w'.links x = w.links x) : w'.seated x ↔ w.seated x := by
  have hreferrer : (w'.bookOf x).referrer = (w.bookOf x).referrer := congrArg Prod.fst h
  have hnft : (w'.bookOf x).nftMint = (w.bookOf x).nftMint := congrArg Prod.snd h
  unfold World.seated
  rw [hreferrer, hnft]

theorem Rebook.nodup {i : Instr} (h : Rebook w i w') (hnodup : w.state.referrers.Nodup) : w'.state.referrers.Nodup := by
  cases h with
  | credit _ _ _ hlist => rwa [hlist]
  | bind _ _ _ _ _ _ _ _ _ hlist => exact hlist.nodup hnodup
  | poach _ _ _ _ _ _ _ hlist => exact hlist.nodup hnodup

theorem Rebook.complete {i : Instr} (h : Rebook w i w') (hi : DepositsRegistered w i)
    (hcomplete : ∀ x, w.seated x → x ∈ w.state.referrers) {x : Key} (hx : w'.seated x) : x ∈ w'.state.referrers := by
  cases h with
  | credit _ _ hcredit hlist =>
    rw [hlist]
    exact hcomplete x ((seated_of_links (congrFun hcredit.links x)).1 hx)
  | bind a _ _ _ _ ha _ _ hlinks hlist hnew =>
    rcases eq_or_ne x a.depositor.key with rfl | hne
    · rcases eq_or_ne (w.books a.depositor.key) none with hnone | hsome
      · exact hnew hnone
      · exact hlist.subset (hi a ha hsome)
    · have hlink : w'.links x = w.links x := by rw [hlinks, update_of_ne hne]
      exact hlist.subset (hcomplete x ((seated_of_links hlink).1 hx))
  | poach a _ hd _ _ _ hlinks hlist =>
    rcases eq_or_ne x a.locker with rfl | hne
    · exact hlist.subset (hcomplete _ (.inl hd))
    · have hlink : w'.links x = w.links x := by rw [hlinks, update_of_ne hne]
      exact hlist.subset (hcomplete x ((seated_of_links hlink).1 hx))

/-- **Complete registry.** Along every run in which whoever deposits is registered or has no book yet, the registry lists
every account whose book is bound or has an NFT, each once. -/
theorem registry_complete (g : Genesis) (is : List Instr) (h : Meets step DepositsRegistered g.world is) :
    (g.after is).Rostered := by
  have hstep : ∀ w i w', w.WF → (Grounded w.upline ∧ w.state.referrers.Nodup ∧ ∀ x, w.seated x → x ∈ w.state.referrers) →
      DepositsRegistered w i → step w i = .ok w' →
      Grounded w'.upline ∧ w'.state.referrers.Nodup ∧ ∀ x, w'.seated x → x ∈ w'.state.referrers := by
    intro w i w' hw ⟨hg, hnodup, hcomplete⟩ hi h
    have hrebook := step_rebooks hw hg h
    exact ⟨hrebook.grounded hg, hrebook.nodup hnodup, fun _ => hrebook.complete hi hcomplete⟩
  have hinit : g.world.state.referrers = [] ∧ ∀ x, ¬g.world.seated x := by
    refine ⟨g.blank.lists.2.2.2, fun x hx => ?_⟩
    unfold World.seated at hx
    rw [g.bookOf] at hx
    rcases hx with hx | hx <;> exact hx rfl
  obtain ⟨-, hnodup, hcomplete⟩ := g.after_meets
    ⟨g.grounded, by rw [hinit.1]; exact List.nodup_nil, fun x hx => absurd hx (hinit.2 x)⟩ hstep is h
  refine ⟨hnodup, hcomplete, fun n remaining rows hn hrows => ?_, fun n => getLockersData_succeeds⟩
  rw [getLockersData_lockers hn hrows]
  exact ⟨hnodup, hcomplete⟩

theorem registry_complete_after_poach : (Sample.genesis.after referrals).state.referrers = [2, 3, 4, 5].map Sample.user ∧
    (Sample.genesis.after referrals).Rostered := by
  refine ⟨by decide +kernel, registry_complete Sample.genesis referrals ?_⟩
  have hnone : ∀ w i, i.asDeposit = none → DepositsRegistered w i := by
    intro w i hi a ha
    cases hi.symm.trans ha
  refine ⟨fun _ _ => hnone _ _ rfl, fun _ _ => ?_, fun _ _ => ?_, fun _ _ => ?_, fun _ _ => ?_, fun _ _ => hnone _ _ rfl, trivial⟩
  all_goals
    intro a ha
    cases ha
    decide +kernel

/-- wallet 2 is bound after `claimedFirst`, but its book was opened by a claim -/
theorem registry_incomplete : ¬(Sample.genesis.after claimedFirst).Rostered := by
  intro h
  have hseated : (Sample.genesis.after claimedFirst).seated (Sample.user 2) := .inl (by decide +kernel)
  have hmem := h.complete _ hseated
  revert hmem
  decide +kernel

end Grindurus.Grai
