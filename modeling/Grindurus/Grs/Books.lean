/-
The books of sales and vestings (`programs/grs/src/state/page.rs`, `instructions/buy.rs`, `get_vestings.rs`).

- `GetSales.apply`, `GetVestings.apply`: the views, page by page. `Book`: what such a view reads: a count, and rows under ids.
- `step_lots`, `step_awards`: what an instruction does to the books. `World.Counted`: the ids run from one to the count.
- `readPage_shown`: a view shows the pages of its book, to a caller that names the accounts of the page.
- `books_read`: so it is in every reachable state, and a reader who goes on until a page is short misses nothing, even while the
  store is in use.

A reader passes the accounts of the rows of a page, and the view checks each against the address it derives. Since ids are dense
and never reused, pages of different states fit together: rows change, are never removed, and new ones come at the end.
-/
import Grindurus.Lib.Pages
import Grindurus.Grs.Standing
import Grindurus.Grs.Buyouts
import Grindurus.Grs.Wire

namespace Grindurus.Grs

open Checked TokenBank Machine Tally Pages Function

variable (d : Deployment)

/-! ## Views -/

def saturatingAddU64 (x y : ℕ) : ℕ := min (x + y) (2 ^ 64 - 1)

/-- `sale_page_bounds`, `vesting_page_bounds`: they differ in what they refuse a page past the end with -/
def pageBounds (unknown : OFTError) (len offset limit : ℕ) : Except OFTError (ℕ × ℕ) := do
  require (0 < limit) .zeroAmount
  require (offset < len) unknown
  let stop := min (saturatingAddU64 offset limit) len
  .ok (offset, stop)

def salePageBounds (len offset limit : ℕ) : Except OFTError (ℕ × ℕ) := pageBounds .unknownSale len offset limit

def vestingPageBounds (len offset limit : ℕ) : Except OFTError (ℕ × ℕ) := pageBounds .unknownVesting len offset limit

section

variable {ρ : Type} (read : ℕ → Pubkey → Except OFTError ρ)

/-- the accounts of a page, from that of `id` on -/
def readRows (id : ℕ) : List Pubkey → Except OFTError (List ρ)
  | [] => .ok []
  | k :: ks => do
    let row ← read id k
    let listed ← readRows (id + 1) ks
    .ok (row :: listed)

/-- the remaining accounts have to be those of the page -/
def readPage (bounds : Except OFTError (ℕ × ℕ)) (remaining : List Pubkey) : Except OFTError (List ρ) := do
  let (start, stop) ← bounds
  require (remaining.length = stop - start) .invalidRemainingAccounts
  readRows read (start + 1) remaining

end

structure Sale where
  asset : Pubkey
  assetAmount : ℕ
  grsAmount : ℕ
  recipient : Pubkey
  deriving DecidableEq, Repr

def Sale.closed : Sale := ⟨.default, 0, 0, .default⟩

def SaleAccount.row (s : SaleAccount) : Sale := ⟨s.asset, s.assetAmount, s.grsAmount, s.recipient⟩

structure VestingView where
  id : ℕ
  oftStore : Pubkey
  funder : Pubkey
  beneficiary : Pubkey
  allocationLd : ℕ
  releasedLd : ℕ
  start : ℕ
  cliffEnd : ℕ
  endAt : ℕ
  deriving DecidableEq, Repr

def Vesting.view (v : Vesting) : VestingView :=
  ⟨v.id, d.oftStore, v.funder, v.beneficiary, v.allocationLd, v.releasedLd, v.start, v.cliffEnd, v.endAt⟩

structure Page where
  remaining : List Pubkey
  offset : ℕ
  limit : ℕ

/-- an id that was never received shows as a closed lot -/
def readSale (w : World) (id : ℕ) (k : Pubkey) : Except OFTError Sale := do
  require (k = d.sale id) .invalidRemainingAccounts
  match w.sales id with
  | none => .ok .closed
  | some account => do
    require (account.id = id) .invalidRemainingAccounts
    .ok account.row

def GetSales.apply (w : World) (a : Page) : Except OFTError (List Sale) :=
  readPage (readSale d w) (salePageBounds w.saleCount a.offset a.limit) a.remaining

def readVesting (w : World) (id : ℕ) (k : Pubkey) : Except OFTError VestingView := do
  require (k = d.vest id) .invalidRemainingAccounts
  let vesting ← demand .invalidRemainingAccounts (w.vestings id)
  require (vesting.id = id) .invalidRemainingAccounts
  .ok (vesting.view d)

def GetVestings.apply (w : World) (a : Page) : Except OFTError (List VestingView) :=
  readPage (readVesting d w) (vestingPageBounds w.config.vestingCount a.offset a.limit) a.remaining

/-! ## Books -/

/-- what a view reads: rows under the ids up to a count, each at its address, and what there is to say past the end -/
structure Book (ρ : Type) where
  count : ℕ
  shown : ℕ → Option ρ
  key : ℕ → Pubkey
  unknown : OFTError

variable {ρ : Type}

def Book.rows (b : Book ρ) : List ρ := filed b.shown b.count

/-- the accounts of a page -/
def Book.keys (b : Book ρ) (offset limit : ℕ) : List Pubkey :=
  (List.range' (offset + 1) (min limit (b.count - offset))).map b.key

/-- a view shows the pages of the book to who names the accounts of the page, and refuses anything else -/
structure Book.Shown (b : Book ρ) (view : Page → Except OFTError (List ρ)) : Prop where
  shows : ∀ a rows, view a = .ok rows ↔
    0 < a.limit ∧ a.offset < b.count ∧ a.remaining = b.keys a.offset a.limit ∧ rows = page b.rows a.offset a.limit
  refuses : ∀ a e, view a = .error e →
    e = if a.limit = 0 then .zeroAmount else if b.count ≤ a.offset then b.unknown else .invalidRemainingAccounts

def World.salesBook (w : World) : Book Sale where
  count := w.saleCount
  shown id := some ((w.sales id).elim .closed SaleAccount.row)
  key := d.sale
  unknown := .unknownSale

def World.vestingsBook (w : World) : Book VestingView where
  count := w.config.vestingCount
  shown id := (w.vestings id).map (Vesting.view d)
  key := d.vest
  unknown := .unknownVesting

/-! ## Pages of a book -/

variable {b : Book ρ} {read : ℕ → Pubkey → Except OFTError ρ}

/-- a row is read at its own address only -/
structure Book.ReadBy (b : Book ρ) (read : ℕ → Pubkey → Except OFTError ρ) : Prop where
  full : Full b.shown b.count
  fits : b.count < 2 ^ 64
  reads : ∀ id k row, 0 < id → id ≤ b.count → (read id k = .ok row ↔ k = b.key id ∧ b.shown id = some row)
  refuses : ∀ id k, Throws {.invalidRemainingAccounts} (read id k)

/-- a page is read if and only if the accounts passed for it are those of its ids, in order -/
theorem readRows_iff (h : b.ReadBy read) {rows : List ρ} (ks : List Pubkey) (offset : ℕ) (hks : offset + ks.length ≤ b.count) :
    readRows read (offset + 1) ks = .ok rows ↔
      ks = (List.range' (offset + 1) ks.length).map b.key ∧ rows = page b.rows offset ks.length := by
  induction ks generalizing offset rows with
  | nil => simp [readRows, page, eq_comm]
  | cons k ks ih =>
    rw [List.length_cons] at hks
    have hlt : offset < b.rows.length := by
      rw [Book.rows, filed_length h.full]
      omega
    have hrow : b.shown (offset + 1) = some b.rows[offset] := by
      rw [← filed_getElem? h.full (by omega), ← Book.rows, List.getElem?_eq_getElem hlt]
    have hpage : page b.rows offset (ks.length + 1) = b.rows[offset] :: page b.rows (offset + 1) ks.length := by
      rw [page, List.drop_eq_getElem_cons hlt, List.take_succ_cons, page]
    simp only [readRows, bind_ok, h.reads _ _ _ (Nat.succ_pos offset) (by omega), hrow, ih (offset + 1) (by omega),
      Except.ok.injEq, List.length_cons, List.range'_succ, List.map_cons, List.cons.injEq, hpage, Option.some.injEq]
    constructor
    · rintro ⟨_, ⟨hk, rfl⟩, _, ⟨hks, rfl⟩, rfl⟩
      exact ⟨⟨hk, hks⟩, rfl⟩
    · rintro ⟨⟨hk, hks⟩, rfl⟩
      exact ⟨_, ⟨hk, rfl⟩, _, ⟨hks, rfl⟩, rfl⟩

theorem readRows_refuses (h : b.ReadBy read) (ks : List Pubkey) (id : ℕ) :
    Throws {.invalidRemainingAccounts} (readRows read id ks) := by
  induction ks generalizing id with
  | nil => simp [readRows]
  | cons k ks ih => exact .bind (h.refuses id k) fun row _ => .bind (ih (id + 1)) fun listed _ => by simp

theorem pageBounds_ok {unknown : OFTError} {len offset limit start stop : ℕ} (hlen : len < 2 ^ 64) :
    pageBounds unknown len offset limit = .ok (start, stop) ↔
      0 < limit ∧ offset < len ∧ start = offset ∧ stop = offset + min limit (len - offset) := by
  simp only [pageBounds, saturatingAddU64, bind_ok, require_ok, Except.ok.injEq, Prod.mk.injEq]
  constructor
  · rintro ⟨-, hlimit, -, hoffset, rfl, rfl⟩
    exact ⟨hlimit, hoffset, rfl, by omega⟩
  · rintro ⟨hlimit, hoffset, rfl, rfl⟩
    exact ⟨(), hlimit, (), hoffset, rfl, by omega⟩

theorem page_min (rows : List ρ) (offset limit : ℕ) :
    page rows offset (min limit (rows.length - offset)) = page rows offset limit := by
  rw [page, page, List.take_eq_take_iff]
  simp

/-- the ids of a page, and the rows found under them -/
theorem readPage_shown (h : b.ReadBy read) :
    b.Shown fun a => readPage read (pageBounds b.unknown b.count a.offset a.limit) a.remaining where
  shows a rows := by
    simp only [readPage, bind_ok, Prod.exists, pageBounds_ok h.fits, require_ok]
    constructor
    · rintro ⟨_, _, ⟨hlimit, hoffset, rfl, rfl⟩, -, hlength, hread⟩
      rw [Nat.add_sub_cancel_left] at hlength
      obtain ⟨hkeys, rfl⟩ := (readRows_iff h a.remaining a.offset (by omega)).1 hread
      refine ⟨hlimit, hoffset, by rw [hkeys, hlength, Book.keys], ?_⟩
      rw [hlength, ← filed_length h.full]
      exact page_min b.rows a.offset a.limit
    · rintro ⟨hlimit, hoffset, hkeys, rfl⟩
      have hlength : a.remaining.length = min a.limit (b.count - a.offset) := by simp [hkeys, Book.keys]
      refine ⟨_, _, ⟨hlimit, hoffset, rfl, rfl⟩, (), by rw [hlength, Nat.add_sub_cancel_left], ?_⟩
      refine (readRows_iff h a.remaining a.offset (by omega)).2 ⟨by rw [hlength, hkeys, Book.keys], ?_⟩
      rw [hlength, ← filed_length h.full]
      exact (page_min b.rows a.offset a.limit).symm
  refuses a e he := by
    by_cases hlimit : a.limit = 0
    · simp only [readPage, pageBounds, hlimit, lt_irrefl, require, if_false] at he
      rw [if_pos hlimit]
      exact (Except.error.inj he).symm
    rw [if_neg hlimit]
    by_cases hoffset : b.count ≤ a.offset
    · simp only [readPage, pageBounds, Nat.pos_of_ne_zero hlimit, hoffset.not_gt, require, if_true, if_false] at he
      rw [if_pos hoffset]
      exact (Except.error.inj he).symm
    rw [if_neg hoffset]
    have hbounds : pageBounds b.unknown b.count a.offset a.limit = .ok (_, _) :=
      (pageBounds_ok h.fits).2 ⟨Nat.pos_of_ne_zero hlimit, not_le.1 hoffset, rfl, rfl⟩
    simp only [readPage, hbounds, bind_error] at he
    rcases he with he | ⟨_, -, he | ⟨_, -, he⟩⟩
    · cases he
    · simp only [require] at he
      split_ifs at he
      exact (Except.error.inj he).symm
    · exact readRows_refuses h _ _ e he

/-! ## Books in use -/

/-- what an instruction does to the sales: a lot is written, under an id that is counted -/
inductive LotStep (w w' : World) : Prop where
  | kept (h : w'.sales = w.sales) (hcount : w'.saleCount = w.saleCount)
  | written (id : ℕ) (row : SaleAccount) (hid : 0 < id) (hlt : id < 2 ^ 64) (h : w'.sales = update w.sales id (some row))
      (hcount : w'.saleCount = max w.saleCount id)
  | rewritten (id : ℕ) (old row : SaleAccount) (hold : w.sales id = some old) (h : w'.sales = update w.sales id (some row))
      (hcount : w'.saleCount = w.saleCount)

/-- what an instruction does to the awards: the next one is opened, or one is released -/
inductive AwardStep (w w' : World) : Prop where
  | kept (h : w'.vestings = w.vestings) (hcount : w'.config.vestingCount = w.config.vestingCount)
  | opened (id : ℕ) (v : Vesting) (hnext : id = w.config.vestingCount + 1) (hlt : id < 2 ^ 64) (hid : v.id = id)
      (h : w'.vestings = update w.vestings id (some v)) (hcount : w'.config.vestingCount = id)
  | released (id : ℕ) (v v' : Vesting) (hold : w.vestings id = some v) (hid : v'.id = v.id)
      (h : w'.vestings = update w.vestings id (some v')) (hcount : w'.config.vestingCount = w.config.vestingCount)

variable {d} {w w' : World}

theorem SameLots.lotStep (h : SameLots w w') : LotStep w w' := .kept h.sales h.count

theorem SameAwards.awardStep (h : SameAwards w w') : AwardStep w w' := .kept h.vestings h.count

theorem Vest.apply_next {a : Vest} (h : a.apply d w = .ok w') : w.config.vestingCount + 1 < 2 ^ 64 := by
  simp only [Vest.apply, bind_ok, checkedAdd_ok] at h
  obtain ⟨-, -, _, -, _, -, -, -, -, -, -, -, -, -, -, -, -, -, -, -, -, -, _, ⟨hlt, -⟩, -⟩ := h
  exact hlt

theorem receiveGrant_next {a : LzReceive} {message : List UInt8} (h : receiveGrant d w a message = .ok w') :
    w.config.vestingCount + 1 < 2 ^ 64 := by
  simp only [receiveGrant, bind_ok, checkedAdd_ok] at h
  obtain ⟨-, -, _, -, -, -, -, -, -, -, -, -, -, -, -, -, -, -, _, ⟨hlt, -⟩, -⟩ := h
  exact hlt

/-- a step rewrites rows and adds one at the end; it drops none -/
theorem step_books {i : Instr} (hs : step d w i = .ok w') : LotStep w w' ∧ AwardStep w w' := by
  obtain ⟨posted, he⟩ := step_ok.1 hs
  by_cases hq : i.quiet = true
  · obtain ⟨-, hi⟩ := exec_quiet he hq
    exact ⟨hi.lots.lotStep, hi.awards.awardStep⟩
  obtain ⟨hsig, he⟩ := exec_ok he
  cases i with
  | setSale a =>
    obtain ⟨-, ⟨k, row, rfl, hlt, -, -, -, hsales, hcount, -, -, δ, ht, -⟩ | ⟨row, hrow, -, hsales, hcount, -, ht⟩⟩ :=
      SetSale.apply_ok (silent_ok he).1 (hsig _ rfl)
    · exact ⟨.written _ row (Nat.succ_pos _) hlt hsales (by omega), ht.awards.awardStep⟩
    · exact ⟨.rewritten a.id row _ hrow hsales hcount, ht.awards.awardStep⟩
  | buy a =>
    obtain ⟨row, cost, hrow, -, -, -, hsales, hcount, -, ht⟩ := Buy.apply_ok (silent_ok he).1 (hsig _ rfl)
    exact ⟨.rewritten a.id row _ hrow hsales hcount, ht.awards.awardStep⟩
  | publishSale a =>
    obtain ⟨o, he, -⟩ := posting_ok he
    obtain ⟨row, hrow, -, -, -, -, -, hsales, hcount, -, ht⟩ := PublishSale.apply_ok he
    exact ⟨.rewritten a.id row _ hrow hsales hcount, ht.awards.awardStep⟩
  | send a =>
    obtain ⟨o, he, -⟩ := posting_ok he
    obtain ⟨r, -, -, -, hi⟩ := Send.apply_ok he (hsig _ rfl)
    exact ⟨hi.lots.lotStep, hi.awards.awardStep⟩
  | bridge a =>
    obtain ⟨o, he, -⟩ := posting_ok he
    obtain ⟨r, -, -, -, hi⟩ := Send.apply_ok he (hsig _ rfl)
    exact ⟨hi.lots.lotStep, hi.awards.awardStep⟩
  | lzReceive a params =>
    rcases LzReceive.apply_ok (silent_ok he).1 with ⟨b, -, -, he⟩ | ⟨b, -, -, -, he⟩ | ⟨b, peer, -, -, -, he⟩
    · obtain ⟨m, hm, -, hid, ⟨_, -, -, -, rfl⟩ | ⟨-, hr⟩⟩ := receiveSale_ok he
      · exact ⟨.kept rfl rfl, .kept rfl rfl⟩
      · have hlt := (decodeSale_iff.1 hm).1.id_lt
        exact ⟨.written m.id _ hid hlt hr.sales hr.count, .kept hr.trades.awards.vestings hr.trades.awards.count⟩
    · obtain ⟨m, id, sched, -, -, hid, -, -, hv, hcount, ha⟩ := receiveGrant_ok he
      have hlt := receiveGrant_next he
      rw [← hid] at hlt
      exact ⟨.kept ha.lots.sales ha.lots.count, .opened id _ hid hlt rfl hv hcount⟩
    · obtain ⟨sd, -, hi⟩ := receiveOft_ok he
      exact ⟨.kept hi.lots.sales hi.lots.count, .kept hi.awards.vestings hi.awards.count⟩
  | vest a =>
    obtain ⟨sched, -, hid, -, -, hv, hcount, ha⟩ := Vest.apply_ok (silent_ok he).1 (hsig _ rfl)
    have hlt := Vest.apply_next (silent_ok he).1
    exact ⟨ha.lots.lotStep, .opened a.id _ hid (hid ▸ hlt) rfl hv hcount⟩
  | release a =>
    obtain ⟨v, hrow, -, -, -, -, hv, hconfig, ha, -⟩ := Release.apply_ok (silent_ok he).1
    refine ⟨ha.lots.lotStep, .released a.id v _ hrow ?_ hv (by rw [hconfig])⟩
    rfl
  | _ => exact absurd rfl hq


/-- the rows stand under the ids up to the counts: any of the sales, and all of the awards, each under its own id -/
structure World.Counted (w : World) : Prop where
  sales : ∀ id row, w.sales id = some row → 0 < id ∧ id ≤ w.saleCount
  saleCount : w.saleCount < 2 ^ 64
  awards : ∀ id v, w.vestings id = some v → v.id = id ∧ 0 < id ∧ id ≤ w.config.vestingCount
  all : Full w.vestings w.config.vestingCount
  vestingCount : w.config.vestingCount < 2 ^ 64

theorem LotStep.count_le (h : LotStep w w') : w.saleCount ≤ w'.saleCount := by
  cases h <;> omega

theorem AwardStep.count_le (h : AwardStep w w') : w.config.vestingCount ≤ w'.config.vestingCount := by
  cases h <;> omega

/-- a lot is opened under the next id, or under one the message names, and the count follows -/
theorem LotStep.counted (h : LotStep w w') (hw : w.Counted) :
    (∀ id row, w'.sales id = some row → 0 < id ∧ id ≤ w'.saleCount) ∧ w'.saleCount < 2 ^ 64 := by
  have hcount := hw.saleCount
  cases h with
  | kept h hsame =>
    rw [h, hsame]
    exact ⟨hw.sales, hcount⟩
  | written k row hid hlt h hmax =>
    rw [h, hmax]
    refine ⟨fun id row' hrow => ?_, by omega⟩
    rcases eq_or_ne id k with rfl | hne
    · exact ⟨hid, by omega⟩
    · rw [update_of_ne hne] at hrow
      have hold := hw.sales id row' hrow
      exact ⟨hold.1, by omega⟩
  | rewritten k old row hold h hsame =>
    rw [h, hsame]
    refine ⟨fun id row' hrow => ?_, hcount⟩
    rcases eq_or_ne id k with rfl | hne
    · exact hw.sales id old hold
    · exact hw.sales id row' (by rwa [update_of_ne hne] at hrow)

/-- an award is opened under the next id -/
theorem AwardStep.counted (h : AwardStep w w') (hw : w.Counted) :
    (∀ id v, w'.vestings id = some v → v.id = id ∧ 0 < id ∧ id ≤ w'.config.vestingCount) ∧
      Full w'.vestings w'.config.vestingCount ∧ w'.config.vestingCount < 2 ^ 64 := by
  cases h with
  | kept h hsame =>
    rw [h, hsame]
    exact ⟨hw.awards, hw.all, hw.vestingCount⟩
  | opened k v hnext hlt hid h hcount =>
    rw [h, hcount]
    refine ⟨fun id v' hv => ?_, fun id hpos hle => ?_, hlt⟩
    · rcases eq_or_ne id k with rfl | hne
      · rw [update_self] at hv
        cases hv
        exact ⟨hid, by omega, le_rfl⟩
      · rw [update_of_ne hne] at hv
        have hold := hw.awards id v' hv
        exact ⟨hold.1, hold.2.1, by omega⟩
    · rcases eq_or_ne id k with rfl | hne
      · simp
      · rw [update_of_ne hne]
        exact hw.all id hpos (by omega)
  | released k v v' hold hid h hsame =>
    rw [h, hsame]
    have hstands := hw.awards k v hold
    refine ⟨fun id u hu => ?_, fun id hpos hle => ?_, hw.vestingCount⟩
    · rcases eq_or_ne id k with rfl | hne
      · rw [update_self] at hu
        cases hu
        exact ⟨hid.trans hstands.1, hstands.2⟩
      · exact hw.awards id u (by rwa [update_of_ne hne] at hu)
    · rcases eq_or_ne id k with rfl | hne
      · simp
      · rw [update_of_ne hne]
        exact hw.all id hpos hle

theorem Genesis.counted (g : Genesis d) (is : List Instr) : (g.after is).Counted := by
  refine run_invariant (fun w i w' hw hs => ?_) g.world is
    ⟨fun id row hrow => ?_, ?_, fun id v hv => ?_, fun id hpos hle => ?_, ?_⟩
  · obtain ⟨hlot, haward⟩ := step_books hs
    obtain ⟨hsales, hcount⟩ := hlot.counted hw
    obtain ⟨hawards, hall, hcount'⟩ := haward.counted hw
    exact ⟨hsales, hcount, hawards, hall, hcount'⟩
  · rw [g.blank.sales] at hrow
    cases hrow
  · rw [g.blank.count]
    decide
  · rw [g.blank.vestings] at hv
    cases hv
  · rw [g.blank.awarded] at hle
    omega
  · rw [g.blank.awarded]
    decide

/-! ## What the views show -/

/-- a closed row has nothing for sale -/
theorem salesBook_onSale (id : ℕ) : w.onSale id = ((w.salesBook d).shown id).elim 0 Sale.grsAmount := by
  unfold World.onSale World.salesBook
  cases hrow : w.sales id with
  | none => simp [hrow, Sale.closed]
  | some row => simp [hrow, SaleAccount.row]

theorem vestingsBook_unreleased (id : ℕ) :
    w.unreleased id = ((w.vestingsBook d).shown id).elim 0 fun v => v.allocationLd - v.releasedLd := by
  unfold World.unreleased World.vestingsBook
  cases hv : w.vestings id with
  | none => simp [hv]
  | some v => simp [hv, Vesting.view]

theorem salesBook_full (w : World) : Full (w.salesBook d).shown (w.salesBook d).count := fun _ _ _ => rfl

theorem salesBook_readBy (hw : w.Counted) (hfiled : w.Filed) : (w.salesBook d).ReadBy (readSale d w) where
  full := salesBook_full w
  fits := hw.saleCount
  reads id k row _ _ := by
    simp only [readSale, World.salesBook, bind_ok, require_ok]
    cases hrow : w.sales id with
    | none => simp [eq_comm]
    | some account =>
      have hid := hfiled id account hrow
      simp [hid, require_bind, eq_comm]
  refuses id k := by
    refine .bind (by simp) fun _ _ => ?_
    cases w.sales id with
    | none => simp
    | some account => exact .bind (by simp) fun _ _ => by simp

theorem vestingsBook_readBy (hw : w.Counted) : (w.vestingsBook d).ReadBy (readVesting d w) where
  full id hpos hle := by simpa [World.vestingsBook] using hw.all id hpos hle
  fits := hw.vestingCount
  reads id k row _ _ := by
    simp only [readVesting, World.vestingsBook, bind_ok, require_ok, demand_ok, Option.map_eq_some_iff, Except.ok.injEq]
    constructor
    · rintro ⟨-, hk, v, hv, -, -, rfl⟩
      exact ⟨hk, v, hv, rfl⟩
    · rintro ⟨hk, v, hv, rfl⟩
      exact ⟨(), hk, v, hv, (), (hw.awards id v hv).1, rfl⟩
  refuses id k := .bind (by simp) fun _ _ => .bind (by simp) fun _ _ => .bind (by simp) fun _ _ => by simp


/-! ## Reading on -/

/-- a reader who goes on page after page, and names the accounts each page has by then: `book t` is the book at his `t`-th
request -/
def readOn (book : ℕ → Book ρ) (view : ℕ → Page → Except OFTError (List ρ)) (limit n : ℕ) : Option (List ρ) :=
  collect (fun t offset limit => view t ⟨(book t).keys offset limit, offset, limit⟩) (book 0).unknown limit n 0 0

/-- he misses nothing: in so many requests he has at least the rows there were when he began, and each was in its place when he
read it -/
def ReadThrough (book : ℕ → Book ρ) (view : ℕ → Page → Except OFTError (List ρ)) : Prop :=
  ∀ limit n, 0 < limit → (book n).count < n * limit → ∃ rows, readOn book view limit n = some rows ∧
    (book 0).count ≤ rows.length ∧ ∀ (k : ℕ) (row : ρ), rows[k]? = some row → ∃ t < n, (book t).rows[k]? = some row

/-- what is shown is what a reader of the pages puts together -/
theorem Book.Shown.serves {view : Page → Except OFTError (List ρ)} (h : b.Shown view) (hfull : Full b.shown b.count) :
    Serves (fun offset limit => view ⟨b.keys offset limit, offset, limit⟩) b.unknown b.rows where
  shows {offset limit} hlimit hoffset := by
    rw [Book.rows, filed_length hfull] at hoffset
    exact (h.shows ⟨_, offset, limit⟩ _).2 ⟨hlimit, hoffset, rfl, rfl⟩
  refuses {offset limit} hlimit hoffset := by
    rw [Book.rows, filed_length hfull] at hoffset
    cases hview : view ⟨b.keys offset limit, offset, limit⟩ with
    | ok rows => exact absurd ((h.shows _ _).1 hview).2.1 hoffset.not_gt
    | error e =>
      have he := h.refuses _ _ hview
      rw [if_neg hlimit.ne', if_pos hoffset] at he
      rw [he]

theorem readThrough {book : ℕ → Book ρ} {view : ℕ → Page → Except OFTError (List ρ)} (h : ∀ t, (book t).Shown (view t))
    (hfull : ∀ t, Full (book t).shown (book t).count) (hgrows : Monotone fun t => (book t).count)
    (hunknown : ∀ t, (book t).unknown = (book 0).unknown) : ReadThrough book view := by
  intro limit n hlimit hn
  have hlength : ∀ t, (book t).rows.length = (book t).count := fun t => filed_length (hfull t)
  obtain ⟨rows, hrows, hreach, hplace⟩ := collect_reads (fun t => hunknown t ▸ (h t).serves (hfull t))
    (by simpa only [hlength] using hgrows) hlimit n 0 0 (Nat.zero_le _) (by simpa [hlength] using hn)
  refine ⟨rows, hrows, by simpa [hlength] using hreach, fun k row hrow => ?_⟩
  obtain ⟨t, -, ht, hrow⟩ := hplace k row hrow
  exact ⟨t, by omega, by simpa using hrow⟩

/-! ## In every reachable state -/

/-- the views show the books; every lot and every award is in them; and they say what the escrows are for -/
structure World.Booked (d : Deployment) (w : World) : Prop where
  sales : (w.salesBook d).Shown (GetSales.apply d w)
  vestings : (w.vestingsBook d).Shown (GetVestings.apply d w)
  lots : ∀ id row, w.sales id = some row → (w.salesBook d).rows[id - 1]? = some row.row
  awards : ∀ id v, w.vestings id = some v → (w.vestingsBook d).rows[id - 1]? = some (v.view d)
  earmarked : ((w.salesBook d).rows.map Sale.grsAmount).sum = w.config.salesReserved
  owed : ((w.vestingsBook d).rows.map fun v => v.allocationLd - v.releasedLd).sum ≤ w.bank.balance d.vestEscrow

/-- a row is in its place -/
theorem Book.row_at (hfull : Full b.shown b.count) {id : ℕ} {row : ρ} (hpos : 0 < id) (hle : id ≤ b.count)
    (hrow : b.shown id = some row) : b.rows[id - 1]? = some row := by
  rw [Book.rows, filed_getElem? hfull (by omega), Nat.sub_add_cancel hpos, hrow]

theorem Genesis.booked (g : Genesis d) (is : List Instr) : (g.after is).Booked d where
  sales := readPage_shown (salesBook_readBy (g.counted is) (g.filed is))
  vestings := readPage_shown (vestingsBook_readBy (g.counted is))
  lots id row hrow := by
    obtain ⟨hpos, hle⟩ := (g.counted is).sales id row hrow
    exact Book.row_at (salesBook_full _) hpos hle (by simp [World.salesBook, hrow])
  awards id v hv := by
    obtain ⟨-, hpos, hle⟩ := (g.counted is).awards id v hv
    exact Book.row_at (vestingsBook_readBy (g.counted is)).full hpos hle (by simp [World.vestingsBook, hv])
  earmarked := by
    have hlisted : HasTotal _ (((g.after is).salesBook d).rows.map Sale.grsAmount).sum := filed_total fun id row hrow hne => by
      cases hlot : (g.after is).sales id with
      | none =>
        simp only [World.salesBook, hlot, Option.elim_none, Option.some.injEq] at hrow
        exact absurd (hrow ▸ rfl) hne
      | some lot => exact (g.counted is).sales id lot hlot
    have hstocked : Stocked d (g.after is) := g.stocked.run is
    exact hlisted.unique (hstocked.sound.total.congr fun id => salesBook_onSale (d := d) id)
  owed := by
    have hawarded : Awarded d (g.after is) := g.awarded.run is
    obtain ⟨owed, hsound⟩ := hawarded.covered
    have hlisted : HasTotal _ (((g.after is).vestingsBook d).rows.map fun v => v.allocationLd - v.releasedLd).sum :=
      filed_total fun id row hrow _ => by
        obtain ⟨v, hv, -⟩ := Option.map_eq_some_iff.1 hrow
        exact ((g.counted is).awards id v hv).2
    have hsame := hlisted.unique (hsound.total.congr fun id => vestingsBook_unreleased (d := d) id)
    exact hsame.trans_le hsound.covered

/-- the store at the `t`-th request of a reader, `js t` having happened since -/
def Genesis.between (g : Genesis d) (js : ℕ → List Instr) (t : ℕ) : World := g.after ((List.range t).flatMap js)

/-- between two pages of one reader the books only grow -/
theorem Genesis.between_grows (g : Genesis d) (js : ℕ → List Instr) :
    (Monotone fun t => (g.between js t).saleCount) ∧ Monotone fun t => (g.between js t).config.vestingCount := by
  have hstep : ∀ t, (g.between js t).saleCount ≤ (g.between js (t + 1)).saleCount ∧
      (g.between js t).config.vestingCount ≤ (g.between js (t + 1)).config.vestingCount := by
    intro t
    have hrun : g.between js (t + 1) = Machine.run (step d) (g.between js t) (js t) := by
      simp [Genesis.between, Genesis.after, List.range_succ, run_append]
    rw [hrun]
    refine run_invariant (P := fun w : World => (g.between js t).saleCount ≤ w.saleCount ∧
      (g.between js t).config.vestingCount ≤ w.config.vestingCount) (fun w i w' hw hs => ?_) _ _ ⟨le_rfl, le_rfl⟩
    obtain ⟨hlot, haward⟩ := step_books hs
    exact ⟨hw.1.trans hlot.count_le, hw.2.trans haward.count_le⟩
  exact ⟨monotone_nat_of_le_succ fun t => (hstep t).1, monotone_nat_of_le_succ fun t => (hstep t).2⟩

/-- **The books.** In every reachable state the views of the sales and of the vestings show their books page by page, to a caller
who names the accounts of the page, and refuse as documented; the lots listed add up to the earmark, and the escrow covers what
the awards listed still owe, of a token that withholds nothing of a transfer. One who reads on until a page is short misses no
row, whatever the store does in between. -/
theorem books_read (g : Genesis d) (js : ℕ → List Instr) :
    (∀ t, (g.between js t).Booked d) ∧
    ReadThrough (fun t => (g.between js t).salesBook d) (fun t => GetSales.apply d (g.between js t)) ∧
    ReadThrough (fun t => (g.between js t).vestingsBook d) (fun t => GetVestings.apply d (g.between js t)) := by
  have hbooked : ∀ t, (g.between js t).Booked d := fun t => g.booked _
  obtain ⟨hsales, hvestings⟩ := g.between_grows js
  refine ⟨hbooked, ?_, ?_⟩
  · exact readThrough (fun t => (hbooked t).sales) (fun t => salesBook_full _) hsales fun _ => rfl
  · exact readThrough (fun t => (hbooked t).vestings) (fun t => (vestingsBook_readBy (g.counted _)).full) hvestings fun _ => rfl

end Grindurus.Grs
