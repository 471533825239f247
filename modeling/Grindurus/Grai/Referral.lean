/-
Referral books and their tree (`programs/grai/src/treasury.rs`: mint, credit, poach).

- A book holds the sticky referrer of a locker, its cashflow NFT, and what was deposited and claimed: by the locker
  (`value`), by its referrals (`l1Value`) and by theirs (`l2Value`).
- `mintReferrer`: a deposit binds the depositor's book once and credits it. `executePoach`: a slot is bought and rebound.
- `hasReferralLoop`: Floyd's walk over the books that the caller passed in.

What happens to the books is `Booked`; for the ledger all of it is `Quiet`.
-/
import Grindurus.Grai.View

namespace Grindurus.Grai

open Checked TokenBank Function

/-! ## Books -/

/-- the book of `key`, and whether this instruction creates it -/
def ensureReferrerAccount (w : World) (key : Key) : Referrer × Bool :=
  match w.books key with
  | some book => (book, false)
  | none => (Referrer.empty, true)

def World.storeReferrer (w : World) (key : Key) (book : Referrer) : World :=
  { w with books := update w.books key (some book) }

/-- the book account of `key` among the accounts passed in -/
def referrerInfo (key : Key) (pool : List Key) : Option Key := pool.find? fun info => info = .referrer key

/-- reject protocol sinks as sticky referrer or poach target -/
def requireValidReferrer (account : Key) : Except ErrorCode Unit :=
  require (account ≠ .program ∧ account ≠ .protocol ∧ account ≠ .nativeMint) .invalidReferrer

inductive LoopStatus where
  | no
  | yes
  | incomplete
  deriving DecidableEq, Repr

/-- one hop up the tree from `cur`; an account without a book ends the walk -/
def hop (w : World) (cur locker target : Key) (pool : List Key) : Option Key × LoopStatus :=
  match referrerInfo cur pool with
  | none => (none, .incomplete)
  | some _ =>
    match w.books cur with
    | none => (none, .no)
    | some book =>
      let next := book.referrer
      if next = .default ∨ next = cur then (none, .no)
      else if next = locker ∨ next = target then (none, .yes)
      else (some next, .no)

/-- one round of Floyd's walk: `slow` hops once, `fast` twice -/
def floydRound (w : World) (locker target : Key) (pool : List Key) (slow fast : Key) : LoopStatus ⊕ (Key × Key) :=
  match hop w slow locker target pool with
  | (none, status) => .inl status
  | (some slow, _) =>
    match hop w fast locker target pool with
    | (none, status) => .inl status
    | (some fast, _) =>
      match hop w fast locker target pool with
      | (none, status) => .inl status
      | (some fast, _) => if slow = fast then .inl .yes else .inr (slow, fast)

def floydWalk (w : World) (locker target : Key) (pool : List Key) : ℕ → Key → Key → Except ErrorCode LoopStatus
  | 0, _, _ => .error .outOfFuel
  | fuel + 1, slow, fast =>
    match floydRound w locker target pool slow fast with
    | .inl status => .ok status
    | .inr (slow, fast) => floydWalk w locker target pool fuel slow fast

/-- Floyd cycle detection over the books supplied by the caller -/
def hasReferralLoop (w : World) (locker target : Key) (pool : List Key) : Except ErrorCode LoopStatus :=
  if target = locker then .ok .no else floydWalk w locker target pool (pool.length + 2) target target

/-! ## Credit -/

/-- credit one hop: the first takes it as `l1Value`, the second as `l2Value` -/
def creditLevel (level value : ℕ) (up : Referrer) : Except ErrorCode Referrer :=
  if level = 0 then do
    let l1Value ← checkedAdd u128 up.l1Value value .mathOverflow
    .ok { up with l1Value }
  else if level = 1 then do
    let l2Value ← checkedAdd u128 up.l2Value value .mathOverflow
    .ok { up with l2Value }
  else .ok up

/-- the sticky walk of `creditBooks`, over `levels` more hops from `refKey` -/
def creditUplines (locker : Key) (value : ℕ) (remaining : List Key) (requireAncestors : Bool) :
    ℕ → ℕ → Key → World → Except ErrorCode World
  | 0, _, _, w => .ok w
  | levels + 1, level, refKey, w =>
    if refKey = .default ∨ refKey = locker then .ok w
    else
      match referrerInfo refKey remaining, w.books refKey with
      | some _, some up => do
        let up' ← creditLevel level value up
        let w := w.storeReferrer refKey up'
        if up.referrer = refKey then .ok w
        else creditUplines locker value remaining requireAncestors levels (level + 1) up.referrer w
      | _, _ => do
        require (requireAncestors = false) .invalidRemainingAccounts
        .ok w

/-- credit `value` to the locker's book and to its uplines -/
def creditBooks (w : World) (locker : Key) (value levels : ℕ) (remaining : List Key) (requireAncestors : Bool) :
    Except ErrorCode World :=
  if value = 0 then .ok w
  else
    match w.books locker with
    | none => do
      require (requireAncestors = false) .invalidRemainingAccounts
      .ok w
    | some book => do
      let newValue ← checkedAdd u128 book.value value .mathOverflow
      creditUplines locker value remaining requireAncestors levels 0 book.referrer
        (w.storeReferrer locker { book with value := newValue })

/-! ## The cashflow NFT -/

/-- the NFT must sit on the canonical account of `locker` -/
def requireLockerNftAta (b : Bank Key) (nftAta locker mint : Key) (requireHeld : Bool) : Except ErrorCode Unit := do
  require (nftAta = .ata locker mint) .invalidDestination
  match b.accounts nftAta with
  | none => require (requireHeld = false) .invalidDestination
  | some a => do
    require (a.mint = mint) .invalidDestination
    require (a.owner = locker) .invalidDestination
    require (requireHeld = true → 1 ≤ a.amount) .invalidAmount

/-- mint the one token and hand the mint to its master edition -/
def mintTreasuryNft (b : Bank Key) (mint nftAta : Key) : Except ErrorCode (Bank Key) := do
  let b ← spl (b.mintTo mint nftAta .protocol 1)
  spl (b.setMintAuthority mint .protocol (some (.edition mint)))

/-- the mint of an NFT, created if it is not there -/
def initTreasuryNftMint (b : Bank Key) (mint : Key) : Except ErrorCode (Bank Key) :=
  match b.mints mint with
  | some _ => .ok b
  | none => spl (b.createMint mint 0 .protocol)

/-- the account of the NFT, created if it is not there -/
def createNftAta (b : Bank Key) (nftAta locker mint : Key) : Except ErrorCode (Bank Key) :=
  match b.accounts nftAta with
  | some _ => .ok b
  | none => spl (b.openAccount nftAta mint locker)

/-- create the cashflow NFT of `locker` if its book has none -/
def ensureTreasuryNft (w : World) (book : Referrer) (locker nftAta : Key) : Except ErrorCode (World × Referrer) :=
  if book.nftMint ≠ .default then .ok (w, book)
  else do
    let mint := Key.treasuryNft locker
    requireLockerNftAta w.bank nftAta locker mint false
    if 1 ≤ w.bank.supply mint then do
      requireLockerNftAta w.bank nftAta locker mint true
      .ok (w, { book with nftMint := mint })
    else do
      let bank ← initTreasuryNftMint w.bank mint
      let bank ← createNftAta bank nftAta locker mint
      let bank ← mintTreasuryNft bank mint nftAta
      requireLockerNftAta bank nftAta locker mint true
      .ok ({ w with bank }, { book with nftMint := mint })

/-! ## Mint: bind and credit on deposit -/

/-- the referrer an unbound book is bound to: itself, if none is named or the named one loops -/
def resolveReferrer (w : World) (locker referrer : Key) (remaining : List Key) : Except ErrorCode Key :=
  if referrer = .default then .ok locker
  else if referrer = locker then .ok referrer
  else do
    requireValidReferrer referrer
    let status ← hasReferralLoop w locker referrer remaining
    match status with
    | .incomplete => .error .invalidRemainingAccounts
    | .yes => .ok locker
    | .no => .ok referrer

/-- a new referral brings its own referrals along -/
def adoptReferrals (w : World) (book : Referrer) (referrer : Key) (levels : ℕ) (remaining : List Key) :
    Except ErrorCode World := do
  let _ ← demand .invalidRemainingAccounts (referrerInfo referrer remaining)
  let (referrerBook, referrerNew) := ensureReferrerAccount w referrer
  let w := if referrerNew then registerReferrer w referrer else w
  let l2Value ← (if 1 < levels ∧ 0 < book.l1Value
    then checkedAdd u128 referrerBook.l2Value book.l1Value .mathOverflow else .ok referrerBook.l2Value)
  .ok (w.storeReferrer referrer { referrerBook with l2Value })

/-- bind an unbound book, once -/
def bindReferrer (w : World) (book : Referrer) (locker referrer : Key) (levels : ℕ) (remaining : List Key) :
    Except ErrorCode (World × Referrer) :=
  if book.referrer ≠ .default then .ok (w, book)
  else do
    let referrer ← resolveReferrer w locker referrer remaining
    let w ← (if referrer = locker then .ok w else adoptReferrals w book referrer levels remaining)
    .ok (w, { book with referrer })

/-- sticky bind once, credit the deposit, and mint the cashflow NFT on the first -/
def mintReferrer (w : World) (locker referrer : Key) (value : ℕ) (remaining : List Key) (nftAta : Key) :
    Except ErrorCode World := do
  let levels := w.state.affiliateLevels
  let (book, lockerNew) := ensureReferrerAccount w locker
  let w := if lockerNew then registerReferrer w locker else w
  let (w, book) ← bindReferrer w book locker referrer levels remaining
  let (w, book) ← ensureTreasuryNft w book locker nftAta
  let w := w.storeReferrer locker book
  if 0 < value then creditBooks w locker value levels remaining true else .ok w

/-! ## Poach -/

structure Poach where
  poacher : Signer
  locker : Key
  buyerBook : Key
  sellerBook : Key
  oldL2Book : Key
  newL2Book : Key
  poacherGraiAta : Key
  sellerGraiAta : Key
  remaining : List Key

/-- the price of a slot, `value + l1Value`, and its current affiliate -/
def previewPoach (book : Referrer) (poacher : Key) : Except ErrorCode (ℕ × Key) := do
  require (book.referrer ≠ .default) .zeroAddress
  require (poacher ≠ book.referrer) .alreadyBound
  let price ← checkedAdd u128 book.value book.l1Value .mathOverflow
  require (price ≤ u64Max) .mathOverflow
  require (0 < price) .invalidAmount
  .ok (price, book.referrer)

def requireNoLoop : LoopStatus → Except ErrorCode Unit
  | .no => .ok ()
  | .yes => .error .referralLoop
  | .incomplete => .error .invalidRemainingAccounts

/-- the book of `key` at the account `info`, registered if it is new -/
def ensureRegistered (w : World) (info key : Key) : Except ErrorCode (World × Referrer) := do
  require (info = .referrer key) .invalidRemainingAccounts
  let (book, isNew) := ensureReferrerAccount w key
  .ok (if isNew then registerReferrer w key else w, book)

/-- rewrite the `l2Value` of an upline's upline, unless there is none -/
def shiftL2 (w : World) (info key skip locker : Key) (shift : Bool) (f : ℕ → Except ErrorCode ℕ) :
    Except ErrorCode World :=
  if shift = true ∧ key ≠ .default ∧ key ≠ skip ∧ key ≠ locker then do
    let (w, book) ← ensureRegistered w info key
    let l2Value ← f book.l2Value
    .ok (w.storeReferrer key { book with l2Value })
  else .ok w

/-- take the slot away from its seller: debit the seller's books and its upline's -/
def debitSeller (w : World) (a : Poach) (seller : Key) (own direct : ℕ) (shift : Bool) : Except ErrorCode World := do
  let (w, book) ← ensureRegistered w a.sellerBook seller
  let l1Value ← checkedSub book.l1Value own .mathOverflow
  let l2Value ← (if shift then checkedSub book.l2Value direct .mathOverflow else .ok book.l2Value)
  let w := w.storeReferrer seller { book with l1Value, l2Value }
  shiftL2 w a.oldL2Book book.referrer seller a.locker shift fun l2Value => checkedSub l2Value own .mathOverflow

/-- give the slot to its buyer; returns the buyer's own referrer -/
def creditBuyer (w : World) (a : Poach) (own direct : ℕ) (shift : Bool) : Except ErrorCode (World × Key) := do
  let (w, book) ← ensureRegistered w a.buyerBook a.poacher.key
  let l1Value ← checkedAdd u128 book.l1Value own .mathOverflow
  let l2Value ← (if shift then checkedAdd u128 book.l2Value direct .mathOverflow else .ok book.l2Value)
  .ok (w.storeReferrer a.poacher.key { book with l1Value, l2Value }, book.referrer)

/-- move the slot `a.locker`, whose book is `book`, from `seller` to the poacher -/
def rebindSlot (w : World) (a : Poach) (book : Referrer) (seller : Key) : Except ErrorCode World := do
  let locker := a.locker
  let poacher := a.poacher.key
  let shift : Bool := 1 < w.state.affiliateLevels
  require (a.buyerBook = .referrer poacher) .invalidRemainingAccounts
  let w ← (if seller = locker then .ok w else debitSeller w a seller book.value book.l1Value shift)
  if poacher = locker then .ok (w.storeReferrer locker { book with referrer := poacher })
  else do
    let (w, newL2) ← creditBuyer w a book.value book.l1Value shift
    let w := w.storeReferrer locker { book with referrer := poacher }
    shiftL2 w a.newL2Book newL2 poacher locker shift fun l2Value => checkedAdd u128 l2Value book.value .mathOverflow

/-- buy a locker's referral slot at its book price, and rebind it -/
def executePoach (w : World) (a : Poach) : Except ErrorCode World := do
  let locker := a.locker
  let poacher := a.poacher.key
  let graiMint := w.state.graiMint
  let book ← demand (.accountNotInitialized (.referrer locker)) (w.books locker)
  -- the System Program, which the comments there offer as a filler, is never writable
  require (a.buyerBook ≠ .default ∧ a.sellerBook ≠ .default ∧ a.oldL2Book ≠ .default ∧ a.newL2Book ≠ .default) .constraintMut
  let _ ← loadGraiMint w
  let wallet ← loadOwned w.bank a.poacherGraiAta graiMint poacher .invalidDepositSource
  let sellerAta ← loadTokenAccount w.bank a.sellerGraiAta
  require (sellerAta.mint = graiMint) .invalidDestination
  let bank ← initAta w.bank w.state.grinders graiMint
  let w := { w with bank }
  require (w.state.liquidation = false) .liquidationOpen
  let (price, seller) ← previewPoach book poacher
  require (poacher = locker → seller ≠ locker) .alreadyBound
  require (price ≤ wallet.amount) .invalidAmount
  let _ ← (if poacher = locker then .ok () else requireValidReferrer poacher)
  let status ← hasReferralLoop w locker poacher
    (a.remaining ++ [a.buyerBook, a.sellerBook, a.oldL2Book, a.newL2Book, .referrer locker])
  requireNoLoop status
  require (sellerAta.owner = seller) .invalidDestination
  let fee ← bpsCeil price w.state.config.poachFeeBps
  let toReferrer ← checkedSub price fee .mathOverflow
  let bank ← transferFromSigner w.bank a.poacherGraiAta a.sellerGraiAta a.poacher toReferrer
  let bank ← transferFromSigner bank a.poacherGraiAta (.ata w.state.grinders graiMint) a.poacher fee
  rebindSlot { w with bank } a book seller

/-! ## What happens to the books -/

/-- from `w` to `w'` books are stored, and at most `n` new ones registered -/
inductive Booked : ℕ → World → World → Prop where
  | refl (n : ℕ) (w : World) : Booked n w w
  | store {n : ℕ} {w w' : World} (key : Key) (book : Referrer) (h : Booked n w w') : Booked n w (w'.storeReferrer key book)
  | register {n : ℕ} {w w' : World} (key : Key) (h : Booked n w w') : Booked (n + 1) w (registerReferrer w' key)

variable {w w' w₁ w₂ w₃ : World} {m n : ℕ}

namespace Booked

theorem mono (h : Booked m w w') (hmn : m ≤ n) : Booked n w w' := by
  induction h generalizing n with
  | refl m w => exact .refl n w
  | store key book _ ih => exact .store key book (ih hmn)
  | register key _ ih =>
    obtain ⟨n, rfl⟩ := Nat.exists_eq_add_of_lt hmn
    exact .register key (ih (Nat.le_add_right _ _))

theorem trans (h : Booked m w₁ w₂) (h' : Booked n w₂ w₃) : Booked (m + n) w₁ w₃ := by
  induction h' with
  | refl n w => exact h.mono (Nat.le_add_right m n)
  | store key book _ ih => exact .store key book (ih h)
  | register key _ ih => exact .register key (ih h)

theorem bank (h : Booked n w w') : w'.bank = w.bank := by
  induction h with
  | refl n w => rfl
  | store key book _ ih => exact ih
  | register key _ ih =>
    unfold registerReferrer reallocGraiState
    split_ifs <;> exact ih

/-- the ledger does not see any of it -/
theorem quiet (h : Booked n w w') : Quiet w w' := by
  induction h with
  | refl n w => exact .refl w
  | store key book _ ih => exact ⟨ih.state, ih.assets, ih.escrows, ih.positions, ih.bank⟩
  | register key _ ih =>
    refine ih.trans ?_
    unfold registerReferrer reallocGraiState
    split_ifs
    · exact .refl _
    · exact ⟨rfl, rfl, rfl, rfl, .refl _ _⟩

end Booked

/-- a book is registered if it is new -/
theorem registerNew_booked (w : World) (key : Key) (isNew : Bool) :
    Booked 1 w (if isNew then registerReferrer w key else w) := by
  split_ifs
  · exact .register key (.refl 0 w)
  · exact .refl 1 w

theorem creditUplines_booked {locker refKey : Key} {value levels level : ℕ} {remaining : List Key} {required : Bool}
    (h : creditUplines locker value remaining required levels level refKey w = .ok w') : Booked 0 w w' := by
  induction levels generalizing level refKey w with
  | zero =>
    cases h
    exact .refl 0 _
  | succ levels ih =>
    unfold creditUplines at h
    split_ifs at h
    · cases h
      exact .refl 0 _
    · split at h
      · simp only [bind_ok] at h
        obtain ⟨up', -, h⟩ := h
        have hstored : Booked 0 w (w.storeReferrer refKey up') := .store refKey up' (.refl 0 w)
        split_ifs at h
        · cases h
          exact hstored
        · exact hstored.trans (ih h)
      · simp only [bind_ok, Except.ok.injEq] at h
        obtain ⟨-, -, rfl⟩ := h
        exact .refl 0 _

theorem creditBooks_booked {locker : Key} {value levels : ℕ} {remaining : List Key} {required : Bool}
    (h : creditBooks w locker value levels remaining required = .ok w') : Booked 0 w w' := by
  unfold creditBooks at h
  split_ifs at h
  · cases h
    exact .refl 0 _
  · split at h
    · simp only [bind_ok, Except.ok.injEq] at h
      obtain ⟨-, -, rfl⟩ := h
      exact .refl 0 _
    · simp only [bind_ok] at h
      obtain ⟨_, -, h⟩ := h
      exact (Booked.store locker _ (.refl 0 w)).trans (creditUplines_booked h)

theorem requireLockerNftAta_ok {b : Bank Key} {nftAta locker mint : Key} {held : Bool}
    (h : requireLockerNftAta b nftAta locker mint held = .ok ()) : nftAta = .ata locker mint := by
  simp only [requireLockerNftAta, bind_ok, require_ok] at h
  obtain ⟨-, hk, -⟩ := h
  exact hk

/-- the operations on the NFT leave the program's accounts and the share mint alone -/
theorem ensureTreasuryNft_ok {book book' : Referrer} {locker nftAta : Key} (hw : ∃ s : Signer, w.state.graiMint = s.key)
    (h : ensureTreasuryNft w book locker nftAta = .ok (w', book')) :
    ∃ b, BankMoves w.state.graiMint 0 0 w.bank b ∧ w' = { w with bank := b } ∧
      book' = { book with nftMint := book'.nftMint } := by
  obtain ⟨g, hg⟩ := hw
  have hmint : Key.treasuryNft locker ≠ w.state.graiMint := by
    rw [hg]
    exact Key.noConfusion
  unfold ensureTreasuryNft at h
  split_ifs at h
  · cases h
    exact ⟨_, .refl _ _, rfl, rfl⟩
  simp only [bind_ok] at h
  obtain ⟨_, hata, h⟩ := h
  split_ifs at h
  · simp only [bind_ok, Except.ok.injEq, Prod.mk.injEq] at h
    obtain ⟨-, -, rfl, rfl⟩ := h
    exact ⟨_, .refl _ _, rfl, rfl⟩
  simp only [bind_ok, Except.ok.injEq, Prod.mk.injEq] at h
  obtain ⟨b₁, hb₁, b₂, hb₂, b₃, hb₃, -, -, rfl, rfl⟩ := h
  refine ⟨b₃, ?_, rfl, rfl⟩
  have hcreate : BankMoves w.state.graiMint 0 0 w.bank b₁ := by
    unfold initTreasuryNftMint at hb₁
    split at hb₁
    · cases hb₁
      exact .refl _ _
    · have hb₁ := spl_ok.1 hb₁
      simp only [Bank.createMint, bind_ok, require_ok, Except.ok.injEq] at hb₁
      obtain ⟨-, -, rfl⟩ := hb₁
      exact putMint_moves hmint _
  have hopen : BankMoves w.state.graiMint 0 0 b₁ b₂ := by
    unfold createNftAta at hb₂
    split at hb₂
    · cases hb₂
      exact .refl _ _
    · refine openAccount_moves _ (spl_ok.1 hb₂) fun m hm => ?_
      rw [requireLockerNftAta_ok hata] at hm
      cases hm
  have hnft : BankMoves w.state.graiMint 0 0 b₂ b₃ := by
    simp only [mintTreasuryNft, bind_ok] at hb₃
    obtain ⟨b, hb, hb'⟩ := hb₃
    have hb := mintTo_moves w.state.graiMint (spl_ok.1 hb)
    rw [if_neg (Ne.symm hmint)] at hb
    have hb' := spl_ok.1 hb'
    simp only [Bank.setMintAuthority, bind_ok, demand_ok, require_ok, Except.ok.injEq] at hb'
    obtain ⟨t, -, -, -, rfl⟩ := hb'
    exact hb.before (putMint_moves hmint _)
  exact (hcreate.before hopen).before hnft

theorem adoptReferrals_booked {book : Referrer} {referrer : Key} {levels : ℕ} {remaining : List Key}
    (h : adoptReferrals w book referrer levels remaining = .ok w') : Booked 1 w w' := by
  simp only [adoptReferrals, bind_ok, Except.ok.injEq] at h
  obtain ⟨-, -, _, -, rfl⟩ := h
  exact .store referrer _ (registerNew_booked w referrer _)

theorem bindReferrer_booked {book book' : Referrer} {locker referrer : Key} {levels : ℕ} {remaining : List Key}
    (h : bindReferrer w book locker referrer levels remaining = .ok (w', book')) : Booked 1 w w' := by
  unfold bindReferrer at h
  split_ifs at h
  · cases h
    exact .refl 1 _
  simp only [bind_ok, Except.ok.injEq, Prod.mk.injEq] at h
  obtain ⟨r, -, w₁, hw₁, rfl, -⟩ := h
  split_ifs at hw₁
  · cases hw₁
    exact .refl 1 _
  · exact adoptReferrals_booked hw₁

/-- a deposit registers the locker and its referrer, if they are new, and mints the NFT before it credits the books -/
theorem mintReferrer_booked {locker referrer nftAta : Key} {value : ℕ} {remaining : List Key}
    (h : mintReferrer w locker referrer value remaining nftAta = .ok w') :
    ∃ w₁ book w₂ book', Booked 2 w w₁ ∧ ensureTreasuryNft w₁ book locker nftAta = .ok (w₂, book') ∧ Booked 0 w₂ w' := by
  simp only [mintReferrer, bind_ok, Prod.exists] at h
  obtain ⟨w₁, book, hbind, w₂, book', hnft, h⟩ := h
  refine ⟨w₁, book, w₂, book', (registerNew_booked w locker _).trans (bindReferrer_booked hbind), hnft, ?_⟩
  have hstored : Booked 0 w₂ (w₂.storeReferrer locker book') := .store locker book' (.refl 0 w₂)
  split_ifs at h
  · exact hstored.trans (creditBooks_booked h)
  · cases h
    exact hstored

theorem mintReferrer_quiet {locker referrer nftAta : Key} {value : ℕ} {remaining : List Key}
    (hw : ∃ s : Signer, w.state.graiMint = s.key) (h : mintReferrer w locker referrer value remaining nftAta = .ok w') :
    Quiet w w' := by
  obtain ⟨w₁, book, w₂, book', hbooked, hnft, hcredited⟩ := mintReferrer_booked h
  have hq := hbooked.quiet
  obtain ⟨b, hb, rfl, -⟩ := ensureTreasuryNft_ok (by rwa [hq.graiMint]) hnft
  exact (hq.trans (.of_bank hb)).trans hcredited.quiet

theorem ensureRegistered_booked {info key : Key} {book : Referrer} (h : ensureRegistered w info key = .ok (w', book)) :
    Booked 1 w w' := by
  simp only [ensureRegistered, bind_ok, Except.ok.injEq, Prod.mk.injEq] at h
  obtain ⟨-, -, rfl, -⟩ := h
  exact registerNew_booked w key _

theorem shiftL2_booked {info key skip locker : Key} {shift : Bool} {f : ℕ → Except ErrorCode ℕ}
    (h : shiftL2 w info key skip locker shift f = .ok w') : Booked 1 w w' := by
  unfold shiftL2 at h
  split_ifs at h
  · simp only [bind_ok, Prod.exists, Except.ok.injEq] at h
    obtain ⟨w₁, book, hens, _, -, rfl⟩ := h
    exact .store key _ (ensureRegistered_booked hens)
  · cases h
    exact .refl 1 _

theorem debitSeller_booked {a : Poach} {seller : Key} {own direct : ℕ} {shift : Bool}
    (h : debitSeller w a seller own direct shift = .ok w') : Booked 2 w w' := by
  simp only [debitSeller, bind_ok, Prod.exists] at h
  obtain ⟨w₁, book, hens, _, -, _, -, h⟩ := h
  exact (Booked.store seller _ (ensureRegistered_booked hens)).trans (shiftL2_booked h)

theorem creditBuyer_booked {a : Poach} {own direct : ℕ} {shift : Bool} {newL2 : Key}
    (h : creditBuyer w a own direct shift = .ok (w', newL2)) : Booked 1 w w' := by
  simp only [creditBuyer, bind_ok, Prod.exists, Except.ok.injEq, Prod.mk.injEq] at h
  obtain ⟨w₁, book, hens, _, -, _, -, rfl, -⟩ := h
  exact .store a.poacher.key _ (ensureRegistered_booked hens)

/-- a rebinding registers the seller, the buyer and the uplines of both, if they are new -/
theorem rebindSlot_booked {a : Poach} {book : Referrer} {seller : Key} (h : rebindSlot w a book seller = .ok w') :
    Booked 4 w w' := by
  simp only [rebindSlot, bind_ok] at h
  obtain ⟨-, -, w₁, hdebit, h⟩ := h
  have hdebited : Booked 2 w w₁ := by
    split_ifs at hdebit
    · cases hdebit
      exact .refl 2 _
    · exact debitSeller_booked hdebit
  split_ifs at h
  · cases h
    exact .store a.locker _ (hdebited.mono (by decide))
  · simp only [bind_ok, Prod.exists] at h
    obtain ⟨w₂, newL2, hcredit, h⟩ := h
    exact (Booked.store a.locker _ (hdebited.trans (creditBuyer_booked hcredit))).trans (shiftL2_booked h)

/-- a poach opens the account of Grinders, pays the seller and the fee, and rebinds the slot -/
theorem executePoach_slot {a : Poach} (h : executePoach w a = .ok w') :
    ∃ book seller toReferrer fee b b₁ b₂, initAta w.bank w.state.grinders w.state.graiMint = .ok b ∧
      transferFromSigner b a.poacherGraiAta a.sellerGraiAta a.poacher toReferrer = .ok b₁ ∧
      transferFromSigner b₁ a.poacherGraiAta (.ata w.state.grinders w.state.graiMint) a.poacher fee = .ok b₂ ∧
      rebindSlot { w with bank := b₂ } a book seller = .ok w' := by
  simp only [executePoach, bind_ok, Prod.exists] at h
  obtain ⟨book, -, -, -, -, -, -, -, -, -, -, -, b, hb, -, -, price, seller, -, -, -, -, -, -, -, status, -, -, -, -, -, fee, -,
    toReferrer, -, b₁, hb₁, b₂, hb₂, h⟩ := h
  exact ⟨book, seller, toReferrer, fee, b, b₁, b₂, hb, hb₁, hb₂, h⟩

theorem executePoach_committed {a : Poach} (hw : w.WF) (h : executePoach w a = .ok w') : Committed .nobody w w' := by
  obtain ⟨book, seller, toReferrer, fee, b, b₁, b₂, hb, hb₁, hb₂, h⟩ := executePoach_slot h
  have hinit := initAta_moves w.state.graiMint hb
  have hpay := (transferFromSigner_moves w.state.graiMint hb₁).trans (transferFromSigner_moves w.state.graiMint hb₂)
  have hbank : BankMoves w.state.graiMint 0 0 w.bank b₂ := by
    refine hinit.before (hpay.mono fun k _ _ => ?_)
    simp only [Pi.add_apply, Pi.single_apply, Pi.zero_apply]
    split_ifs <;> omega
  exact ((Quiet.of_bank hbank).trans (rebindSlot_booked h).quiet).committed hw

end Grindurus.Grai
