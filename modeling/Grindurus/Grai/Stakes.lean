/-
Locking, unlocking, voting and bribing (`programs/grai/src/state.rs`, `lock.rs`, `unlock.rs`, `vote.rs`, `bribe.rs`).

Each instruction is a record of the accounts and arguments it is given, and a function on the world. `execute*_committed`:
what an instruction commits is a transition of the ledger, in which the stake of one account changes.

A stake is the escrow of an account: what it has locked, and what part of that is voted. The positions of the account are settled
before the lock changes, for every listed asset, so that dividends are counted at the lock they were earned with. A vote is cast
with locked shares, and first locks what is missing; an unlock may take back voted shares, and then the vote shrinks with it
(`clampVote`). A bribe buys voted shares out of the escrow of somebody else, at a price that depends on how far the vote is from
its quorum.
-/
import Grindurus.Grai.View

namespace Grindurus.Grai

open Checked Registry RewardIndex TokenBank Function

/-! ## Lock and vote -/

/-- a locker that had nothing locked joins the registry -/
def pushLocker (w : World) (escrow : Escrow) (owner : Key) : World × Escrow :=
  if escrow.amount = 0 then
    let s := w.state
    let w := reallocGraiState w
      (GraiState.space s.assetMints.length (s.lockers.length + 1) s.voters.length s.referrers.length)
    ({ w with state := { s with lockers := s.lockers ++ [owner] } },
      { escrow with lockerId := s.lockers.length, bump := ESCROW_BUMP })
  else (w, escrow)

/-- lock `addAmount` GRAI from `source` into the GRAI vault; settles every listed asset across the change -/
def performLock (w : World) (escrow : Escrow) (addAmount : ℕ) (source : Key) (owner : Signer) (remaining : List Key) :
    Except ErrorCode (World × Escrow) := do
  require (0 < addAmount) .amountZero
  let newAmount ← checkedAdd u64 escrow.amount addAmount .mathOverflow
  let w ← settleAllPairs w remaining owner.key escrow.amount newAmount
  let (w, escrow) := pushLocker w escrow owner.key
  let totalLocked ← checkedAdd u64 w.state.totalLocked addAmount .mathOverflow
  let bank ← transferFromSigner w.bank source (.vault w.state.graiMint) owner addAmount
  .ok ({ w with state := { w.state with totalLocked }, bank }, { escrow with amount := newAmount })

/-- a voter that had no vote joins the registry -/
def pushVoter (w : World) (escrow : Escrow) (account : Key) : World × Escrow :=
  if escrow.voted = 0 then
    let s := w.state
    let w := reallocGraiState w
      (GraiState.space s.assetMints.length s.lockers.length (s.voters.length + 1) s.referrers.length)
    ({ w with state := { s with voters := s.voters ++ [account] } },
      { escrow with voterId := s.voters.length, bump := ESCROW_BUMP })
  else (w, escrow)

/-- commit `addAmount` of already locked GRAI toward the quorum -/
def performVote (w : World) (escrow : Escrow) (addAmount : ℕ) (account : Key) (remaining : List Key) (now : ℤ) :
    Except ErrorCode (World × Escrow) := do
  require (0 < addAmount) .amountZero
  let newVoted ← checkedAdd u64 escrow.voted addAmount .mathOverflow
  require (newVoted ≤ escrow.amount) .invalidAmount
  let w ← settleAllPairs w remaining account escrow.amount escrow.amount
  let (w, escrow) := pushVoter w escrow account
  let totalVoted ← checkedAdd u64 w.state.totalVoted addAmount .mathOverflow
  .ok ({ w with state := { w.state with totalVoted } }, { escrow with voted := newVoted, votedAt := now })

structure Lock where
  locker : Signer
  lockerGraiAta : Key
  remaining : List Key
  graiAmount : ℕ

def executeLock (w : World) (a : Lock) : Except ErrorCode World := do
  let _ ← loadGraiMint w
  let ata ← loadOwned w.bank a.lockerGraiAta w.state.graiMint a.locker.key .invalidDepositSource
  let bank ← initVault w.bank w.state.graiMint
  let w := { w with bank }
  require (w.state.liquidation = false) .liquidationOpen
  require (0 < a.graiAmount) .amountZero
  require (a.graiAmount ≤ ata.amount) .insufficientGraiBalance
  let (w, escrow) ←
    performLock w (initEscrow w a.locker.key) a.graiAmount a.lockerGraiAta a.locker a.remaining
  .ok (w.storeEscrow a.locker.key escrow)

structure Vote where
  voter : Signer
  voterGraiAta : Key
  remaining : List Key
  graiAmount : ℕ
  now : ℤ

/-- lock what the vote is short of -/
def autoLock (w : World) (escrow : Escrow) (needLocked wallet : ℕ) (source : Key) (voter : Signer) (remaining : List Key) :
    Except ErrorCode (World × Escrow) :=
  if escrow.amount < needLocked then do
    let shortfall := needLocked - escrow.amount
    require (shortfall ≤ wallet) .insufficientGraiBalance
    performLock w escrow shortfall source voter remaining
  else .ok (w, escrow)

/-- commit GRAI toward liquidation quorum, auto-locking any wallet shortfall first -/
def executeVote (w : World) (a : Vote) : Except ErrorCode World := do
  let _ ← loadGraiMint w
  let ata ← loadOwned w.bank a.voterGraiAta w.state.graiMint a.voter.key .invalidDestination
  let bank ← initVault w.bank w.state.graiMint
  let w := { w with bank }
  require (0 < a.graiAmount) .amountZero
  require (w.state.liquidation = false) .liquidationOpen
  let escrow := initEscrow w a.voter.key
  let needLocked ← checkedAdd u64 escrow.voted a.graiAmount .mathOverflow
  let (w, escrow) ← autoLock w escrow needLocked ata.amount a.voterGraiAta a.voter a.remaining
  let (w, escrow) ← performVote w escrow a.graiAmount a.voter.key a.remaining a.now
  .ok (w.storeEscrow a.voter.key escrow)

/-! ## Unlock -/

structure Unlock where
  account : Signer
  accountGraiAta : Key
  remaining : List Key
  graiAmount : ℕ

/-- return `graiAmount` of the lock to the wallet, minus the flat penalty, which goes to Grinders -/
def executeUnlock (w : World) (a : Unlock) : Except ErrorCode World := do
  let _ ← loadGraiMint w
  let account := a.account.key
  let escrow ← loadEscrow w account
  let graiVault := Key.vault w.state.graiMint
  let _ ← loadOwned w.bank a.accountGraiAta w.state.graiMint account .invalidDestination
  let _ ← loadCustody w.bank graiVault w.state.graiMint
  let bank ← initAta w.bank w.state.grinders w.state.graiMint
  let w := { w with bank }
  require (w.state.liquidation = false) .liquidationOpen
  require (0 < a.graiAmount) .amountZero
  require (a.graiAmount ≤ escrow.amount) .invalidAmount
  let newAmount ← checkedSub escrow.amount a.graiAmount .invalidAmount
  let (unlockAmount, penalty) ← previewUnlock a.graiAmount escrow.amount w.state.config.unlockPenaltyBps
  let w ← settleAllQuads w a.remaining account escrow.amount newAmount false
  let totalLocked ← checkedSub w.state.totalLocked a.graiAmount .mathOverflow
  let (state, escrow) ← clampVote { w.state with totalLocked } { escrow with amount := newAmount } account
  let bank ← transferFromVault w.bank graiVault a.accountGraiAta unlockAmount
  let bank ← transferFromVault bank graiVault (.ata w.state.grinders w.state.graiMint) penalty
  let lockers := if escrow.amount = 0 then removeFromList state.lockers account else state.lockers
  .ok ({ w with state := { state with lockers }, bank }.storeEscrow account escrow)

/-! ## Bribe -/

structure Bribe where
  briber : Signer
  voter : Key
  settlementMint : Key
  settlementPriceFeed : Feed
  briberSettlementAta : Key
  remaining : List Key
  graiAmount : ℕ

/-- the part of the payment that funds the cuts: half the premium, or the carved half of the discount -/
def bribeCutPool (received bribeAmount premium discount : ℕ) : Except ErrorCode ℕ :=
  if 0 < premium then do
    let bribeBody ← checkedSub bribeAmount premium .mathOverflow
    let bodyShare ← mulDiv received bribeBody bribeAmount
    let rest ← checkedSub received bodyShare .mathOverflow
    .ok (rest / 2)
  else mulDiv received discount bribeAmount

/-- the escrow and the totals of a buy-out, and the GRAI that goes to the briber -/
def buyOut (w : World) (escrow : Escrow) (graiAmount : ℕ) (briber : Key) : Except ErrorCode (World × Escrow) := do
  let voted ← checkedSub escrow.voted graiAmount .mathOverflow
  let amount ← checkedSub escrow.amount graiAmount .mathOverflow
  let totalVoted ← checkedSub w.state.totalVoted graiAmount .mathOverflow
  let totalLocked ← checkedSub w.state.totalLocked graiAmount .mathOverflow
  let bank ← transferFromVault w.bank (.vault w.state.graiMint) (.ata briber w.state.graiMint) graiAmount
  .ok ({ w with state := { w.state with totalVoted, totalLocked }, bank }, { escrow with voted, amount })

/-- the registries after a buy-out -/
def dropEmptied (s : GraiState) (escrow : Escrow) (voter : Key) : GraiState :=
  { s with
    voters := if escrow.voted = 0 then removeFromList s.voters voter else s.voters
    lockers := if escrow.amount = 0 then removeFromList s.lockers voter else s.lockers }

/-- split a received payment: the cuts out of the premium or discount, the rest to the voter -/
def payBribe (w : World) (asset : AssetConfig) (settlement voter : Key) (received bribeAmount premium discount : ℕ) :
    Except ErrorCode World := do
  let cutPool ← bribeCutPool received bribeAmount premium discount
  let voterCut ← checkedSub received cutPool .mathOverflow
  let (asset, bank) ← fundCuts w asset settlement cutPool
  let bank ← transferFromVault bank (.vault settlement) (.ata voter settlement) voterCut
  .ok (World.storeAsset { w with bank } settlement asset)

/-- the accounts of a bribe: the share mint, the voter's escrow, the settlement mint and its listing, and the bank -/
def Bribe.load (w : World) (a : Bribe) :
    Except ErrorCode (MintAccount Key × Escrow × MintAccount Key × AssetConfig × Bank Key) := do
  let graiMint := w.state.graiMint
  let settlement := a.settlementMint
  let mint ← loadGraiMint w
  let escrow ← loadEscrow w a.voter
  let settlementMint ← loadMint w.bank settlement
  let asset ← loadAssetAccount w settlement
  require (asset.bribeable = true) .notBribeable
  require (a.settlementPriceFeed.key = asset.priceFeed) .invalidChainlinkFeed
  let _ ← loadCustody w.bank (.vault graiMint) graiMint
  let _ ← loadCustody w.bank (.vault settlement) settlement
  let bank ← initAta w.bank a.briber.key graiMint
  let _ ← loadOwned bank a.briberSettlementAta settlement a.briber.key .invalidDepositSource
  let bank ← initAta bank a.voter settlement
  let _ ← loadCustody bank (.treasury settlement) settlement
  .ok (mint, escrow, settlementMint, asset, bank)

/-- buy out `graiAmount` of a vote for the dynamic ask in the settlement asset -/
def executeBribe (w : World) (a : Bribe) : Except ErrorCode World := do
  let (mint, escrow, settlementMint, asset, bank) ← a.load w
  let w := { w with bank }
  require (w.state.liquidation = false) .liquidationOpen
  require (0 < a.graiAmount) .amountZero
  require (a.graiAmount ≤ escrow.voted) .invalidAmount
  let bribePrice ← fetchPriceFromFeed a.settlementPriceFeed asset
  let (bribeAmount, premium, discount) ← previewBribe a.graiAmount mint.supply w.state.totalValue w.state.totalVoted
    w.state.config.quorumBps w.state.config.bribePremiumBps settlementMint.decimals bribePrice
  let newLocked ← checkedSub escrow.amount a.graiAmount .mathOverflow
  let w ← settleAllPairs w a.remaining a.voter escrow.amount newLocked
  let (w, escrow) ← buyOut w escrow a.graiAmount a.briber.key
  let bank ← transferFromSigner w.bank a.briberSettlementAta (.vault a.settlementMint) a.briber bribeAmount
  let w := { w with state := dropEmptied w.state escrow a.voter, bank }
  let w ← payBribe w asset a.settlementMint a.voter bribeAmount bribeAmount premium discount
  .ok (w.storeEscrow a.voter escrow)

/-! ## Lock and vote: what they do -/

variable {w w' : World} {e e' : Escrow}

theorem pushLocker_ok {u : Key} {n : ℕ} (hn : n ≠ 0) (h : pushLocker w e u = (w', e')) :
    e'.amount = e.amount ∧ e'.voted = e.voted ∧ ∃ space lamports, w' = { w with
      state := { w.state with lockers := relist w.state.lockers u e.amount n }
      stateSpace := space, stateLamports := lamports } := by
  rw [relist_push hn]
  unfold pushLocker at h
  split_ifs at h ⊢ with h0
  · cases h
    exact ⟨rfl, rfl, _, _, rfl⟩
  · cases h
    exact ⟨rfl, rfl, _, _, rfl⟩

/-- a lock settles the owner, adds to the escrow and the total, and moves the tokens into the GRAI vault -/
theorem performLock_ok {x : ℕ} {source : Key} {owner : Signer} {remaining : List Key} (hn : w.state.assetMints.Nodup)
    (h : performLock w e x source owner remaining = .ok (w', e')) :
    0 < x ∧ e'.amount = e.amount + x ∧ e'.voted = e.voted ∧ ∃ ps space lamports b,
      Settled w.assets w.state.assetMints owner.key e.amount (e.amount + x) w.positions ps ∧
      BankMoves w.state.graiMint (Pi.single (.vault w.state.graiMint) x) 0 w.bank b ∧
      w' = { w with
        state := { w.state with
          totalLocked := w.state.totalLocked + x
          lockers := relist w.state.lockers owner.key e.amount (e.amount + x) }
        stateSpace := space, stateLamports := lamports, positions := ps, bank := b } := by
  simp only [performLock, bind_ok, require_ok, checkedAdd_ok] at h
  obtain ⟨-, hx, n, ⟨-, rfl⟩, w₁, hs, h⟩ := h
  obtain ⟨ps, rfl, hps⟩ := settleAllPairs_ok hn hs
  obtain ⟨⟨w₂, e₂⟩, hp⟩ : ∃ r, pushLocker { w with positions := ps } e owner.key = r := ⟨_, rfl⟩
  simp only [hp, Except.ok.injEq, Prod.mk.injEq] at h
  obtain ⟨_, ⟨-, rfl⟩, b, hb, rfl, rfl⟩ := h
  obtain ⟨-, hv, space, lamports, rfl⟩ := pushLocker_ok (n := e.amount + x) (by omega) hp
  exact ⟨hx, rfl, hv, ps, space, lamports, b, hps, transferFromSigner_moves _ hb, rfl⟩

/-- a lock is a step that enlarges the stake of the owner -/
theorem performLock_step {x : ℕ} {source : Key} {owner : Signer} {remaining : List Key} (hw : w.WF)
    (h : performLock w e x source owner remaining = .ok (w', e')) :
    w'.WF ∧ Step DIVIDEND_PRECISION (w.storeEscrow owner.key e).view (some owner.key) (w'.storeEscrow owner.key e').view := by
  obtain ⟨hx, ha, hv, ps, space, lamports, b, hps, hb, hw'⟩ := performLock_ok hw.nodup h
  have hps' : Settled w.assets w.state.assetMints owner.key e.amount e'.amount w.positions w'.positions := by
    rw [hw', ha]
    exact hps
  have hb' : BankMoves w.state.graiMint (Pi.single (.vault w.state.graiMint) x) 0 w.bank w'.bank := by
    rw [hw']
    exact hb
  obtain ⟨hwf, hstep⟩ := resize_of_store hw (by rw [hw']; rfl) (by rw [hw']) (by rw [hw']) (by rw [hw']) hps'
    (by rw [hw', ha]) (by rw [hw', hv, relist_same]) (by rw [hw']; simp only; omega)
    (by rw [hw']; simp only; omega) (by omega) hb' (by rw [Pi.single_eq_same]; omega) (fun m hm => by simp [hm])
  rw [if_neg (by omega), hb'.supply_eq hw.guarded, hw'] at hstep
  rw [hw'] at hwf ⊢
  exact ⟨hwf, hstep⟩

theorem pushVoter_ok {u : Key} {n : ℕ} (hn : n ≠ 0) (h : pushVoter w e u = (w', e')) :
    e'.amount = e.amount ∧ ∃ space lamports, w' = { w with
      state := { w.state with voters := relist w.state.voters u e.voted n }
      stateSpace := space, stateLamports := lamports } := by
  rw [relist_push hn]
  unfold pushVoter at h
  split_ifs at h ⊢ with h0
  · cases h
    exact ⟨rfl, _, _, rfl⟩
  · cases h
    exact ⟨rfl, _, _, rfl⟩

/-- a vote settles the account at its stake and adds to the vote and the total -/
theorem performVote_ok {x : ℕ} {u : Key} {remaining : List Key} {now : ℤ} (hn : w.state.assetMints.Nodup)
    (h : performVote w e x u remaining now = .ok (w', e')) :
    0 < x ∧ e.voted + x ≤ e.amount ∧ e'.amount = e.amount ∧ e'.voted = e.voted + x ∧ ∃ ps space lamports,
      Settled w.assets w.state.assetMints u e.amount e.amount w.positions ps ∧
      w' = { w with
        state := { w.state with
          totalVoted := w.state.totalVoted + x
          voters := relist w.state.voters u e.voted (e.voted + x) }
        stateSpace := space, stateLamports := lamports, positions := ps } := by
  simp only [performVote, bind_ok, require_ok, checkedAdd_ok] at h
  obtain ⟨-, hx, n, ⟨-, rfl⟩, -, hle, w₁, hs, h⟩ := h
  obtain ⟨ps, rfl, hps⟩ := settleAllPairs_ok hn hs
  obtain ⟨⟨w₂, e₂⟩, hp⟩ : ∃ r, pushVoter { w with positions := ps } e u = r := ⟨_, rfl⟩
  simp only [hp, Except.ok.injEq, Prod.mk.injEq] at h
  obtain ⟨_, ⟨-, rfl⟩, rfl, rfl⟩ := h
  obtain ⟨ha, space, lamports, rfl⟩ := pushVoter_ok (n := e.voted + x) (by omega) hp
  exact ⟨hx, hle, ha, rfl, ps, space, lamports, hps, rfl⟩

/-- a vote is a step that keeps every stake -/
theorem performVote_step {x : ℕ} {u : Key} {remaining : List Key} {now : ℤ} (hw : w.WF)
    (h : performVote w e x u remaining now = .ok (w', e')) :
    w'.WF ∧ Step DIVIDEND_PRECISION (w.storeEscrow u e).view none (w'.storeEscrow u e').view := by
  obtain ⟨hx, hle, ha, hv, ps, space, lamports, hps, hw'⟩ := performVote_ok hw.nodup h
  have hps' : Settled w.assets w.state.assetMints u e.amount e'.amount w.positions w'.positions := by
    rw [hw', ha]
    exact hps
  have hb' : BankMoves w.state.graiMint 0 0 w.bank w'.bank := by
    rw [hw']
    exact .refl _ _
  obtain ⟨hwf, hstep⟩ := resize_of_store hw (by rw [hw']; rfl) (by rw [hw']) (by rw [hw']) (by rw [hw']) hps'
    (by rw [hw', ha, relist_same]) (by rw [hw', hv]) (by rw [hw', ha]) (by rw [hw']; simp only; omega) (by omega) hb'
    (by simp [ha]) (fun m hm => by simp)
  rw [if_pos ha, hb'.supply_eq hw.guarded, hw'] at hstep
  rw [hw'] at hwf ⊢
  exact ⟨hwf, hstep⟩

/-- an instruction may open the GRAI vault or a token account first -/
theorem Committed.of_steps {b : Bank Key} {who : Option Key} (hw : w.WF) (hb : BankMoves w.state.graiMint 0 0 w.bank b)
    (hwf : w'.WF) (hs : Steps DIVIDEND_PRECISION ({ w with bank := b } : World).view who w'.view) :
    Committed .nobody w w' :=
  ⟨hwf, who, .steps (.quiet (bank_flow hw hb le_rfl) hs)⟩

/-- a lock opens the GRAI vault and locks -/
theorem executeLock_locks {a : Lock} (h : executeLock w a = .ok w') :
    ∃ b w₁ e₁, initVault w.bank w.state.graiMint = .ok b ∧
      performLock { w with bank := b } (initEscrow { w with bank := b } a.locker.key) a.graiAmount a.lockerGraiAta a.locker
        a.remaining = .ok (w₁, e₁) ∧
      w' = w₁.storeEscrow a.locker.key e₁ := by
  simp only [executeLock, bind_ok, Prod.exists, Except.ok.injEq] at h
  obtain ⟨_, -, _, -, b, hb, -, -, -, -, -, -, w₁, e₁, hlock, rfl⟩ := h
  exact ⟨b, w₁, e₁, hb, hlock, rfl⟩

theorem executeLock_committed {a : Lock} (hw : w.WF) (h : executeLock w a = .ok w') : Committed .nobody w w' := by
  obtain ⟨b, w₁, e₁, hb, hlock, rfl⟩ := executeLock_locks h
  have hb := initVault_moves w.state.graiMint hb
  obtain ⟨hwf, hstep⟩ := performLock_step (hw.bank hb) hlock
  rw [World.view_initEscrow] at hstep
  exact .of_steps hw hb (hwf.store _ _) (.single hstep)

/-- a vote opens the GRAI vault, locks what it is short of, if anything, and votes -/
theorem executeVote_votes {a : Vote} (h : executeVote w a = .ok w') :
    ∃ b w₁ e₁ w₂ e₂, initVault w.bank w.state.graiMint = .ok b ∧
      ((w₁ = { w with bank := b } ∧ e₁ = initEscrow { w with bank := b } a.voter.key) ∨
        ∃ x, performLock { w with bank := b } (initEscrow { w with bank := b } a.voter.key) x a.voterGraiAta a.voter
          a.remaining = .ok (w₁, e₁)) ∧
      performVote w₁ e₁ a.graiAmount a.voter.key a.remaining a.now = .ok (w₂, e₂) ∧
      w' = w₂.storeEscrow a.voter.key e₂ := by
  simp only [executeVote, bind_ok, Prod.exists, Except.ok.injEq] at h
  obtain ⟨_, -, _, -, b, hb, -, -, -, -, n, -, w₁, e₁, hauto, w₂, e₂, hvote, rfl⟩ := h
  refine ⟨b, w₁, e₁, w₂, e₂, hb, ?_, hvote, rfl⟩
  unfold autoLock at hauto
  split_ifs at hauto
  · simp only [bind_ok] at hauto
    obtain ⟨-, -, hlock⟩ := hauto
    exact .inr ⟨_, hlock⟩
  · cases hauto
    exact .inl ⟨rfl, rfl⟩

theorem executeVote_committed {a : Vote} (hw : w.WF) (h : executeVote w a = .ok w') : Committed .nobody w w' := by
  obtain ⟨b, w₁, e₁, w₂, e₂, hb, hauto, hvote, rfl⟩ := executeVote_votes h
  have hb := initVault_moves w.state.graiMint hb
  have hauto : w₁.WF ∧ ∃ who, Steps DIVIDEND_PRECISION ({ w with bank := b } : World).view who
      (w₁.storeEscrow a.voter.key e₁).view := by
    rcases hauto with ⟨rfl, rfl⟩ | ⟨x, hlock⟩
    · rw [World.view_initEscrow]
      exact ⟨hw.bank hb, none, .nil _⟩
    · obtain ⟨hwf, hstep⟩ := performLock_step (hw.bank hb) hlock
      rw [World.view_initEscrow] at hstep
      exact ⟨hwf, _, .single hstep⟩
  obtain ⟨hwf₁, who, hs⟩ := hauto
  obtain ⟨hwf₂, hstep⟩ := performVote_step hwf₁ hvote
  exact .of_steps hw hb (hwf₂.store _ _) (hs.followed (.single hstep))

/-! ## Unlock and bribe: what they do -/

/-- clamping lowers the vote to the lock, if it is above -/
theorem clampVote_ok {s s' : GraiState} {u : Key} (h : clampVote s e u = .ok (s', e')) :
    e'.amount = e.amount ∧ e'.voted ≤ e'.amount ∧ s'.totalVoted + e.voted = s.totalVoted + e'.voted ∧
      s' = { s with totalVoted := s'.totalVoted, voters := relist s.voters u e.voted e'.voted } := by
  unfold clampVote at h
  by_cases h0 : e.voted = 0 ∨ e.voted ≤ e.amount
  · rw [if_pos h0] at h
    cases h
    rw [relist_same]
    exact ⟨rfl, by omega, rfl, rfl⟩
  · rw [if_neg h0] at h
    simp only [bind_ok, checkedSub_ok, Except.ok.injEq, Prod.mk.injEq] at h
    obtain ⟨t, ⟨hle, rfl⟩, rfl, rfl⟩ := h
    have hv : e.voted ≠ 0 := by omega
    rw [relist_remove hv]
    refine ⟨rfl, le_rfl, ?_, rfl⟩
    simp only
    omega

/-- an unlock opens the account of Grinders, settles the owner, clamps its vote, and pays it and Grinders out of the GRAI
vault -/
theorem executeUnlock_releases {a : Unlock} (hw : w.WF) (h : executeUnlock w a = .ok w') :
    ∃ e b x penalty ps s e' b₁ b₂, w.escrows a.account.key = some e ∧
      initAta w.bank w.state.grinders w.state.graiMint = .ok b ∧ 0 < a.graiAmount ∧ a.graiAmount ≤ e.amount ∧
      previewUnlock a.graiAmount e.amount w.state.config.unlockPenaltyBps = .ok (x, penalty) ∧
      Settled w.assets w.state.assetMints a.account.key e.amount (e.amount - a.graiAmount) w.positions ps ∧
      a.graiAmount ≤ w.state.totalLocked ∧
      clampVote { w.state with totalLocked := w.state.totalLocked - a.graiAmount }
        { e with amount := e.amount - a.graiAmount } a.account.key = .ok (s, e') ∧
      transferFromVault b (.vault w.state.graiMint) a.accountGraiAta x = .ok b₁ ∧
      transferFromVault b₁ (.vault w.state.graiMint) (.ata w.state.grinders w.state.graiMint) penalty = .ok b₂ ∧
      w' = World.storeEscrow { w with
        state := { s with lockers := if e'.amount = 0 then removeFromList s.lockers a.account.key else s.lockers }
        positions := ps, bank := b₂ } a.account.key e' := by
  simp only [executeUnlock, bind_ok, require_ok, checkedSub_ok, Prod.exists, Except.ok.injEq] at h
  obtain ⟨-, -, e, he, -, -, -, -, b, hb, -, -, -, hx, -, hle, n, ⟨-, rfl⟩, x, penalty, hpen, w₁, hs, t, ⟨htl, rfl⟩,
    s, e', hclamp, b₁, hb₁, b₂, hb₂, h⟩ := h
  obtain ⟨ps, rfl, hps⟩ := settleAllQuads_ok (hw.bank (initAta_moves w.state.graiMint hb)).nodup hs
  exact ⟨e, b, x, penalty, ps, s, e', b₁, b₂, loadEscrow_ok he, hb, hx, hle, hpen, hps, htl, hclamp, hb₁, hb₂, h.symm⟩

theorem executeUnlock_committed {a : Unlock} (hw : w.WF) (h : executeUnlock w a = .ok w') : Committed .nobody w w' := by
  obtain ⟨e, b, x, penalty, ps, s, e', b₁, b₂, he, hb, hx, hxle, hpen, hps, htl, hclamp, hb₁, hb₂, h⟩ := executeUnlock_releases hw h
  have hb := initAta_moves w.state.graiMint hb
  have hw₁ := hw.bank hb
  obtain ⟨ha, hle, hvoted, hst⟩ := clampVote_ok hclamp
  dsimp only at ha hvoted hst
  have hsum : x + penalty = a.graiAmount := previewUnlock_ok hpen
  -- both transfers leave the GRAI vault
  have hmoves := (transferFromVault_debits w.state.graiMint hb₁).trans (transferFromVault_debits w.state.graiMint hb₂)
  obtain ⟨v, hv⟩ : ∃ v : World, v = { w with
      state := { s with
        lockers := if e'.amount = 0 then removeFromList s.lockers a.account.key else s.lockers }
      positions := ps, bank := b₂ } := ⟨_, rfl⟩
  have hps' : Settled w.assets w.state.assetMints a.account.key e.amount e'.amount w.positions v.positions := by
    rw [hv, ha]
    exact hps
  have hb' : BankMoves w.state.graiMint
      (-Pi.single (.vault w.state.graiMint) (x : ℤ) + -Pi.single (.vault w.state.graiMint) (penalty : ℤ)) (0 + 0) b v.bank := by
    rw [hv]
    exact hmoves
  obtain ⟨hwf, hstep⟩ := resize_of_store (w := { w with bank := b }) hw₁ (by rw [hv, hst]; rfl) (by rw [hv, hst])
    (by rw [hv]) (by rw [hv]) hps' (by rw [relist_remove (by omega), hv, hst]) (by rw [hv, hst])
    (by rw [hv, hst, ha]; dsimp only; omega) (by rw [hv]; exact hvoted) (fun _ => hle) hb' (by simp [ha]; omega)
    (fun m hm => by simp [hm])
  have hvalue : v.state.totalValue = w.state.totalValue := by rw [hv, hst]
  rw [hvalue, hb'.supply_eq hw₁.guarded, World.storeEscrow_of_some (by exact he)] at hstep
  rw [h, ← hv]
  exact .of_steps hw hb (hwf.store _ _) (.single hstep)

/-- the bought GRAI leaves the stake and the vote of the voter, and the GRAI vault -/
theorem buyOut_ok {x : ℕ} {u : Key} (h : buyOut w e x u = .ok (w', e')) :
    x ≤ e.voted ∧ x ≤ e.amount ∧ x ≤ w.state.totalVoted ∧ x ≤ w.state.totalLocked ∧
      e' = { e with voted := e.voted - x, amount := e.amount - x } ∧
      ∃ b, transferFromVault w.bank (.vault w.state.graiMint) (.ata u w.state.graiMint) x = .ok b ∧
        w' = { w with
          state := { w.state with totalVoted := w.state.totalVoted - x, totalLocked := w.state.totalLocked - x }
          bank := b } := by
  simp only [buyOut, bind_ok, checkedSub_ok, Except.ok.injEq, Prod.mk.injEq] at h
  obtain ⟨_, ⟨hv, rfl⟩, _, ⟨ha, rfl⟩, _, ⟨htv, rfl⟩, _, ⟨htl, rfl⟩, b, hb, rfl, rfl⟩ := h
  exact ⟨hv, ha, htv, htl, rfl, b, hb, rfl⟩

theorem Bribe.load_ok {a : Bribe} {mint settlementMint : MintAccount Key} {asset : AssetConfig} {b : Bank Key}
    (h : a.load w = .ok (mint, e, settlementMint, asset, b)) :
    w.escrows a.voter = some e ∧ w.assets a.settlementMint = some asset ∧ BankMoves w.state.graiMint 0 0 w.bank b := by
  simp only [Bribe.load, bind_ok, require_ok, Except.ok.injEq, Prod.mk.injEq] at h
  obtain ⟨_, -, _, he, _, -, _, ha, -, -, -, -, -, -, -, -, b₁, hb₁, -, -, b₂, hb₂, -, -, rfl, rfl, rfl, rfl, rfl⟩ := h
  exact ⟨loadEscrow_ok he, loadAssetAccount_ok ha, (initAta_moves _ hb₁).before (initAta_moves _ hb₂)⟩

/-- the cuts are funded out of the pool of the payment, and the voter takes the rest -/
theorem payBribe_pays {asset : AssetConfig} {m u : Key} {received bribe premium discount : ℕ}
    (h : payBribe w asset m u received bribe premium discount = .ok w') :
    ∃ pool asset' b b', bribeCutPool received bribe premium discount = .ok pool ∧ pool ≤ received ∧
      fundCuts w asset m pool = .ok (asset', b) ∧
      transferFromVault b (.vault m) (.ata u m) (received - pool) = .ok b' ∧
      w' = World.storeAsset { w with bank := b' } m asset' := by
  simp only [payBribe, bind_ok, checkedSub_ok, Prod.exists, Except.ok.injEq] at h
  obtain ⟨pool, hpool, x, ⟨hle, rfl⟩, asset', b, hfund, b', hb', rfl⟩ := h
  exact ⟨pool, asset', b, b', hpool, hle, hfund, hb', rfl⟩

/-- of the payment, `r` stays in the vault, reserved, `gain` goes to the treasury, and the voter takes the rest -/
theorem payBribe_ok {asset : AssetConfig} {m u : Key} {received bribe premium discount : ℕ} (hcfg : w.state.config.Valid)
    (h : payBribe w asset m u received bribe premium discount = .ok w') :
    ∃ acc r gain b, asset.accShare ≤ acc ∧
      earned DIVIDEND_PRECISION w.state.totalLocked acc =
        earned DIVIDEND_PRECISION w.state.totalLocked asset.accShare + r ∧
      r * w.state.config.treasuryCutBps ≤ gain * w.state.config.dividendCutBps ∧
      BankMoves w.state.graiMint (Pi.single (.treasury m) (gain : ℤ) + Pi.single (.vault m) (r - received : ℤ)) 0 w.bank b ∧
      w' = World.storeAsset { w with bank := b } m
        { asset with accShare := acc, totalClaimable := asset.totalClaimable + r } := by
  obtain ⟨pool, asset', b₁, b₂, -, hpool, hfund, hb₂, rfl⟩ := payBribe_pays h
  obtain ⟨acc, r, gain, hacc, hsum, hearned, rfl, hgain, hb₁⟩ := fundCuts_ok hcfg hfund
  refine ⟨acc, r, gain, b₂, hacc, hearned, hgain, ?_, rfl⟩
  refine (hb₁.trans (transferFromVault_debits _ hb₂)).mono fun k _ _ => ?_
  simp only [Pi.add_apply, Pi.sub_apply, Pi.neg_apply, Pi.single_apply]
  split_ifs <;> omega

/-- a buy-out shrinks the stake of the voter -/
theorem buyOut_step {x : ℕ} {u briber : Key} {ps : Key × Key → Option Position} (hw : w.WF) (he : w.escrows u = some e)
    (hps : Settled w.assets w.state.assetMints u e.amount (e.amount - x) w.positions ps) (hx : 0 < x)
    (h : buyOut { w with positions := ps } e x briber = .ok (w', e')) :
    ({ w' with state := dropEmptied w'.state e' u } : World).WF ∧ ∃ who, Step DIVIDEND_PRECISION w.view who
      (({ w' with state := dropEmptied w'.state e' u } : World).storeEscrow u e').view := by
  obtain ⟨hxv, hxa, hxt, hxl, he', b, hb, hw'⟩ := buyOut_ok h
  have hv' : e'.voted = e.voted - x := by rw [he']
  have ha' : e'.amount = e.amount - x := by rw [he']
  obtain ⟨v, hv⟩ : ∃ v : World, v = { w' with state := dropEmptied w'.state e' u } := ⟨_, rfl⟩
  rw [← hv]
  have hps' : Settled w.assets w.state.assetMints u e.amount e'.amount w.positions v.positions := by
    rw [hv, hw', ha']
    exact hps
  have hb' : BankMoves w.state.graiMint (-Pi.single (.vault w.state.graiMint) (x : ℤ)) 0 w.bank v.bank := by
    rw [hv, hw']
    exact transferFromVault_debits _ hb
  have hlockers : v.state.lockers = relist w.state.lockers u e.amount e'.amount := by
    rw [relist_remove (by omega), hv, hw']
    rfl
  have hvoters : v.state.voters = relist w.state.voters u e.voted e'.voted := by
    rw [relist_remove (by omega), hv, hw']
    rfl
  have hlocked : v.state.totalLocked + e.amount = w.state.totalLocked + e'.amount := by
    have hl : v.state.totalLocked = w.state.totalLocked - x := by rw [hv, hw']; rfl
    dsimp only at hxl
    omega
  have hvoted : v.state.totalVoted + e.voted = w.state.totalVoted + e'.voted := by
    have hl : v.state.totalVoted = w.state.totalVoted - x := by rw [hv, hw']; rfl
    dsimp only at hxt
    omega
  obtain ⟨hwf, hstep⟩ := resize_of_store hw (by rw [hv, hw']; rfl) (by rw [hv, hw']; rfl) (by rw [hv, hw'])
    (by rw [hv, hw']) hps' hlockers hvoters hlocked hvoted (by omega) hb' (by simp; omega) (fun m hm => by simp [hm])
  have hvalue : v.state.totalValue = w.state.totalValue := by rw [hv, hw']; rfl
  rw [hvalue, hb'.supply_eq hw.guarded, World.storeEscrow_of_some he] at hstep
  exact ⟨hwf, _, hstep⟩

/-- a bribe settles the voter, buys out of its vote, and pays for it in the settlement asset -/
theorem executeBribe_buys {a : Bribe} (hw : w.WF) (h : executeBribe w a = .ok w') :
    ∃ t e t' asset b price ask premium discount ps w₂ e' b₁ w₃, a.load w = .ok (t, e, t', asset, b) ∧
      0 < a.graiAmount ∧ fetchPriceFromFeed a.settlementPriceFeed asset = .ok price ∧
      previewBribe a.graiAmount t.supply w.state.totalValue w.state.totalVoted w.state.config.quorumBps
        w.state.config.bribePremiumBps t'.decimals price = .ok (ask, premium, discount) ∧
      Settled w.assets w.state.assetMints a.voter e.amount (e.amount - a.graiAmount) w.positions ps ∧
      buyOut { w with bank := b, positions := ps } e a.graiAmount a.briber.key = .ok (w₂, e') ∧
      transferFromSigner w₂.bank a.briberSettlementAta (.vault a.settlementMint) a.briber ask = .ok b₁ ∧
      payBribe { w₂ with state := dropEmptied w₂.state e' a.voter, bank := b₁ } asset a.settlementMint a.voter ask ask
        premium discount = .ok w₃ ∧
      w' = w₃.storeEscrow a.voter e' := by
  simp only [executeBribe, bind_ok, require_ok, checkedSub_ok, Prod.exists, Except.ok.injEq] at h
  obtain ⟨t, e, t', asset, b, hload, -, -, -, hx, -, -, price, hprice, ask, premium, discount, hask, n, ⟨-, rfl⟩,
    w₁, hs, w₂, e', hbuy, b₁, hb₁, w₃, hpay, rfl⟩ := h
  obtain ⟨-, -, hb⟩ := Bribe.load_ok hload
  obtain ⟨ps, rfl, hps⟩ := settleAllPairs_ok (hw.bank hb).nodup hs
  exact ⟨t, e, t', asset, b, price, ask, premium, discount, ps, w₂, e', b₁, w₃, hload, hx, hprice, hask, hps, hbuy, hb₁,
    hpay, rfl⟩

theorem executeBribe_committed {a : Bribe} (hw : w.WF) (h : executeBribe w a = .ok w') : Committed .nobody w w' := by
  obtain ⟨t, e, t', asset, b, price, bribe, premium, discount, ps, w₂, e', b₁, w₃, hload, hx, -, -, hps, hbuy, hb₁, hpay,
    rfl⟩ := executeBribe_buys hw h
  obtain ⟨he, hasset, hb⟩ := Bribe.load_ok hload
  have hw₁ := hw.bank hb
  obtain ⟨hwf, who, hstep⟩ := buyOut_step hw₁ he hps hx hbuy
  obtain ⟨-, -, -, -, -, b₂, -, hw₂⟩ := buyOut_ok hbuy
  obtain ⟨v, hv⟩ : ∃ v : World, v = { w₂ with state := dropEmptied w₂.state e' a.voter } := ⟨_, rfl⟩
  have hgrai : w₂.state.graiMint = v.state.graiMint := by rw [hv]; rfl
  have hpay' : payBribe { v with bank := b₁ } asset a.settlementMint a.voter bribe bribe premium discount = .ok w₃ := by
    rw [hv]
    exact hpay
  have hb₁' : BankMoves v.state.graiMint (Pi.single (.vault a.settlementMint) (bribe : ℤ)) 0 v.bank b₁ := by
    rw [hv]
    exact transferFromSigner_moves _ hb₁
  have hasset' : v.assets a.settlementMint = some asset := by
    rw [hv, hw₂]
    exact hasset
  rw [← hv] at hwf hstep
  obtain ⟨acc, r, gain, b₃, hacc, hearned, hgain, hb₃, rfl⟩ := payBribe_ok (w := { v with bank := b₁ }) hwf.config hpay'
  -- the payment arrived in the vault: `r` of it stays
  have hmoves : BankMoves v.state.graiMint
      (Pi.single (.treasury a.settlementMint) (gain : ℤ) + Pi.single (.vault a.settlementMint) (r : ℤ)) 0 v.bank b₃ := by
    refine (hb₁'.trans hb₃).mono fun k _ _ => ?_
    simp only [Pi.add_apply, Pi.single_apply]
    split_ifs <;> omega
  have hwf' := hwf.store a.voter e'
  obtain ⟨hwf₃, haccrue⟩ := accrue_of_store (w := v.storeEscrow a.voter e') hwf'
    { asset with accShare := acc, totalClaimable := asset.totalClaimable + r } hasset' hacc hearned rfl hgain
    hmoves (by simp) (by simp) (fun n hn => by simp [hn]) (v.storeEscrow a.voter e').view.pos
  exact ⟨hwf₃, who, .moves .none (.accrues (.quiet (bank_flow hw hb le_rfl) (.single hstep)) haccrue)⟩

end Grindurus.Grai
