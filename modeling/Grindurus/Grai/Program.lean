/-
The program as a machine (`programs/grai/src/lib.rs`).

- `Genesis`: a successful `initialize`. `Instr`: everything that can happen after it: the instructions of the program, and
  what others do to the accounts it reads. `step` commits an instruction or fails.
- `step_committed`: whatever commits keeps the program's accounts in order and is a transition of the ledger.
- `Genesis.after`: the world after a run. `after_induct`, `after_meets`: invariants of the world over whole runs.
  `after_ledger`, `after_ledger_of`: invariants of the ledger.
-/
import Grindurus.Lib.Machine
import Grindurus.Grai.Claims
import Grindurus.Grai.Deposits
import Grindurus.Grai.Governance
import Grindurus.Grai.Liquidation

namespace Grindurus.Grai

open Checked TokenBank Registry Machine Function

/-! ## Initialize -/

def GraiState.DECIMALS : ℕ := 6

def DEFAULT_ROYALTY_BPS : ℕ := 500
def DEFAULT_AFFILIATE_LEVELS : ℕ := 2
def DEFAULT_AFFILIATE_SHARE_BPS : List ℕ := [8000, 2000]

structure Initialize where
  owner : Signer
  graiMint : Signer
  now : ℤ

/-- create the state account and the share mint; the owner is its own Grinders for now -/
def executeInitialize (bank : Bank Key) (grinders : Key → Option GrindersState) (a : Initialize) : Except ErrorCode World := do
  let owner := a.owner.key
  let bank ← spl (bank.createMint a.graiMint.key GraiState.DECIMALS .protocol)
  let space := GraiState.space 0 0 0 0
  .ok
    { state :=
        { owner, pendingOwner := .default, beneficiar := owner, grinders := owner, totalValue := 0, totalLocked := 0
          totalVoted := 0, liquidation := false, liquidationAt := 0, mintPremiumAt := a.now, graiMint := a.graiMint.key
          config := defaultProtocolConfig, royaltyBps := DEFAULT_ROYALTY_BPS, affiliateLevels := DEFAULT_AFFILIATE_LEVELS
          affiliateShareBps := DEFAULT_AFFILIATE_SHARE_BPS, assetMints := [], lockers := [], voters := [], referrers := [] }
      stateSpace := space, stateLamports := rentMinimum space
      assets := fun _ => none, escrows := fun _ => none, positions := fun _ => none, books := fun _ => none
      bank, grinders }

/-- the program before its first instruction: initialized, and only it can create accounts at its addresses -/
structure Genesis where
  bank : Bank Key
  grinders : Key → Option GrindersState
  args : Initialize
  world : World
  fresh : ∀ k m, k.custodyMint = some m → bank.accounts k = none
  initialized : executeInitialize bank grinders args = .ok world

/-! ## Instructions -/

inductive Instr where
  | transferOwnership (a : TransferOwnership)
  | acceptOwnership (a : AcceptOwnership)
  | setBeneficiar (a : SetBeneficiar)
  | setRoyaltyBps (a : SetRoyaltyBps)
  | setRevenueShareBps (a : SetRevenueShareBps)
  | setGrinders (a : SetGrinders)
  | setBribeable (a : SetBribeable)
  | setConfig (a : SetConfig)
  | setFeed (a : SetFeed)
  | deposit (a : Deposit)
  | depositSol (a : DepositSol)
  | distribute (a : Distribute)
  | lock (a : Lock)
  | unlock (a : Unlock)
  | claim (a : Claim)
  | claimAll (a : ClaimAll)
  | vote (a : Vote)
  | bribe (a : Bribe)
  | poach (a : Poach)
  | liquidate (a : Liquidate)
  | redeem (a : Redeem)
  | revive (a : Revive)
  /-- a holder uses the token program directly -/
  | token (s : Signer) (op : Bank.Op Key)
  /-- lamports are sent to an account of the wrapped native coin -/
  | wrap (k : Key) (x : ℕ)
  /-- the Grinders program writes its own account -/
  | grinders (k : Key) (g : GrindersState)

/-- an account is created at an address that can sign, or at the associated one of its owner and mint -/
def permitted : Bank.Op Key → Bool
  | .openAccount (.key _) _ _ => true
  | .openAccount (.ata owner mint) mint' owner' => owner = owner' ∧ mint = mint'
  | .openAccount _ _ _ => false
  | .createMint (.key _) _ _ => true
  | .createMint _ _ _ => false
  | _ => true

/-- who moves by an instruction -/
def Instr.actor (w : World) : Instr → Actor Key
  | .setFeed a => a.actor w
  | .claim a => .collector a.holder
  | .claimAll a => .collector a.holder
  | .distribute a => .opener a.custodyWallet.key
  | .token .. => .burner
  | _ => .nobody

def step (w : World) : Instr → Except ErrorCode World
  | .transferOwnership a => executeTransferOwnership w a
  | .acceptOwnership a => executeAcceptOwnership w a
  | .setBeneficiar a => executeSetBeneficiar w a
  | .setRoyaltyBps a => executeSetRoyaltyBps w a
  | .setRevenueShareBps a => executeSetRevenueShareBps w a
  | .setGrinders a => executeSetGrinders w a
  | .setBribeable a => executeSetBribeable w a
  | .setConfig a => executeSetConfig w a
  | .setFeed a => executeSetFeed w a
  | .deposit a => executeDeposit w a
  | .depositSol a => executeDepositSol w a
  | .distribute a => executeDistribute w a
  | .lock a => executeLock w a
  | .unlock a => executeUnlock w a
  | .claim a => do
    let (w, _) ← executeClaim w a
    .ok w
  | .claimAll a => do
    let (w, _) ← executeClaimAll w a
    .ok w
  | .vote a => executeVote w a
  | .bribe a => executeBribe w a
  | .poach a => executePoach w a
  | .liquidate a => executeLiquidate w a
  | .redeem a => executeRedeem w a
  | .revive a => executeRevive w a
  | .token s op => do
    require (permitted op = true) (.constraintSeeds s.key)
    let bank ← spl (w.bank.apply s.key op)
    .ok { w with bank }
  | .wrap k x => do
    let bank ← spl (w.bank.wrap .nativeMint k x)
    .ok { w with bank }
  | .grinders k g => .ok { w with grinders := update w.grinders k (some g) }

variable {w w' : World}

/-- the instructions that write who is who, and how revenue is shared -/
def Instr.governs : Instr → Bool
  | .transferOwnership _ => true
  | .acceptOwnership _ => true
  | .setBeneficiar _ => true
  | .setRoyaltyBps _ => true
  | .setRevenueShareBps _ => true
  | .setGrinders _ => true
  | _ => false

/-- what such an instruction can write -/
theorem step_governs {i : Instr} (hi : i.governs = true) (h : step w i = .ok w') :
    ∃ owner pendingOwner beneficiar grinders royaltyBps affiliateLevels affiliateShareBps, w' = { w with
      state := { w.state with
        owner, pendingOwner, beneficiar, grinders, royaltyBps, affiliateLevels, affiliateShareBps } } := by
  cases i with
  | transferOwnership a =>
    simp only [step, executeTransferOwnership, bind_ok, Except.ok.injEq] at h
    obtain ⟨-, -, -, -, rfl⟩ := h
    exact ⟨_, _, _, _, _, _, _, rfl⟩
  | acceptOwnership a =>
    simp only [step, executeAcceptOwnership, bind_ok, Except.ok.injEq] at h
    obtain ⟨-, -, -, -, rfl⟩ := h
    exact ⟨_, _, _, _, _, _, _, rfl⟩
  | setBeneficiar a =>
    simp only [step, executeSetBeneficiar, bind_ok, Except.ok.injEq] at h
    obtain ⟨-, -, -, -, -, -, rfl⟩ := h
    exact ⟨_, _, _, _, _, _, _, rfl⟩
  | setRoyaltyBps a =>
    simp only [step, executeSetRoyaltyBps, bind_ok, Except.ok.injEq] at h
    obtain ⟨-, -, -, -, -, -, rfl⟩ := h
    exact ⟨_, _, _, _, _, _, _, rfl⟩
  | setRevenueShareBps a =>
    simp only [step, executeSetRevenueShareBps, bind_ok, Except.ok.injEq] at h
    obtain ⟨-, -, -, -, -, -, -, -, rfl⟩ := h
    exact ⟨_, _, _, _, _, _, _, rfl⟩
  | setGrinders a =>
    simp only [step, executeSetGrinders, bind_ok, Except.ok.injEq] at h
    obtain ⟨-, -, -, -, -, -, -, -, _, -, -, -, rfl⟩ := h
    exact ⟨_, _, _, _, _, _, _, rfl⟩
  | _ => cases hi

/-! ## Every step is a transition -/

theorem permitted_creates {op : Bank.Op Key} {k : Key} (h : permitted op = true) (hk : op.creates = some k) :
    k.custodyMint = none := by
  cases op with
  | openAccount j m owner =>
    cases hk
    cases k <;> simp_all [permitted, Key.custodyMint]
  | createMint j decimals auth =>
    cases hk
    cases k <;> simp_all [permitted, Key.custodyMint]
  | _ => cases hk

/-- what a holder does with the token program may burn shares, and otherwise only moves its own tokens -/
theorem token_committed {s : Signer} {op : Bank.Op Key} {b : Bank Key} (hw : w.WF) (hp : permitted op = true)
    (h : w.bank.apply s.key op = .ok b) : Committed .burner w { w with bank := b } := by
  have hrespects := Bank.apply_respects (s := fun k => ∃ m, k.custodyMint = some m) h s.key_ne_protocol fun k hk ⟨m, hm⟩ => by
    cases (permitted_creates hp hk).symm.trans hm
  have hle : b.supply w.state.graiMint ≤ w.supply := Bank.Respects.supply_le hw.guarded.authority hrespects
  have hmoves : BankMoves w.state.graiMint 0 (b.supply w.state.graiMint - w.supply : ℤ) w.bank b := by
    refine fun hb => ⟨hb.respects hrespects, ?_, fun k m hm => by simpa using Bank.Respects.balance_le hb.owned hrespects hm⟩
    unfold World.supply
    omega
  refine ⟨hw.bank hmoves, none, .moves (.burn (w.supply - b.supply w.state.graiMint) (Nat.sub_le ..)) (.steps (.single ?_))⟩
  have hflow := flow_of_moves
    (s := { w.view with supply := w.view.supply - (w.supply - b.supply w.state.graiMint) }) rfl hmoves hw.guarded le_rfl
    DIVIDEND_PRECISION
  refine cast (congrArg _ ?_) hflow
  have hsupply : w.supply - (w.supply - b.supply w.state.graiMint) = b.supply w.state.graiMint := by omega
  show ({ w.view with supply := w.supply - (w.supply - b.supply w.state.graiMint), held := holdingsOf w.state.graiMint b } : Ledger Key) = _
  rw [hsupply]
  rfl

/-- **Every step is a transition.** Whatever commits keeps the accounts in order and moves the ledger. -/
theorem step_committed {i : Instr} (hw : w.WF) (h : step w i = .ok w') : Committed (i.actor w) w w' := by
  cases i with
  | transferOwnership a => exact executeTransferOwnership_committed hw h
  | acceptOwnership a => exact executeAcceptOwnership_committed hw h
  | setBeneficiar a => exact executeSetBeneficiar_committed hw h
  | setRoyaltyBps a => exact executeSetRoyaltyBps_committed hw h
  | setRevenueShareBps a => exact executeSetRevenueShareBps_committed hw h
  | setGrinders a => exact executeSetGrinders_committed hw h
  | setBribeable a => exact executeSetBribeable_committed hw h
  | setConfig a => exact executeSetConfig_committed hw h
  | setFeed a => exact executeSetFeed_committed hw h
  | deposit a => exact executeDeposit_committed hw h
  | depositSol a => exact executeDepositSol_committed hw h
  | distribute a => exact executeDistribute_committed hw h
  | lock a => exact executeLock_committed hw h
  | unlock a => exact executeUnlock_committed hw h
  | claim a =>
    simp only [step, bind_ok, Prod.exists, Except.ok.injEq] at h
    obtain ⟨w₁, log, h, rfl⟩ := h
    exact executeClaim_committed hw h
  | claimAll a =>
    simp only [step, bind_ok, Prod.exists, Except.ok.injEq] at h
    obtain ⟨w₁, log, h, rfl⟩ := h
    exact executeClaimAll_committed hw h
  | vote a => exact executeVote_committed hw h
  | bribe a => exact executeBribe_committed hw h
  | poach a => exact executePoach_committed hw h
  | liquidate a => exact executeLiquidate_committed hw h
  | redeem a => exact executeRedeem_committed hw h
  | revive a => exact executeRevive_committed hw h
  | token s op =>
    simp only [step, bind_ok, require_ok, Except.ok.injEq] at h
    obtain ⟨-, hp, b, hb, rfl⟩ := h
    exact token_committed hw hp (spl_ok.1 hb)
  | wrap k x =>
    simp only [step, bind_ok, Except.ok.injEq] at h
    obtain ⟨b, hb, rfl⟩ := h
    exact (Quiet.of_bank (wrap_moves _ (spl_ok.1 hb))).committed hw
  | grinders k g =>
    simp only [step, Except.ok.injEq] at h
    subst h
    exact .of_view (hw.keep rfl (fun _ => rfl) hw.guarded) rfl

/-! ## Runs -/

theorem run_wf (hw : w.WF) (is : List Instr) : (run step w is).WF :=
  run_invariant (fun _ _ _ hw h => (step_committed hw h).wf) w is hw

/-- a ledger without stakes, assets, value or shares -/
def Ledger.empty (held : Holdings Key) : Ledger Key where
  lock _ := 0
  voted _ := 0
  totalLocked := 0
  totalVoted := 0
  lockers := []
  voters := []
  asset _ := none
  pos _ _ := none
  held
  dividendCut := defaultProtocolConfig.dividendCutBps
  treasuryCut := defaultProtocolConfig.treasuryCutBps
  totalValue := 0
  supply := 0
  liquidation := false

/-- what an initialization leaves: a new share mint, which has no supply, and of the accounts of the program only its state -/
structure Blank (b : Bank Key) (w : World) : Prop where
  assets : w.assets = fun _ => none
  escrows : w.escrows = fun _ => none
  books : w.books = fun _ => none
  lists : w.state.assetMints = [] ∧ w.state.lockers = [] ∧ w.state.voters = [] ∧ w.state.referrers = []
  space : w.stateSpace = GraiState.space 0 0 0 0
  rent : w.stateLamports = rentMinimum w.stateSpace
  accounts : w.bank.accounts = b.accounts
  unminted : b.mints w.state.graiMint = none
  supply : w.bank.supply w.state.graiMint = 0

namespace Genesis

theorem blank (g : Genesis) : Blank g.bank g.world := by
  have h := g.initialized
  simp only [executeInitialize, bind_ok, spl_ok, Except.ok.injEq] at h
  obtain ⟨b, hb, hw⟩ := h
  obtain ⟨-, hnone, rfl⟩ := Bank.createMint_ok hb
  rw [← hw]
  exact ⟨rfl, rfl, rfl, ⟨rfl, rfl, rfl, rfl⟩, rfl, rfl, rfl, hnone, by rw [Bank.putMint_supply, if_pos rfl]⟩

theorem wf (g : Genesis) : g.world.WF := by
  have h := g.initialized
  simp only [executeInitialize, bind_ok, spl_ok, Except.ok.injEq] at h
  obtain ⟨b, hb, hw⟩ := h
  obtain ⟨-, -, rfl⟩ := Bank.createMint_ok hb
  rw [← hw]
  refine ⟨⟨g.args.graiMint, rfl⟩, ⟨fun k m hk a ha => ?_, ⟨_, update_self .., rfl⟩⟩, ?_, rfl, ?_, ⟨rfl, rfl, rfl⟩⟩
  · cases (g.fresh k m hk).symm.trans ha
  · exact ⟨List.nodup_nil, by simp⟩
  · exact validateProtocolConfig_ok validate_default

theorem view (g : Genesis) : g.world.view = .empty g.world.holdings := by
  have h := g.initialized
  simp only [executeInitialize, bind_ok, spl_ok, Except.ok.injEq] at h
  obtain ⟨b, hb, hw⟩ := h
  obtain ⟨-, -, rfl⟩ := Bank.createMint_ok hb
  rw [← hw]
  simp only [World.view, World.supply, Bank.putMint_supply]
  rfl

end Genesis

/-- the world that the instructions `is` lead to; those that fail change nothing -/
def Genesis.after (g : Genesis) (is : List Instr) : World := run step g.world is

namespace Genesis

/-- one more instruction commits -/
theorem after_step (g : Genesis) {is : List Instr} {i : Instr} {w : World} (h : step (g.after is) i = .ok w) :
    g.after (is ++ [i]) = w := by
  unfold Genesis.after
  rw [run_append]
  exact exec_ok h

theorem after_wf (g : Genesis) (is : List Instr) : (g.after is).WF := run_wf g.wf is

/-- what an instruction that meets `c` keeps in a well-formed world -/
theorem after_meets {P : World → Prop} {c : World → Instr → Prop} (g : Genesis) (hinit : P g.world)
    (hstep : ∀ w i w', w.WF → P w → c w i → step w i = .ok w' → P w') (is : List Instr) (hc : Meets step c g.world is) :
    P (g.after is) := by
  have hboth : ∀ w i w', w.WF ∧ P w → c w i → step w i = .ok w' → w'.WF ∧ P w' := by
    intro w i w' ⟨hw, hP⟩ hi h
    exact ⟨(step_committed hw h).wf, hstep w i w' hw hP hi h⟩
  exact (run_invariant_of hboth g.world is hc ⟨g.wf, hinit⟩).2

theorem after_induct {P : World → Prop} (g : Genesis) (hinit : P g.world)
    (hstep : ∀ w i w', w.WF → P w → step w i = .ok w' → P w') (is : List Instr) : P (g.after is) :=
  after_meets (c := fun _ _ => True) g hinit (fun w i w' hw hP _ => hstep w i w' hw hP) is (meets_of_forall (fun _ _ => trivial) _ is)

/-- **Ledger invariant.** What holds of empty ledgers and survives the transitions of the committed instructions, which all
meet `c`, holds after the run. -/
theorem after_ledger_of {P : Ledger Key → Prop} {c : World → Instr → Prop} (hinit : ∀ h, P (.empty h))
    (htrans : ∀ w i s who, w.WF → c w i → P w.view → Trans DIVIDEND_PRECISION w.view who (i.actor w) s → P s)
    (g : Genesis) (is : List Instr) (hc : Meets step c g.world is) : P (g.after is).view := by
  have hstep : ∀ w i w', w.WF → P w.view → c w i → step w i = .ok w' → P w'.view := by
    intro w i w' hw hP hi h
    obtain ⟨-, who, ht⟩ := step_committed hw h
    exact htrans w i _ who hw hi hP ht
  exact g.after_meets (P := fun w => P w.view) (g.view ▸ hinit _) hstep is hc

theorem after_ledger {P : Ledger Key → Prop} (hinit : ∀ h, P (.empty h))
    (htrans : ∀ s t who act, P s → Trans DIVIDEND_PRECISION s who act t → P t) (g : Genesis) (is : List Instr) :
    P (g.after is).view :=
  after_ledger_of (c := fun _ _ => True) hinit (fun _ _ _ _ _ _ hP => htrans _ _ _ _ hP) g is
    (meets_of_forall (fun _ _ => trivial) _ is)

end Genesis

/-! ## A world to run in -/

namespace Sample

/-- the owner is wallet 1 -/
def wallet (n : ℕ) : Signer := ⟨n⟩

def user (n : ℕ) : Key := (wallet n).key

def grai : Key := .key 50

def usdc : Key := .key 100

def gold : Key := .key 101

/-- wallets 1 to 9 hold two assets -/
def bank : Bank Key where
  mints m := if m = usdc ∨ m = gold then some ⟨6, 10 ^ 19, none⟩ else none
  accounts
    | .ata (.key n) m => if 1 ≤ n ∧ n ≤ 9 ∧ (m = usdc ∨ m = gold) then some ⟨m, .key n, 10 ^ 18⟩ else none
    | _ => none

def genesis : Genesis where
  bank
  grinders _ := none
  args := ⟨wallet 1, ⟨50⟩, 0⟩
  world := _
  fresh k m hk := by
    cases k <;> simp_all [Key.custodyMint, bank]
  initialized := rfl

/-- a unit of an asset is worth a unit of value -/
def feed : Feed where
  key := .key 200
  matchesAssetMint := true
  price := .ok ⟨1, 0⟩
  pythFeedId := .ok 0

/-- the accounts `settle_all_pairs` takes for `u` -/
def pairs (u : Key) (mints : List Key) : List Key := mints.flatMap fun m => [.asset m, .position u m]

/-- the accounts `settle_all_quads` takes for `u` -/
def quads (u : Key) (mints : List Key) : List Key :=
  mints.flatMap fun m => [.asset m, .position u m, .vault m, .ata u m]

def listing (m : Key) (paused : Bool) : Instr := .setFeed ⟨wallet 1, m, .asset m, .vault m, feed, .asset m, paused⟩

def delisting (m : Key) : Instr :=
  .setFeed ⟨wallet 1, m, .asset m, .vault m, { feed with key := .default }, .asset m, true⟩

/-- wallet `n` deposits under `referrer` and passes along some books -/
def deposit (n x : ℕ) (referrer : Key) (books : List Key) : Instr :=
  .deposit ⟨wallet n, usdc, feed, .ata (user n) usdc, .ata (user n) (.treasuryNft (user n)), books, x, false, referrer, 0⟩

def distribute (n x : ℕ) (m : Key) : Instr := .distribute ⟨wallet n, m, feed, .ata (user n) m, x⟩

/-- wallet `n` locks while `mints` are listed -/
def lock (n x : ℕ) (mints : List Key) : Instr := .lock ⟨wallet n, .ata (user n) grai, pairs (user n) mints, x⟩

def unlock (n x : ℕ) (mints : List Key) : Instr := .unlock ⟨wallet n, .ata (user n) grai, quads (user n) mints, x⟩

/-- wallet `payer` claims all for wallet `n`, whose book has no ancestor -/
def claim (payer n : ℕ) (m : Key) : Instr :=
  .claim ⟨wallet payer, user n, m, feed, .ata (user 1) m, .referrer (user n) :: List.replicate 6 .default, u64Max⟩

/-- wallet `n` burns shares with the token program -/
def burn (n x : ℕ) : Instr := .token (wallet n) (.burn grai (.ata (user n) grai) x)

end Sample

end Grindurus.Grai
