/-
Deposits and yield (`programs/grai/src/deposit.rs`, `distribute.rs`).

- `executeDeposit`, `executeDepositSol`: capital goes to Grinders, shares are minted at book or above, the depositor's book is
  bound and credited, and the new shares are locked if the depositor asks for it.
- `executeDistribute`: a custodian brings yield; the dividend cut accrues to all locks, the rest goes to the treasury.

For the ledger a deposit issues shares and may enlarge a stake, and a distribution is a dividend.

The price of a share is the book value over the supply, raised by a premium that grows with the years since initialization.
Rounding is down, in favour of those who hold shares already. A deposit that would mint nothing is refused, and so is one into a
book that is empty while shares are out.
-/
import Grindurus.Grai.Stakes
import Grindurus.Grai.Referral

namespace Grindurus.Grai

open Checked TokenBank RewardIndex Function

/-! ## Deposits -/

structure Deposit where
  depositor : Signer
  assetMint : Key
  priceFeed : Feed
  depositorAta : Key
  treasuryNftAta : Key
  remaining : List Key
  amount : ℕ
  lock : Bool
  referrer : Key
  now : ℤ

/-- the accounts of a deposit besides the depositor's: the share mint, the asset mint and its listing -/
def Deposit.load (w : World) (a : Deposit) : Except ErrorCode (MintAccount Key × MintAccount Key × AssetConfig) := do
  let assetMint ← loadMint w.bank a.assetMint
  let graiMint ← loadGraiMint w
  let asset ← loadAssetAccount w a.assetMint
  loadFeed asset a.priceFeed
  .ok (graiMint, assetMint, asset)

/-- the token accounts a deposit creates where they are missing -/
def Deposit.init (b : Bank Key) (grinders graiMint : Key) (a : Deposit) : Except ErrorCode (Bank Key) := do
  let b ← initAta b grinders a.assetMint
  let b ← initAta b a.depositor.key graiMint
  initVault b graiMint

/-- what a deposit is worth, and the shares it mints -/
def quoteDeposit (w : World) (a : Deposit) (supply decimals : ℕ) (price : PriceData) : Except ErrorCode (ℕ × ℕ) := do
  let value ← usdValue a.amount decimals price
  require (0 < value) .amountZero
  -- a zero book with live shares would bootstrap-mint and tax the new capital
  require (0 < w.state.totalValue ∨ supply = 0) .insolventBook
  let graiOut ← previewDeposit value supply w.state.totalValue w.state.config.mintPremiumBpsPerYear w.state.mintPremiumAt a.now
  .ok (value, graiOut)

/-- the capital goes to Grinders, the shares to the depositor -/
def Deposit.move (w : World) (a : Deposit) (graiOut : ℕ) : Except ErrorCode (Bank Key) := do
  let bank ← transferFromSigner w.bank a.depositorAta (.ata w.state.grinders a.assetMint) a.depositor a.amount
  spl (bank.mintTo w.state.graiMint (.ata a.depositor.key w.state.graiMint) .protocol graiOut)

/-- lock the new shares, if the depositor asks for it -/
def lockDeposit (w : World) (a : Deposit) (graiOut lockAccountCount : ℕ) : Except ErrorCode World := do
  let depositor := a.depositor.key
  let escrow := { initEscrow w depositor with bump := ESCROW_BUMP }
  if a.lock then do
    let (w, escrow) ← performLock w escrow graiOut (.ata depositor w.state.graiMint) a.depositor
      (a.remaining.take lockAccountCount)
    .ok (w.storeEscrow depositor escrow)
  else .ok (w.storeEscrow depositor escrow)

/-- what both deposits do once the price is known; when locking, the dividend pairs come before the books -/
def bookDeposit (w : World) (a : Deposit) (supply decimals : ℕ) (price : PriceData) : Except ErrorCode World := do
  let (value, graiOut) ← quoteDeposit w a supply decimals price
  let bank ← a.move w graiOut
  let lockAccountCount := if a.lock then w.state.assetMints.length * 2 else 0
  require (lockAccountCount ≤ a.remaining.length) .invalidRemainingAccounts
  let w ← mintReferrer { w with bank } a.depositor.key a.referrer value (a.remaining.drop lockAccountCount) a.treasuryNftAta
  let totalValue ← checkedAdd u128 w.state.totalValue value .mathOverflow
  lockDeposit { w with state := { w.state with totalValue } } a graiOut lockAccountCount

def executeDeposit (w : World) (a : Deposit) : Except ErrorCode World := do
  let (graiMint, assetMint, asset) ← a.load w
  let _ ← loadOwned w.bank a.depositorAta a.assetMint a.depositor.key .invalidDepositSource
  let bank ← a.init w.bank w.state.grinders w.state.graiMint
  let w := { w with bank }
  require (0 < a.amount) .amountZero
  require (w.state.liquidation = false) .liquidationOpen
  require (asset.paused = false) .paused
  let price ← fetchAssetPrice asset a.assetMint a.priceFeed
  bookDeposit w a graiMint.supply assetMint.decimals price

structure DepositSol where
  depositor : Signer
  priceFeed : Feed
  treasuryNftAta : Key
  remaining : List Key
  amount : ℕ
  lock : Bool
  referrer : Key
  now : ℤ

/-- a deposit of wrapped lamports, out of the depositor's own account for them -/
def DepositSol.deposit (a : DepositSol) : Deposit where
  depositor := a.depositor
  assetMint := .nativeMint
  priceFeed := a.priceFeed
  depositorAta := .ata a.depositor.key .nativeMint
  treasuryNftAta := a.treasuryNftAta
  remaining := a.remaining
  amount := a.amount
  lock := a.lock
  referrer := a.referrer
  now := a.now

def executeDepositSol (w : World) (a : DepositSol) : Except ErrorCode World := do
  let (graiMint, assetMint, asset) ← a.deposit.load w
  let bank ← initAta w.bank a.depositor.key .nativeMint
  let bank ← a.deposit.init bank w.state.grinders w.state.graiMint
  require (0 < a.amount) .amountZero
  require (w.state.liquidation = false) .liquidationOpen
  require (asset.paused = false) .paused
  let bank ← spl (bank.wrap .nativeMint (.ata a.depositor.key .nativeMint) a.amount)
  let price ← fetchPriceFromFeed a.priceFeed asset
  bookDeposit { w with bank } a.deposit graiMint.supply assetMint.decimals price

/-! ## Yield -/

structure Distribute where
  custodyWallet : Signer
  assetMint : Key
  priceFeed : Feed
  custodyAta : Key
  yieldAmount : ℕ

/-- the accounts of a distribution: the listing of the asset -/
def Distribute.load (w : World) (a : Distribute) : Except ErrorCode AssetConfig := do
  let mint := a.assetMint
  let _ ← loadMint w.bank mint
  let asset ← loadAssetAccount w mint
  loadFeed asset a.priceFeed
  let _ ← loadGraiMint w
  let _ ← loadOwned w.bank a.custodyAta mint a.custodyWallet.key .invalidDepositSource
  let _ ← loadCustody w.bank (.vault mint) mint
  let _ ← loadCustody w.bank (.treasury mint) mint
  .ok asset

/-- pull custodian yield into the asset vault and split it per the configured cuts -/
def executeDistribute (w : World) (a : Distribute) : Except ErrorCode World := do
  let mint := a.assetMint
  let custody := a.custodyWallet.key
  let asset ← a.load w
  let position := (w.positions (custody, mint)).getD Position.empty
  require (0 < a.yieldAmount) .amountZero
  require (w.state.liquidation = false) .liquidationOpen
  require (mint ≠ w.state.graiMint) .assetUnknown
  let bank ← transferFromSigner w.bank a.custodyAta (.vault mint) a.custodyWallet a.yieldAmount
  let (asset, bank) ← fundCuts { w with bank } asset mint a.yieldAmount
  let totalYielded ← checkedAdd u64 asset.totalYielded a.yieldAmount .mathOverflow
  let yielded ← checkedAdd u64 position.yielded a.yieldAmount .mathOverflow
  let w := World.storeAsset { w with bank } mint { asset with totalYielded }
  .ok (w.storePosition custody mint { position with yielded })

/-! ## What deposits do -/

variable {w w' : World}

/-- the shares a deposit mints are worth at most what it brings -/
theorem quoteDeposit_ok {a : Deposit} {supply decimals value graiOut : ℕ} {price : PriceData}
    (h : quoteDeposit w a supply decimals price = .ok (value, graiOut)) :
    0 < value ∧ (0 < w.state.totalValue ∨ supply = 0) ∧ 0 < graiOut ∧ graiOut * w.state.totalValue ≤ value * supply := by
  simp only [quoteDeposit, bind_ok, require_ok, Except.ok.injEq, Prod.mk.injEq] at h
  obtain ⟨_, -, -, hvalue, -, hbook, _, hout, rfl, rfl⟩ := h
  exact ⟨hvalue, hbook, previewDeposit_mul_le hout⟩

theorem Deposit.load_ok {a : Deposit} {graiMint assetMint : MintAccount Key} {asset : AssetConfig}
    (h : a.load w = .ok (graiMint, assetMint, asset)) : graiMint.supply = w.supply := by
  simp only [Deposit.load, loadGraiMint, loadMint, bind_ok, demand_ok, require_ok, Except.ok.injEq, Prod.mk.injEq] at h
  obtain ⟨_, -, _, ⟨t, ht, -, -, rfl⟩, _, -, -, -, rfl, -⟩ := h
  simp [World.supply, Bank.supply, ht]

theorem Deposit.init_moves (grai : Key) {a : Deposit} {b b' : Bank Key} {grinders graiMint : Key}
    (h : a.init b grinders graiMint = .ok b') : BankMoves grai 0 0 b b' := by
  simp only [Deposit.init, bind_ok] at h
  obtain ⟨b₁, hb₁, b₂, hb₂, hb₃⟩ := h
  exact ((initAta_moves grai hb₁).before (initAta_moves grai hb₂)).before (initVault_moves grai hb₃)

theorem Deposit.move_moves {a : Deposit} {graiOut : ℕ} {b : Bank Key} (h : a.move w graiOut = .ok b) :
    BankMoves w.state.graiMint 0 graiOut w.bank b := by
  simp only [Deposit.move, bind_ok] at h
  obtain ⟨b₁, hb₁, hb⟩ := h
  have hpay := transferFromSigner_moves w.state.graiMint hb₁
  have hmint := mintTo_moves w.state.graiMint (spl_ok.1 hb)
  rw [if_pos rfl] at hmint
  have hmoves := hpay.trans hmint
  rw [zero_add] at hmoves
  refine hmoves.mono fun k _ _ => ?_
  simp only [Pi.zero_apply, Pi.add_apply, Pi.single_apply]
  split_ifs <;> omega

/-- the new shares are locked, or the escrow is only opened -/
theorem lockDeposit_cases {a : Deposit} {graiOut n : ℕ} (h : lockDeposit w a graiOut n = .ok w') :
    ∃ w₁ e₁, w' = w₁.storeEscrow a.depositor.key e₁ ∧
      ((w₁ = w ∧ e₁ = { initEscrow w a.depositor.key with bump := ESCROW_BUMP }) ∨
        performLock w { initEscrow w a.depositor.key with bump := ESCROW_BUMP } graiOut
          (.ata a.depositor.key w.state.graiMint) a.depositor (a.remaining.take n) = .ok (w₁, e₁)) := by
  unfold lockDeposit at h
  dsimp only at h
  split_ifs at h
  · simp only [bind_ok, Prod.exists, Except.ok.injEq] at h
    obtain ⟨w₁, e₁, hlock, rfl⟩ := h
    exact ⟨w₁, e₁, rfl, .inr hlock⟩
  · cases h
    exact ⟨w, _, rfl, .inl ⟨rfl, rfl⟩⟩

theorem lockDeposit_ok {a : Deposit} {graiOut n : ℕ} (hw : w.WF) (h : lockDeposit w a graiOut n = .ok w') :
    w'.WF ∧ ∃ who, Steps DIVIDEND_PRECISION w.view who w'.view := by
  have hview : (w.storeEscrow a.depositor.key { initEscrow w a.depositor.key with bump := ESCROW_BUMP }).view = w.view :=
    World.view_storeEscrow (initEscrow_amount w _) (initEscrow_voted w _)
  obtain ⟨w₁, e₁, rfl, ⟨rfl, rfl⟩ | hlock⟩ := lockDeposit_cases h
  · rw [hview]
    exact ⟨hw.store _ _, _, .nil _⟩
  · obtain ⟨hwf, hstep⟩ := performLock_step hw hlock
    rw [hview] at hstep
    exact ⟨hwf.store _ _, _, .single hstep⟩

/-- a deposit moves the tokens, books the value with the referral of the depositor, and locks the new shares -/
theorem bookDeposit_moves {a : Deposit} {supply decimals : ℕ} {price : PriceData}
    (h : bookDeposit w a supply decimals price = .ok w') :
    ∃ value graiOut b rest w₁ n, quoteDeposit w a supply decimals price = .ok (value, graiOut) ∧ a.move w graiOut = .ok b ∧
      mintReferrer { w with bank := b } a.depositor.key a.referrer value rest a.treasuryNftAta = .ok w₁ ∧
      lockDeposit { w₁ with state := { w₁.state with totalValue := w₁.state.totalValue + value } } a graiOut n = .ok w' := by
  simp only [bookDeposit, bind_ok, checkedAdd_ok, Prod.exists] at h
  obtain ⟨value, graiOut, hquote, b, hmove, -, -, w₁, hmint, _, ⟨-, rfl⟩, h⟩ := h
  exact ⟨value, graiOut, b, _, w₁, _, hquote, hmove, hmint, h⟩

/-- a deposit issues shares, and enlarges the stake of the depositor if they are locked -/
theorem bookDeposit_ok {a : Deposit} {decimals : ℕ} {price : PriceData} {b : Bank Key} (hw : w.WF)
    (hb : BankMoves w.state.graiMint 0 0 w.bank b) (hliq : w.state.liquidation = false)
    (h : bookDeposit { w with bank := b } a w.supply decimals price = .ok w') : Committed .nobody w w' := by
  obtain ⟨value, graiOut, b₁, rest, w₂, n, hquote, hmove, hmint, h⟩ := bookDeposit_moves h
  obtain ⟨hvalue, hbook, hout, hprice⟩ := quoteDeposit_ok hquote
  have hmoves : BankMoves w.state.graiMint 0 graiOut w.bank b₁ := hb.before (a.move_moves hmove)
  have hwf₁ := hw.bank hmoves
  have hq := mintReferrer_quiet (w := { w with bank := b₁ }) hw.mint hmint
  have hwf₂ := hq.wf hwf₁
  have hvalue₂ : w₂.state.totalValue = w.state.totalValue := by rw [hq.state]
  obtain ⟨w₃, hw₃⟩ : ∃ w₃ : World, w₃ = { w₂ with state := { w₂.state with totalValue := w₂.state.totalValue + value } } :=
    ⟨_, rfl⟩
  have hwf₃ : w₃.WF := by
    rw [hw₃]
    exact hwf₂.keep rfl (fun _ => rfl) hwf₂.guarded
  rw [← hw₃] at h
  obtain ⟨hwf', who, hlock⟩ := lockDeposit_ok hwf₃ h
  have hsupply : b₁.supply w.state.graiMint = w.supply + graiOut := by
    have hs := hmoves.supply hw.guarded
    unfold World.supply
    omega
  have hbank : BankMoves w.state.graiMint 0 graiOut w.bank w₂.bank := hmoves.after hq.bank
  have hflow := flow_of_moves
    (s := { w.view with totalValue := w.view.totalValue + value, supply := w.view.supply + graiOut }) rfl hbank hw.guarded
    le_rfl DIVIDEND_PRECISION
  have hview : w₃.view = { w.view with
      totalValue := w.view.totalValue + value, supply := w.view.supply + graiOut
      held := holdingsOf w.state.graiMint w₂.bank } := by
    have hv : w₃.view = { w₂.view with totalValue := w₂.state.totalValue + value } := by rw [hw₃]; rfl
    rw [hv, hq.view hwf₁, hvalue₂]
    simp only [World.view, World.supply, hsupply]
    rfl
  rw [hview] at hlock
  exact ⟨hwf', who, .moves (.issue value graiOut hout hvalue hliq hbook hprice) (.steps (.quiet hflow hlock))⟩

/-- a deposit opens accounts, and is booked -/
theorem executeDeposit_books {a : Deposit} (hw : w.WF) (h : executeDeposit w a = .ok w') :
    ∃ b supply decimals price, ({ w with bank := b } : World).WF ∧
      bookDeposit { w with bank := b } a supply decimals price = .ok w' := by
  simp only [executeDeposit, bind_ok, Prod.exists] at h
  obtain ⟨graiMint, assetMint, _, -, -, -, b, hb, -, -, -, -, -, -, price, -, h⟩ := h
  exact ⟨b, graiMint.supply, assetMint.decimals, price, hw.bank (a.init_moves w.state.graiMint hb), h⟩

theorem executeDepositSol_books {a : DepositSol} (hw : w.WF) (h : executeDepositSol w a = .ok w') :
    ∃ b supply decimals price, ({ w with bank := b } : World).WF ∧
      bookDeposit { w with bank := b } a.deposit supply decimals price = .ok w' := by
  simp only [executeDepositSol, bind_ok, Prod.exists] at h
  obtain ⟨graiMint, assetMint, _, -, b₁, hb₁, b₂, hb₂, -, -, -, -, -, -, b₃, hb₃, price, -, h⟩ := h
  have hinit := (initAta_moves w.state.graiMint hb₁).before (a.deposit.init_moves w.state.graiMint hb₂)
  exact ⟨b₃, graiMint.supply, assetMint.decimals, price, hw.bank (hinit.before (wrap_moves _ (spl_ok.1 hb₃))), h⟩

theorem executeDeposit_committed {a : Deposit} (hw : w.WF) (h : executeDeposit w a = .ok w') : Committed .nobody w w' := by
  simp only [executeDeposit, bind_ok, require_ok, Prod.exists] at h
  obtain ⟨graiMint, assetMint, asset, hload, -, -, b, hb, -, -, -, hliq, -, -, price, -, h⟩ := h
  rw [a.load_ok hload] at h
  exact bookDeposit_ok hw (a.init_moves _ hb) hliq h

theorem executeDepositSol_committed {a : DepositSol} (hw : w.WF) (h : executeDepositSol w a = .ok w') :
    Committed .nobody w w' := by
  simp only [executeDepositSol, bind_ok, require_ok, Prod.exists] at h
  obtain ⟨graiMint, assetMint, asset, hload, b₁, hb₁, b₂, hb₂, -, -, -, hliq, -, -, b₃, hb₃, price, -, h⟩ := h
  rw [a.deposit.load_ok hload] at h
  have hinit := (initAta_moves w.state.graiMint hb₁).before (a.deposit.init_moves w.state.graiMint hb₂)
  exact bookDeposit_ok hw (hinit.before (wrap_moves _ (spl_ok.1 hb₃))) hliq h

/-! ## What a distribution does -/

/-- the yield is pulled into the vault of the asset, split into the cuts, and noted with the asset and the custodian -/
theorem executeDistribute_pulls {a : Distribute} (h : executeDistribute w a = .ok w') :
    ∃ asset b asset' b' position, w.assets a.assetMint = some asset ∧
      transferFromSigner w.bank a.custodyAta (.vault a.assetMint) a.custodyWallet a.yieldAmount = .ok b ∧
      fundCuts { w with bank := b } asset a.assetMint a.yieldAmount = .ok (asset', b') ∧
      position = (w.positions (a.custodyWallet.key, a.assetMint)).getD Position.empty ∧
      w' = (World.storeAsset { w with bank := b' } a.assetMint
        { asset' with totalYielded := asset'.totalYielded + a.yieldAmount }).storePosition a.custodyWallet.key a.assetMint
          { position with yielded := position.yielded + a.yieldAmount } := by
  simp only [executeDistribute, bind_ok, checkedAdd_ok, Prod.exists, Except.ok.injEq] at h
  obtain ⟨asset, hload, -, -, -, -, -, -, b, hb, asset', b', hfund, _, ⟨-, rfl⟩, _, ⟨-, rfl⟩, rfl⟩ := h
  simp only [Distribute.load, bind_ok, Except.ok.injEq] at hload
  obtain ⟨_, -, _, ha, -, -, _, -, _, -, _, -, _, -, rfl⟩ := hload
  exact ⟨_, b, asset', b', _, loadAssetAccount_ok ha, hb, hfund, rfl, rfl⟩

theorem executeDistribute_committed {a : Distribute} (hw : w.WF) (h : executeDistribute w a = .ok w') :
    Committed (.opener a.custodyWallet.key) w w' := by
  obtain ⟨asset, b, asset', b', position, ha, hb, hfund, hposition, rfl⟩ := executeDistribute_pulls h
  obtain ⟨acc, r, gain, hacc, hsum, hearned, rfl, hgain, hb'⟩ := fundCuts_ok (w := { w with bank := b }) hw.config hfund
  have hmoves : BankMoves w.state.graiMint
      (Pi.single (.treasury a.assetMint) (gain : ℤ) + Pi.single (.vault a.assetMint) (r : ℤ)) 0 w.bank b' := by
    refine ((transferFromSigner_moves w.state.graiMint hb).trans hb').mono fun k _ _ => ?_
    simp only [Pi.add_apply, Pi.sub_apply, Pi.single_apply]
    split_ifs <;> omega
  have hpos : checkpoints (w.storePosition a.custodyWallet.key a.assetMint
      { position with yielded := position.yielded + a.yieldAmount }).positions =
      (w.view.openPosition a.custodyWallet.key a.assetMint).pos := by
    rw [checkpoints_store, hposition]
    simp only [Ledger.openPosition, World.view, checkpoints]
    cases w.positions (a.custodyWallet.key, a.assetMint) <;> rfl
  obtain ⟨hwf, haccrue⟩ := accrue_of_store hw { asset with
      accShare := acc, totalClaimable := asset.totalClaimable + r, totalYielded := asset.totalYielded + a.yieldAmount }
    ha hacc hearned rfl hgain hmoves (by simp) (by simp) (fun n hn => by simp [hn])
    (w.view.openPosition a.custodyWallet.key a.assetMint).pos
  refine ⟨hwf.keep rfl (fun _ => rfl) hwf.guarded, none, .opens a.custodyWallet.key a.assetMint (.accrues (.nil _) ?_)⟩
  refine cast (congrArg _ ?_) haccrue
  rw [← hpos]
  rfl

end Grindurus.Grai
