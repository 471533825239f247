/-
The quotes of the program (`programs/grai/src/preview.rs`, `bribe.rs`, `treasury.rs`, `views.rs`), and the instructions they
are for.

- `executePreviewDeposit`, `executePreviewUnlock`, `executePreviewBribe`, `executePreviewPoach`, `executePreviewRedeem`,
  `executeGetRedeemables`: what is quoted. They read what the instructions read, with checks of their own.
- `deposit_as_quoted`: a deposit that commits was quoted just before, and books, mints and locks what was quoted.
- `exit_as_quoted`: so was an unlock, a bribe and a poach; they pay what was quoted.
- `redeem_as_quoted`: the basket of a redeem is the quoted one, and `getRedeemables` falls by it.

A preview is a view: it commits nothing, and a client reads it before it signs. What it promises is compared with what the
instruction does in the same state. The views check less than the instructions (an open liquidation is not looked at), so that a
quote may be given for an instruction that is refused; the other way round, what commits was quoted.
-/
import Grindurus.Lib.Payments
import Grindurus.Grai.Bribes
import Grindurus.Grai.Lineage
import Grindurus.Grai.Redeems
import Grindurus.Grai.Unlocks

namespace Grindurus.Grai

open Checked TokenBank ProRata Machine Function

/-! ## Quotes -/

/-- `0` stands for the cluster clock -/
def resolveTimestamp (now timestamp : ℤ) : ℤ := if timestamp = 0 then now else timestamp

structure DepositQuote where
  value : ℕ
  graiOut : ℕ
  deriving DecidableEq, Repr

structure PreviewDeposit where
  assetMint : Key
  priceFeed : Feed
  amount : ℕ
  now : ℤ

/-- an open liquidation is not looked at -/
def executePreviewDeposit (w : World) (a : PreviewDeposit) : Except ErrorCode DepositQuote := do
  let graiMint ← loadGraiMint w
  let assetMint ← loadMint w.bank a.assetMint
  let asset ← loadAssetAccount w a.assetMint
  loadFeed asset a.priceFeed
  require (0 < a.amount) .amountZero
  require (asset.paused = false) .paused
  let price ← fetchAssetPrice asset a.assetMint a.priceFeed
  let value ← usdValue a.amount assetMint.decimals price
  require (0 < value) .amountZero
  let supply := graiMint.supply
  let totalValue := w.state.totalValue
  if totalValue = 0 ∧ 0 < supply then .error .insolventBook
  else do
    let graiOut ← previewDeposit value supply totalValue w.state.config.mintPremiumBpsPerYear w.state.mintPremiumAt a.now
    .ok ⟨value, graiOut⟩

structure UnlockQuote where
  unlockAmount : ℕ
  penalty : ℕ
  deriving DecidableEq, Repr

structure PreviewUnlock where
  account : Key
  graiAmount : ℕ
  timestamp : ℤ
  now : ℤ

/-- the timestamp is resolved, and then not used: the penalty does not depend on time -/
def executePreviewUnlock (w : World) (a : PreviewUnlock) : Except ErrorCode UnlockQuote := do
  let escrow ← loadEscrow w a.account
  let _ := resolveTimestamp a.now a.timestamp
  require (a.graiAmount ≤ escrow.amount) .invalidAmount
  let (unlockAmount, penalty) ← previewUnlock a.graiAmount escrow.amount w.state.config.unlockPenaltyBps
  .ok ⟨unlockAmount, penalty⟩

structure BribeQuote where
  bribeAmount : ℕ
  premium : ℕ
  discount : ℕ
  deriving DecidableEq, Repr

structure PreviewBribe where
  voter : Key
  settlementMint : Key
  settlementPriceFeed : Feed
  graiAmount : ℕ

def executePreviewBribe (w : World) (a : PreviewBribe) : Except ErrorCode BribeQuote := do
  let graiMint ← loadGraiMint w
  let escrow ← loadEscrow w a.voter
  let settlementMint ← loadMint w.bank a.settlementMint
  let asset ← loadAssetAccount w a.settlementMint
  require (asset.bribeable = true) .notBribeable
  require (a.settlementPriceFeed.key = asset.priceFeed) .invalidChainlinkFeed
  require (a.graiAmount ≤ escrow.voted) .invalidAmount
  let price ← fetchPriceFromFeed a.settlementPriceFeed asset
  let (bribeAmount, premium, discount) ← previewBribe a.graiAmount graiMint.supply w.state.totalValue w.state.totalVoted
    w.state.config.quorumBps w.state.config.bribePremiumBps settlementMint.decimals price
  .ok ⟨bribeAmount, premium, discount⟩

structure PoachQuote where
  price : ℕ
  referrer : Key
  deriving DecidableEq, Repr

structure PreviewPoach where
  poacher : Key
  locker : Key

def executePreviewPoach (w : World) (a : PreviewPoach) : Except ErrorCode PoachQuote := do
  let book ← demand (.accountNotInitialized (.referrer a.locker)) (w.books a.locker)
  let (price, referrer) ← previewPoach book a.poacher
  .ok ⟨price, referrer⟩

/-- assets, and as many amounts -/
structure RedeemQuote where
  assets : List Key
  amounts : List ℕ
  deriving DecidableEq, Repr

def RedeemQuote.push (quote : RedeemQuote) (mint : Key) (amount : ℕ) : RedeemQuote :=
  ⟨mint :: quote.assets, amount :: quote.amounts⟩

/-- one pair `[asset_config, vault_ata]`: any token account for the asset passes for its vault -/
def quoteShare (w : World) (assetInfo vaultInfo mint : Key) (graiAmount supply : ℕ) : Except ErrorCode ℕ := do
  let asset ← loadAssetConfig w assetInfo mint
  let vault ← loadCustody w.bank vaultInfo mint
  let redeemable := redeemableBalance vault.amount asset.totalClaimable
  if 0 < redeemable then previewLiquidateShare redeemable graiAmount supply else .ok 0

/-- the shares in registry order, the zeros left out -/
def quoteShares (w : World) (graiAmount supply : ℕ) : List Key → List Key → Except ErrorCode RedeemQuote
  | [], _ => .ok ⟨[], []⟩
  | mint :: mints, assetInfo :: vaultInfo :: rest => do
    let share ← quoteShare w assetInfo vaultInfo mint graiAmount supply
    let quote ← quoteShares w graiAmount supply mints rest
    .ok (if 0 < share then quote.push mint share else quote)
  | _ :: _, _ => .error .panicked

structure PreviewRedeem where
  holder : Key
  holderGraiAta : Key
  remaining : List Key
  graiAmount : ℕ
  now : ℤ

def executePreviewRedeem (w : World) (a : PreviewRedeem) : Except ErrorCode RedeemQuote := do
  let graiMint ← loadGraiMint w
  let wallet ← loadOwned w.bank a.holderGraiAta w.state.graiMint a.holder .invalidDestination
  require (w.state.liquidation = true) .liquidationClosed
  let unlockAt ← checkedAddI64 w.state.liquidationAt w.state.config.liquidationPeriod .mathOverflow
  require (unlockAt ≤ a.now) .liquidationDelay
  require (0 < graiMint.supply) .invalidAmount
  let locked := match w.escrows a.holder with
    | none => 0
    | some escrow => escrow.amount
  let holderAmount ← checkedAdd u64 wallet.amount locked .mathOverflow
  require (0 < a.graiAmount) .invalidAmount
  require (a.graiAmount ≤ holderAmount) .invalidAmount
  require (a.remaining.length = w.state.assetMints.length * 2) .invalidRemainingAccounts
  quoteShares w a.graiAmount graiMint.supply w.state.assetMints a.remaining

/-- one pair `[asset_config, vault_ata]` of `get_redeemables`, which wants the vault itself -/
def readRedeemable (w : World) (assetInfo vaultInfo mint : Key) : Except ErrorCode ℕ := do
  let asset ← loadAssetConfig w assetInfo mint
  require (vaultInfo = .vault mint) .invalidRemainingAccounts
  let vault ← loadCustody w.bank vaultInfo mint
  .ok (redeemableBalance vault.amount asset.totalClaimable)

def readRedeemables (w : World) : List Key → List Key → Except ErrorCode RedeemQuote
  | [], _ => .ok ⟨[], []⟩
  | mint :: mints, assetInfo :: vaultInfo :: rest => do
    let redeemable ← readRedeemable w assetInfo vaultInfo mint
    let quote ← readRedeemables w mints rest
    .ok (quote.push mint redeemable)
  | _ :: _, _ => .error .panicked

/-- the whole basket, zeros included -/
def executeGetRedeemables (w : World) (remaining : List Key) : Except ErrorCode RedeemQuote := do
  require (w.state.liquidation = true) .liquidationClosed
  require (remaining.length = w.state.assetMints.length * 2) .invalidRemainingAccounts
  readRedeemables w w.state.assetMints remaining

variable {w w' : World}

/-! ## Deposits -/

/-- what a deposit brings is quoted by `preview_deposit`, which asks less of the accounts -/
theorem quoteDeposit_previews {a : Deposit} {asset : AssetConfig} {graiMint assetMint : MintAccount Key} {price : PriceData}
    {value graiOut : ℕ} (hload : a.load w = .ok (graiMint, assetMint, asset)) (hamount : 0 < a.amount)
    (hopen : asset.paused = false) (hprice : fetchAssetPrice asset a.assetMint a.priceFeed = .ok price)
    (hquote : quoteDeposit w a graiMint.supply assetMint.decimals price = .ok (value, graiOut)) :
    executePreviewDeposit w ⟨a.assetMint, a.priceFeed, a.amount, a.now⟩ = .ok ⟨value, graiOut⟩ := by
  simp only [Deposit.load, bind_ok, Except.ok.injEq, Prod.mk.injEq] at hload
  obtain ⟨t, hmint, t', hgrai, asset', hasset, ⟨⟩, hfeed, rfl, rfl, rfl⟩ := hload
  simp only [quoteDeposit, bind_ok, require_ok, Except.ok.injEq, Prod.mk.injEq] at hquote
  obtain ⟨_, hvalue, -, hpos, -, hbook, _, hout, rfl, rfl⟩ := hquote
  have hsolvent : ¬(w.state.totalValue = 0 ∧ 0 < t'.supply) := by omega
  simp only [executePreviewDeposit, bind_ok, require_ok]
  refine ⟨t', hgrai, t, hmint, asset', hasset, (), hfeed, (), hamount, (), hopen, price, hprice, _, hvalue, (), hpos, ?_⟩
  rw [if_neg hsolvent]
  simp only [bind_ok]
  exact ⟨_, hout, rfl⟩

/-- what a deposit does to the book, to the shares and to the locks -/
structure Deposited (w : World) (a : Deposit) (quote : DepositQuote) (w' : World) : Prop where
  value : w'.state.totalValue = w.state.totalValue + quote.value
  supply : w'.supply = w.supply + quote.graiOut
  locked : ∀ u, w'.lockOf u = w.lockOf u + if a.lock = true ∧ u = a.depositor.key then quote.graiOut else 0

/-- the new shares are locked for the depositor alone, or none are -/
theorem lockDeposit_locks {a : Deposit} {graiOut n : ℕ} (hw : w.WF) (h : lockDeposit w a graiOut n = .ok w') :
    w'.state.totalValue = w.state.totalValue ∧ w'.supply = w.supply ∧
      ∀ u, w'.lockOf u = w.lockOf u + if a.lock = true ∧ u = a.depositor.key then graiOut else 0 := by
  have hstored : ∀ (v : World) e x, (∀ u, v.lockOf u = w.lockOf u) → e.amount = w.lockOf a.depositor.key + x →
      ∀ u, (v.storeEscrow a.depositor.key e).lockOf u = w.lockOf u + if u = a.depositor.key then x else 0 := by
    intro v e x hv he u
    rcases eq_or_ne u a.depositor.key with rfl | hu
    · simp [World.lockOf, World.storeEscrow, he]
    · rw [if_neg hu, Nat.add_zero, ← hv u]
      simp [World.lockOf, World.storeEscrow, hu]
  have hopened := initEscrow_amount w a.depositor.key
  unfold lockDeposit at h
  dsimp only at h
  split_ifs at h with hlock
  · simp only [bind_ok, Prod.exists, Except.ok.injEq] at h
    obtain ⟨w₁, e₁, hperform, rfl⟩ := h
    obtain ⟨-, hamount, -, ps, space, lamports, b, -, hb, rfl⟩ := performLock_ok hw.nodup hperform
    have hsupply := hb.supply hw.guarded
    simp only [hlock, true_and]
    refine ⟨rfl, ?_, hstored _ _ _ (fun u => rfl) (by rw [hamount]; exact congrArg (· + graiOut) hopened)⟩
    show b.supply w.state.graiMint = w.bank.supply w.state.graiMint
    omega
  · cases h
    refine ⟨rfl, rfl, fun u => ?_⟩
    rw [hstored w { initEscrow w a.depositor.key with bump := ESCROW_BUMP } 0 (fun u => rfl) hopened u]
    simp [hlock]

/-- both deposits: the capital was quoted, and its value and shares are booked -/
theorem bookDeposit_deposits {a : Deposit} {supply decimals : ℕ} {price : PriceData} {b : Bank Key} (hw : w.WF)
    (hb : BankMoves w.state.graiMint 0 0 w.bank b) (h : bookDeposit { w with bank := b } a supply decimals price = .ok w') :
    ∃ value graiOut, quoteDeposit w a supply decimals price = .ok (value, graiOut) ∧ Deposited w a ⟨value, graiOut⟩ w' := by
  obtain ⟨value, graiOut, b₁, rest, w₂, n, hquote, hmove, hmint, h⟩ := bookDeposit_moves h
  have hmoves : BankMoves w.state.graiMint 0 graiOut w.bank b₁ := hb.before (a.move_moves hmove)
  have hq := mintReferrer_quiet (w := { w with bank := b₁ }) hw.mint hmint
  have hwf₂ := hq.wf (hw.bank hmoves)
  have hvalue₂ : w₂.state.totalValue = w.state.totalValue := by rw [hq.state]
  have hwf₃ : World.WF { w₂ with state := { w₂.state with totalValue := w₂.state.totalValue + value } } :=
    hwf₂.keep rfl (fun _ => rfl) hwf₂.guarded
  obtain ⟨hvalue, hsupply, hlocks⟩ := lockDeposit_locks hwf₃ h
  have hissued := (hmoves.after hq.bank).supply hw.guarded
  have hlock : ∀ u, w₂.lockOf u = w.lockOf u := by
    intro u
    unfold World.lockOf
    rw [hq.escrows]
  refine ⟨value, graiOut, hquote, ?_, ?_, fun u => ?_⟩
  · rw [hvalue]
    exact congrArg (· + value) hvalue₂
  · have hgrai : w₂.state.graiMint = w.state.graiMint := hq.graiMint
    rw [hsupply]
    show w₂.bank.supply w₂.state.graiMint = w.bank.supply w.state.graiMint + graiOut
    rw [hgrai]
    omega
  · rw [hlocks u]
    exact congrArg (· + _) (hlock u)

theorem executeDeposit_deposits {a : Deposit} (hw : w.WF) (h : executeDeposit w a = .ok w') :
    ∃ quote, executePreviewDeposit w ⟨a.assetMint, a.priceFeed, a.amount, a.now⟩ = .ok quote ∧ Deposited w a quote w' := by
  simp only [executeDeposit, bind_ok, require_ok, Prod.exists] at h
  obtain ⟨graiMint, assetMint, asset, hload, -, -, b, hb, -, hamount, -, -, -, hopen, price, hprice, h⟩ := h
  obtain ⟨value, graiOut, hquote, hdeposited⟩ := bookDeposit_deposits hw (a.init_moves _ hb) h
  exact ⟨_, quoteDeposit_previews hload hamount hopen hprice hquote, hdeposited⟩

/-- a deposit of lamports reads the feed directly; the listing was loaded for the wrapped mint all the same -/
theorem executeDepositSol_deposits {a : DepositSol} (hw : w.WF) (h : executeDepositSol w a = .ok w') :
    ∃ quote, executePreviewDeposit w ⟨a.deposit.assetMint, a.deposit.priceFeed, a.deposit.amount, a.deposit.now⟩ = .ok quote ∧
      Deposited w a.deposit quote w' := by
  simp only [executeDepositSol, bind_ok, require_ok, Prod.exists] at h
  obtain ⟨graiMint, assetMint, asset, hload, b₁, hb₁, b₂, hb₂, -, hamount, -, -, -, hopen, b₃, hb₃, price, hprice, h⟩ := h
  have hinit := (initAta_moves w.state.graiMint hb₁).before (a.deposit.init_moves w.state.graiMint hb₂)
  obtain ⟨value, graiOut, hquote, hdeposited⟩ := bookDeposit_deposits hw (hinit.before (wrap_moves _ (spl_ok.1 hb₃))) h
  have hasset : asset.assetMint = a.deposit.assetMint := by
    simp only [Deposit.load, loadAssetAccount, bind_ok, require_ok, Except.ok.injEq, Prod.mk.injEq] at hload
    obtain ⟨-, -, -, -, _, ⟨_, -, -, hm, rfl⟩, -, -, -, -, rfl⟩ := hload
    exact hm
  have hfetch : fetchAssetPrice asset a.deposit.assetMint a.deposit.priceFeed = .ok price := by
    simp only [fetchAssetPrice, bind_ok, require_ok]
    exact ⟨(), hasset.symm, hprice⟩
  exact ⟨_, quoteDeposit_previews hload hamount hopen hfetch hquote, hdeposited⟩

theorem deposit_quoted {i : Instr} {a : Deposit} (hw : w.WF) (hi : i.asDeposit = some a) (h : step w i = .ok w') :
    ∃ quote, executePreviewDeposit w ⟨a.assetMint, a.priceFeed, a.amount, a.now⟩ = .ok quote ∧ Deposited w a quote w' := by
  cases i with
  | deposit d =>
    obtain rfl := Option.some.inj hi
    exact executeDeposit_deposits hw h
  | depositSol d =>
    obtain rfl := Option.some.inj hi
    exact executeDepositSol_deposits hw h
  | _ => cases hi

/-- **A deposit does what was quoted.** In every reachable state, a deposit of tokens or of lamports that commits was quoted by
`preview_deposit` in that state; the book grows by the quoted value, the supply by the quoted shares, and if the depositor locks
them its lock grows by all of them and no other lock changes. The quote and the deposit read the same accounts and the same
clock. A quote that was given earlier is not promised: the premium and the book may have moved in between. -/
theorem deposit_as_quoted (g : Genesis) (is : List Instr) {i : Instr} {a : Deposit} (hi : i.asDeposit = some a)
    (h : step (g.after is) i = .ok w') :
    ∃ quote, executePreviewDeposit (g.after is) ⟨a.assetMint, a.priceFeed, a.amount, a.now⟩ = .ok quote ∧
      Deposited (g.after is) a quote w' :=
  deposit_quoted (g.after_wf is) hi h

/-- wallet 2 deposits a thousand more: a thousand shares are quoted, and minted -/
theorem deposit_as_quoted_thousand :
    ∃ w' quote, executePreviewDeposit (Sample.genesis.after [Sample.listing Sample.usdc false, Sample.deposit 2 1000 .default []])
        ⟨Sample.usdc, Sample.feed, 1000, 0⟩ = .ok quote ∧ quote = ⟨1000, 1000⟩ ∧
      Deposited (Sample.genesis.after [Sample.listing Sample.usdc false, Sample.deposit 2 1000 .default []])
        ⟨Sample.wallet 2, Sample.usdc, Sample.feed, .ata (Sample.user 2) Sample.usdc,
          .ata (Sample.user 2) (.treasuryNft (Sample.user 2)), [], 1000, false, .default, 0⟩ quote w' := by
  have hstep : step (Sample.genesis.after [Sample.listing Sample.usdc false, Sample.deposit 2 1000 .default []])
      (Sample.deposit 2 1000 .default []) = .ok _ := step_exec (by decide +kernel)
  have hquote : executePreviewDeposit (Sample.genesis.after [Sample.listing Sample.usdc false, Sample.deposit 2 1000 .default []])
      ⟨Sample.usdc, Sample.feed, 1000, 0⟩ = .ok ⟨1000, 1000⟩ := by decide +kernel
  obtain ⟨quote, h, hdeposited⟩ := deposit_as_quoted _ _ rfl hstep
  obtain rfl := Except.ok.inj (hquote.symm.trans h)
  exact ⟨_, _, hquote, rfl, hdeposited⟩

/-! ## Exits -/

theorem executeUnlock_paid {a : Unlock} (hw : w.WF) (h : executeUnlock w a = .ok w') (timestamp now : ℤ) :
    ∃ quote, executePreviewUnlock w ⟨a.account.key, a.graiAmount, timestamp, now⟩ = .ok quote ∧
      Bank.Paid [⟨.vault w.state.graiMint, a.accountGraiAta, quote.unlockAmount⟩,
        ⟨.vault w.state.graiMint, .ata w.state.grinders w.state.graiMint, quote.penalty⟩] w.bank w'.bank := by
  have hloaded : ∃ e, loadEscrow w a.account.key = .ok e := by
    simp only [executeUnlock, bind_ok] at h
    obtain ⟨-, -, e, he, -⟩ := h
    exact ⟨e, he⟩
  obtain ⟨e, he⟩ := hloaded
  obtain ⟨e₁, b, x, penalty, ps, s, e', b₁, b₂, hescrow, hinit, -, hle, hquote, -, -, -, hb₁, hb₂, rfl⟩ :=
    executeUnlock_releases hw h
  obtain rfl := Option.some.inj ((loadEscrow_ok he).symm.trans hescrow)
  refine ⟨⟨x, penalty⟩, ?_, ?_⟩
  · simp only [executePreviewUnlock, bind_ok, require_ok, Prod.exists]
    exact ⟨e, he, (), hle, x, penalty, hquote, rfl⟩
  · have hopened : Bank.Paid [] w.bank b := .nothing (initTokenAccount_same hinit).1
    exact hopened.append ((Bank.Paid.single (transferFromVault_balance hb₁)).append
      (Bank.Paid.single (transferFromVault_balance hb₂)))

/-- what is not reserved of the pool goes to the treasury -/
theorem fundCuts_paid {m : Key} {asset asset' : AssetConfig} {pool : ℕ} {b : Bank Key}
    (h : fundCuts w asset m pool = .ok (asset', b)) :
    ∃ gain, asset.totalClaimable ≤ asset'.totalClaimable ∧ gain + (asset'.totalClaimable - asset.totalClaimable) = pool ∧
      transferFromVault w.bank (.vault m) (.treasury m) gain = .ok b := by
  simp only [fundCuts, bind_ok, checkedAdd_ok, Prod.exists, Except.ok.injEq, Prod.mk.injEq] at h
  obtain ⟨treasury, dividend, hsplit, asset₁, dust, haccrue, _, ⟨-, rfl⟩, b₁, hb, rfl, rfl⟩ := h
  obtain ⟨acc, r, -, hr, rfl, -, rfl⟩ := accrueCut_ok haccrue
  have hsum := (splitCuts_ok hsplit).1
  refine ⟨_, by simp, ?_, hb⟩
  simp only [Nat.add_sub_cancel_left]
  omega

/-- of what the briber pays, `gain` goes to the treasury, the voter's cut to the voter, and the rest stays reserved -/
theorem executeBribe_paid {a : Bribe} (hw : w.WF) (h : executeBribe w a = .ok w') :
    ∃ quote gain voterCut,
      executePreviewBribe w ⟨a.voter, a.settlementMint, a.settlementPriceFeed, a.graiAmount⟩ = .ok quote ∧
      w.reserveOf a.settlementMint ≤ w'.reserveOf a.settlementMint ∧
      gain + voterCut + (w'.reserveOf a.settlementMint - w.reserveOf a.settlementMint) = quote.bribeAmount ∧
      Bank.Paid [⟨.vault w.state.graiMint, .ata a.briber.key w.state.graiMint, a.graiAmount⟩,
        ⟨a.briberSettlementAta, .vault a.settlementMint, quote.bribeAmount⟩,
        ⟨.vault a.settlementMint, .treasury a.settlementMint, gain⟩,
        ⟨.vault a.settlementMint, .ata a.voter a.settlementMint, voterCut⟩] w.bank w'.bank := by
  have hvote : ∀ t e t' asset b, a.load w = .ok (t, e, t', asset, b) → a.graiAmount ≤ e.voted := by
    intro t e t' asset b hload
    simp only [executeBribe, hload, bind_ok, require_ok, Prod.exists, Except.ok.injEq, Prod.mk.injEq] at h
    obtain ⟨_, _, _, _, _, ⟨rfl, rfl, rfl, rfl, rfl⟩, -, -, -, -, -, hvoted, -⟩ := h
    exact hvoted
  obtain ⟨t, e, t', asset, b, price, ask, premium, discount, ps, w₂, e', b₁, w₃, hload, -, hprice, hask, -, hbuy, hpaid, hpay,
    rfl⟩ := executeBribe_buys hw h
  obtain ⟨-, -, -, -, -, b₂, hb₂, rfl⟩ := buyOut_ok hbuy
  obtain ⟨pool, asset', b₃, b₄, -, hpool, hfund, hvoter, rfl⟩ := payBribe_pays hpay
  obtain ⟨gain, hreserve, hsum, hcut⟩ := fundCuts_paid hfund
  obtain ⟨-, hasset, -⟩ := a.load_ok hload
  obtain ⟨hopened, -⟩ := a.load_bank hload
  have hvoted := hvote t e t' asset b hload
  simp only [Bribe.load, bind_ok, require_ok, Except.ok.injEq, Prod.mk.injEq] at hload
  obtain ⟨t, hgrai, e, hescrow, t', hmint, asset, hlisted, -, hbribeable, -, hfeed, -, -, -, -, b₅, -, -, -, b, -, -, -, rfl,
    rfl, rfl, rfl, rfl⟩ := hload
  have hbefore : w.reserveOf a.settlementMint = asset.totalClaimable := World.reserveOf_some hasset
  have hafter : (World.storeEscrow (World.storeAsset { w with
      state := dropEmptied { w.state with
        totalVoted := w.state.totalVoted - a.graiAmount, totalLocked := w.state.totalLocked - a.graiAmount } e' a.voter
      positions := ps, bank := b₄ } a.settlementMint asset') a.voter e').reserveOf a.settlementMint = asset'.totalClaimable :=
    World.reserveOf_some (by simp [World.storeEscrow, World.storeAsset])
  refine ⟨⟨ask, premium, discount⟩, gain, ask - pool, ?_, ?_, ?_, ?_⟩
  · simp only [executePreviewBribe, bind_ok, require_ok, Prod.exists]
    exact ⟨t, hgrai, e, hescrow, t', hmint, asset, hlisted, (), hbribeable, (), hfeed, (), hvoted, price, hprice, ask, premium,
      discount, hask, rfl⟩
  · rw [hbefore]
    exact hreserve.trans hafter.ge
  · rw [hbefore]
    refine Eq.trans (congrArg (fun r => gain + (ask - pool) + (r - asset.totalClaimable)) hafter) ?_
    show gain + (ask - pool) + (asset'.totalClaimable - asset.totalClaimable) = ask
    omega
  · have hshares := Bank.Paid.single (transferFromVault_balance hb₂)
    have hasked := Bank.Paid.single (transferFromSigner_balance hpaid)
    have hcuts := Bank.Paid.single (transferFromVault_balance hcut)
    have hrest := Bank.Paid.single (transferFromVault_balance hvoter)
    exact (Bank.Paid.nothing hopened).append (hshares.append (hasked.append (hcuts.append hrest)))

theorem executePoach_paid {a : Poach} (h : executePoach w a = .ok w') :
    ∃ quote fee, executePreviewPoach w ⟨a.poacher.key, a.locker⟩ = .ok quote ∧
      bpsCeil quote.price w.state.config.poachFeeBps = .ok fee ∧ fee ≤ quote.price ∧
      (∃ seller, w.bank.accounts a.sellerGraiAta = some seller ∧ seller.owner = quote.referrer) ∧
      Bank.Paid [⟨a.poacherGraiAta, a.sellerGraiAta, quote.price - fee⟩,
        ⟨a.poacherGraiAta, .ata w.state.grinders w.state.graiMint, fee⟩] w.bank w'.bank := by
  simp only [executePoach, bind_ok, require_ok, demand_ok, checkedSub_ok, Prod.exists] at h
  obtain ⟨book, hbook, -, -, -, -, -, -, seller, hseller, -, -, b, hb, -, -, price, referrer, hprice, -, -, -, -, -, -, status, -,
    -, -, -, howner, fee, hfee, _, ⟨hle, rfl⟩, b₁, hb₁, b₂, hb₂, h⟩ := h
  have hbank : w'.bank = b₂ := (rebindSlot_booked h).bank
  refine ⟨⟨price, referrer⟩, fee, ?_, hfee, hle, ⟨seller, demand_ok.1 hseller, howner⟩, ?_⟩
  · simp only [executePreviewPoach, bind_ok, demand_ok, Prod.exists]
    exact ⟨book, hbook, price, referrer, hprice, rfl⟩
  · have hopened : Bank.Paid [] w.bank b := .nothing (initTokenAccount_same hb).1
    rw [hbank]
    exact hopened.append ((Bank.Paid.single (transferFromSigner_balance hb₁)).append
      (Bank.Paid.single (transferFromSigner_balance hb₂)))

/-- **Exits pay what was quoted.** In every reachable state: an unlock that commits, a bribe and a poach were quoted there, the
unlock for whatever timestamp. An unlock pays the quoted amount and sends the quoted penalty to Grinders; a bribe pays the quoted
ask, which treasury, voter and lockers share; a poach pays the quoted price, less the fee, to the quoted referrer. `Bank.Paid`
lists the payments of the instruction and says that no other balance changed. Payer and payee may coincide, and then the payments
cancel. -/
theorem exit_as_quoted (g : Genesis) (is : List Instr) :
    let w := g.after is
    (∀ a w', step w (.unlock a) = .ok w' → ∀ timestamp now,
      ∃ quote, executePreviewUnlock w ⟨a.account.key, a.graiAmount, timestamp, now⟩ = .ok quote ∧
        Bank.Paid [⟨.vault w.state.graiMint, a.accountGraiAta, quote.unlockAmount⟩,
          ⟨.vault w.state.graiMint, .ata w.state.grinders w.state.graiMint, quote.penalty⟩] w.bank w'.bank) ∧
    (∀ a w', step w (.bribe a) = .ok w' → ∃ quote gain voterCut,
      executePreviewBribe w ⟨a.voter, a.settlementMint, a.settlementPriceFeed, a.graiAmount⟩ = .ok quote ∧
        w.reserveOf a.settlementMint ≤ w'.reserveOf a.settlementMint ∧
        gain + voterCut + (w'.reserveOf a.settlementMint - w.reserveOf a.settlementMint) = quote.bribeAmount ∧
        Bank.Paid [⟨.vault w.state.graiMint, .ata a.briber.key w.state.graiMint, a.graiAmount⟩,
          ⟨a.briberSettlementAta, .vault a.settlementMint, quote.bribeAmount⟩,
          ⟨.vault a.settlementMint, .treasury a.settlementMint, gain⟩,
          ⟨.vault a.settlementMint, .ata a.voter a.settlementMint, voterCut⟩] w.bank w'.bank) ∧
    ∀ a w', step w (.poach a) = .ok w' → ∃ quote fee,
      executePreviewPoach w ⟨a.poacher.key, a.locker⟩ = .ok quote ∧
        bpsCeil quote.price w.state.config.poachFeeBps = .ok fee ∧ fee ≤ quote.price ∧
        (∃ seller, w.bank.accounts a.sellerGraiAta = some seller ∧ seller.owner = quote.referrer) ∧
        Bank.Paid [⟨a.poacherGraiAta, a.sellerGraiAta, quote.price - fee⟩,
          ⟨a.poacherGraiAta, .ata w.state.grinders w.state.graiMint, fee⟩] w.bank w'.bank :=
  ⟨fun _ _ h => executeUnlock_paid (g.after_wf is) h, fun _ _ h => executeBribe_paid (g.after_wf is) h,
    fun _ _ h => executePoach_paid h⟩

/-- wallet 2 votes, wallet 3 deposits under it, and wallet 5 on its own -/
def Sample.exiting : List Instr :=
  Sample.voting ++ [Sample.deposit 3 200 (Sample.user 2) [.referrer (Sample.user 2)], Sample.deposit 5 4000 .default []]

/-- wallet 5 buys `x` of the shares of wallet 2 -/
def Sample.bribeTwo (x : ℕ) : Bribe :=
  ⟨Sample.wallet 5, Sample.user 2, Sample.usdc, Sample.feed, .ata (Sample.user 5) Sample.usdc,
    Sample.pairs (Sample.user 2) [Sample.usdc], x⟩

/-- wallet 5 buys the slot of wallet 3, with its own address where no book is needed -/
def Sample.poachThree : Poach :=
  ⟨Sample.wallet 5, Sample.user 3, .referrer (Sample.user 5), .referrer (Sample.user 2), Sample.user 5, Sample.user 5,
    .ata (Sample.user 5) Sample.grai, .ata (Sample.user 2) Sample.grai, []⟩

/-- from one state wallet 2 unlocks 500, wallet 5 bribes it out of 500 at a premium of 7, or poaches wallet 3 for 200 -/
theorem exit_as_quoted_three :
    let w := Sample.genesis.after Sample.exiting
    (∃ w', step w (Sample.unlock 2 500 [Sample.usdc]) = .ok w' ∧
      executePreviewUnlock w ⟨Sample.user 2, 500, 0, 0⟩ = .ok ⟨495, 5⟩ ∧
      Bank.Paid [⟨.vault Sample.grai, .ata (Sample.user 2) Sample.grai, 495⟩,
        ⟨.vault Sample.grai, .ata (Sample.user 1) Sample.grai, 5⟩] w.bank w'.bank) ∧
    (∃ w' gain voterCut, step w (.bribe (Sample.bribeTwo 500)) = .ok w' ∧
      executePreviewBribe w ⟨Sample.user 2, Sample.usdc, Sample.feed, 500⟩ = .ok ⟨507, 7, 0⟩ ∧
      gain + voterCut + (w'.reserveOf Sample.usdc - w.reserveOf Sample.usdc) = 507 ∧
      Bank.Paid [⟨.vault Sample.grai, .ata (Sample.user 5) Sample.grai, 500⟩,
        ⟨.ata (Sample.user 5) Sample.usdc, .vault Sample.usdc, 507⟩, ⟨.vault Sample.usdc, .treasury Sample.usdc, gain⟩,
        ⟨.vault Sample.usdc, .ata (Sample.user 2) Sample.usdc, voterCut⟩] w.bank w'.bank) ∧
    ∃ w' fee, step w (.poach Sample.poachThree) = .ok w' ∧
      executePreviewPoach w ⟨Sample.user 5, Sample.user 3⟩ = .ok ⟨200, Sample.user 2⟩ ∧
      bpsCeil 200 w.state.config.poachFeeBps = .ok fee ∧ fee ≤ 200 ∧
      Bank.Paid [⟨.ata (Sample.user 5) Sample.grai, .ata (Sample.user 2) Sample.grai, 200 - fee⟩,
        ⟨.ata (Sample.user 5) Sample.grai, .ata (Sample.user 1) Sample.grai, fee⟩] w.bank w'.bank := by
  intro w
  obtain ⟨hunlocks, hbribes, hpoaches⟩ := exit_as_quoted Sample.genesis Sample.exiting
  have hgrai : w.state.graiMint = Sample.grai := by decide +kernel
  have hgrinders : w.state.grinders = Sample.user 1 := by decide +kernel
  have hunlock : executePreviewUnlock w ⟨Sample.user 2, 500, 0, 0⟩ = .ok ⟨495, 5⟩ := by decide +kernel
  have hbribe : executePreviewBribe w ⟨Sample.user 2, Sample.usdc, Sample.feed, 500⟩ = .ok ⟨507, 7, 0⟩ := by decide +kernel
  have hpoach : executePreviewPoach w ⟨Sample.user 5, Sample.user 3⟩ = .ok ⟨200, Sample.user 2⟩ := by decide +kernel
  refine ⟨?_, ?_, ?_⟩
  · have hstep : step w (Sample.unlock 2 500 [Sample.usdc]) = .ok _ := step_exec (by decide +kernel)
    obtain ⟨quote, hquote, hpaid⟩ := hunlocks _ _ hstep 0 0
    cases hquote.symm.trans hunlock
    rw [hgrai, hgrinders] at hpaid
    exact ⟨_, hstep, hunlock, hpaid⟩
  · have hstep : step w (.bribe (Sample.bribeTwo 500)) = .ok _ := step_exec (by decide +kernel)
    obtain ⟨quote, gain, voterCut, hquote, -, hsum, hpaid⟩ := hbribes _ _ hstep
    cases hquote.symm.trans hbribe
    rw [hgrai] at hpaid
    exact ⟨_, gain, voterCut, hstep, hbribe, hsum, hpaid⟩
  · have hstep : step w (.poach Sample.poachThree) = .ok _ := step_exec (by decide +kernel)
    obtain ⟨quote, fee, hquote, hfee, hle, -, hpaid⟩ := hpoaches _ _ hstep
    cases hquote.symm.trans hpoach
    rw [hgrai, hgrinders] at hpaid
    exact ⟨_, fee, hstep, hpoach, hfee, hle, hpaid⟩

/-! ## Redeems -/

/-- the accounts both readings of the basket take -/
def vaultPairs (mints : List Key) : List Key := mints.flatMap fun m => [.asset m, .vault m]

theorem vaultPairs_length (mints : List Key) : (vaultPairs mints).length = mints.length * 2 := by
  simp [vaultPairs, List.length_flatMap]

/-- the listing and the vault of `m`, as both readings of the basket load them -/
structure Vaulted (w : World) (m : Key) (asset : AssetConfig) (vault : TokenAccount Key) : Prop where
  listed : w.assets m = some asset
  mint : asset.assetMint = m
  stands : w.bank.accounts (.vault m) = some vault
  vaultMint : vault.mint = m

variable {m : Key} {asset : AssetConfig} {vault : TokenAccount Key} {g s : ℕ}

theorem Vaulted.load (h : Vaulted w m asset vault) :
    loadAssetConfig w (.asset m) m = .ok asset ∧ loadCustody w.bank (.vault m) m = .ok vault := by
  constructor
  · simp only [loadAssetConfig, bind_ok, require_ok, demand_ok, Except.ok.injEq]
    exact ⟨(), trivial, asset, h.listed, (), h.mint, rfl⟩
  · simp only [loadCustody, loadTokenAccount, bind_ok, require_ok, demand_ok, Except.ok.injEq]
    exact ⟨vault, h.stands, (), h.vaultMint, rfl⟩

theorem Vaulted.free (h : Vaulted w m asset vault) :
    redeemableBalance vault.amount asset.totalClaimable = w.redeemableOf m := by
  rw [World.redeemableOf, World.reserveOf_some h.listed, World.vaultOf, Bank.balance_some h.stands]

/-- the basket that `getRedeemables` lists -/
theorem readRedeemables_basket {mints : List Key} (h : ∀ m ∈ mints, ∃ asset vault, Vaulted w m asset vault) :
    readRedeemables w mints (vaultPairs mints) = .ok ⟨mints, mints.map w.redeemableOf⟩ := by
  induction mints with
  | nil => rfl
  | cons m mints ih =>
    obtain ⟨asset, vault, hm⟩ := h m List.mem_cons_self
    obtain ⟨hasset, hvault⟩ := hm.load
    have hone : readRedeemable w (.asset m) (.vault m) m = .ok (w.redeemableOf m) := by
      simp only [readRedeemable, bind_ok, require_ok, Except.ok.injEq]
      exact ⟨asset, hasset, (), trivial, vault, hvault, hm.free⟩
    have hrest := ih fun n hn => h n (List.mem_cons_of_mem m hn)
    simp only [vaultPairs, List.flatMap_cons, List.cons_append, List.nil_append, readRedeemables, bind_ok, Except.ok.injEq]
    exact ⟨_, hone, _, hrest, rfl⟩

/-- the shares of the basket that `previewRedeem` lists: those that are not zero -/
theorem quoteShares_basket {mints : List Key}
    (h : ∀ m ∈ mints, ∃ asset vault, Vaulted w m asset vault ∧
      previewLiquidateShare (w.redeemableOf m) g s = .ok (share (w.redeemableOf m) s g)) :
    quoteShares w g s mints (vaultPairs mints) =
      .ok ⟨mints.filter fun m => 0 < share (w.redeemableOf m) s g,
        (mints.filter fun m => 0 < share (w.redeemableOf m) s g).map fun m => share (w.redeemableOf m) s g⟩ := by
  induction mints with
  | nil => rfl
  | cons m mints ih =>
    obtain ⟨asset, vault, hm, hshare⟩ := h m List.mem_cons_self
    obtain ⟨hasset, hvault⟩ := hm.load
    have hone : quoteShare w (.asset m) (.vault m) m g s = .ok (share (w.redeemableOf m) s g) := by
      simp only [quoteShare, bind_ok]
      refine ⟨asset, hasset, vault, hvault, ?_⟩
      rw [hm.free]
      split_ifs with hpos
      · exact hshare
      · have hzero : w.redeemableOf m = 0 := by omega
        simp [hzero, share]
    have hrest := ih fun n hn => h n (List.mem_cons_of_mem m hn)
    simp only [vaultPairs, List.flatMap_cons, List.cons_append, List.nil_append, quoteShares, bind_ok]
    refine ⟨_, hone, _, hrest, ?_⟩
    by_cases hpos : 0 < share (w.redeemableOf m) s g
    · simp [hpos, RedeemQuote.push]
    · simp [hpos]

/-- a vault that pays was loaded, and its share computed -/
theorem payShares_quoted {assets : Key → Option AssetConfig} {holder : Key} {mints : List Key} {b b' : Bank Key}
    (hn : mints.Nodup) (h : payShares assets g s holder mints b = .ok b') :
    ∀ m ∈ mints, ∃ asset vault, assets m = some asset ∧ asset.assetMint = m ∧ b.accounts (.vault m) = some vault ∧
      vault.mint = m ∧ ∃ x, previewLiquidateShare (redeemableBalance vault.amount asset.totalClaimable) g s = .ok x := by
  induction mints generalizing b with
  | nil => exact fun m hm => absurd hm List.not_mem_nil
  | cons m mints ih =>
    simp only [payShares, payShare, bind_ok, demand_ok, require_ok] at h
    obtain ⟨b₁, ⟨asset, ha, -, hm, vault, hvault, x, hx, hb₁⟩, h⟩ := h
    obtain ⟨hnot, hn⟩ := List.nodup_cons.1 hn
    simp only [loadCustody, loadTokenAccount, bind_ok, demand_ok, require_ok, Except.ok.injEq] at hvault
    obtain ⟨_, hstands, -, hmint, rfl⟩ := hvault
    intro n hmem
    rcases List.mem_cons.1 hmem with rfl | hin
    · exact ⟨asset, _, ha, hm, hstands, hmint, x, hx⟩
    · obtain ⟨asset', vault', ha', hm', hstands', hmint', hx'⟩ := ih hn h n hin
      have hne : n ≠ m := by rintro rfl; exact hnot hin
      obtain ⟨vault₀, hstands₀, hshape, -⟩ := (transferFromVault_shape hb₁).account _ vault' hstands'
      have hsame := transferFromVault_frame hb₁ (k := .vault n) (by simp [hne]) (by simp)
      rw [Bank.balance_some hstands', Bank.balance_some hstands₀] at hsame
      rw [hsame] at hx'
      exact ⟨asset', vault₀, ha', hm', hstands₀, hshape ▸ hmint', hx'⟩

/-- every vault of a redeem stood before it, with its share computed of what it redeems then -/
theorem executeRedeem_vaulted {a : Redeem} (hw : w.WF) (h : executeRedeem w a = .ok w') :
    ∀ m ∈ w.state.assetMints, ∃ asset vault, Vaulted w m asset vault ∧
      previewLiquidateShare (w.redeemableOf m) a.graiAmount w.supply = .ok (share (w.redeemableOf m) w.supply a.graiAmount) := by
  obtain ⟨wallet, _, w₁, b, hwallet, -, -, -, -, hburn, hpay, -⟩ := executeRedeem_redeems h
  obtain ⟨hwf₁, hassets, hlayout, -⟩ := burnShares_ok hw hburn
  obtain ⟨-, hshape, hframe⟩ := burnShares_frame hw hburn
  have hmints : w₁.state.assetMints = w.state.assetMints := congrArg (fun l => l.2.1) hlayout
  intro m hm
  obtain ⟨asset, vault₁, ha, hmint, hstands₁, hvm₁, x, hx⟩ := payShares_quoted hwf₁.nodup hpay m (hmints ▸ hm)
  rw [hassets] at ha
  obtain ⟨vault, hstands, hvm, -⟩ := hshape.account _ vault₁ hstands₁
  have hsource : Key.vault m ≠ a.holderGraiAta := (loadOwned_ne hw.guarded hwallet (Key.custodyMint_vault m)).symm
  have hsame := (hframe (.vault m) (by simp [hw.ne_grai ha])).2 hsource
  rw [Bank.balance_some hstands₁, Bank.balance_some hstands] at hsame
  have hvaulted : Vaulted w m asset vault := ⟨ha, hmint, hstands, hvm ▸ hvm₁⟩
  rw [hsame, hvaulted.free] at hx
  exact ⟨asset, vault, hvaulted, hx.trans (congrArg Except.ok (previewLiquidateShare_ok hx))⟩

/-- the quotes for a redeem that commits -/
theorem executeRedeem_quoted {a : Redeem} (hw : w.WF) (h : executeRedeem w a = .ok w') :
    let paid := fun m => received m w (.redeem a) w'
    let basket := vaultPairs w.state.assetMints
    executePreviewRedeem w ⟨a.holder.key, a.holderGraiAta, basket, a.graiAmount, a.now⟩ =
        .ok ⟨w.state.assetMints.filter (0 < paid ·), (w.state.assetMints.filter (0 < paid ·)).map paid⟩ ∧
      executeGetRedeemables w basket = .ok ⟨w.state.assetMints, w.state.assetMints.map w.redeemableOf⟩ ∧
      ∀ m ∈ w.state.assetMints, paid m + w'.redeemableOf m = w.redeemableOf m := by
  intro paid basket
  have hpays := executeRedeem_pays hw h
  have hvaulted := executeRedeem_vaulted hw h
  have hlisted : ∀ m ∈ w.state.assetMints, (w.assets m).isSome := fun m hm => (hw.listed.2 m).1 hm
  have hpaid : ∀ m ∈ w.state.assetMints, paid m = share (w.redeemableOf m) w.supply a.graiAmount := fun m hm =>
    hpays.gets m (hlisted m hm)
  have hfilter : w.state.assetMints.filter (fun m => 0 < share (w.redeemableOf m) w.supply a.graiAmount) =
      w.state.assetMints.filter (0 < paid ·) := by
    refine List.filter_congr fun m hm => ?_
    rw [hpaid m hm]
  have hbasket := quoteShares_basket hvaulted
  rw [hfilter] at hbasket
  have hmap : (w.state.assetMints.filter (0 < paid ·)).map (fun m => share (w.redeemableOf m) w.supply a.graiAmount) =
      (w.state.assetMints.filter (0 < paid ·)).map paid := by
    refine List.map_congr_left fun m hm => (hpaid m (List.mem_of_mem_filter hm)).symm
  rw [hmap] at hbasket
  have hlength : basket.length = w.state.assetMints.length * 2 := vaultPairs_length _
  have hsupply : 0 < w.supply := by
    have hs := hpays.supply
    have hg := hpays.pos
    omega
  simp only [executeRedeem, bind_ok, require_ok, checkedAddI64_ok] at h
  obtain ⟨mint, hmint, wallet, hwallet, -, -, -, hopen, _, ⟨hfits, rfl⟩, -, hdelay, _, hholder, -, hpos, -, hcovered, -⟩ := h
  have hshares : mint.supply = w.supply := loadGraiMint_ok hmint
  have hlocked : (match w.escrows a.holder.key with | none => 0 | some escrow => escrow.amount) =
      (initEscrow w a.holder.key).amount := by
    unfold initEscrow
    cases w.escrows a.holder.key <;> rfl
  refine ⟨?_, ?_, fun m hm => hpays.draws.drawn m (hlisted m hm)⟩
  · simp only [executePreviewRedeem, bind_ok, require_ok, checkedAddI64_ok, hlocked]
    exact ⟨mint, hmint, wallet, hwallet, (), hopen, _, ⟨hfits, rfl⟩, (), hdelay, (), hshares ▸ hsupply, _, hholder, (), hpos, (),
      hcovered, (), hlength, hshares ▸ hbasket⟩
  · simp only [executeGetRedeemables, bind_ok, require_ok]
    refine ⟨(), hopen, (), hlength, readRedeemables_basket fun m hm => ?_⟩
    obtain ⟨asset, vault, hm, -⟩ := hvaulted m hm
    exact ⟨asset, vault, hm⟩

/-- **A redeem pays the quoted basket.** In every reachable state, a redeem that commits was quoted there: `preview_redeem` lists,
in registry order, exactly the assets it pays anything of, with what it pays. `get_redeemables` lists every asset with what may be
redeemed of it, and the redeem takes what it pays off that and nothing else. -/
theorem redeem_as_quoted (g : Genesis) (is : List Instr) {a : Redeem} (h : step (g.after is) (.redeem a) = .ok w') :
    let w := g.after is
    let paid := fun m => received m w (.redeem a) w'
    let basket := vaultPairs w.state.assetMints
    executePreviewRedeem w ⟨a.holder.key, a.holderGraiAta, basket, a.graiAmount, a.now⟩ =
        .ok ⟨w.state.assetMints.filter (0 < paid ·), (w.state.assetMints.filter (0 < paid ·)).map paid⟩ ∧
      executeGetRedeemables w basket = .ok ⟨w.state.assetMints, w.state.assetMints.map w.redeemableOf⟩ ∧
      ∀ m ∈ w.state.assetMints, paid m + w'.redeemableOf m = w.redeemableOf m :=
  executeRedeem_quoted (g.after_wf is) h

/-- wallet 2 redeems 301 of the shares -/
def Sample.partRedeem : Redeem where
  holder := wallet 2
  holderGraiAta := .ata (user 2) grai
  remaining := quads (user 2) [usdc]
  graiAmount := 301
  now := 86511

/-- of a thousand shares, with a thousand units in the vault -/
theorem redeem_as_quoted_part :
    let w := Sample.genesis.after openedForTwo
    ∃ w', step w (.redeem Sample.partRedeem) = .ok w' ∧
      executePreviewRedeem w ⟨Sample.user 2, .ata (Sample.user 2) Sample.grai, vaultPairs [Sample.usdc], 301, 86511⟩ =
        .ok ⟨[Sample.usdc], [301]⟩ ∧ 301 + w'.redeemableOf Sample.usdc = 1000 := by
  have hstep : step (Sample.genesis.after openedForTwo) (.redeem Sample.partRedeem) = .ok _ := step_exec (by decide +kernel)
  have hmints : (Sample.genesis.after openedForTwo).state.assetMints = [Sample.usdc] := by decide +kernel
  have hwhole : (Sample.genesis.after openedForTwo).redeemableOf Sample.usdc = 1000 := by decide +kernel
  have hpaid : received Sample.usdc (Sample.genesis.after openedForTwo) (.redeem Sample.partRedeem)
      (exec step (Sample.genesis.after openedForTwo) (.redeem Sample.partRedeem)) = 301 := by decide +kernel
  obtain ⟨-, -, hleft⟩ := redeem_as_quoted _ _ hstep
  have hone : received Sample.usdc _ _ _ + _ = _ := hleft Sample.usdc (by rw [hmints]; exact List.mem_cons_self)
  rw [hpaid, hwhole] at hone
  exact ⟨_, hstep, by decide +kernel, hone⟩

end Grindurus.Grai
