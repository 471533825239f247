/-
What it costs a wallet to take GRAI out of its own escrow.

- `Instr.signer`: the wallet that signs an instruction. `lowers_lock`: only an unlock, a bribe and a redeem lower a lock.
- `Bribe.quote`, `cutPool`: the ask of a bribe, and the part of it that does not go to the voter.
- `Withdrawal`: an unlock pays its penalty, a wallet that bribes itself pays the cut pool, a redeem burns.
- `withdrawals_cost`: along every run of instructions of one wallet what leaves its escrow is a `Withdrawal`, and costs
  something unless the wallet bribes itself at an ask without a cut pool.
-/
import Grindurus.Grai.Unlocks
import Grindurus.Grai.Redeems

namespace Grindurus.Grai

open Checked TokenBank Machine Function

variable {w w' : World} {b b' : Bank Key} {m u k : Key} {e e' : Escrow} {i : Instr} {x : ℕ}

/-! ## Who lowers a lock -/

/-- the wallet that has to sign an instruction; none where any wallet will do -/
def Instr.signer : Instr → Option Key
  | .transferOwnership a => some a.owner.key
  | .acceptOwnership a => some a.pendingOwner.key
  | .setBeneficiar a => some a.owner.key
  | .setRoyaltyBps a => some a.owner.key
  | .setRevenueShareBps a => some a.owner.key
  | .setGrinders a => some a.owner.key
  | .setBribeable a => some a.owner.key
  | .setConfig a => some a.owner.key
  | .setFeed a => some a.owner.key
  | .deposit a => some a.depositor.key
  | .depositSol a => some a.depositor.key
  | .distribute a => some a.custodyWallet.key
  | .lock a => some a.locker.key
  | .unlock a => some a.account.key
  | .claim a => some a.payer.key
  | .claimAll a => some a.payer.key
  | .vote a => some a.voter.key
  | .bribe a => some a.briber.key
  | .poach a => some a.poacher.key
  | .liquidate a => some a.caller.key
  | .redeem a => some a.holder.key
  | .revive _ => none
  | .token s _ => some s.key
  | .wrap .. => none
  | .grinders .. => none

/-- no lock falls from `w` to `w'` -/
def LocksKept (w w' : World) : Prop := ∀ u, w.lockOf u ≤ w'.lockOf u

theorem LocksKept.of_escrows (h : w'.escrows = w.escrows) : LocksKept w w' := by
  intro u
  unfold World.lockOf
  rw [h]

theorem LocksKept.storeEscrow (h : w'.escrows = w.escrows) (he : (initEscrow w u).amount ≤ e.amount) :
    LocksKept w (w'.storeEscrow u e) := by
  intro v
  rw [World.lockOf_store]
  rcases eq_or_ne v u with rfl | hv
  · rw [update_self, ← initEscrow_amount w v]
    exact he
  · rw [update_of_ne hv]
    exact LocksKept.of_escrows h v

theorem performLock_keeps {source : Key} {owner : Signer} {remaining : List Key} (hw : w.WF)
    (h : performLock w e x source owner remaining = .ok (w', e')) : w'.escrows = w.escrows ∧ e.amount ≤ e'.amount := by
  obtain ⟨-, ha, -, _, _, _, _, -, -, rfl⟩ := performLock_ok hw.nodup h
  exact ⟨rfl, by omega⟩

theorem executeLock_keeps {a : Lock} (hw : w.WF) (h : executeLock w a = .ok w') : LocksKept w w' := by
  obtain ⟨b, w₁, e₁, hb, hlock, rfl⟩ := executeLock_locks h
  obtain ⟨hescrows, ha⟩ := performLock_keeps (hw.bank (initVault_moves w.state.graiMint hb)) hlock
  exact .storeEscrow hescrows ha

theorem executeVote_keeps {a : Vote} (hw : w.WF) (h : executeVote w a = .ok w') : LocksKept w w' := by
  obtain ⟨b, w₁, e₁, w₂, e₂, hb, hauto, hvote, rfl⟩ := executeVote_votes h
  have hwf := hw.bank (initVault_moves w.state.graiMint hb)
  have hauto : w₁.state.assetMints.Nodup ∧ w₁.escrows = w.escrows ∧ (initEscrow w a.voter.key).amount ≤ e₁.amount := by
    rcases hauto with ⟨rfl, rfl⟩ | ⟨x, hlock⟩
    · exact ⟨hw.nodup, rfl, le_rfl⟩
    · obtain ⟨hescrows, hle⟩ := performLock_keeps hwf hlock
      exact ⟨(performLock_step hwf hlock).1.nodup, hescrows, hle⟩
  obtain ⟨hnodup, hescrows, hle⟩ := hauto
  obtain ⟨-, -, ha, -, _, _, _, -, rfl⟩ := performVote_ok hnodup hvote
  exact .storeEscrow hescrows (hle.trans ha.ge)

theorem bookDeposit_keeps {a : Deposit} {supply decimals : ℕ} {price : PriceData} (hw : w.WF)
    (h : bookDeposit w a supply decimals price = .ok w') : LocksKept w w' := by
  obtain ⟨_, _, b, _, w₁, _, -, hb, hmint, h⟩ := bookDeposit_moves h
  have hwf := hw.bank (a.move_moves hb)
  have hq := mintReferrer_quiet (w := { w with bank := b }) hw.mint hmint
  have hwf₁ := hq.wf hwf
  have hescrows : w₁.escrows = w.escrows := hq.escrows
  have hinit : initEscrow w₁ a.depositor.key = initEscrow w a.depositor.key := by
    unfold initEscrow
    rw [hescrows]
  obtain ⟨w₂, e₂, rfl, ⟨rfl, rfl⟩ | hlock⟩ := lockDeposit_cases h
  · exact .storeEscrow hescrows (by rw [← hinit]; exact le_rfl)
  · obtain ⟨hescrows', hle⟩ := performLock_keeps (by exact hwf₁.keep rfl (fun _ => rfl) hwf₁.guarded) hlock
    exact .storeEscrow (hescrows'.trans hescrows) (by rw [← hinit]; exact hle)

/-- a lock is lowered only by an unlock or a redeem of its owner, or a bribe of its vote -/
theorem lowers_lock (hw : w.WF) (h : step w i = .ok w') (hlow : w'.lockOf u < w.lockOf u) :
    (∃ a, i = .unlock a) ∨ (∃ a, i = .bribe a) ∨ ∃ a, i = .redeem a := by
  have hkept : ¬ LocksKept w w' := fun hk => absurd (hk u) (by omega)
  have hescrows : w'.escrows ≠ w.escrows := fun he => hkept (.of_escrows he)
  cases i with
  | unlock a => exact .inl ⟨a, rfl⟩
  | bribe a => exact .inr (.inl ⟨a, rfl⟩)
  | redeem a => exact .inr (.inr ⟨a, rfl⟩)
  | lock a => exact absurd (executeLock_keeps hw h) hkept
  | vote a => exact absurd (executeVote_keeps hw h) hkept
  | deposit a =>
    obtain ⟨_, _, _, _, hwf, h⟩ := executeDeposit_books hw h
    exact absurd (bookDeposit_keeps hwf h) hkept
  | depositSol a =>
    obtain ⟨_, _, _, _, hwf, h⟩ := executeDepositSol_books hw h
    exact absurd (bookDeposit_keeps hwf h) hkept
  | claim a =>
    simp only [step, bind_ok, Prod.exists, Except.ok.injEq] at h
    obtain ⟨_, _, h, rfl⟩ := h
    exact absurd (executeClaim_keepsIndex h).1 hescrows
  | claimAll a =>
    simp only [step, bind_ok, Prod.exists, Except.ok.injEq] at h
    obtain ⟨_, _, h, rfl⟩ := h
    obtain ⟨_, h⟩ := executeClaimAll_walks h
    exact absurd (claimAssets_keepsIndex h).1 hescrows
  | setFeed a => exact absurd (executeSetFeed_keepsIndex h).1 hescrows
  | poach a =>
    obtain ⟨_, _, _, _, _, _, _, -, -, -, h⟩ := executePoach_slot h
    exact absurd (rebindSlot_booked h).quiet.escrows hescrows
  | distribute a =>
    obtain ⟨_, _, _, _, _, -, -, -, -, rfl⟩ := executeDistribute_pulls h
    exact absurd rfl hescrows
  | liquidate a =>
    obtain ⟨_, _, _, -, -, -, -, -, -, rfl⟩ := executeLiquidate_opens h
    exact absurd rfl hescrows
  | revive a =>
    obtain ⟨_, _, -, -, -, rfl⟩ := executeRevive_closes h
    exact absurd rfl hescrows
  | transferOwnership a | acceptOwnership a | setBeneficiar a | setRoyaltyBps a | setRevenueShareBps a | setGrinders a =>
    obtain ⟨_, _, _, _, _, _, _, rfl⟩ := step_governs rfl h
    exact absurd rfl hescrows
  | setConfig a =>
    obtain ⟨-, rfl⟩ := executeSetConfig_adjusts h
    exact absurd rfl hescrows
  | setBribeable a =>
    obtain ⟨_, -, rfl⟩ := executeSetBribeable_marks h
    exact absurd rfl hescrows
  | token s op =>
    simp only [step, bind_ok, Except.ok.injEq] at h
    obtain ⟨-, -, _, -, rfl⟩ := h
    exact absurd rfl hescrows
  | wrap k x =>
    simp only [step, bind_ok, Except.ok.injEq] at h
    obtain ⟨_, -, rfl⟩ := h
    exact absurd rfl hescrows
  | grinders k g =>
    cases h
    exact absurd rfl hescrows

theorem lockOf_update (h : w'.escrows = update w.escrows u (some e)) (v : Key) :
    w'.lockOf v = if v = u then e.amount else w.lockOf v := by
  unfold World.lockOf
  rw [h]
  split_ifs with hv
  · rw [hv, update_self]
    rfl
  · rw [update_of_ne hv]

/-! ## The price of a bribe -/

/-- what `execute_bribe` quotes in `w`: `(bribe_amount, premium, discount)` -/
def Bribe.quote (w : World) (a : Bribe) : Except ErrorCode (ℕ × ℕ × ℕ) := do
  let settlementMint ← loadMint w.bank a.settlementMint
  let asset ← loadAssetAccount w a.settlementMint
  let bribePrice ← fetchPriceFromFeed a.settlementPriceFeed asset
  previewBribe a.graiAmount w.supply w.state.totalValue w.state.totalVoted w.state.config.quorumBps
    w.state.config.bribePremiumBps settlementMint.decimals bribePrice

/-- the part of the ask that the voter does not get: half of the premium, or the discount -/
def cutPool (premium discount : ℕ) : ℕ := if 0 < premium then premium / 2 else discount

/-- the ask is positive and fits in 64 bits, and holds the premium or the discount, of which one is zero -/
theorem previewBribe_ok {g supply value voted quorum slope decimals ask premium discount : ℕ} {price : PriceData}
    (h : previewBribe g supply value voted quorum slope decimals price = .ok (ask, premium, discount)) :
    0 < ask ∧ (premium ≤ ask ∧ discount = 0 ∨ premium = 0) := by
  simp only [previewBribe, bind_ok, require_ok, narrow_ok, Prod.exists, Except.ok.injEq, Prod.mk.injEq] at h
  obtain ⟨-, -, _, -, book, -, _, -, ask', premium', discount', hask, -, hpos, _, ⟨-, rfl⟩, rfl, rfl, rfl⟩ := h
  refine ⟨hpos, ?_⟩
  split_ifs at hask
  all_goals
    simp only [scarceAsk, excessAsk, bind_ok, checkedSub_ok, Except.ok.injEq, Prod.mk.injEq] at hask
    first
      | obtain ⟨_, -, _, -, _, -, _, -, _, ⟨-, rfl⟩, rfl, rfl, rfl⟩ := hask
        exact .inl ⟨Nat.sub_le .., rfl⟩
      | obtain ⟨_, -, _, -, _, -, _, -, rfl, rfl, rfl⟩ := hask
        exact .inr rfl

/-- the cut pool of a bribe that is received in full -/
theorem bribeCutPool_ok {ask premium discount pool : ℕ} (hask : 0 < ask) (h : bribeCutPool ask ask premium discount = .ok pool) :
    pool = cutPool premium discount := by
  unfold bribeCutPool at h
  unfold cutPool
  split_ifs at h ⊢
  · simp only [bind_ok, checkedSub_ok, Except.ok.injEq] at h
    obtain ⟨_, ⟨hle, rfl⟩, _, hshare, _, ⟨-, rfl⟩, rfl⟩ := h
    have hbody := mulDiv_ok hshare
    rw [Nat.mul_div_cancel_left _ hask] at hbody
    omega
  · have hpool := mulDiv_ok h
    rwa [Nat.mul_div_cancel_left _ hask] at hpool

/-- the wallet bribes itself, and the voter gets the whole ask -/
def FreeBribe (u : Key) (w : World) : Instr → Prop
  | .bribe a => a.voter = u ∧ ∃ ask premium discount, a.quote w = .ok (ask, premium, discount) ∧ premium ≤ 1 ∧ discount = 0
  | _ => False

/-- a wallet bribed itself: it paid the ask from the account `src`, and got back its shares and all but the cut pool -/
structure SelfBribed (w w' : World) (u : Key) (a : Bribe) (ask pool : ℕ) : Prop where
  lock : w'.lockOf u + a.graiAmount = w.lockOf u
  payer : Bank.Stands u a.settlementMint w'.bank a.briberSettlementAta
  pool_le : pool ≤ ask
  balance : ∀ k, k.custodyMint = none →
    w'.bank.balance k + (if k = a.briberSettlementAta then ask else 0) =
      w.bank.balance k + (if k = .ata u a.settlementMint then ask - pool else 0) +
        if k = .ata u w.state.graiMint then a.graiAmount else 0

theorem transferFromSigner_stands {src dst p : Key} {s : Signer} (h : transferFromSigner b src dst s x = .ok b')
    (hs : Bank.Stands p m b k) : Bank.Stands p m b' k := by
  unfold transferFromSigner at h
  split_ifs at h
  · cases h
    exact hs
  · have hmoved : Bank.Moved p (fun _ => True) .nativeMint b b' := .transfer (spl_ok.1 h)
    exact hmoved.stands trivial hs

/-- funding the cuts moves tokens between accounts of the program only -/
theorem fundCuts_balance {asset asset' : AssetConfig} {pool : ℕ} (h : fundCuts w asset m pool = .ok (asset', b))
    (hk : k.custodyMint = none) : b.balance k = w.bank.balance k := by
  simp only [fundCuts, bind_ok, Prod.exists, Except.ok.injEq, Prod.mk.injEq] at h
  obtain ⟨_, _, -, _, _, -, _, -, b₁, hb, -, rfl⟩ := h
  have hbalance := transferFromVault_balance hb k
  have hvault : k ≠ .vault m := by rintro rfl; cases hk
  have htreasury : k ≠ .treasury m := by rintro rfl; cases hk
  rwa [if_neg hvault, if_neg htreasury] at hbalance

theorem fundCuts_stands {asset asset' : AssetConfig} {pool : ℕ} {p n : Key} (h : fundCuts w asset m pool = .ok (asset', b))
    (hs : Bank.Stands p n w.bank k) : Bank.Stands p n b k := by
  simp only [fundCuts, bind_ok, Prod.exists, Except.ok.injEq, Prod.mk.injEq] at h
  obtain ⟨_, _, -, _, _, -, _, -, b₁, hb, -, rfl⟩ := h
  exact transferFromVault_stands hb hs

/-- the accounts of a bribe are opened, and hold what they held; the source is the briber's -/
theorem Bribe.load_bank {a : Bribe} {t t' : MintAccount Key} {asset : AssetConfig}
    (h : a.load w = .ok (t, e, t', asset, b)) :
    b.balance = w.bank.balance ∧ Bank.Stands a.briber.key a.settlementMint b a.briberSettlementAta ∧
      w.bank.mints w.state.graiMint = some t ∧ loadMint w.bank a.settlementMint = .ok t' ∧
        loadAssetAccount w a.settlementMint = .ok asset := by
  simp only [Bribe.load, loadGraiMint, loadOwned, loadTokenAccount, bind_ok, demand_ok, require_ok, Except.ok.injEq,
    Prod.mk.injEq] at h
  obtain ⟨t, ⟨_, ht, -, -, rfl⟩, _, -, t', ht', asset, hasset, -, -, -, -, _, -, _, -, b₁, hb₁, _, ⟨c, hc, -, hm, -, ho, -⟩,
    b₂, hb₂, _, -, rfl, rfl, rfl, rfl, rfl⟩ := h
  have hsame : b₂.balance = w.bank.balance := (initTokenAccount_same hb₂).1.trans (initTokenAccount_same hb₁).1
  exact ⟨hsame, initAta_stands hb₂ ⟨c, hc, ho, hm⟩, demand_ok.1 ht, ht', hasset⟩

/-- a bribe lowers no lock but the voter's -/
theorem executeBribe_others {a : Bribe} (hw : w.WF) (h : executeBribe w a = .ok w') (hu : u ≠ a.voter) :
    w'.lockOf u = w.lockOf u := by
  obtain ⟨_, e, _, asset, b, _, _, _, _, ps, w₂, e', b₁, w₃, -, -, -, -, -, hbuy, -, hpay, rfl⟩ := executeBribe_buys hw h
  obtain ⟨-, -, -, -, -, b₂, -, rfl⟩ := buyOut_ok hbuy
  obtain ⟨_, asset', b₃, b₄, -, -, -, -, rfl⟩ := payBribe_pays hpay
  exact (lockOf_update (w := w) (u := a.voter) (e := e') (by rfl) u).trans (if_neg hu)

/-- a bribe with oneself as the voter costs the cut pool -/
theorem executeBribe_selfBribed {a : Bribe} (hw : w.WF) (hu : a.briber.key = a.voter) (h : executeBribe w a = .ok w') :
    ∃ ask premium discount, a.quote w = .ok (ask, premium, discount) ∧
      SelfBribed w w' a.voter a ask (cutPool premium discount) := by
  obtain ⟨t, e, t', asset, b, price, ask, premium, discount, ps, w₂, e', b₁, w₃, hload, -, hprice, hask, -, hbuy, hb₁, hpay,
    rfl⟩ := executeBribe_buys hw h
  obtain ⟨hsame, hpayer, ht, ht', hasset⟩ := a.load_bank hload
  obtain ⟨he, ha, -⟩ := Bribe.load_ok hload
  obtain ⟨-, hle, -, -, rfl, b₂, hb₂, rfl⟩ := buyOut_ok hbuy
  obtain ⟨pool, asset', b₃, b₄, hpool, hpool_le, hfund, hb₄, rfl⟩ := payBribe_pays hpay
  obtain rfl := bribeCutPool_ok (previewBribe_ok hask).1 hpool
  refine ⟨ask, premium, discount, ?_, ?_, ?_, hpool_le, fun k hk => ?_⟩
  · have hsupply : w.supply = t.supply := by simp [World.supply, Bank.supply, ht]
    simp only [Bribe.quote, bind_ok]
    rw [hsupply]
    exact ⟨t', ht', asset, hasset, price, hprice, hask⟩
  · have hlock : (e.amount - a.graiAmount) + a.graiAmount = e.amount := Nat.sub_add_cancel hle
    rw [World.lockOf_store, update_self, World.lockOf_some he]
    exact hlock
  · have h₂ := transferFromSigner_stands hb₁ (transferFromVault_stands hb₂ hpayer)
    rw [← hu]
    exact transferFromVault_stands hb₄ (fundCuts_stands hfund (by exact h₂))
  · have hvault : ∀ n, k ≠ .vault n := by
      rintro n rfl
      cases hk
    have h₁ := transferFromSigner_balance hb₁ k
    have h₂ := transferFromVault_balance hb₂ k
    have h₃ : b₃.balance k = b₁.balance k := fundCuts_balance hfund hk
    have h₄ := transferFromVault_balance hb₄ k
    rw [if_neg (hvault _)] at h₁ h₂ h₄
    have h₀ : b.balance k = w.bank.balance k := congrFun hsame k
    rw [hu] at h₂
    change b₄.balance k + _ = _
    dsimp only at h₁ h₂ h₄
    omega

/-! ## Redeem -/

/-- what the wallet does not cover of a redeem leaves the escrow of the holder -/
theorem burnShares_locks {a : Redeem} {wallet value : ℕ} (hw : w.WF) (h : burnShares w a wallet value = .ok w') (v : Key) :
    w'.lockOf v = if v = a.holder.key then w.lockOf v - (a.graiAmount - min a.graiAmount wallet) else w.lockOf v := by
  obtain ⟨_, _, ps, b, w₁, e', rfl, rfl, hle, -, -, hlocked, -, rfl⟩ := burnShares_burns hw h
  obtain ⟨ha, -, _, _, _, -, -, -, rfl⟩ := burnLocked_ok (by omega) hlocked
  refine (lockOf_update (w := w) (u := a.holder.key) (e := e') (by rfl) v).trans ?_
  split_ifs with hv
  · rw [ha, hv, initEscrow_amount]
  · rfl

/-- a redeem needs liquidation open, and burns at least what it takes out of the escrow of the holder -/
theorem executeRedeem_burns {a : Redeem} (hw : w.WF) (h : executeRedeem w a = .ok w') :
    w.state.liquidation = true ∧ (∀ v, v ≠ a.holder.key → w'.lockOf v = w.lockOf v) ∧
      w'.supply + (w.lockOf a.holder.key - w'.lockOf a.holder.key) ≤ w.supply := by
  have hsupply := (executeRedeem_pays hw h).supply
  obtain ⟨wallet, _, w₁, b, -, hopen, -, -, -, hburn, -, rfl⟩ := executeRedeem_redeems h
  have hlocks := burnShares_locks hw hburn
  refine ⟨hopen, fun v hv => (hlocks v).trans (if_neg hv), ?_⟩
  have hlock : w₁.lockOf a.holder.key = w.lockOf a.holder.key - (a.graiAmount - min a.graiAmount wallet.amount) :=
    (hlocks _).trans (if_pos rfl)
  change _ + (w.lockOf a.holder.key - w₁.lockOf a.holder.key) ≤ _
  rw [hlock]
  omega

/-! ## Withdrawals -/

/-- what an instruction of `u` gives up for what it takes out of its escrow: the penalty, the cut pool, or what it burns -/
def withdrawalCost (u : Key) (w : World) (i : Instr) (w' : World) : ℕ :=
  match i with
  | .unlock a =>
    match previewUnlock a.graiAmount (w.lockOf a.account.key) w.state.config.unlockPenaltyBps with
    | .ok (_, penalty) => penalty
    | .error _ => 0
  | .bribe a =>
    match a.quote w with
    | .ok (_, premium, discount) => if a.voter = u then cutPool premium discount else 0
    | .error _ => 0
  | .redeem _ => w.lockOf u - w'.lockOf u
  | _ => 0

/-- an instruction of `u` took something out of its escrow, at a cost -/
inductive Withdrawal (u : Key) (w w' : World) : Instr → ℕ → Prop where
  /-- an unlock: the penalty goes to the Grinders -/
  | unlock {a : Unlock} {e : Escrow} {x penalty : ℕ} (he : w.escrows u = some e) (hpos : 0 < penalty)
      (h : Unlocked w w' u a.accountGraiAta e a.graiAmount x penalty) : Withdrawal u w w' (.unlock a) penalty
  /-- a bribe with oneself as the voter: the cut pool goes to the lockers and the treasury -/
  | bribe {a : Bribe} {ask premium discount : ℕ} (hbriber : a.briber.key = u) (hvoter : a.voter = u)
      (hquote : a.quote w = .ok (ask, premium, discount))
      (h : SelfBribed w w' u a ask (cutPool premium discount)) : Withdrawal u w w' (.bribe a) (cutPool premium discount)
  /-- a redeem: everything is burned -/
  | redeem {a : Redeem} {x : ℕ} (hopen : w.state.liquidation = true) (hlock : w'.lockOf u + x = w.lockOf u)
      (hburn : w'.supply + x ≤ w.supply) : Withdrawal u w w' (.redeem a) x

/-- a penalty is never rounded down to nothing -/
theorem previewUnlock_pos {g l bps x p : ℕ} (hg : 0 < g) (hbps : 0 < bps) (h : previewUnlock g l bps = .ok (x, p)) : 0 < p := by
  simp only [previewUnlock, bind_ok, require_ok] at h
  obtain ⟨-, -, h⟩ := h
  rw [if_neg (by omega)] at h
  simp only [bind_ok, checkedMul_ok, checkedAdd_ok, checkedDiv_ok, narrow_ok, checkedSub_ok, Except.ok.injEq, Prod.mk.injEq] at h
  obtain ⟨-, -, _, ⟨-, rfl⟩, _, ⟨-, rfl⟩, _, ⟨-, rfl⟩, _, ⟨-, rfl⟩, _, -, -, rfl⟩ := h
  apply Nat.div_pos _ (by decide)
  have hmul := Nat.mul_pos hg hbps
  have hbps : 0 < BPS := by decide
  omega

/-- what an instruction of a wallet takes out of its own escrow is a withdrawal, while the penalty is not zero -/
theorem step_withdraws (hw : w.WF) (hsigned : ∀ v, i.signer = some v → v = u) (hpenalty : 0 < w.state.config.unlockPenaltyBps)
    (h : step w i = .ok w') (hlow : w'.lockOf u < w.lockOf u) : Withdrawal u w w' i (withdrawalCost u w i w') := by
  rcases lowers_lock hw h hlow with ⟨a, rfl⟩ | ⟨a, rfl⟩ | ⟨a, rfl⟩
  · obtain rfl := hsigned _ rfl
    cases he : w.escrows a.account.key with
    | none => simp [World.lockOf, he] at hlow
    | some e =>
      obtain ⟨x, p, hprice, hu⟩ := executeUnlock_unlocked hw he h
      have hcost : withdrawalCost a.account.key w (.unlock a) w' = p := by
        simp only [withdrawalCost, World.lockOf_some he, hprice]
      have hg : 0 < a.graiAmount := by
        obtain ⟨_, _, _, _, _, _, _, _, _, -, -, hg, -⟩ := executeUnlock_releases hw h
        exact hg
      rw [hcost]
      exact .unlock he (previewUnlock_pos hg hpenalty hprice) hu
  · have hbriber : a.briber.key = u := hsigned _ rfl
    have hvoter : a.voter = u := by
      by_contra hne
      rw [executeBribe_others hw h (Ne.symm hne)] at hlow
      exact lt_irrefl _ hlow
    obtain ⟨ask, premium, discount, hquote, hself⟩ := executeBribe_selfBribed hw (hbriber.trans hvoter.symm) h
    have hcost : withdrawalCost u w (.bribe a) w' = cutPool premium discount := by
      simp only [withdrawalCost, hquote, if_pos hvoter]
    rw [hvoter] at hself
    rw [hcost]
    exact .bribe hbriber hvoter hquote hself
  · obtain rfl := hsigned _ rfl
    obtain ⟨hopen, -, hburn⟩ := executeRedeem_burns hw h
    exact .redeem hopen (Nat.add_sub_of_le hlow.le) hburn

/-- a withdrawal costs something, unless it is a bribe without a cut pool -/
theorem Withdrawal.pos {n : ℕ} (h : Withdrawal u w w' i n) (hfree : ¬ FreeBribe u w i) (hlow : w'.lockOf u < w.lockOf u) :
    0 < n := by
  cases h with
  | unlock _ hpos _ => exact hpos
  | redeem _ hlock _ => omega
  | @bribe a ask premium discount _ hvoter hquote _ =>
    by_contra h0
    have hpool : cutPool premium discount = 0 := by omega
    unfold cutPool at hpool
    have hprice : premium ≤ ask ∧ discount = 0 ∨ premium = 0 := by
      simp only [Bribe.quote, bind_ok] at hquote
      obtain ⟨_, -, _, -, _, -, hquote⟩ := hquote
      exact (previewBribe_ok hquote).2
    refine hfree ⟨hvoter, ask, premium, discount, hquote, ?_, ?_⟩
    · split_ifs at hpool <;> omega
    · split_ifs at hpool <;> omega

/-! ## Along a run -/

/-- a positive penalty is configured -/
def Penalised (w : World) (_ : Instr) : Prop := 0 < w.state.config.unlockPenaltyBps

/-- every committed step of the run that takes something out of the escrow of `u` is a withdrawal -/
def Withdraws (u : Key) (w : World) (i : Instr) : Prop :=
  ∀ w', step w i = .ok w' → w'.lockOf u < w.lockOf u → Withdrawal u w w' i (withdrawalCost u w i w')

theorem run_withdraws {js : List Instr} (hw : w.WF) (hsigned : ∀ i ∈ js, ∀ v, i.signer = some v → v = u)
    (hpenalty : Meets step Penalised w js) : Meets step (Withdraws u) w js := by
  induction js generalizing w with
  | nil => trivial
  | cons i js ih =>
    obtain ⟨hi, hjs⟩ := hpenalty
    refine ⟨fun w' h w₁ h₁ hlow => ?_, ih ?_ (fun j hj => hsigned j (List.mem_cons_of_mem i hj)) hjs⟩
    · exact step_withdraws hw (hsigned i List.mem_cons_self) (hi w' h) h₁ hlow
    · rcases exec_cases step w i with ⟨w', h, he⟩ | he
      · rw [he]
        exact (step_committed hw h).wf
      · rwa [he]

/-- a run of withdrawals that lowers a lock, none of them free, costs something -/
theorem run_costs {js : List Instr} (h : Meets step (Withdraws u) w js) (hfree : Meets step (fun w i => ¬ FreeBribe u w i) w js)
    (hlow : (run step w js).lockOf u < w.lockOf u) : 0 < tally step (withdrawalCost u) w js := by
  induction js generalizing w with
  | nil => exact absurd hlow (lt_irrefl _)
  | cons i js ih =>
    obtain ⟨hi, hjs⟩ := h
    obtain ⟨hi', hjs'⟩ := hfree
    rw [run_cons] at hlow
    rw [tally]
    rcases exec_cases step w i with ⟨w', hs, he⟩ | he
    · rw [he] at hlow hjs hjs' ⊢
      simp only [hs]
      rcases Nat.lt_or_ge (w'.lockOf u) (w.lockOf u) with hlt | hge
      · have hpos := (hi w' hs w' hs hlt).pos (hi' w' hs) hlt
        omega
      · have hrest := ih hjs hjs' (hlow.trans_le hge)
        omega
    · rw [he] at hlow hjs hjs' ⊢
      have hrest := ih hjs hjs' hlow
      omega

/-- **Withdrawals.** After every run: along every further run of instructions of one wallet, while the penalty is not zero,
whatever leaves the escrow of the wallet is a withdrawal; and if something left it and no bribe of the run was free, the run cost
something. A withdrawal is an unlock, a bribe or a redeem of the wallet itself. The penalty of an unlock and the ask of a bribe
are the costs; a bribe so small that its premium rounds to nothing is free (`free_withdrawal`). -/
theorem withdrawals_cost (g : Genesis) (is js : List Instr) (u : Key) (hsigned : ∀ i ∈ js, ∀ v, i.signer = some v → v = u)
    (hpenalty : Meets step Penalised (g.after is) js) :
    Meets step (Withdraws u) (g.after is) js ∧
      (Meets step (fun w i => ¬ FreeBribe u w i) (g.after is) js →
        (run step (g.after is) js).lockOf u < (g.after is).lockOf u →
          0 < tally step (withdrawalCost u) (g.after is) js) := by
  have h := run_withdraws (g.after_wf is) hsigned hpenalty
  exact ⟨h, run_costs h⟩

/-- wallet 2 locks 1000 of its shares and votes with all of them; the asset is taken in bribes -/
def Sample.voting : List Instr :=
  [Sample.listing Sample.usdc false, .setBribeable ⟨Sample.wallet 1, Sample.usdc, true⟩,
    Sample.deposit 2 10000 .default (List.replicate 3 .default),
    .vote ⟨Sample.wallet 2, .ata (Sample.user 2) Sample.grai, Sample.pairs (Sample.user 2) [Sample.usdc], 1000, 10⟩]

/-- wallet 2 bribes itself -/
def Sample.bribeSelf (x : ℕ) : Instr :=
  .bribe ⟨Sample.wallet 2, Sample.user 2, Sample.usdc, Sample.feed, .ata (Sample.user 2) Sample.usdc,
    Sample.pairs (Sample.user 2) [Sample.usdc], x⟩

/-- unlocking 500 costs 5 shares, bribing oneself out of the other 500 costs 4 units of the asset -/
theorem withdrawals_of_two :
    tally step (withdrawalCost (Sample.user 2)) (Sample.genesis.after Sample.voting)
      [Sample.unlock 2 500 [Sample.usdc], Sample.bribeSelf 500] = 5 + 4 ∧
    Meets step (Withdraws (Sample.user 2)) (Sample.genesis.after Sample.voting)
      [Sample.unlock 2 500 [Sample.usdc], Sample.bribeSelf 500] := by
  refine ⟨by decide +kernel, (withdrawals_cost Sample.genesis Sample.voting
    [Sample.unlock 2 500 [Sample.usdc], Sample.bribeSelf 500] (Sample.user 2) ?_ ⟨?_, ?_, trivial⟩).1⟩
  · intro i hi v hv
    rcases List.mem_cons.1 hi with rfl | hi
    · exact (Option.some.inj hv).symm
    · obtain rfl := List.mem_singleton.1 hi
      exact (Option.some.inj hv).symm
  · exact fun _ _ => by unfold Penalised; decide +kernel
  · exact fun _ _ => by unfold Penalised; decide +kernel

/-- a bribe of 10 shares at book value 10 has a premium of 0: wallet 2 takes them out of its escrow and pays nothing -/
theorem free_withdrawal :
    (Sample.genesis.after Sample.voting).state.liquidation = false ∧
    (Sample.genesis.after Sample.voting).state.config.unlockPenaltyBps = 100 ∧
    ∃ w', step (Sample.genesis.after Sample.voting) (Sample.bribeSelf 10) = .ok w' ∧
      w'.lockOf (Sample.user 2) + 10 = (Sample.genesis.after Sample.voting).lockOf (Sample.user 2) ∧
      w'.bank.balance (.ata (Sample.user 2) Sample.grai) =
        (Sample.genesis.after Sample.voting).bank.balance (.ata (Sample.user 2) Sample.grai) + 10 ∧
      w'.bank.balance (.ata (Sample.user 2) Sample.usdc) =
        (Sample.genesis.after Sample.voting).bank.balance (.ata (Sample.user 2) Sample.usdc) := by
  refine ⟨by decide +kernel, by decide +kernel, exec step (Sample.genesis.after Sample.voting) (Sample.bribeSelf 10),
    step_exec (by decide +kernel), by decide +kernel, by decide +kernel, by decide +kernel⟩

end Grindurus.Grai
