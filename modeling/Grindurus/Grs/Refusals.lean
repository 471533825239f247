/-
What a delivery is refused with (`programs/grs/src/instructions/lz_receive.rs` and what it calls).

The results on the escrows, the lock, the cap and the earmark all say that some error does not occur. They share everything but
the step that could raise it.

- `readKey_throws`, `inbound_throws`, `upsertSaleAccount_throws` and their kind: the errors of each helper, stated once. For a set
  that a result is about they give the rest by `Throws.mono`.
- `Checks`: the errors that do not come of a shortage. Every helper above stays within them.
- `resizeLot_throws`, `receiveSale_throws`, `receiveGrant_throws`, `receiveOft_throws`, `LzReceive.apply_throws`: within a set that contains `Checks`,
  a delivery fails only as its credit or its debit does. These are the rules that the later modules use; each of them has to look
  at `creditEscrow` and `debitSaleEscrow` only.
-/
import Grindurus.Grs.Effects

namespace Grindurus.Grs

open Checked TokenBank Function

variable {d : Deployment} {S : Set OFTError} {w w' : World} {b : Bank Pubkey} {k mint owner : Pubkey} {x id : ℕ} {now : ℤ}

/-! ## The helpers -/

@[simp] theorem throws_spl {α : Type} {r : Except (TokenError Pubkey) α} :
    Throws S (spl r) ↔ Throws {e | .token e ∈ S} r := by
  cases r <;> simp [spl, Except.mapError]

theorem readKey_throws {l : List UInt8} : Throws {.panicked} (readKey l) := by
  unfold readKey
  split_ifs <;> simp

theorem u64FromU256Be_throws {word : List UInt8} : Throws {.invalidSaleMessage} (u64FromU256Be word) := by simp [u64FromU256Be]

theorem decodeSale_throws {message : List UInt8} : Throws {.panicked, .invalidSaleMessage} (decodeSale message) := by
  have hkey : ∀ l, Throws {.panicked, .invalidSaleMessage} (readKey l) := fun l => readKey_throws.mono (by simp)
  have hword : ∀ l, Throws {.panicked, .invalidSaleMessage} (u64FromU256Be l) := fun l => u64FromU256Be_throws.mono (by simp)
  simp [decodeSale, hkey, hword]

theorem decodeGrant_throws {message : List UInt8} : Throws {.panicked, .invalidSaleMessage} (decodeGrant message) := by
  have hkey : ∀ l, Throws {.panicked, .invalidSaleMessage} (readKey l) := fun l => readKey_throws.mono (by simp)
  have hword : ∀ l, Throws {.panicked, .invalidSaleMessage} (u64FromU256Be l) := fun l => u64FromU256Be_throws.mono (by simp)
  simp [decodeGrant, hkey, hword]

theorem unixTime_throws {e : OFTError} : Throws {e} (unixTime now e) := by simp [unixTime]

theorem onLimiter_throws {f : RateLimiter → Except OFTError RateLimiter} (h : ∀ r, Throws S (f r)) (r : Option RateLimiter) :
    Throws S (onLimiter f r) := by
  cases r <;> simp [onLimiter, h]

theorem refill_throws {r : RateLimiter} : Throws {.panicked} (r.refill now x) :=
  .bind unixTime_throws fun _ _ => throws_ok _

theorem tryConsume_throws {r : RateLimiter} : Throws {.panicked, .rateLimitExceeded} (r.tryConsume now x) :=
  .bind (refill_throws.mono (by simp)) fun _ _ => by simp

theorem inbound_throws {p : PeerConfig} : Throws {.panicked, .rateLimitExceeded} (p.inbound now x) :=
  .bind (onLimiter_throws (fun _ => tryConsume_throws) _) fun _ _ =>
    .bind (onLimiter_throws (fun _ => refill_throws.mono (by simp)) _) fun _ _ => throws_ok _

theorem outbound_throws {p : PeerConfig} : Throws {.panicked, .rateLimitExceeded} (p.outbound now x) :=
  .bind (onLimiter_throws (fun _ => tryConsume_throws) _) fun _ _ =>
    .bind (onLimiter_throws (fun _ => refill_throws.mono (by simp)) _) fun _ _ => throws_ok _

theorem schedule_throws {start cliff duration : ℕ} : Throws {.invalidSchedule} (schedule w start cliff duration) := by
  unfold schedule nowTs
  refine .bind ?_ fun _ _ => by simp
  split_ifs
  · exact unixTime_throws
  · exact throws_ok _

theorem loadOwned_throws : Throws {.accountNotInitialized k, .constraintToken k} (loadOwned b k mint owner) := by
  simp [loadOwned, loadToken, loadTokenAccount]

theorem initTokenAccount_throws :
    Throws {.constraintToken k, .token (.alreadyInUse k), .token (.missing mint)} (initTokenAccount b k mint owner) := by
  unfold initTokenAccount
  split <;> simp [Bank.openAccount]

theorem createAccount_throws : Throws {.accountAlreadyInUse k} (createAccount w k) := by simp [createAccount]

theorem loadMintAuthority_throws {a : Option Pubkey} :
    Throws {.accountNotInitialized w.store.tokenMint, .invalidMintAuthority} (loadMintAuthority w a) := by
  cases a <;> simp [loadMintAuthority, loadMint]

theorem peekSaleAccount_throws {sale : Pubkey} :
    Throws {.unknownSale, .invalidRemainingAccounts} (peekSaleAccount d w sale id) := by
  unfold peekSaleAccount
  refine .bind (by simp) fun _ _ => .bind (by simp) fun _ _ => ?_
  split <;> simp

theorem upsertSaleAccount_throws {sale : Pubkey} {m : SaleMsg} :
    Throws {.unknownSale, .invalidRemainingAccounts, .accountAlreadyInUse (d.sale m.id)} (upsertSaleAccount d w sale m) := by
  unfold upsertSaleAccount initSaleAccount
  refine .bind (by simp) fun _ _ => .bind (by simp) fun _ _ => .bind ?_ fun _ _ => throws_ok _
  split
  · exact createAccount_throws.mono (by simp)
  · simp

theorem initGrantVesting_throws {vesting : Pubkey} {m : GrantMsg} :
    Throws {.invalidVestingId, .invalidRemainingAccounts, .invalidSchedule, .accountAlreadyInUse (d.vest id)}
      (initGrantVesting d w vesting id m) := by
  unfold initGrantVesting
  refine .bind (by simp) fun _ _ => .bind (by simp) fun _ _ => .bind (by simp) fun _ _ => ?_
  exact .bind (schedule_throws.mono (by simp)) fun _ _ => .bind (createAccount_throws.mono (by simp)) fun _ _ => throws_ok _

theorem ensureVestEscrow_throws {vestEscrow : Pubkey} :
    Throws {.invalidRemainingAccounts, .accountAlreadyInUse d.vestEscrow, .token (.alreadyInUse d.vestEscrow),
      .token (.missing w.store.tokenMint)} (ensureVestEscrow d w vestEscrow) := by
  unfold ensureVestEscrow
  refine .bind (by simp) fun _ _ => ?_
  split
  · exact throws_ok _
  · exact .bind (createAccount_throws.mono (by simp)) fun _ _ => .bind (by simp [Bank.openAccount]) fun _ _ => throws_ok _

/-! ## Shortages -/

/-- the errors for a lack: below the cap, of what is locked, of what is earmarked, or of tokens in an account -/
def OFTError.shortage : OFTError → Bool
  | .capExceeded | .invalidFee | .insufficientInventory => true
  | .token (.insufficientFunds _) => true
  | _ => false

attribute [simp] OFTError.shortage

/-- the errors of checks that look at no amount -/
def Checks : Set OFTError := {e | e.shortage = false}

@[simp] theorem mem_checks {e : OFTError} : e ∈ Checks ↔ e.shortage = false := Iff.rfl

/-- what throws such errors only throws nothing outside a set that contains them all -/
theorem checks {T : Set OFTError} {α : Type} {r : Except OFTError α} (hS : Checks ⊆ S) (h : Throws T r)
    (hT : ∀ e ∈ T, e.shortage = false) : Throws S r := h.mono fun e he => hS (hT e he)

theorem require_checks {p : Prop} [Decidable p] {e : OFTError} (hS : Checks ⊆ S) (he : e.shortage = false) :
    Throws S (require p e) := throws_require.2 (.inr (hS he))

/-! ## A delivery -/

variable {a : LzReceive} {params : LzReceiveParams} {message : List UInt8} {srcEid : ℕ} {peer : PeerConfig}

/-- a lot is resized by a credit of what it gains, or a debit of what it loses; the arithmetic of the earmark has an error of its
own -/
theorem resizeLot_throws {previous : Option ℕ} (hearmark : .insufficientInventory ∈ S)
    (hcredit : ∀ y ≤ x, Throws S (creditEscrow d w a d.saleEscrow y))
    (hdebit : ∀ w' y, w'.bank = w.bank → w'.store = w.store → Throws S (debitSaleEscrow d w' y)) :
    Throws S (resizeLot d w a previous x) := by
  have hgrow : ∀ y ≤ x, Throws S (growLot d w a y) := fun y hy =>
    .bind (hcredit y hy) fun _ _ => .bind (throws_checkedAdd.2 (.inr hearmark)) fun _ _ => throws_ok _
  have hshrink : ∀ y, Throws S (shrinkLot d w y) := fun y =>
    .bind (throws_checkedSub.2 (.inr hearmark)) fun _ _ => hdebit _ y rfl rfl
  cases previous with
  | none =>
    simp only [resizeLot]
    split_ifs
    · exact hgrow x le_rfl
    · exact throws_ok _
  | some previous =>
    simp only [resizeLot]
    split_ifs
    · refine .bind (throws_checkedSub.2 (.inr hearmark)) fun minted hminted => hgrow minted ?_
      obtain ⟨-, rfl⟩ := checkedSub_ok.1 hminted
      exact Nat.sub_le ..
    · exact .bind (throws_checkedSub.2 (.inr hearmark)) fun burned _ => hshrink burned
    · exact throws_ok _

/-- a sale message fails only as the lot it resizes does; the row is looked up first, and stored without touching an amount -/
theorem receiveSale_throws (hS : Checks ⊆ S)
    (hlot : ∀ m previous w', decodeSale message = .ok m → peekSaleAccount d w a.sale m.id = .ok previous →
      w'.bank = w.bank → w'.store = w.store → w'.config = w.config → Throws S (resizeLot d w' a previous m.grsAmount)) :
    Throws S (receiveSale d w a message) := by
  unfold receiveSale
  refine .bind (require_checks hS rfl) fun _ _ => .bind (checks hS decodeSale_throws (by simp)) fun m hm => ?_
  refine .bind (require_checks hS rfl) fun _ _ => .bind (require_checks hS rfl) fun _ _ =>
    .bind (require_checks hS rfl) fun _ _ => ?_
  refine .bind (checks hS peekSaleAccount_throws (by simp)) fun previous hprevious => ?_
  split_ifs
  · exact throws_ok _
  · refine .bind (checks hS upsertSaleAccount_throws (by simp)) fun w₁ hw₁ => ?_
    simp only [upsertSaleAccount, bind_ok, Except.ok.injEq] at hw₁
    obtain ⟨-, -, -, -, -, -, rfl⟩ := hw₁
    exact hlot m previous _ hm hprevious rfl rfl rfl

/-- a grant fails only as its credit does; the escrow may be opened before it -/
theorem receiveGrant_throws (hS : Checks ⊆ S)
    (hcredit : ∀ m w', decodeGrant message = .ok m → w'.store = w.store → w'.bank.balance = w.bank.balance →
      w'.bank.supply = w.bank.supply → Throws S (creditEscrow d w' a d.vestEscrow m.amountLd)) :
    Throws S (receiveGrant d w a message) := by
  unfold receiveGrant
  refine .bind (require_checks hS rfl) fun _ _ => .bind (checks hS decodeGrant_throws (by simp)) fun m hm => ?_
  refine .bind (require_checks hS rfl) fun _ _ => .bind (require_checks hS rfl) fun _ _ => .bind (require_checks hS rfl) fun _ _ =>
    .bind (require_checks hS rfl) fun _ _ => .bind (require_checks hS rfl) fun _ _ => .bind (require_checks hS rfl) fun _ _ =>
    .bind (require_checks hS rfl) fun _ _ => ?_
  refine .bind (throws_checkedAdd.2 (.inr (hS rfl))) fun id _ => ?_
  refine .bind (checks hS initGrantVesting_throws (by simp)) fun w₁ hw₁ => ?_
  simp only [initGrantVesting, bind_ok, Except.ok.injEq] at hw₁
  obtain ⟨-, -, -, -, -, -, s, -, -, -, rfl⟩ := hw₁
  split_ifs
  · refine .bind (checks hS ensureVestEscrow_throws (by simp)) fun w₂ hw₂ => ?_
    simp only [ensureVestEscrow, bind_ok] at hw₂
    obtain ⟨-, -, hw₂⟩ := hw₂
    split at hw₂
    · cases hw₂
      exact hcredit m _ hm rfl rfl rfl
    · simp only [bind_ok, Except.ok.injEq] at hw₂
      obtain ⟨-, -, b, hb, rfl⟩ := hw₂
      exact hcredit m _ hm rfl (funext (Bank.openAccount_balance (spl_ok.1 hb))) (funext (Bank.openAccount_supply (spl_ok.1 hb)))
  · exact throws_ok _

/-- a transfer fails only as its credit does -/
theorem receiveOft_throws (hS : Checks ⊆ S)
    (hcredit : ∀ sd x w' dst, amountSd message = .ok sd → w.store.sd2ld sd = .ok x → w'.bank = w.bank → w'.store = w.store →
      Throws S (creditEscrow d w' a dst x)) :
    Throws S (receiveOft d w a srcEid peer message) := by
  have hkey : ∀ l, Throws Checks (readKey l) := fun l => readKey_throws.mono (by simp)
  have hto : Throws Checks (sendTo message) := by simp [sendTo, hkey]
  have hsd : Throws Checks (amountSd message) := by simp [amountSd]
  rw [receiveOft_eq]
  refine .bind (hto.mono hS) fun _ _ => .bind (require_checks hS rfl) fun _ _ => .bind (hsd.mono hS) fun sd hsd => ?_
  refine .bind (throws_checkedMul.2 (.inr (hS rfl))) fun x hx => ?_
  exact .bind (checks hS inbound_throws (by simp)) fun _ _ => hcredit sd x _ _ hsd hx rfl rfl

/-- a delivery fails only as its branch does; the accounts it makes sure of before move nothing -/
theorem LzReceive.apply_throws (hS : Checks ⊆ S)
    (hreceive : ∀ b peer, b.balance = w.bank.balance → b.supply = w.bank.supply →
      Throws S (if isSale params.message = true then receiveSale d { w with bank := b } a params.message
        else if isGrant params.message = true then receiveGrant d { w with bank := b } a params.message
        else receiveOft d { w with bank := b } a params.srcEid peer params.message)) :
    Throws S (a.apply d w params) := by
  have hinit : ∀ b k m o, Throws S (initTokenAccount b k m o) := fun b k m o =>
    checks hS initTokenAccount_throws (by simp)
  unfold LzReceive.apply
  refine .bind (throws_demand.2 (.inr (hS rfl))) fun peer _ => .bind (require_checks hS rfl) fun _ _ => ?_
  refine .bind (hinit _ _ _ _) fun b₁ hb₁ => .bind (checks hS loadOwned_throws (by simp)) fun _ _ => ?_
  refine .bind (hinit _ _ _ _) fun b₂ hb₂ => ?_
  refine .bind (checks hS loadMintAuthority_throws (by simp)) fun _ _ => ?_
  refine .bind (require_checks hS rfl) fun _ _ => hreceive b₂ peer ?_ ?_
  · exact (initAta_balance hb₂).1.trans (initTokenAccount_balance hb₁).1
  · exact (initAta_balance hb₂).2.trans (initTokenAccount_balance hb₁).2

end Grindurus.Grs
