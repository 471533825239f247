/-
Accounts as instructions receive them (`programs/grai/src/state.rs`, `vault.rs`, Anchor constraints of `lib.rs`).

An instruction is given addresses; the helpers here load what stands there and check what Anchor checks. Token operations
run on the bank with `grai_state` as the authority (`transferFromVault`) or a signer (`transferFromSigner`).

`Guarded` says who owns the token accounts at the program's addresses. `BankMoves` is what a helper, or a row of them, does to
these accounts and to the share supply; the facts about each helper are stated with it.
-/
import Grindurus.Lib.Registry
import Grindurus.Grai.Tokenomics

namespace Grindurus.Grai

open Checked TokenBank Function

/-! ## The state account -/

/-- body length of `grai_state` without the four key vectors -/
def FIXED_LEN : ℕ := 32 * 4 + 16 + 8 + 8 + 1 + 8 + 8 + 32 + (2 * 9 + 4 * 2) + 2 + 1 + 2 * 2 + 1

def GraiState.space (assetCount lockerCount voterCount referrerCount : ℕ) : ℕ :=
  8 + FIXED_LEN + 4 + assetCount * 32 + 4 + lockerCount * 32 + 4 + voterCount * 32 + 4 + referrerCount * 32

/-- rent-exempt minimum of an account with `n` bytes of data -/
def rentMinimum (n : ℕ) : ℕ := (128 + n) * 6960

/-- resize `grai_state`, topping up its rent -/
def reallocGraiState (w : World) (newSpace : ℕ) : World :=
  { w with stateSpace := newSpace, stateLamports := max w.stateLamports (rentMinimum newSpace) }

def registerReferrer (w : World) (key : Key) : World :=
  if key ∈ w.state.referrers then w
  else
    let s := w.state
    let w := reallocGraiState w
      (GraiState.space s.assetMints.length s.lockers.length s.voters.length (s.referrers.length + 1))
    { w with state := { s with referrers := s.referrers ++ [key] } }

def removeFromList (list : List Key) (key : Key) : List Key := Registry.swapRemove list key

/-- clamp `escrow.voted` to `escrow.amount` after the lock shrinks -/
def clampVote (s : GraiState) (escrow : Escrow) (account : Key) : Except ErrorCode (GraiState × Escrow) :=
  if escrow.voted = 0 ∨ escrow.voted ≤ escrow.amount then .ok (s, escrow)
  else do
    let excess := escrow.voted - escrow.amount
    let totalVoted ← checkedSub s.totalVoted excess .mathOverflow
    let voters := if escrow.amount = 0 then removeFromList s.voters account else s.voters
    .ok ({ s with totalVoted, voters }, { escrow with voted := escrow.amount })

/-! ## Loading accounts -/

def spl {α : Type} (x : Except (TokenError Key) α) : Except ErrorCode α := x.mapError .token

/-- the price feed account an instruction is given, and what reading it gives: an answer, or an oracle error -/
structure Feed where
  key : Key
  matchesAssetMint : Bool
  price : Except ℕ PriceData
  pythFeedId : Except ℕ ℕ

def loadMint (b : Bank Key) (m : Key) : Except ErrorCode (MintAccount Key) := demand (.accountNotInitialized m) (b.mints m)

/-- the share mint: the one `initialize` recorded, with `grai_state` as its authority -/
def loadGraiMint (w : World) : Except ErrorCode (MintAccount Key) := do
  let t ← loadMint w.bank w.state.graiMint
  require (t.mintAuthority = some .protocol) .invalidMint
  .ok t

def loadTokenAccount (b : Bank Key) (k : Key) : Except ErrorCode (TokenAccount Key) :=
  demand (.accountNotInitialized k) (b.accounts k)

/-- a token account for `mint` that `owner` holds -/
def loadOwned (b : Bank Key) (k mint owner : Key) (e : ErrorCode) : Except ErrorCode (TokenAccount Key) := do
  let a ← loadTokenAccount b k
  require (a.mint = mint) e
  require (a.owner = owner) e
  .ok a

/-- the account at a derived address `k` of the program, for `mint` -/
def loadCustody (b : Bank Key) (k mint : Key) : Except ErrorCode (TokenAccount Key) := do
  let a ← loadTokenAccount b k
  require (a.mint = mint) .invalidDestination
  .ok a

/-- `init_if_needed` of a token account at `k` -/
def initTokenAccount (b : Bank Key) (k mint owner : Key) : Except ErrorCode (Bank Key) :=
  match b.accounts k with
  | some a => do
    require (a.mint = mint ∧ a.owner = owner) (.constraintToken k)
    .ok b
  | none => spl (b.openAccount k mint owner)

def initAta (b : Bank Key) (owner mint : Key) : Except ErrorCode (Bank Key) :=
  initTokenAccount b (.ata owner mint) mint owner

def initVault (b : Bank Key) (mint : Key) : Except ErrorCode (Bank Key) := initTokenAccount b (.vault mint) mint .protocol

def loadAssetAccount (w : World) (mint : Key) : Except ErrorCode AssetConfig := do
  let asset ← demand (.accountNotInitialized (.asset mint)) (w.assets mint)
  require (asset.assetMint = mint) .assetUnknown
  .ok asset

def loadFeed (asset : AssetConfig) (feed : Feed) : Except ErrorCode Unit := do
  require (feed.key = asset.priceFeed) .invalidChainlinkFeed
  require (feed.matchesAssetMint = true) .invalidCustomPriceFeed

def fetchPriceFromFeed (feed : Feed) (asset : AssetConfig) : Except ErrorCode PriceData := do
  require (feed.key = asset.priceFeed) .invalidChainlinkFeed
  feed.price.mapError .oracle

def fetchAssetPrice (asset : AssetConfig) (assetMint : Key) (feed : Feed) : Except ErrorCode PriceData := do
  require (assetMint = asset.assetMint) .assetUnknown
  fetchPriceFromFeed feed asset

/-- the escrow of `account` at the address derived with its stored bump -/
def loadEscrow (w : World) (account : Key) : Except ErrorCode Escrow := do
  let escrow ← demand (.accountNotInitialized (.escrow account)) (w.escrows account)
  require (escrow.bump = ESCROW_BUMP) (.constraintSeeds (.escrow account))
  .ok escrow

def World.storeEscrow (w : World) (account : Key) (escrow : Escrow) : World :=
  { w with escrows := update w.escrows account (some escrow) }

/-- `init_if_needed` of an escrow -/
def initEscrow (w : World) (account : Key) : Escrow := (w.escrows account).getD Escrow.empty

/-! ## Transfers -/

/-- transfer with `grai_state` as authority -/
def transferFromVault (b : Bank Key) (src dst : Key) (amount : ℕ) : Except ErrorCode (Bank Key) :=
  if amount = 0 then .ok b else spl (b.transfer src dst .protocol amount)

def transferFromSigner (b : Bank Key) (src dst : Key) (authority : Signer) (amount : ℕ) : Except ErrorCode (Bank Key) :=
  if amount = 0 then .ok b else spl (b.transfer src dst authority.key amount)

/-! ## What the program's own token accounts keep -/

/-- what stands at the program's vault addresses is the program's, and so is the share mint -/
structure Guarded (b : Bank Key) (grai : Key) : Prop where
  owned : Bank.Owned .protocol Key.custodyMint b
  authority : Bank.Authority .protocol grai b

variable {b b' : Bank Key} {grai src dst k m : Key} {x : ℕ}

theorem spl_ok {α : Type} {r : Except (TokenError Key) α} {a : α} : spl r = .ok a ↔ r = .ok a := by
  cases r <;> simp [spl, Except.mapError]

theorem Guarded.shape (h : Guarded b grai) (hb : Bank.SameShape b b') : Guarded b' grai :=
  ⟨h.owned.shape hb, h.authority.shape hb⟩

theorem Guarded.respects (h : Guarded b grai) (hb : Bank.Respects .protocol (fun k => ∃ m, k.custodyMint = some m) b b') :
    Guarded b' grai :=
  ⟨h.owned.respects hb, h.authority.respects hb⟩

/-- nobody else holds a program account -/
theorem Guarded.signer_ne (h : Guarded b grai) {s : Signer} {a : TokenAccount Key} (ha : b.accounts src = some a)
    (ho : a.owner = s.key) (hk : k.custodyMint = some m) : k ≠ src := by
  rintro rfl
  exact s.key_ne_protocol (ho.symm.trans (h.owned k m hk a ha).1)

/-- from `b` to `b'` the guard is kept, every program account `k` gains `δ k` at least, and the share supply `ι` -/
def BankMoves (grai : Key) (δ : Key → ℤ) (ι : ℤ) (b b' : Bank Key) : Prop :=
  Guarded b grai → Guarded b' grai ∧ (b'.supply grai : ℤ) = b.supply grai + ι ∧
    ∀ k m, k.custodyMint = some m → (b.balance k : ℤ) + δ k ≤ b'.balance k

namespace BankMoves

variable {b₁ b₂ b₃ : Bank Key} {δ δ' : Key → ℤ} {ι ι' : ℤ}

theorem refl (grai : Key) (b : Bank Key) : BankMoves grai 0 0 b b := fun h => ⟨h, by simp, by simp⟩

theorem trans (h : BankMoves grai δ ι b₁ b₂) (h' : BankMoves grai δ' ι' b₂ b₃) : BankMoves grai (δ + δ') (ι + ι') b₁ b₃ := by
  intro hb
  obtain ⟨hg, hs, hk⟩ := h hb
  obtain ⟨hg', hs', hk'⟩ := h' hg
  refine ⟨hg', by omega, fun k m hm => ?_⟩
  have h₁ := hk k m hm
  have h₂ := hk' k m hm
  simp only [Pi.add_apply]
  omega

/-- a move that changes nothing, and then another -/
theorem before (h : BankMoves grai 0 0 b₁ b₂) (h' : BankMoves grai δ ι b₂ b₃) : BankMoves grai δ ι b₁ b₃ := by
  simpa using h.trans h'

theorem after (h : BankMoves grai δ ι b₁ b₂) (h' : BankMoves grai 0 0 b₂ b₃) : BankMoves grai δ ι b₁ b₃ := by
  simpa using h.trans h'

theorem mono (h : BankMoves grai δ ι b b') (hle : ∀ k m, k.custodyMint = some m → δ' k ≤ δ k) : BankMoves grai δ' ι b b' := by
  intro hb
  obtain ⟨hg, hs, hk⟩ := h hb
  refine ⟨hg, hs, fun k m hm => ?_⟩
  have h₁ := hk k m hm
  have h₂ := hle k m hm
  omega

end BankMoves

/-- a transfer out of a program account, to wherever -/
theorem transferFromVault_moves (grai : Key) (h : transferFromVault b src dst x = .ok b') :
    BankMoves grai (Pi.single dst x - Pi.single src x) 0 b b' := by
  intro hb
  unfold transferFromVault at h
  split_ifs at h with h0
  · cases h
    simpa [h0] using hb
  · have h := spl_ok.1 h
    refine ⟨hb.shape (Bank.transfer_shape h), by simp [Bank.transfer_supply h], fun k m hm => ?_⟩
    simp only [Pi.sub_apply, Pi.single_apply]
    by_cases hs : k = src
    · subst hs
      by_cases hd : k = dst
      · subst hd
        rw [Bank.transfer_self h]
        simp
      · have hsrc := Bank.transfer_src h hd
        rw [if_neg hd, if_pos rfl]
        omega
    · by_cases hd : k = dst
      · subst hd
        have hdst := Bank.transfer_dst h (Ne.symm hs)
        rw [if_pos rfl, if_neg hs]
        omega
      · have hframe := Bank.transfer_frame h hs hd
        rw [if_neg hd, if_neg hs]
        omega

/-- of the program's accounts, only the source is debited -/
theorem transferFromVault_debits (grai : Key) (h : transferFromVault b src dst x = .ok b') :
    BankMoves grai (-Pi.single src x) 0 b b' :=
  (transferFromVault_moves grai h).mono fun k m _ => by
    simp only [Pi.neg_apply, Pi.sub_apply, Pi.single_apply]
    split_ifs <;> omega

/-- what a signer sends to a program account arrives there in full -/
theorem transferFromSigner_moves (grai : Key) {s : Signer} (h : transferFromSigner b src dst s x = .ok b') :
    BankMoves grai (Pi.single dst x) 0 b b' := by
  intro hb
  unfold transferFromSigner at h
  split_ifs at h with h0
  · cases h
    simpa [h0] using hb
  · have h := spl_ok.1 h
    obtain ⟨a, ha, ho⟩ := Bank.transfer_owner h
    refine ⟨hb.shape (Bank.transfer_shape h), by simp [Bank.transfer_supply h], fun k m hm => ?_⟩
    have hs : k ≠ src := hb.signer_ne ha ho hm
    by_cases hd : k = dst
    · subst hd
      have hdst := Bank.transfer_dst h (Ne.symm hs)
      rw [Pi.single_eq_same]
      omega
    · have hframe := Bank.transfer_frame h hs hd
      rw [Pi.single_eq_of_ne hd]
      omega

theorem initTokenAccount_ok {mint owner : Key} (h : initTokenAccount b k mint owner = .ok b') :
    (b' = b ∧ ∃ a, b.accounts k = some a ∧ a.mint = mint ∧ a.owner = owner) ∨
      b.openAccount k mint owner = .ok b' := by
  unfold initTokenAccount at h
  cases ha : b.accounts k with
  | none =>
    rw [ha] at h
    exact .inr (spl_ok.1 h)
  | some a =>
    simp only [ha, bind_ok, require_ok, Except.ok.injEq] at h
    obtain ⟨-, ⟨hm, ho⟩, rfl⟩ := h
    exact .inl ⟨rfl, a, rfl, hm, ho⟩

/-- opening an account moves nothing, at a program address if it is opened for the program -/
theorem openAccount_moves (grai : Key) {mint owner : Key} (h : b.openAccount k mint owner = .ok b')
    (hk : ∀ m, k.custodyMint = some m → mint = m ∧ owner = .protocol) : BankMoves grai 0 0 b b' := by
  intro hb
  refine ⟨⟨fun j m hj a ha => ?_, ?_⟩, by simp [Bank.openAccount_supply h], fun j m _ => by
    simp [Bank.openAccount_balance h]⟩
  · obtain ⟨-, -, -, rfl⟩ := Bank.openAccount_ok h
    by_cases hjk : j = k
    · subst hjk
      rw [Bank.put_accounts, update_self] at ha
      cases ha
      obtain ⟨rfl, rfl⟩ := hk m hj
      exact ⟨rfl, rfl⟩
    · rw [Bank.put_accounts, update_of_ne hjk] at ha
      exact hb.owned j m hj a ha
  · obtain ⟨-, -, -, rfl⟩ := Bank.openAccount_ok h
    exact hb.authority

theorem initTokenAccount_moves (grai : Key) {mint owner : Key} (h : initTokenAccount b k mint owner = .ok b')
    (hk : ∀ m, k.custodyMint = some m → mint = m ∧ owner = .protocol) : BankMoves grai 0 0 b b' := by
  rcases initTokenAccount_ok h with ⟨rfl, -⟩ | h
  · exact .refl _ _
  · exact openAccount_moves grai h hk

/-- opening an account changes no balance -/
theorem initTokenAccount_same {mint owner : Key} (h : initTokenAccount b k mint owner = .ok b') :
    b'.balance = b.balance ∧ b'.supply = b.supply := by
  rcases initTokenAccount_ok h with ⟨rfl, -⟩ | h
  · exact ⟨rfl, rfl⟩
  · exact ⟨funext (Bank.openAccount_balance h), funext (Bank.openAccount_supply h)⟩

theorem initAta_moves (grai : Key) {owner mint : Key} (h : initAta b owner mint = .ok b') : BankMoves grai 0 0 b b' :=
  initTokenAccount_moves grai h fun m hm => by simp [Key.custodyMint] at hm

theorem initVault_moves (grai : Key) {mint : Key} (h : initVault b mint = .ok b') : BankMoves grai 0 0 b b' :=
  initTokenAccount_moves grai h fun m hm => ⟨by simpa [Key.custodyMint] using hm, rfl⟩

/-! ## Minting and burning -/

/-- minting credits some account, and the supply of the mint -/
theorem mintTo_moves (grai : Key) {auth : Key} (h : b.mintTo m dst auth x = .ok b') :
    BankMoves grai 0 (if grai = m then x else 0) b b' := by
  refine fun hb => ⟨hb.shape (Bank.mintTo_shape h), ?_, fun k _ _ => ?_⟩
  · rw [Bank.mintTo_supply h]
    split_ifs <;> simp
  · have hmono := Bank.mintTo_mono h k
    simpa using hmono

/-- the program burns shares it holds -/
theorem burn_moves {grai auth : Key} (h : b.burn grai src auth x = .ok b') :
    BankMoves grai (-Pi.single src x) (-x) b b' := by
  refine fun hb => ⟨hb.shape (Bank.burn_shape h), ?_, fun k _ _ => ?_⟩
  · have hs := Bank.burn_supply h
    omega
  · rcases eq_or_ne k src with rfl | hk
    · have hsrc := Bank.burn_src h
      simp only [Pi.neg_apply, Pi.single_eq_same]
      omega
    · simp [Bank.burn_frame h hk, hk]

/-- a holder burns its own shares -/
theorem burn_holder_moves {grai : Key} {s : Signer} (h : b.burn grai src s.key x = .ok b') : BankMoves grai 0 (-x) b b' := by
  intro hb
  obtain ⟨hg, hs, hk⟩ := burn_moves h hb
  obtain ⟨a, ha, ho⟩ := Bank.burn_owner h
  refine ⟨hg, hs, fun k m hm => ?_⟩
  have hne := hb.signer_ne ha ho hm
  have hle := hk k m hm
  simpa [hne] using hle

/-- lamports are wrapped in some account -/
theorem wrap_moves (grai : Key) {native : Key} (h : b.wrap native k x = .ok b') : BankMoves grai 0 0 b b' := by
  simp only [Bank.wrap, bind_ok, demand_ok, require_ok, checkedAdd_ok, Except.ok.injEq] at h
  obtain ⟨a, ha, -, -, _, ⟨-, rfl⟩, rfl⟩ := h
  refine fun hb => ⟨hb.shape (.put ha (by rfl) (by rfl)), by simp, fun j _ _ => ?_⟩
  rw [Bank.put_balance]
  split_ifs with hj
  · subst hj
    simp [Bank.balance_some ha]
  · simp

/-- another mint than the share mint is written -/
theorem putMint_moves {grai : Key} (hm : m ≠ grai) (t : MintAccount Key) : BankMoves grai 0 0 b (b.putMint m t) := by
  refine fun hb => ⟨⟨hb.owned, ?_⟩, ?_, fun k _ _ => by simp⟩
  · obtain ⟨t', ht', ha⟩ := hb.authority
    exact ⟨t', by rw [Bank.putMint_mints, update_of_ne (Ne.symm hm), ht'], ha⟩
  · rw [Bank.putMint_supply, if_neg (Ne.symm hm)]
    simp

end Grindurus.Grai
