/-
A token bank: mints, token accounts, and the operations an authority may ask for (SPL Token semantics).

- `transfer`, `mintTo`, `burn`, `openAccount`, `closeAccount`, `setOwner`, `createMint`, `setMintAuthority`, `wrap`: the
  operations, over an arbitrary address type. Amounts are unsigned of 64 bits; an error names the account at fault.
- `balance`, `supply`: the two observations everything else is stated with.
- `transfer_*`, `mintTo_*`, `burn_*`: what each operation does to the balances and to the supply.
- `Respects p s b b'`: the accounts of `p` at the addresses `s` keep their owner and mint and are not debited, no account
  appears there, and the mints of `p` stay mints of `p`. Whatever an authority other than `p` asks for respects `p`.

A bank is two maps, so that its operations compute and its states can be compared. There is no notion of a program here:
authority is an address that signs. A transfer credits what it debits; mints that withhold a part of a transfer are not banks of
this kind, and the arithmetic for those is in `Withholding`.
-/
import Grindurus.Lib.Checked

namespace Grindurus.TokenBank

open Checked Function

structure MintAccount (K : Type) where
  decimals : ℕ
  supply : ℕ
  mintAuthority : Option K
  deriving DecidableEq, Repr

structure TokenAccount (K : Type) where
  mint : K
  owner : K
  amount : ℕ
  deriving DecidableEq, Repr

structure Bank (K : Type) where
  mints : K → Option (MintAccount K)
  accounts : K → Option (TokenAccount K)

/-- why an operation is refused, and at which address -/
inductive TokenError (K : Type) where
  | missing (account : K)
  | alreadyInUse (account : K)
  | insufficientFunds (account : K)
  | mintMismatch (account : K)
  | ownerMismatch (account : K)
  | overflow (account : K)
  | nonZeroBalance (account : K)
  deriving DecidableEq, Repr

variable {K : Type} [DecidableEq K]

namespace Bank

/-! ## Observations -/

def balance (b : Bank K) (k : K) : ℕ :=
  match b.accounts k with
  | some a => a.amount
  | none => 0

def supply (b : Bank K) (m : K) : ℕ :=
  match b.mints m with
  | some t => t.supply
  | none => 0

/-! ## Operations -/

def put (b : Bank K) (k : K) (a : TokenAccount K) : Bank K :=
  { b with accounts := update b.accounts k (some a) }

def putMint (b : Bank K) (m : K) (t : MintAccount K) : Bank K :=
  { b with mints := update b.mints m (some t) }

def transfer (b : Bank K) (src dst auth : K) (x : ℕ) : Except (TokenError K) (Bank K) := do
  let s ← demand (.missing src) (b.accounts src)
  let d ← demand (.missing dst) (b.accounts dst)
  require (x ≤ s.amount) (.insufficientFunds src)
  require (s.mint = d.mint) (.mintMismatch dst)
  require (s.owner = auth) (.ownerMismatch src)
  if src = dst then .ok b
  else
    let n ← checkedAdd u64 d.amount x (.overflow dst)
    .ok ((b.put src { s with amount := s.amount - x }).put dst { d with amount := n })

def mintTo (b : Bank K) (m dst auth : K) (x : ℕ) : Except (TokenError K) (Bank K) := do
  let d ← demand (.missing dst) (b.accounts dst)
  require (d.mint = m) (.mintMismatch dst)
  let t ← demand (.missing m) (b.mints m)
  require (t.mintAuthority = some auth) (.ownerMismatch m)
  let n ← checkedAdd u64 d.amount x (.overflow dst)
  let n' ← checkedAdd u64 t.supply x (.overflow m)
  .ok ((b.put dst { d with amount := n }).putMint m { t with supply := n' })

def burn (b : Bank K) (m src auth : K) (x : ℕ) : Except (TokenError K) (Bank K) := do
  let s ← demand (.missing src) (b.accounts src)
  let t ← demand (.missing m) (b.mints m)
  require (x ≤ s.amount) (.insufficientFunds src)
  require (s.mint = m) (.mintMismatch src)
  require (s.owner = auth) (.ownerMismatch src)
  let n ← checkedSub t.supply x (.overflow m)
  .ok ((b.put src { s with amount := s.amount - x }).putMint m { t with supply := n })

/-- a fresh, empty token account -/
def openAccount (b : Bank K) (k m owner : K) : Except (TokenError K) (Bank K) := do
  require (b.accounts k = none ∧ b.mints k = none) (.alreadyInUse k)
  let _ ← demand (.missing m) (b.mints m)
  .ok (b.put k ⟨m, owner, 0⟩)

def closeAccount (b : Bank K) (k auth : K) : Except (TokenError K) (Bank K) := do
  let a ← demand (.missing k) (b.accounts k)
  require (a.amount = 0) (.nonZeroBalance k)
  require (a.owner = auth) (.ownerMismatch k)
  .ok { b with accounts := update b.accounts k none }

def setOwner (b : Bank K) (k auth owner : K) : Except (TokenError K) (Bank K) := do
  let a ← demand (.missing k) (b.accounts k)
  require (a.owner = auth) (.ownerMismatch k)
  .ok (b.put k { a with owner })

/-- a fresh mint with no supply -/
def createMint (b : Bank K) (m : K) (decimals : ℕ) (auth : K) : Except (TokenError K) (Bank K) := do
  require (b.accounts m = none ∧ b.mints m = none) (.alreadyInUse m)
  .ok (b.putMint m ⟨decimals, 0, some auth⟩)

def setMintAuthority (b : Bank K) (m auth : K) (auth' : Option K) : Except (TokenError K) (Bank K) := do
  let t ← demand (.missing m) (b.mints m)
  require (t.mintAuthority = some auth) (.ownerMismatch m)
  .ok (b.putMint m { t with mintAuthority := auth' })

/-- lamports arrive in a token account of the wrapped native coin and are synced: no supply stands behind them -/
def wrap (b : Bank K) (native k : K) (x : ℕ) : Except (TokenError K) (Bank K) := do
  let a ← demand (.missing k) (b.accounts k)
  require (a.mint = native) (.mintMismatch k)
  let n ← checkedAdd u64 a.amount x (.overflow k)
  .ok (b.put k { a with amount := n })

/-! ## Reading a written bank -/

@[simp] theorem put_mints (b : Bank K) (k : K) (a : TokenAccount K) : (b.put k a).mints = b.mints := rfl

@[simp] theorem put_accounts (b : Bank K) (k : K) (a : TokenAccount K) :
    (b.put k a).accounts = update b.accounts k (some a) := rfl

@[simp] theorem putMint_accounts (b : Bank K) (m : K) (t : MintAccount K) : (b.putMint m t).accounts = b.accounts := rfl

@[simp] theorem putMint_mints (b : Bank K) (m : K) (t : MintAccount K) :
    (b.putMint m t).mints = update b.mints m (some t) := rfl

@[simp] theorem put_supply (b : Bank K) (k : K) (a : TokenAccount K) (m : K) : (b.put k a).supply m = b.supply m := rfl

@[simp] theorem putMint_balance (b : Bank K) (m : K) (t : MintAccount K) (k : K) :
    (b.putMint m t).balance k = b.balance k := rfl

omit [DecidableEq K] in
theorem balance_some {b : Bank K} {k : K} {a : TokenAccount K} (h : b.accounts k = some a) : b.balance k = a.amount := by
  simp [balance, h]

theorem put_balance (b : Bank K) (k j : K) (a : TokenAccount K) :
    (b.put k a).balance j = if j = k then a.amount else b.balance j := by
  by_cases h : j = k
  · subst h; simp [balance]
  · simp [balance, h]

theorem putMint_supply (b : Bank K) (m j : K) (t : MintAccount K) :
    (b.putMint m t).supply j = if j = m then t.supply else b.supply j := by
  by_cases h : j = m
  · subst h; simp [supply]
  · simp [supply, h]

/-! ## Transfers -/

variable {b b' : Bank K} {src dst auth m k : K} {x : ℕ}

theorem transfer_ok (h : b.transfer src dst auth x = .ok b') :
    ∃ s d, b.accounts src = some s ∧ b.accounts dst = some d ∧ x ≤ s.amount ∧ s.mint = d.mint ∧ s.owner = auth ∧
      (src = dst ∧ b' = b ∨ src ≠ dst ∧
        b' = (b.put src { s with amount := s.amount - x }).put dst { d with amount := d.amount + x }) := by
  simp only [transfer, bind_ok, demand_ok, require_ok] at h
  obtain ⟨s, hs, d, hd, -, hx, -, hm, -, ho, h⟩ := h
  refine ⟨s, d, hs, hd, hx, hm, ho, ?_⟩
  split_ifs at h with hsd
  · exact .inl ⟨hsd, (Except.ok.inj h).symm⟩
  · simp only [bind_ok, checkedAdd_ok] at h
    obtain ⟨n, ⟨-, rfl⟩, h⟩ := h
    exact .inr ⟨hsd, (Except.ok.inj h).symm⟩

theorem transfer_supply (h : b.transfer src dst auth x = .ok b') (m : K) : b'.supply m = b.supply m := by
  obtain ⟨s, d, -, -, -, -, -, ⟨-, rfl⟩ | ⟨-, rfl⟩⟩ := transfer_ok h <;> rfl

theorem transfer_src (h : b.transfer src dst auth x = .ok b') (hne : src ≠ dst) :
    b'.balance src + x = b.balance src := by
  obtain ⟨s, d, hs, -, hx, -, -, ⟨he, -⟩ | ⟨-, rfl⟩⟩ := transfer_ok h
  · exact absurd he hne
  · rw [put_balance, if_neg hne, put_balance, if_pos rfl, balance_some hs]
    exact Nat.sub_add_cancel hx

theorem transfer_dst (h : b.transfer src dst auth x = .ok b') (hne : src ≠ dst) :
    b'.balance dst = b.balance dst + x := by
  obtain ⟨s, d, -, hd, -, -, -, ⟨he, -⟩ | ⟨-, rfl⟩⟩ := transfer_ok h
  · exact absurd he hne
  · rw [put_balance, if_pos rfl, balance_some hd]

theorem transfer_frame (h : b.transfer src dst auth x = .ok b') (hs : k ≠ src) (hd : k ≠ dst) :
    b'.balance k = b.balance k := by
  obtain ⟨s, d, -, -, -, -, -, ⟨-, rfl⟩ | ⟨-, rfl⟩⟩ := transfer_ok h
  · rfl
  · rw [put_balance, if_neg hd, put_balance, if_neg hs]

/-- an account other than the source is not debited -/
theorem transfer_mono (h : b.transfer src dst auth x = .ok b') (hs : k ≠ src) : b.balance k ≤ b'.balance k := by
  by_cases hd : k = dst
  · subst hd
    exact (transfer_dst h (Ne.symm hs)).symm ▸ Nat.le_add_right ..
  · exact (transfer_frame h hs hd).ge

/-- no account loses more than the amount sent -/
theorem transfer_debit (h : b.transfer src dst auth x = .ok b') : b.balance k ≤ b'.balance k + x := by
  by_cases hs : k = src
  · subst hs
    by_cases hne : k = dst
    · obtain ⟨s, d, -, -, -, -, -, ⟨-, rfl⟩ | ⟨hne', -⟩⟩ := transfer_ok h
      · exact Nat.le_add_right ..
      · exact absurd hne hne'
    · exact (transfer_src h hne).ge
  · exact (transfer_mono h hs).trans (Nat.le_add_right ..)

theorem transfer_self (h : b.transfer src src auth x = .ok b') : b' = b := by
  obtain ⟨s, d, -, -, -, -, -, ⟨-, rfl⟩ | ⟨hne, -⟩⟩ := transfer_ok h
  · rfl
  · exact absurd rfl hne

/-- a transfer moves its amount, and nothing else -/
theorem transfer_balance (h : b.transfer src dst auth x = .ok b') (k : K) :
    b'.balance k + (if k = src then x else 0) = b.balance k + if k = dst then x else 0 := by
  rcases eq_or_ne src dst with rfl | hne
  · rw [transfer_self h]
  · rcases eq_or_ne k src with rfl | hs
    · rw [if_pos rfl, if_neg hne, transfer_src h hne]
      rfl
    · rcases eq_or_ne k dst with rfl | hd
      · rw [if_neg hs, if_pos rfl, transfer_dst h hne]
        rfl
      · rw [if_neg hs, if_neg hd, transfer_frame h hs hd]

/-- an account that stands keeps standing, for the same mint and owner -/
theorem transfer_stands (h : b.transfer src dst auth x = .ok b') {a : TokenAccount K} (ha : b.accounts k = some a) :
    ∃ a', b'.accounts k = some a' ∧ a'.mint = a.mint ∧ a'.owner = a.owner := by
  obtain ⟨s, d, hs, hd, -, -, -, ⟨-, rfl⟩ | ⟨hne, rfl⟩⟩ := transfer_ok h
  · exact ⟨a, ha, rfl, rfl⟩
  · rcases eq_or_ne k dst with rfl | hkd
    · rw [ha] at hd
      cases hd
      exact ⟨_, update_self .., rfl, rfl⟩
    · rw [put_accounts, update_of_ne hkd, put_accounts]
      rcases eq_or_ne k src with rfl | hks
      · rw [ha] at hs
        cases hs
        exact ⟨_, update_self .., rfl, rfl⟩
      · exact ⟨a, by rw [update_of_ne hks, ha], rfl, rfl⟩

/-- the owner of an account that holds the amount can send it to any account of the mint with room for it -/
theorem transfer_passes {S : Set (TokenError K)} {s t : TokenAccount K} (hs : b.accounts src = some s)
    (ht : b.accounts dst = some t) (hx : x ≤ s.amount) (hm : s.mint = t.mint) (ho : s.owner = auth)
    (hroom : src = dst ∨ t.amount + x < 2 ^ 64) : Throws S (b.transfer src dst auth x) := by
  unfold transfer
  rw [hs, ht]
  refine .bind (by simp [demand]) fun s' hs' => .bind (by simp [demand]) fun t' ht' => ?_
  cases demand_ok.1 hs'
  cases demand_ok.1 ht'
  refine .bind (by simp [hx]) fun _ _ => .bind (by simp [hm]) fun _ _ => .bind (by simp [ho]) fun _ _ => ?_
  split_ifs with heq
  · exact throws_ok _
  · have hfits : t.amount + x < 2 ^ u64 := hroom.resolve_left heq
    simp [hfits]

theorem transfer_owner (h : b.transfer src dst auth x = .ok b') : ∃ s, b.accounts src = some s ∧ s.owner = auth := by
  obtain ⟨s, d, hs, -, -, -, ho, -⟩ := transfer_ok h
  exact ⟨s, hs, ho⟩

/-- what arrives fits -/
theorem transfer_fits (h : b.transfer src dst auth x = .ok b') (hne : src ≠ dst) : b.balance dst + x < 2 ^ 64 := by
  simp only [transfer, bind_ok, demand_ok, require_ok] at h
  obtain ⟨s, -, d, hd, -, -, -, -, -, -, h⟩ := h
  simp only [if_neg hne, bind_ok, checkedAdd_ok] at h
  obtain ⟨_, ⟨hlt, -⟩, -⟩ := h
  rwa [balance_some hd]

/-! ## Minting and burning -/

theorem mintTo_ok (h : b.mintTo m dst auth x = .ok b') :
    ∃ d t, b.accounts dst = some d ∧ b.mints m = some t ∧ t.mintAuthority = some auth ∧
      b' = (b.put dst { d with amount := d.amount + x }).putMint m { t with supply := t.supply + x } := by
  simp only [mintTo, bind_ok, demand_ok, require_ok, checkedAdd_ok] at h
  obtain ⟨d, hd, -, -, t, ht, -, ha, n, ⟨-, rfl⟩, n', ⟨-, rfl⟩, h⟩ := h
  exact ⟨d, t, hd, ht, ha, (Except.ok.inj h).symm⟩

theorem mintTo_supply (h : b.mintTo m dst auth x = .ok b') (j : K) :
    b'.supply j = if j = m then b.supply j + x else b.supply j := by
  obtain ⟨d, t, -, ht, -, rfl⟩ := mintTo_ok h
  rw [putMint_supply]
  split_ifs with hj
  · subst hj; simp [supply, ht]
  · rfl

theorem mintTo_mono (h : b.mintTo m dst auth x = .ok b') (k : K) : b.balance k ≤ b'.balance k := by
  obtain ⟨d, t, hd, -, -, rfl⟩ := mintTo_ok h
  rw [putMint_balance, put_balance]
  split_ifs with hk
  · subst hk; rw [balance_some hd]; exact Nat.le_add_right ..
  · exact le_rfl

theorem mintTo_dst (h : b.mintTo m dst auth x = .ok b') : b'.balance dst = b.balance dst + x := by
  obtain ⟨d, t, hd, -, -, rfl⟩ := mintTo_ok h
  rw [putMint_balance, put_balance, if_pos rfl, balance_some hd]

theorem mintTo_frame (h : b.mintTo m dst auth x = .ok b') (hk : k ≠ dst) : b'.balance k = b.balance k := by
  obtain ⟨d, t, -, -, -, rfl⟩ := mintTo_ok h
  rw [putMint_balance, put_balance, if_neg hk]

/-- what is minted arrives, and nothing else moves -/
theorem mintTo_balance (h : b.mintTo m dst auth x = .ok b') (k : K) :
    b'.balance k = b.balance k + if k = dst then x else 0 := by
  split_ifs with hk
  · subst hk
    exact mintTo_dst h
  · exact mintTo_frame h hk

theorem burn_ok (h : b.burn m src auth x = .ok b') :
    ∃ s t, b.accounts src = some s ∧ b.mints m = some t ∧ x ≤ s.amount ∧ s.owner = auth ∧ x ≤ t.supply ∧
      b' = (b.put src { s with amount := s.amount - x }).putMint m { t with supply := t.supply - x } := by
  simp only [burn, bind_ok, demand_ok, require_ok, checkedSub_ok] at h
  obtain ⟨s, hs, t, ht, -, hx, -, -, -, ho, n, ⟨hn, rfl⟩, h⟩ := h
  exact ⟨s, t, hs, ht, hx, ho, hn, (Except.ok.inj h).symm⟩

theorem burn_supply (h : b.burn m src auth x = .ok b') : b'.supply m + x = b.supply m := by
  obtain ⟨s, t, -, ht, -, -, hx, rfl⟩ := burn_ok h
  rw [putMint_supply, if_pos rfl]
  simpa [supply, ht] using Nat.sub_add_cancel hx

theorem burn_supply_frame (h : b.burn m src auth x = .ok b') {j : K} (hj : j ≠ m) : b'.supply j = b.supply j := by
  obtain ⟨s, t, -, -, -, -, -, rfl⟩ := burn_ok h
  rw [putMint_supply, if_neg hj, put_supply]

theorem burn_src (h : b.burn m src auth x = .ok b') : b'.balance src + x = b.balance src := by
  obtain ⟨s, t, hs, -, hx, -, -, rfl⟩ := burn_ok h
  rw [putMint_balance, put_balance, if_pos rfl, balance_some hs]
  exact Nat.sub_add_cancel hx

theorem burn_frame (h : b.burn m src auth x = .ok b') (hk : k ≠ src) : b'.balance k = b.balance k := by
  obtain ⟨s, t, -, -, -, -, -, rfl⟩ := burn_ok h
  rw [putMint_balance, put_balance, if_neg hk]

/-- what is burned is gone, and nothing else moves -/
theorem burn_balance (h : b.burn m src auth x = .ok b') (k : K) :
    b'.balance k + (if k = src then x else 0) = b.balance k := by
  split_ifs with hk
  · subst hk
    exact burn_src h
  · exact burn_frame h hk

theorem burn_owner (h : b.burn m src auth x = .ok b') : ∃ s, b.accounts src = some s ∧ s.owner = auth := by
  obtain ⟨s, t, hs, -, -, ho, -⟩ := burn_ok h
  exact ⟨s, hs, ho⟩

/-! ## What another authority cannot touch -/

/-- accounts keep their mint and owner, mints keep their authority: only amounts moved -/
structure SameShape (b b' : Bank K) : Prop where
  account : ∀ k a', b'.accounts k = some a' → ∃ a, b.accounts k = some a ∧ a'.mint = a.mint ∧ a'.owner = a.owner
  mint : ∀ m t, b.mints m = some t → ∃ t', b'.mints m = some t' ∧ t'.mintAuthority = t.mintAuthority

omit [DecidableEq K] in
theorem SameShape.refl (b : Bank K) : SameShape b b := ⟨fun _ a h => ⟨a, h, rfl, rfl⟩, fun _ t h => ⟨t, h, rfl⟩⟩

omit [DecidableEq K] in
theorem SameShape.trans {b₁ b₂ b₃ : Bank K} (h : SameShape b₁ b₂) (h' : SameShape b₂ b₃) : SameShape b₁ b₃ := by
  refine ⟨fun k a₃ h₃ => ?_, fun m t₁ h₁ => ?_⟩
  · obtain ⟨a₂, h₂, hm, ho⟩ := h'.account k a₃ h₃
    obtain ⟨a₁, h₁, hm', ho'⟩ := h.account k a₂ h₂
    exact ⟨a₁, h₁, hm.trans hm', ho.trans ho'⟩
  · obtain ⟨t₂, h₂, ha⟩ := h.mint m t₁ h₁
    obtain ⟨t₃, h₃, ha'⟩ := h'.mint m t₂ h₂
    exact ⟨t₃, h₃, ha'.trans ha⟩

theorem SameShape.put {b : Bank K} {k : K} {a a' : TokenAccount K} (h : b.accounts k = some a) (hm : a'.mint = a.mint)
    (ho : a'.owner = a.owner) : SameShape b (b.put k a') := by
  refine ⟨fun j c hc => ?_, fun m t ht => ⟨t, ht, rfl⟩⟩
  by_cases hj : j = k
  · subst hj
    rw [put_accounts, update_self] at hc
    cases hc
    exact ⟨a, h, hm, ho⟩
  · rw [put_accounts, update_of_ne hj] at hc
    exact ⟨c, hc, rfl, rfl⟩

theorem SameShape.putMint {b : Bank K} {m : K} {t t' : MintAccount K} (h : b.mints m = some t)
    (ha : t'.mintAuthority = t.mintAuthority) : SameShape b (b.putMint m t') := by
  refine ⟨fun j c hc => ⟨c, hc, rfl, rfl⟩, fun j s hs => ?_⟩
  by_cases hj : j = m
  · subst hj
    rw [h] at hs
    cases hs
    exact ⟨t', by simp, ha⟩
  · exact ⟨s, by simpa [hj] using hs, rfl⟩

theorem transfer_shape (h : b.transfer src dst auth x = .ok b') : SameShape b b' := by
  obtain ⟨s, d, hs, hd, -, -, -, ⟨-, rfl⟩ | ⟨hne, rfl⟩⟩ := transfer_ok h
  · exact .refl _
  · refine (SameShape.put hs (by rfl) (by rfl)).trans (.put (a := d) ?_ (by rfl) (by rfl))
    rw [put_accounts, update_of_ne (Ne.symm hne), hd]

theorem mintTo_shape (h : b.mintTo m dst auth x = .ok b') : SameShape b b' := by
  obtain ⟨d, t, hd, ht, -, rfl⟩ := mintTo_ok h
  exact (SameShape.put hd (by rfl) (by rfl)).trans (.putMint (t := t) ht (by rfl))

theorem burn_shape (h : b.burn m src auth x = .ok b') : SameShape b b' := by
  obtain ⟨s, t, hs, ht, -, -, -, rfl⟩ := burn_ok h
  exact (SameShape.put hs (by rfl) (by rfl)).trans (.putMint (t := t) ht (by rfl))

/-- the token accounts of `p`: whatever stands at an address `k` with `mintOf k = some m` is an account of `p` for `m` -/
def Owned (p : K) (mintOf : K → Option K) (b : Bank K) : Prop :=
  ∀ k m, mintOf k = some m → ∀ a, b.accounts k = some a → a.owner = p ∧ a.mint = m

def Authority (p m : K) (b : Bank K) : Prop := ∃ t, b.mints m = some t ∧ t.mintAuthority = some p

/-- `b'` respects the authority `p` at the addresses `s`: accounts of `p` keep owner and mint and are not debited, no
account appears at `s`, and mints of `p` stay mints of `p` and do not grow -/
structure Respects (p : K) (s : K → Prop) (b b' : Bank K) : Prop where
  kept : ∀ k a, b.accounts k = some a → a.owner = p →
    ∃ a', b'.accounts k = some a' ∧ a'.owner = p ∧ a'.mint = a.mint ∧ a.amount ≤ a'.amount
  fresh : ∀ k, s k → b.accounts k = none → b'.accounts k = none
  mint : ∀ m t, b.mints m = some t → t.mintAuthority = some p →
    ∃ t', b'.mints m = some t' ∧ t'.mintAuthority = some p ∧ t'.supply ≤ t.supply

variable {p : K} {s : K → Prop} {mintOf : K → Option K}

omit [DecidableEq K] in
theorem Owned.shape (h : Owned p mintOf b) (hb : SameShape b b') : Owned p mintOf b' := by
  intro k m hk a' ha'
  obtain ⟨a, ha, hm, ho⟩ := hb.account k a' ha'
  obtain ⟨h₁, h₂⟩ := h k m hk a ha
  exact ⟨ho.trans h₁, hm.trans h₂⟩

omit [DecidableEq K] in
theorem Owned.respects (h : Owned p mintOf b) (hb : Respects p (fun k => ∃ m, mintOf k = some m) b b') :
    Owned p mintOf b' := by
  intro k m hk a' ha'
  cases ha : b.accounts k with
  | none => rw [hb.fresh k ⟨m, hk⟩ ha] at ha'; cases ha'
  | some a =>
    obtain ⟨ho, hm⟩ := h k m hk a ha
    obtain ⟨a'', ha'', ho', hm', -⟩ := hb.kept k a ha ho
    rw [ha'] at ha''
    cases ha''
    exact ⟨ho', hm'.trans hm⟩

omit [DecidableEq K] in
theorem Authority.shape (h : Authority p m b) (hb : SameShape b b') : Authority p m b' := by
  obtain ⟨t, ht, ha⟩ := h
  obtain ⟨t', ht', ha'⟩ := hb.mint m t ht
  exact ⟨t', ht', ha'.trans ha⟩

omit [DecidableEq K] in
theorem Authority.respects (h : Authority p m b) (hb : Respects p s b b') : Authority p m b' := by
  obtain ⟨t, ht, ha⟩ := h
  obtain ⟨t', ht', ha', -⟩ := hb.mint m t ht ha
  exact ⟨t', ht', ha'⟩

omit [DecidableEq K] in
theorem Respects.supply_le (h : Authority p m b) (hb : Respects p s b b') : b'.supply m ≤ b.supply m := by
  obtain ⟨t, ht, ha⟩ := h
  obtain ⟨t', ht', -, hle⟩ := hb.mint m t ht ha
  simpa [supply, ht, ht'] using hle

omit [DecidableEq K] in
/-- an account of `p` is not debited -/
theorem Respects.balance_le (h : Owned p mintOf b) (hb : Respects p s b b') (hk : mintOf k = some m) :
    b.balance k ≤ b'.balance k := by
  cases ha : b.accounts k with
  | none => simp [balance, ha]
  | some a =>
    obtain ⟨a', ha', -, -, hle⟩ := hb.kept k a ha (h k m hk a ha).1
    simpa [balance, ha, ha'] using hle

/-! ## Requests of an outside authority -/

inductive Op (K : Type) where
  | transfer (src dst : K) (x : ℕ)
  | mintTo (m dst : K) (x : ℕ)
  | burn (m src : K) (x : ℕ)
  | openAccount (k m owner : K)
  | closeAccount (k : K)
  | setOwner (k owner : K)
  | createMint (m : K) (decimals : ℕ) (mintAuthority : K)
  | setMintAuthority (m : K) (mintAuthority : Option K)
  deriving DecidableEq, Repr

/-- the address an operation would create -/
def Op.creates : Op K → Option K
  | .openAccount k _ _ => some k
  | .createMint m _ _ => some m
  | _ => none

def apply (b : Bank K) (auth : K) : Op K → Except (TokenError K) (Bank K)
  | .transfer src dst x => b.transfer src dst auth x
  | .mintTo m dst x => b.mintTo m dst auth x
  | .burn m src x => b.burn m src auth x
  | .openAccount k m owner => b.openAccount k m owner
  | .closeAccount k => b.closeAccount k auth
  | .setOwner k owner => b.setOwner k auth owner
  | .createMint m decimals auth' => b.createMint m decimals auth'
  | .setMintAuthority m auth' => b.setMintAuthority m auth auth'

omit [DecidableEq K] in
theorem Respects.refl (b : Bank K) : Respects p s b b :=
  ⟨fun _ a h ho => ⟨a, h, ho, rfl, le_rfl⟩, fun _ _ h => h, fun _ t h ha => ⟨t, h, ha, le_rfl⟩⟩

omit [DecidableEq K] in
theorem Respects.trans {b₁ b₂ b₃ : Bank K} (h : Respects p s b₁ b₂) (h' : Respects p s b₂ b₃) : Respects p s b₁ b₃ := by
  refine ⟨fun k a₁ h₁ ho₁ => ?_, fun k hk h₁ => h'.fresh k hk (h.fresh k hk h₁), fun m t₁ h₁ ha₁ => ?_⟩
  · obtain ⟨a₂, h₂, ho₂, hm₂, hle₂⟩ := h.kept k a₁ h₁ ho₁
    obtain ⟨a₃, h₃, ho₃, hm₃, hle₃⟩ := h'.kept k a₂ h₂ ho₂
    exact ⟨a₃, h₃, ho₃, hm₃.trans hm₂, hle₂.trans hle₃⟩
  · obtain ⟨t₂, h₂, ha₂, hle₂⟩ := h.mint m t₁ h₁ ha₁
    obtain ⟨t₃, h₃, ha₃, hle₃⟩ := h'.mint m t₂ h₂ ha₂
    exact ⟨t₃, h₃, ha₃, hle₃.trans hle₂⟩

/-- rewriting one existing account respects `p` if it is not an account of `p`, or is only credited -/
theorem Respects.put {k : K} {a a' : TokenAccount K} (h : b.accounts k = some a)
    (ha : a.owner = p → a'.owner = p ∧ a'.mint = a.mint ∧ a.amount ≤ a'.amount) : Respects p s b (b.put k a') := by
  refine ⟨fun j c hc ho => ?_, fun j _ hn => ?_, fun m t ht hp => ⟨t, ht, hp, le_rfl⟩⟩
  · by_cases hj : j = k
    · subst hj
      rw [h] at hc
      cases hc
      exact ⟨a', by simp, ha ho⟩
    · exact ⟨c, by simpa [hj] using hc, ho, rfl, le_rfl⟩
  · by_cases hj : j = k
    · subst hj; rw [h] at hn; cases hn
    · simpa [hj] using hn

/-- rewriting one existing mint respects `p` if it is not a mint of `p`, or does not grow -/
theorem Respects.putMint {m : K} {t t' : MintAccount K} (h : b.mints m = some t)
    (ha : t.mintAuthority = some p → t'.mintAuthority = some p ∧ t'.supply ≤ t.supply) :
    Respects p s b (b.putMint m t') := by
  refine ⟨fun j c hc ho => ⟨c, hc, ho, rfl, le_rfl⟩, fun j _ hn => hn, fun j u hu hp => ?_⟩
  by_cases hj : j = m
  · subst hj
    rw [h] at hu
    cases hu
    exact ⟨t', by simp, ha hp⟩
  · exact ⟨u, by simpa [hj] using hu, hp, le_rfl⟩

theorem transfer_respects (h : b.transfer src dst auth x = .ok b') (hp : auth ≠ p) : Respects p s b b' := by
  obtain ⟨a, d, hs, hd, -, -, ho, ⟨-, rfl⟩ | ⟨hne, rfl⟩⟩ := transfer_ok h
  · exact .refl _
  · refine (Respects.put (k := src) hs fun h => absurd (ho.symm.trans h) hp).trans (.put (a := d) ?_ fun h => ?_)
    · rw [put_accounts, update_of_ne (Ne.symm hne), hd]
    · exact ⟨h, rfl, Nat.le_add_right ..⟩

theorem burn_respects (h : b.burn m src auth x = .ok b') (hp : auth ≠ p) : Respects p s b b' := by
  obtain ⟨a, t, hs, ht, -, ho, -, rfl⟩ := burn_ok h
  refine (Respects.put hs fun h => absurd (ho.symm.trans h) hp).trans (.putMint (t := t) ht fun h => ?_)
  exact ⟨h, Nat.sub_le ..⟩

theorem mintTo_respects (h : b.mintTo m dst auth x = .ok b') (hp : auth ≠ p) : Respects p s b b' := by
  obtain ⟨d, t, hd, ht, ha, rfl⟩ := mintTo_ok h
  have hput : Respects p s b (b.put dst { d with amount := d.amount + x }) :=
    .put hd fun h => ⟨h, rfl, Nat.le_add_right ..⟩
  exact hput.trans (.putMint (t := t) ht fun h => absurd (Option.some.inj (ha.symm.trans h)) hp)

theorem openAccount_ok (h : b.openAccount k m auth = .ok b') :
    b.accounts k = none ∧ b.mints k = none ∧ (∃ t, b.mints m = some t) ∧ b' = b.put k ⟨m, auth, 0⟩ := by
  simp only [openAccount, bind_ok, demand_ok, require_ok] at h
  obtain ⟨-, ⟨hn, hm⟩, t, ht, h⟩ := h
  exact ⟨hn, hm, ⟨t, ht⟩, (Except.ok.inj h).symm⟩

theorem openAccount_respects (h : b.openAccount k m auth = .ok b') (hk : ¬ s k) : Respects p s b b' := by
  obtain ⟨hn, -, -, rfl⟩ := openAccount_ok h
  refine ⟨fun j c hc ho => ⟨c, ?_, ho, rfl, le_rfl⟩, fun j hj hc => ?_, fun m t ht hp => ⟨t, ht, hp, le_rfl⟩⟩
  · have hj : j ≠ k := by rintro rfl; rw [hn] at hc; cases hc
    simpa [hj] using hc
  · have hj' : j ≠ k := by rintro rfl; exact hk hj
    simpa [hj'] using hc

theorem openAccount_balance (h : b.openAccount k m auth = .ok b') (j : K) : b'.balance j = b.balance j := by
  obtain ⟨hn, -, -, rfl⟩ := openAccount_ok h
  rw [put_balance]
  split_ifs with hj
  · subst hj; simp [balance, hn]
  · rfl

theorem openAccount_supply (h : b.openAccount k m auth = .ok b') (j : K) : b'.supply j = b.supply j := by
  obtain ⟨-, -, -, rfl⟩ := openAccount_ok h
  rfl

theorem closeAccount_ok (h : b.closeAccount k auth = .ok b') :
    ∃ a, b.accounts k = some a ∧ a.amount = 0 ∧ a.owner = auth ∧ b' = { b with accounts := update b.accounts k none } := by
  simp only [closeAccount, bind_ok, demand_ok, require_ok] at h
  obtain ⟨a, ha, -, h0, -, ho, h⟩ := h
  exact ⟨a, ha, h0, ho, (Except.ok.inj h).symm⟩

theorem closeAccount_balance (h : b.closeAccount k auth = .ok b') (j : K) : b'.balance j = b.balance j := by
  obtain ⟨a, ha, h0, -, rfl⟩ := closeAccount_ok h
  by_cases hj : j = k
  · subst hj; simp [balance, ha, h0]
  · simp [balance, hj]

theorem createMint_ok {decimals : ℕ} (h : b.createMint m decimals auth = .ok b') :
    b.accounts m = none ∧ b.mints m = none ∧ b' = b.putMint m ⟨decimals, 0, some auth⟩ := by
  simp only [createMint, bind_ok, require_ok] at h
  obtain ⟨-, ⟨hn, hm⟩, h⟩ := h
  exact ⟨hn, hm, (Except.ok.inj h).symm⟩

/-- **Outside requests.** What an authority other than `p` asks for respects `p`, wherever it may not create accounts. -/
theorem apply_respects {op : Op K} (h : b.apply auth op = .ok b') (hp : auth ≠ p)
    (hs : ∀ k, op.creates = some k → ¬ s k) : Respects p s b b' := by
  cases op with
  | transfer src dst x => exact transfer_respects h hp
  | mintTo m dst x => exact mintTo_respects h hp
  | burn m src x => exact burn_respects h hp
  | openAccount k m owner => exact openAccount_respects h (hs k rfl)
  | closeAccount k =>
    obtain ⟨a, ha, -, ho, rfl⟩ := closeAccount_ok h
    refine ⟨fun j c hc hoc => ⟨c, ?_, hoc, rfl, le_rfl⟩, fun j _ hc => ?_, fun m t ht hp => ⟨t, ht, hp, le_rfl⟩⟩
    · have hj : j ≠ k := by rintro rfl; rw [ha] at hc; cases hc; exact hp (ho.symm.trans hoc)
      simpa [hj] using hc
    · by_cases hj : j = k
      · simp [hj]
      · simpa [hj] using hc
  | setOwner k owner =>
    simp only [apply, setOwner, bind_ok, demand_ok, require_ok] at h
    obtain ⟨a, ha, -, ho, h⟩ := h
    cases Except.ok.inj h
    exact .put ha fun h => absurd (ho.symm.trans h) hp
  | createMint m decimals auth' =>
    obtain ⟨-, hn, rfl⟩ := createMint_ok h
    refine ⟨fun j c hc ho => ⟨c, hc, ho, rfl, le_rfl⟩, fun j _ hc => hc, fun j t ht hp => ⟨t, ?_, hp, le_rfl⟩⟩
    have hj : j ≠ m := by rintro rfl; rw [hn] at ht; cases ht
    simpa [hj] using ht
  | setMintAuthority m auth' =>
    simp only [apply, setMintAuthority, bind_ok, demand_ok, require_ok] at h
    obtain ⟨t, ht, -, ha, h⟩ := h
    cases Except.ok.inj h
    exact .putMint ht fun h => absurd (Option.some.inj (ha.symm.trans h)) hp

/-- only burning the whole supply of a mint takes it to zero -/
theorem apply_supply_pos {op : Op K} (h : b.apply auth op = .ok b') (hm : 0 < b.supply m)
    (hop : ∀ src, op ≠ .burn m src (b.supply m)) : 0 < b'.supply m := by
  cases op with
  | transfer src dst x => rwa [transfer_supply h]
  | mintTo j dst x =>
    rw [mintTo_supply h]
    split_ifs <;> omega
  | burn j src x =>
    rcases eq_or_ne m j with rfl | hj
    · have hs := burn_supply h
      have hx : x ≠ b.supply m := by rintro rfl; exact hop src rfl
      omega
    · rwa [burn_supply_frame h hj]
  | openAccount k j owner => rwa [openAccount_supply h]
  | closeAccount k =>
    obtain ⟨a, -, -, -, rfl⟩ := closeAccount_ok h
    exact hm
  | setOwner k owner =>
    simp only [apply, setOwner, bind_ok, demand_ok, require_ok] at h
    obtain ⟨a, -, -, -, h⟩ := h
    cases Except.ok.inj h
    exact hm
  | createMint j decimals auth' =>
    obtain ⟨-, hn, rfl⟩ := createMint_ok h
    have hj : m ≠ j := by rintro rfl; simp [supply, hn] at hm
    rwa [putMint_supply, if_neg hj]
  | setMintAuthority j auth' =>
    simp only [apply, setMintAuthority, bind_ok, demand_ok, require_ok] at h
    obtain ⟨t, ht, -, -, h⟩ := h
    cases Except.ok.inj h
    rw [putMint_supply]
    split_ifs with hj
    · subst hj
      simpa [supply, ht] using hm
    · exact hm

/-! ## Lack of funds -/

/-- every error but that `k` lacks funds -/
def Funded (k : K) : Set (TokenError K) := {e | e ≠ .insufficientFunds k}

omit [DecidableEq K] in
@[simp] theorem mem_funded {e : TokenError K} : e ∈ Funded k ↔ e ≠ .insufficientFunds k := Iff.rfl

/-- a transfer lacks funds at its source only, and only if they are not there -/
theorem transfer_throws (h : src = k → x ≤ b.balance src) : Throws (Funded k) (b.transfer src dst auth x) := by
  unfold Bank.transfer
  refine .bind (by simp) fun s hs => .bind (by simp) fun d _ => .bind ?_ fun _ _ => ?_
  · rw [demand_ok] at hs
    rw [Bank.balance_some hs] at h
    simp only [throws_require, mem_funded, ne_eq, TokenError.insufficientFunds.injEq]
    tauto
  · simp
    split_ifs <;> simp

theorem burn_throws (h : src = k → x ≤ b.balance src) : Throws (Funded k) (b.burn m src auth x) := by
  unfold Bank.burn
  refine .bind (by simp) fun s hs => .bind (by simp) fun t _ => .bind ?_ fun _ _ => ?_
  · rw [demand_ok] at hs
    rw [Bank.balance_some hs] at h
    simp only [throws_require, mem_funded, ne_eq, TokenError.insufficientFunds.injEq]
    tauto
  · simp

end Bank
end Grindurus.TokenBank
