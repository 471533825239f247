/-
Tokens in circulation: what a row of bank operations keeps, whoever asks for each of them.

- `holds m b k`: what the account at `k` holds of the mint `m`. `Backed m b`: all accounts together hold at most the supply
  of `m`, which fits in 64 bits.
- `Circulates p kept native b b'`: `b'` comes from `b` by bank operations; `p` hands over no account, and closes none at `kept`.
- `Circulates.backed`, `Circulates.stands`: what circulates stays backed, and the accounts of `p` at `kept` stand.
- `Circulates.mintedAt`: an account does not lose its mint.
- `Backed.transfer_succeeds`: in a backed bank no amount overflows.
-/
import Grindurus.Lib.Tally
import Grindurus.Lib.TokenBank

namespace Grindurus.TokenBank.Bank

open Checked Tally Function

variable {K : Type} [DecidableEq K]

/-! ## Backed mints -/

/-- what the account at `k` holds of the mint `m` -/
def holds (m : K) (b : Bank K) (k : K) : ℕ :=
  match b.accounts k with
  | some a => if a.mint = m then a.amount else 0
  | none => 0

/-- the accounts of the mint `m` hold at most its supply, and the supply is a number of 64 bits -/
def Backed (m : K) (b : Bank K) : Prop := ∃ n, HasTotal (b.holds m) n ∧ n ≤ b.supply m ∧ b.supply m < 2 ^ 64

variable {b b' : Bank K} {m j k src dst auth : K} {x : ℕ} {a s d : TokenAccount K}

theorem holds_some (h : b.accounts k = some a) : b.holds m k = if a.mint = m then a.amount else 0 := by
  simp [holds, h]

theorem holds_congr (h : b'.accounts k = b.accounts k) : b'.holds m k = b.holds m k := by
  simp [holds, h]

/-- a mint nobody holds is backed -/
theorem backed_of_none (h : ∀ k a, b.accounts k = some a → a.mint ≠ m) (hm : b.supply m < 2 ^ 64) : Backed m b := by
  refine ⟨0, hasTotal_zero.congr fun k => ?_, Nat.zero_le _, hm⟩
  unfold holds
  split
  · rename_i a ha
    rw [if_neg (h k a ha)]
  · rfl

theorem Backed.holds_le (h : Backed m b) (k : K) : b.holds m k ≤ b.supply m := by
  obtain ⟨n, hn, hle, -⟩ := h
  exact (hn.le k).trans hle

theorem Backed.pair_le (h : Backed m b) (hjk : j ≠ k) : b.holds m j + b.holds m k ≤ b.supply m := by
  obtain ⟨n, hn, hle, -⟩ := h
  exact (hn.pair_le hjk).trans hle

theorem Backed.supply_lt (h : Backed m b) : b.supply m < 2 ^ 64 := h.choose_spec.2.2

theorem Backed.amount_le (h : Backed m b) (ha : b.accounts k = some a) (hm : a.mint = m) : a.amount ≤ b.supply m := by
  have hle := h.holds_le k
  rwa [holds_some ha, if_pos hm] at hle

/-- one account and the supply are rewritten, and the supply moves at least as the account does -/
theorem Backed.write (h : Backed m b) (k : K) (hframe : ∀ j, j ≠ k → b'.holds m j = b.holds m j)
    (hsupply : b'.holds m k + b.supply m ≤ b.holds m k + b'.supply m) (hlt : b'.supply m < 2 ^ 64) : Backed m b' := by
  obtain ⟨n, hn, hle, -⟩ := h
  have hk := hn.le k
  exact ⟨n + b'.holds m k - b.holds m k, hn.write k hframe (by omega), by omega, hlt⟩

theorem Backed.congr (h : Backed m b) (hholds : ∀ k, b'.holds m k = b.holds m k) (hsupply : b'.supply m = b.supply m) :
    Backed m b' := by
  obtain ⟨n, hn, hle, hlt⟩ := h
  exact ⟨n, hn.congr fun k => (hholds k).symm, by omega, by omega⟩

/-- rewriting an account of another mint, or the owner of an account, changes no holdings -/
theorem put_holds (ha : b.accounts k = some a) {a' : TokenAccount K} (hmint : a'.mint = a.mint)
    (hamount : a.mint = m → a'.amount = a.amount) (j : K) : (b.put k a').holds m j = b.holds m j := by
  by_cases hj : j = k
  · subst hj
    rw [holds_some ha, holds_some (a := a') (by simp), hmint]
    split_ifs with hm
    · exact hamount hm
    · rfl
  · exact holds_congr (by simp [hj])

@[simp] theorem putMint_holds (t : MintAccount K) (i : K) : (b.putMint j t).holds m i = b.holds m i := rfl

theorem put_holds_self {a' : TokenAccount K} : (b.put k a').holds m k = if a'.mint = m then a'.amount else 0 :=
  holds_some (by simp)

theorem put_holds_of_ne {a' : TokenAccount K} (hj : j ≠ k) : (b.put k a').holds m j = b.holds m j :=
  holds_congr (by simp [hj])

/-! ## One operation -/

/-- one operation, whoever asks for it: `p` hands over no account and closes none at `kept`, and only the native coin is wrapped -/
inductive Moved (p : K) (kept : K → Prop) (native : K) (b b' : Bank K) : Prop where
  | transfer {src dst auth : K} {x : ℕ} (h : b.transfer src dst auth x = .ok b')
  | mintTo {m dst auth : K} {x : ℕ} (h : b.mintTo m dst auth x = .ok b')
  | burn {m src auth : K} {x : ℕ} (h : b.burn m src auth x = .ok b')
  | openAccount {k m owner : K} (h : b.openAccount k m owner = .ok b')
  | closeAccount {k auth : K} (h : b.closeAccount k auth = .ok b') (hk : auth = p → ¬ kept k)
  | setOwner {k auth owner : K} (h : b.setOwner k auth owner = .ok b') (hp : auth ≠ p)
  | createMint {m auth : K} {decimals : ℕ} (h : b.createMint m decimals auth = .ok b')
  | setMintAuthority {m auth : K} {auth' : Option K} (h : b.setMintAuthority m auth auth' = .ok b')
  | wrap {k : K} {x : ℕ} (h : b.wrap native k x = .ok b')

theorem setOwner_ok {owner : K} (h : b.setOwner k auth owner = .ok b') :
    ∃ a, b.accounts k = some a ∧ a.owner = auth ∧ b' = b.put k { a with owner } := by
  simp only [setOwner, bind_ok, demand_ok, require_ok] at h
  obtain ⟨a, ha, -, ho, h⟩ := h
  exact ⟨a, ha, ho, (Except.ok.inj h).symm⟩

theorem setMintAuthority_ok {auth' : Option K} (h : b.setMintAuthority m auth auth' = .ok b') :
    ∃ t, b.mints m = some t ∧ b' = b.putMint m { t with mintAuthority := auth' } := by
  simp only [setMintAuthority, bind_ok, demand_ok, require_ok] at h
  obtain ⟨t, ht, -, -, h⟩ := h
  exact ⟨t, ht, (Except.ok.inj h).symm⟩

theorem wrap_ok {native : K} (h : b.wrap native k x = .ok b') :
    ∃ a, b.accounts k = some a ∧ a.mint = native ∧ b' = b.put k { a with amount := a.amount + x } := by
  simp only [wrap, bind_ok, demand_ok, require_ok, checkedAdd_ok] at h
  obtain ⟨a, ha, -, hm, _, ⟨-, rfl⟩, h⟩ := h
  exact ⟨a, ha, hm, (Except.ok.inj h).symm⟩

/-- what is minted goes to an account of the mint, and the supply stays a number of 64 bits -/
theorem mintTo_fits (h : b.mintTo m dst auth x = .ok b') :
    (∃ d, b.accounts dst = some d ∧ d.mint = m) ∧ b.supply m + x < 2 ^ 64 := by
  simp only [mintTo, bind_ok, demand_ok, require_ok, checkedAdd_ok] at h
  obtain ⟨d, hd, -, hm, t, ht, -, -, _, -, _, ⟨hlt, -⟩, -⟩ := h
  refine ⟨⟨d, hd, hm⟩, ?_⟩
  simpa [supply, ht, u64] using hlt

theorem burn_mint (h : b.burn m src auth x = .ok b') : ∃ s, b.accounts src = some s ∧ s.mint = m := by
  simp only [burn, bind_ok, demand_ok, require_ok] at h
  obtain ⟨s, hs, _, -, -, -, -, hm, -⟩ := h
  exact ⟨s, hs, hm⟩

theorem Backed.transfer (hb : Backed m b) (h : b.transfer src dst auth x = .ok b') : Backed m b' := by
  obtain ⟨s, d, hs, hd, hx, hmint, -, ⟨-, rfl⟩ | ⟨hne, rfl⟩⟩ := transfer_ok h
  · exact hb
  · obtain ⟨n, hn, hle, hlt⟩ := hb
    refine ⟨n, hn.move hne (fun i hi hi' => ?_) ?_, hle, hlt⟩
    · rw [put_holds_of_ne hi', put_holds_of_ne hi]
    · rw [put_holds_of_ne hne, put_holds_self, put_holds_self, holds_some hs, holds_some hd, hmint]
      dsimp only
      split_ifs <;> omega

/-- a mint adds to one account and to the supply -/
theorem Backed.mintTo (hb : Backed m b) (h : b.mintTo j dst auth x = .ok b') : Backed m b' := by
  obtain ⟨⟨d', hd', hmint⟩, hlt⟩ := mintTo_fits h
  have hsupply := mintTo_supply h m
  obtain ⟨d, t, hd, -, -, rfl⟩ := mintTo_ok h
  obtain rfl := Option.some.inj (hd'.symm.trans hd)
  by_cases hj : m = j
  · obtain rfl := hj
    rw [if_pos rfl] at hsupply
    refine hb.write dst (fun i hi => ?_) ?_ (by omega)
    · rw [putMint_holds, put_holds_of_ne hi]
    · rw [putMint_holds, put_holds_self, holds_some hd, if_pos hmint, if_pos hmint]
      dsimp only
      omega
  · rw [if_neg hj] at hsupply
    refine hb.congr (fun i => ?_) hsupply
    rw [putMint_holds, put_holds hd (by rfl) fun hm => absurd (hm.symm.trans hmint) hj]

/-- a burn takes from one account and from the supply -/
theorem Backed.burn (hb : Backed m b) (h : b.burn j src auth x = .ok b') : Backed m b' := by
  obtain ⟨s', hs', hmint⟩ := burn_mint h
  have hframe : ∀ {i : K}, i ≠ j → b'.supply i = b.supply i := burn_supply_frame h
  have hsupply := burn_supply h
  obtain ⟨s, t, hs, -, hx, -, -, rfl⟩ := burn_ok h
  obtain rfl := Option.some.inj (hs'.symm.trans hs)
  by_cases hj : m = j
  · obtain rfl := hj
    have hlt := hb.supply_lt
    refine hb.write src (fun i hi => ?_) ?_ (by omega)
    · rw [putMint_holds, put_holds_of_ne hi]
    · rw [putMint_holds, put_holds_self, holds_some hs, if_pos hmint, if_pos hmint]
      dsimp only
      omega
  · refine hb.congr (fun i => ?_) (hframe hj)
    rw [putMint_holds, put_holds hs (by rfl) fun hm => absurd (hm.symm.trans hmint) hj]

theorem Backed.closeAccount (hb : Backed m b) (h : b.closeAccount k auth = .ok b') : Backed m b' := by
  obtain ⟨a, ha, h0, -, rfl⟩ := closeAccount_ok h
  refine hb.congr (fun i => ?_) rfl
  by_cases hi : i = k
  · subst hi
    rw [holds_some ha, h0, ite_self]
    simp [holds]
  · exact holds_congr (by simp [hi])

theorem Backed.openAccount {owner : K} (hb : Backed m b) (h : b.openAccount k j owner = .ok b') : Backed m b' := by
  obtain ⟨hn, -, -, rfl⟩ := openAccount_ok h
  refine hb.congr (fun i => ?_) rfl
  by_cases hi : i = k
  · subst hi
    simp [holds, hn]
  · exact put_holds_of_ne hi

theorem Backed.createMint {decimals : ℕ} (hb : Backed m b) (h : b.createMint j decimals auth = .ok b') : Backed m b' := by
  obtain ⟨-, hn, rfl⟩ := createMint_ok h
  refine hb.congr (fun i => holds_congr rfl) ?_
  rw [putMint_supply]
  split_ifs with hm
  · subst hm
    simp [supply, hn]
  · rfl

theorem Backed.setMintAuthority {auth' : Option K} (hb : Backed m b) (h : b.setMintAuthority j auth auth' = .ok b') :
    Backed m b' := by
  obtain ⟨t, ht, rfl⟩ := setMintAuthority_ok h
  refine hb.congr (fun i => holds_congr rfl) ?_
  rw [putMint_supply]
  split_ifs with hm
  · subst hm
    simp [supply, ht]
  · rfl

variable {p native : K} {kept : K → Prop}

theorem Backed.setOwner {owner : K} (hb : Backed m b) (h : b.setOwner k auth owner = .ok b') : Backed m b' := by
  obtain ⟨a, ha, -, rfl⟩ := setOwner_ok h
  exact hb.congr (put_holds ha (by rfl) fun _ => by rfl) rfl

/-- whoever asks the token program for whatever, mints stay backed -/
theorem Backed.apply {op : Op K} (hb : Backed m b) (h : b.apply auth op = .ok b') : Backed m b' := by
  cases op with
  | transfer src dst x => exact hb.transfer h
  | mintTo i dst x => exact hb.mintTo h
  | burn i src x => exact hb.burn h
  | openAccount k i owner => exact hb.openAccount h
  | closeAccount k => exact hb.closeAccount h
  | setOwner k owner => exact hb.setOwner h
  | createMint i decimals auth' => exact hb.createMint h
  | setMintAuthority i auth' => exact hb.setMintAuthority h

/-- so along any row of requests the accounts add up to no more than the supply -/
theorem Moved.backed (h : Moved p kept native b b') (hm : m ≠ native) (hb : Backed m b) : Backed m b' := by
  cases h with
  | transfer h => exact hb.transfer h
  | mintTo h => exact hb.mintTo h
  | burn h => exact hb.burn h
  | openAccount h => exact hb.openAccount h
  | closeAccount h _ => exact hb.closeAccount h
  | setOwner h _ => exact hb.setOwner h
  | createMint h => exact hb.createMint h
  | setMintAuthority h => exact hb.setMintAuthority h
  | wrap h =>
    obtain ⟨a, ha, hmint, rfl⟩ := wrap_ok h
    exact hb.congr (put_holds ha (by rfl) fun h => absurd (h.symm.trans hmint) hm) rfl

/-- at `k` stands an account of `p` for the mint `m` -/
def Stands (p m : K) (b : Bank K) (k : K) : Prop := ∃ a, b.accounts k = some a ∧ a.owner = p ∧ a.mint = m

theorem Stands.put (h : Stands p m b k) {a' : TokenAccount K} (ha : b.accounts j = some a)
    (howner : a.owner = p → a'.owner = p) (hmint : a'.mint = a.mint) : Stands p m (b.put j a') k := by
  obtain ⟨c, hc, ho, hm⟩ := h
  by_cases hk : k = j
  · subst hk
    cases ha.symm.trans hc
    exact ⟨a', by simp, howner ho, hmint.trans hm⟩
  · exact ⟨c, by simp [hk, hc], ho, hm⟩

/-- and an account of `p` that is kept stands on -/
theorem Moved.stands (h : Moved p kept native b b') (hk : kept k) (hs : Stands p m b k) : Stands p m b' k := by
  have hsame : b'.accounts = b.accounts → Stands p m b' k := fun he => by
    obtain ⟨c, hc, hrest⟩ := hs
    exact ⟨c, he ▸ hc, hrest⟩
  cases h with
  | @transfer src dst auth x h =>
    obtain ⟨s, d, hs', hd, -, -, -, ⟨-, rfl⟩ | ⟨hne, rfl⟩⟩ := transfer_ok h
    · exact hs
    · have h₁ : Stands p m (b.put src { s with amount := s.amount - x }) k := hs.put hs' (fun h => h) rfl
      refine h₁.put (a := d) ?_ (fun h => h) (by rfl)
      rw [put_accounts, update_of_ne (Ne.symm hne), hd]
  | mintTo h =>
    obtain ⟨d, t, hd, -, -, rfl⟩ := mintTo_ok h
    exact hs.put hd (fun h => h) (by rfl)
  | burn h =>
    obtain ⟨s, t, hs', -, -, -, -, rfl⟩ := burn_ok h
    exact hs.put hs' (fun h => h) (by rfl)
  | openAccount h =>
    obtain ⟨hn, -, -, rfl⟩ := openAccount_ok h
    obtain ⟨c, hc, hrest⟩ := hs
    refine ⟨c, ?_, hrest⟩
    rw [put_accounts, update_of_ne, hc]
    rintro rfl
    cases hn.symm.trans hc
  | closeAccount h hclose =>
    obtain ⟨a, ha, -, ho, rfl⟩ := closeAccount_ok h
    obtain ⟨c, hc, hco, hcm⟩ := hs
    refine ⟨c, (update_of_ne ?_ _ _).trans hc, hco, hcm⟩
    rintro rfl
    cases ha.symm.trans hc
    exact hclose (ho.symm.trans hco) hk
  | setOwner h hp =>
    obtain ⟨a, ha, ho, rfl⟩ := setOwner_ok h
    exact hs.put ha (fun h => absurd (ho.symm.trans h) hp) (by rfl)
  | createMint h =>
    obtain ⟨-, -, rfl⟩ := createMint_ok h
    exact hsame rfl
  | setMintAuthority h =>
    obtain ⟨t, -, rfl⟩ := setMintAuthority_ok h
    exact hsame rfl
  | wrap h =>
    obtain ⟨a, ha, -, rfl⟩ := wrap_ok h
    exact hs.put ha (fun h => h) (by rfl)

/-- the account at `k`, if there is one, has its mint -/
def MintedAt (b : Bank K) (k : K) : Prop := ∀ a, b.accounts k = some a → b.mints a.mint ≠ none

/-- an account is written, with its mint if it is the one at `k` -/
theorem MintedAt.put (h : MintedAt b k) {a' : TokenAccount K} (ha : k = j → b.mints a'.mint ≠ none) : MintedAt (b.put j a') k := by
  intro c hc
  rw [put_accounts, update_apply] at hc
  split_ifs at hc with hj
  · cases hc
    exact ha hj
  · exact h c hc

/-- an account that stands is rewritten for the same mint -/
theorem MintedAt.rewrite (h : MintedAt b k) (ha : b.accounts j = some a) {a' : TokenAccount K} (hm : a'.mint = a.mint) :
    MintedAt (b.put j a') k := by
  refine h.put fun hj => ?_
  rw [hm]
  exact h a (hj ▸ ha)

theorem MintedAt.putMint (h : MintedAt b k) (t : MintAccount K) : MintedAt (b.putMint j t) k := by
  intro c hc
  rw [putMint_mints, update_apply]
  split_ifs
  · exact Option.some_ne_none t
  · exact h c hc

/-- and so does a mint -/
theorem Moved.mintedAt (h : Moved p kept native b b') (hk : MintedAt b k) : MintedAt b' k := by
  cases h with
  | transfer h =>
    obtain ⟨s, d, hs, hd, -, -, -, ⟨-, rfl⟩ | ⟨hne, rfl⟩⟩ := transfer_ok h
    · exact hk
    · refine (hk.rewrite hs (by rfl)).rewrite (a := d) ?_ (by rfl)
      rw [put_accounts, update_of_ne (Ne.symm hne), hd]
  | mintTo h =>
    obtain ⟨d, t, hd, -, -, rfl⟩ := mintTo_ok h
    exact (hk.rewrite hd (by rfl)).putMint _
  | burn h =>
    obtain ⟨s, t, hs, -, -, -, -, rfl⟩ := burn_ok h
    exact (hk.rewrite hs (by rfl)).putMint _
  | openAccount h =>
    obtain ⟨-, -, ⟨t, ht⟩, rfl⟩ := openAccount_ok h
    exact hk.put fun _ => by simp [ht]
  | closeAccount h _ =>
    obtain ⟨a, -, -, -, rfl⟩ := closeAccount_ok h
    intro c hc
    simp only [update_apply] at hc
    split_ifs at hc
    exact hk c hc
  | setOwner h _ =>
    obtain ⟨a, ha, -, rfl⟩ := setOwner_ok h
    exact hk.rewrite ha (by rfl)
  | createMint h =>
    obtain ⟨-, -, rfl⟩ := createMint_ok h
    exact hk.putMint _
  | setMintAuthority h =>
    obtain ⟨t, -, rfl⟩ := setMintAuthority_ok h
    exact hk.putMint _
  | wrap h =>
    obtain ⟨a, ha, -, rfl⟩ := wrap_ok h
    exact hk.rewrite ha (by rfl)

/-! ## A row of operations -/

def Circulates (p : K) (kept : K → Prop) (native : K) : Bank K → Bank K → Prop := Relation.ReflTransGen (Moved p kept native)

theorem Circulates.refl (b : Bank K) : Circulates p kept native b b := Relation.ReflTransGen.refl

theorem Circulates.trans {b₁ b₂ b₃ : Bank K} (h : Circulates p kept native b₁ b₂) (h' : Circulates p kept native b₂ b₃) :
    Circulates p kept native b₁ b₃ := Relation.ReflTransGen.trans h h'

theorem Moved.circulates (h : Moved p kept native b b') : Circulates p kept native b b' := Relation.ReflTransGen.single h

/-- what another authority than `p` asks for circulates -/
theorem apply_circulates {op : Op K} (h : b.apply auth op = .ok b') (hp : auth ≠ p) : Circulates p kept native b b' := by
  apply Moved.circulates
  cases op with
  | transfer src dst x => exact .transfer h
  | mintTo m dst x => exact .mintTo h
  | burn m src x => exact .burn h
  | openAccount k m owner => exact .openAccount h
  | closeAccount k => exact .closeAccount h fun he => absurd he hp
  | setOwner k owner => exact .setOwner h hp
  | createMint m decimals auth' => exact .createMint h
  | setMintAuthority m auth' => exact .setMintAuthority h

/-- **Backed supply.** However tokens circulate, a mint stays backed; the native coin need not be. -/
theorem Circulates.backed (h : Circulates p kept native b b') (hm : m ≠ native) (hb : Backed m b) : Backed m b' := by
  induction h with
  | refl => exact hb
  | tail _ h ih => exact h.backed hm ih

/-- **Kept accounts.** However tokens circulate, the accounts of `p` at `kept` stand. -/
theorem Circulates.stands (h : Circulates p kept native b b') (hk : kept k) (hs : Stands p m b k) : Stands p m b' k := by
  induction h with
  | refl => exact hs
  | tail _ h ih => exact h.stands hk ih

/-- however tokens circulate, an account whose mint exists keeps it -/
theorem Circulates.mintedAt (h : Circulates p kept native b b') (hk : MintedAt b k) : MintedAt b' k := by
  induction h with
  | refl => exact hk
  | tail _ h ih => exact h.mintedAt ih

/-! ## What a backed bank never refuses -/

/-- a covered transfer between accounts of a backed mint succeeds -/
theorem Backed.transfer_succeeds (h : Backed m b) (hs : b.accounts src = some s) (hd : b.accounts dst = some d)
    (hsm : s.mint = m) (hdm : d.mint = m) (ho : s.owner = auth) (hx : x ≤ s.amount) :
    ∃ b', b.transfer src dst auth x = .ok b' := by
  simp only [Bank.transfer, bind_ok, demand_ok, require_ok]
  by_cases hne : src = dst
  · exact ⟨b, s, hs, d, hd, (), hx, (), hsm.trans hdm.symm, (), ho, by simp [hne]⟩
  · have hpair := h.pair_le hne
    have hlt := h.supply_lt
    rw [holds_some hs, holds_some hd, if_pos hsm, if_pos hdm] at hpair
    have hroom : d.amount + x < 2 ^ u64 := by
      unfold u64
      omega
    refine ⟨(b.put src { s with amount := s.amount - x }).put dst { d with amount := d.amount + x },
      s, hs, d, hd, (), hx, (), hsm.trans hdm.symm, (), ho, ?_⟩
    rw [if_neg hne]
    simp only [bind_ok, checkedAdd_ok]
    exact ⟨_, ⟨hroom, rfl⟩, rfl⟩

end Grindurus.TokenBank.Bank
