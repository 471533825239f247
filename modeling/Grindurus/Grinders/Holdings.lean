/-
What custodians hold, over whole runs.

- `Deal`: one request to the token program, and what the model's rules say of who may make it. `Deals`: a row of them.
- `Sound listed b`: the addresses of one owner and one mint are in order, mints stand and are backed, and so do the vaults of
  the listed assets. `Deals.sound`: whatever is dealt, a sound bank stays sound.
- `Held listed T b`: what a custodian holds of a listed asset it trades, by `T`. `Deals.held`: as long as nothing else is
  brought to a custodian, that stays so.
- `Instr.Aimed listed w i`: the instruction brings no custodian a listed asset outside its pair, and leaves it none.
- `Kept listed w`: both, with the custodians in order. `Genesis.after_kept`: it holds after a run of aimed instructions.

A custodian trades one base against one quote asset and may hold nothing else of what is listed; otherwise a liquidation, which
sweeps the two accounts of each pair, would leave it behind. What can bring a foreign asset to a custodian is the owner's choice
of a pair, a swap through a router that pays out something else, a mint to it, or a transfer of anybody. The rules of the token
program for who may ask for what are in `Deal`: they are all that is assumed of a router.
-/
import Grindurus.Lib.Opened
import Grindurus.Grinders.Program

namespace Grindurus.Grinders

open Checked TokenBank Machine Function

variable {listed now : List Key} {T T' : Key → Key → Prop} {b b₁ b' : Bank Key} {k m src dst auth : Key} {x : ℕ}

theorem spl_ok {α : Type} {r : Except (TokenError Key) α} {a : α} : spl r = .ok a ↔ r = .ok a := by
  cases r <;> simp [spl, Except.mapError]

/-! ## Deals -/

/-- an account of a custodian for a listed asset is for one it trades -/
def Suits (listed : List Key) (T : Key → Key → Prop) (b : Bank Key) (k : Key) : Prop :=
  ∀ a, b.accounts k = some a → a.owner.isCustodian = true → a.mint ∈ listed → T a.owner a.mint

/-- the request brings no custodian anything of a listed asset but what it trades -/
def Brings (listed : List Key) (T : Key → Key → Prop) (b : Bank Key) : Bank.Op Key → Prop
  | .transfer _ dst x => 0 < x → Suits listed T b dst
  | .mintTo _ dst x => 0 < x → Suits listed T b dst
  | .setOwner k owner =>
    owner.isCustodian = true → ∀ a, b.accounts k = some a → a.mint ∈ listed → 0 < a.amount → T owner a.mint
  | _ => True

/-- and none of a row of them does -/
def BringsAll (listed : List Key) (T : Key → Key → Prop) : Bank Key → List (Key × Bank.Op Key) → Prop
  | _, [] => True
  | b, (auth, op) :: routed => Brings listed T b op ∧ ∀ b', b.apply auth op = .ok b' → BringsAll listed T b' routed

/-- the request leaves every account where it is, in the same hands -/
def gentle : Bank.Op Key → Bool
  | .closeAccount _ => false
  | .setOwner _ _ => false
  | _ => true

/-- one request, while GRAI lists `now` -/
structure Deal (now listed : List Key) (T : Key → Key → Prop) (auth : Key) (op : Bank.Op Key) (b b' : Bank Key) : Prop where
  applied : b.apply auth op = .ok b'
  rule : allowed now auth op = true
  hands : auth = .grinders → gentle op = true
  brings : Brings listed T b op

def Deals (now listed : List Key) (T : Key → Key → Prop) : Bank Key → Bank Key → Prop :=
  Relation.ReflTransGen fun b b' => ∃ auth op, Deal now listed T auth op b b'

theorem Deals.trans (h : Deals now listed T b b₁) (h' : Deals now listed T b₁ b') : Deals now listed T b b' :=
  Relation.ReflTransGen.trans h h'

theorem Deal.deals {op : Bank.Op Key} (h : Deal now listed T auth op b b') : Deals now listed T b b' := .single ⟨auth, op, h⟩

theorem transfer_deals (h : b.transfer src dst auth x = .ok b') (hdst : Suits listed T b dst) : Deals now listed T b b' := by
  have hdeal : Deal now listed T auth (.transfer src dst x) b b' := ⟨h, rfl, fun _ => rfl, fun _ => hdst⟩
  exact hdeal.deals

theorem suits_of_owner (h : ∀ a, b.accounts k = some a → a.owner.isCustodian = false) : Suits listed T b k := by
  intro a ha hcust
  rw [h a ha] at hcust
  cases hcust

/-- where nothing is opened, closed or handed over, an account stays of the same mint and owner -/
theorem account_slots {a : TokenAccount Key} (hs : b'.slots = b.slots) (ha : b.accounts k = some a) :
    ∃ a', b'.accounts k = some a' ∧ a'.mint = a.mint ∧ a'.owner = a.owner := by
  have hslot : b'.slots k = some (a.mint, a.owner) := by
    rw [hs]
    exact Bank.slots_some.2 ⟨a, ha, rfl, rfl⟩
  exact Bank.slots_some.1 hslot

theorem Suits.slots (h : Suits listed T b k) (hs : b'.slots = b.slots) : Suits listed T b' k := by
  intro a' ha' hcust hmint
  obtain ⟨a, ha, hm, ho⟩ := account_slots hs.symm ha'
  rw [← ho] at hcust ⊢
  rw [← hm] at hmint ⊢
  exact h a ha hcust hmint

/-! ## Sound banks -/

structure Sound (now : List Key) (b : Bank Key) : Prop where
  homed : Homed b
  room : Roomy b
  placed : ∀ m t, b.mints m = some t → m.mintable = true
  minted : ∀ k, b.MintedAt k
  backed : ∀ m, b.Backed m
  vaults : ∀ m ∈ now, b.Stands .grai m (.vault m)

/-- accounts that keep their mint and owner keep their homes -/
theorem Homed.shape (h : Homed b) (hb : Bank.SameShape b b') : Homed b' := by
  intro k o m hk a' ha'
  obtain ⟨a, ha, hm, ho⟩ := hb.account k a' ha'
  rw [hm, ho]
  exact h k o m hk a ha

theorem Homed.slots (h : Homed b) (hs : b'.slots = b.slots) : Homed b' := by
  intro k o m hk a' ha'
  obtain ⟨a, ha, hm, ho⟩ := account_slots hs.symm ha'
  rw [← hm, ← ho]
  exact h k o m hk a ha

/-- at an address of one owner and one mint, an account is opened for both -/
theorem placed_home {i o owner : Key} (h : placed auth (.openAccount k i owner) = true) (hk : k.home = some (o, m)) :
    owner = o ∧ i = m := by
  cases k <;> simp_all [placed, Key.home]

/-- who can own an address of one owner hands over nothing -/
theorem Deal.setOwner_home {owner o : Key} {a : TokenAccount Key} (h : Deal now listed T auth (.setOwner k owner) b b')
    (hb : Homed b) (ha : b.accounts k = some a) (hauth : a.owner = auth) : k.home ≠ some (o, m) := by
  intro hk
  obtain ⟨rfl, -⟩ := hb k o m hk a ha
  rcases Key.home_owner hk with ho | ho
  · cases h.hands (hauth ▸ ho)
  · have hrule := h.rule
    rw [← hauth, ho] at hrule
    simp [allowed, placed, graiKeeps] at hrule

/-- no deal changes the owner or the mint of an address that is derived for a custodian -/
theorem Deal.homed {op : Bank.Op Key} (h : Deal now listed T auth op b b') (hb : Homed b) : Homed b' := by
  have happ := h.applied
  cases op with
  | transfer src dst x => exact hb.shape (Bank.transfer_shape happ)
  | mintTo i dst x => exact hb.shape (Bank.mintTo_shape happ)
  | burn i src x => exact hb.shape (Bank.burn_shape happ)
  | openAccount j i owner =>
    obtain ⟨-, -, -, rfl⟩ := Bank.openAccount_ok happ
    intro k o m hk a ha
    rw [Bank.put_accounts, update_apply] at ha
    split_ifs at ha with hkj
    · obtain rfl := hkj
      obtain rfl := Option.some.inj ha
      have hplaced := h.rule
      rw [allowed, Bool.and_eq_true] at hplaced
      exact placed_home hplaced.1 hk
    · exact hb k o m hk a ha
  | closeAccount j =>
    obtain ⟨_, -, -, -, rfl⟩ := Bank.closeAccount_ok happ
    intro k o m hk a ha
    simp only [update_apply] at ha
    split_ifs at ha
    exact hb k o m hk a ha
  | setOwner j owner =>
    obtain ⟨a, ha, hauth, rfl⟩ := Bank.setOwner_ok happ
    intro k o m hk c hc
    rw [Bank.put_accounts, update_apply] at hc
    split_ifs at hc with hkj
    · obtain rfl := hkj
      exact absurd hk (h.setOwner_home hb ha hauth)
    · exact hb k o m hk c hc
  | createMint i decimals auth' =>
    obtain ⟨-, -, rfl⟩ := Bank.createMint_ok happ
    exact hb
  | setMintAuthority i auth' =>
    obtain ⟨t, -, rfl⟩ := Bank.setMintAuthority_ok happ
    exact hb

/-- where nothing but `k` is written, room is left -/
theorem Roomy.of_unused (h : Roomy b) (k : Key) (hacc : ∀ j, j ≠ k → b.accounts j = none → b'.accounts j = none)
    (hmint : ∀ j, j ≠ k → b.mints j = none → b'.mints j = none) : Roomy b' := by
  have hone : {n | Key.wallet n = k}.Finite := by
    refine Set.Subsingleton.finite fun n hn n' hn' => ?_
    exact Key.wallet.inj (Eq.trans hn (Eq.symm hn'))
  refine (Set.Infinite.sdiff h hone).mono ?_
  rintro n ⟨⟨hna, hnm⟩, hne⟩
  exact ⟨hacc _ hne hna, hmint _ hne hnm⟩

/-- a request creates one account or one mint at the most -/
theorem Deal.room {op : Bank.Op Key} (h : Deal now listed T auth op b b') (hb : Roomy b) : Roomy b' := by
  have happ := h.applied
  have hshape : Bank.SameShape b b' → ∀ j, b.accounts j = none → b'.accounts j = none := by
    intro hs j hj
    by_contra hne
    obtain ⟨a', ha'⟩ := Option.ne_none_iff_exists'.1 hne
    obtain ⟨a, ha, -⟩ := hs.account j a' ha'
    cases hj.symm.trans ha
  cases op with
  | transfer src dst x =>
    refine hb.of_unused src (fun j _ => hshape (Bank.transfer_shape happ) j) fun j _ hj => ?_
    rw [(Bank.transfer_slots happ).1, hj]
  | mintTo i dst x =>
    refine hb.of_unused i (fun j _ => hshape (Bank.mintTo_shape happ) j) fun j hji hj => ?_
    obtain ⟨d, t, -, -, -, rfl⟩ := Bank.mintTo_ok happ
    rw [Bank.putMint_mints, update_of_ne hji]
    exact hj
  | burn i src x =>
    refine hb.of_unused i (fun j _ => hshape (Bank.burn_shape happ) j) fun j hji hj => ?_
    obtain ⟨s, t, -, -, -, -, -, rfl⟩ := Bank.burn_ok happ
    rw [Bank.putMint_mints, update_of_ne hji]
    exact hj
  | openAccount k i owner =>
    obtain ⟨-, -, -, rfl⟩ := Bank.openAccount_ok happ
    refine hb.of_unused k (fun j hjk hj => ?_) fun j _ hj => hj
    rw [Bank.put_accounts, update_of_ne hjk, hj]
  | closeAccount k =>
    obtain ⟨_, -, -, -, rfl⟩ := Bank.closeAccount_ok happ
    refine hb.of_unused k (fun j hjk hj => ?_) fun j _ hj => hj
    simp [hjk, hj]
  | setOwner k owner =>
    obtain ⟨a, -, -, rfl⟩ := Bank.setOwner_ok happ
    refine hb.of_unused k (fun j hjk hj => ?_) fun j _ hj => hj
    rw [Bank.put_accounts, update_of_ne hjk, hj]
  | createMint i decimals auth' =>
    obtain ⟨-, -, rfl⟩ := Bank.createMint_ok happ
    refine hb.of_unused i (fun j _ hj => hj) fun j hji hj => ?_
    rw [Bank.putMint_mints, update_of_ne hji, hj]
  | setMintAuthority i auth' =>
    obtain ⟨t, -, rfl⟩ := Bank.setMintAuthority_ok happ
    refine hb.of_unused i (fun j _ hj => hj) fun j hji hj => ?_
    rw [Bank.putMint_mints, update_of_ne hji, hj]

/-- what GRAI does not do keeps its vaults -/
theorem Deal.moved {op : Bank.Op Key} (h : Deal now listed T auth op b b') (native : Key) :
    Bank.Moved .grai (fun k => ∃ m ∈ now, k = .vault m) native b b' := by
  have happ := h.applied
  have hrule := h.rule
  cases op with
  | transfer src dst x => exact .transfer happ
  | mintTo i dst x => exact .mintTo happ
  | burn i src x => exact .burn happ
  | openAccount j i owner => exact .openAccount happ
  | closeAccount j =>
    refine .closeAccount happ fun hauth => ?_
    rintro ⟨m, hm, rfl⟩
    simp [allowed, graiKeeps, hauth, hm] at hrule
  | setOwner j owner =>
    refine .setOwner happ ?_
    rintro rfl
    simp [allowed, graiKeeps] at hrule
  | createMint i decimals auth' => exact .createMint happ
  | setMintAuthority i auth' => exact .setMintAuthority happ

/-- mints are created where they can be -/
theorem Deal.placed {op : Bank.Op Key} (h : Deal now listed T auth op b b') (hb : ∀ m t, b.mints m = some t → m.mintable = true)
    (m : Key) (t : MintAccount Key) (ht : b'.mints m = some t) : m.mintable = true := by
  have happ := h.applied
  have hold : ∀ t₀, b.mints m = some t₀ → m.mintable = true := hb m
  cases op with
  | transfer src dst x =>
    rw [(Bank.transfer_slots happ).1] at ht
    exact hold t ht
  | mintTo i dst x =>
    obtain ⟨d, t₀, -, ht₀, -, rfl⟩ := Bank.mintTo_ok happ
    rw [Bank.putMint_mints, update_apply] at ht
    split_ifs at ht with hm
    · exact hold t₀ (hm ▸ ht₀)
    · exact hold t ht
  | burn i src x =>
    obtain ⟨s, t₀, -, ht₀, -, -, -, rfl⟩ := Bank.burn_ok happ
    rw [Bank.putMint_mints, update_apply] at ht
    split_ifs at ht with hm
    · exact hold t₀ (hm ▸ ht₀)
    · exact hold t ht
  | openAccount j i owner =>
    obtain ⟨-, -, -, rfl⟩ := Bank.openAccount_ok happ
    exact hold t ht
  | closeAccount j =>
    obtain ⟨_, -, -, -, rfl⟩ := Bank.closeAccount_ok happ
    exact hold t ht
  | setOwner j owner =>
    obtain ⟨a, -, -, rfl⟩ := Bank.setOwner_ok happ
    exact hold t ht
  | createMint i decimals auth' =>
    obtain ⟨-, -, rfl⟩ := Bank.createMint_ok happ
    rw [Bank.putMint_mints, update_apply] at ht
    split_ifs at ht with hm
    · have hplaced := h.rule
      rw [allowed, Bool.and_eq_true] at hplaced
      rw [hm]
      cases i <;> simp_all [Grinders.placed, Key.mintable]
    · exact hold t ht
  | setMintAuthority i auth' =>
    obtain ⟨t₀, ht₀, rfl⟩ := Bank.setMintAuthority_ok happ
    rw [Bank.putMint_mints, update_apply] at ht
    split_ifs at ht with hm
    · exact hold t₀ (hm ▸ ht₀)
    · exact hold t ht

theorem Deal.sound {op : Bank.Op Key} (h : Deal now listed T auth op b b') (hb : Sound now b) : Sound now b' where
  homed := h.homed hb.homed
  room := h.room hb.room
  placed := h.placed hb.placed
  minted k := (h.moved .grinders).mintedAt (hb.minted k)
  backed m := by
    by_cases hm : m = .grinders
    · exact (h.moved .default).backed (by simp [hm]) (hb.backed m)
    · exact (h.moved .grinders).backed hm (hb.backed m)
  vaults m hm := (h.moved .grinders).stands ⟨m, hm, rfl⟩ (hb.vaults m hm)

/-- **Sound banks.** Whatever is dealt, a sound bank stays sound. -/
theorem Deals.sound (h : Deals now listed T b b') (hb : Sound now b) : Sound now b' := by
  induction h with
  | refl => exact hb
  | tail _ h ih =>
    obtain ⟨auth, op, hdeal⟩ := h
    exact hdeal.sound ih

/-! ## What custodians hold -/

/-- what a custodian holds of a listed asset it trades -/
def Held (listed : List Key) (T : Key → Key → Prop) (b : Bank Key) : Prop :=
  ∀ k a, b.accounts k = some a → a.owner.isCustodian = true → a.mint ∈ listed → 0 < a.amount → T a.owner a.mint

theorem Held.mono (h : Held listed T b) (hT : ∀ k m, T k m → T' k m) : Held listed T' b :=
  fun k a ha hcust hmint hpos => hT _ _ (h k a ha hcust hmint hpos)

/-- accounts in the same hands, credited only where that suits -/
theorem Held.shape (h : Held listed T b) (hb : Bank.SameShape b b')
    (hcredit : ∀ k, b'.balance k ≤ b.balance k ∨ Suits listed T b k) : Held listed T b' := by
  intro k a' ha' hcust hmint hpos
  obtain ⟨a, ha, hm, ho⟩ := hb.account k a' ha'
  rw [ho] at hcust ⊢
  rw [hm] at hmint ⊢
  rcases hcredit k with hle | hsuits
  · rw [Bank.balance_some ha, Bank.balance_some ha'] at hle
    exact h k a ha hcust hmint (by omega)
  · exact hsuits a ha hcust hmint

/-- one account is written -/
theorem Held.update (h : Held listed T b) {o : Option (TokenAccount Key)} (hacc : b'.accounts = update b.accounts k o)
    (ho : ∀ a, o = some a → a.owner.isCustodian = true → a.mint ∈ listed → 0 < a.amount → T a.owner a.mint) :
    Held listed T b' := by
  intro j a ha hcust hmint hpos
  rw [hacc, update_apply] at ha
  split_ifs at ha
  · exact ho a ha hcust hmint hpos
  · exact h j a ha hcust hmint hpos

/-- a deal brings a custodian something only if that is of its pair -/
theorem Deal.held {op : Bank.Op Key} (h : Deal now listed T auth op b b') (hb : Held listed T b) : Held listed T b' := by
  have happ := h.applied
  have hbrings := h.brings
  cases op with
  | transfer src dst x =>
    refine hb.shape (Bank.transfer_shape happ) fun k => ?_
    have hbal := Bank.transfer_balance happ k
    by_cases hk : k = dst ∧ 0 < x
    · exact .inr (hk.1 ▸ hbrings hk.2)
    · have hnone : (if k = dst then x else 0) = 0 := by
        split_ifs with hkd
        · exact Nat.eq_zero_of_not_pos fun hx => hk ⟨hkd, hx⟩
        · rfl
      exact .inl (by omega)
  | mintTo i dst x =>
    refine hb.shape (Bank.mintTo_shape happ) fun k => ?_
    have hbal := Bank.mintTo_balance happ k
    by_cases hk : k = dst ∧ 0 < x
    · exact .inr (hk.1 ▸ hbrings hk.2)
    · have hnone : (if k = dst then x else 0) = 0 := by
        split_ifs with hkd
        · exact Nat.eq_zero_of_not_pos fun hx => hk ⟨hkd, hx⟩
        · rfl
      exact .inl (by omega)
  | burn i src x =>
    refine hb.shape (Bank.burn_shape happ) fun k => .inl ?_
    by_cases hk : k = src
    · have hsrc := Bank.burn_src happ
      rw [hk]
      omega
    · exact (Bank.burn_frame happ hk).le
  | openAccount j i owner =>
    obtain ⟨-, -, -, rfl⟩ := Bank.openAccount_ok happ
    refine hb.update (Bank.put_accounts ..) fun a ha _ _ hpos => ?_
    obtain rfl := Option.some.inj ha
    exact absurd hpos (lt_irrefl 0)
  | closeAccount j =>
    obtain ⟨_, -, -, -, rfl⟩ := Bank.closeAccount_ok happ
    exact hb.update (by rfl) fun a ha => by cases ha
  | setOwner j owner =>
    obtain ⟨a, ha, -, rfl⟩ := Bank.setOwner_ok happ
    refine hb.update (Bank.put_accounts ..) fun c hc hcust hmint hpos => ?_
    obtain rfl := Option.some.inj hc
    exact hbrings hcust a ha hmint hpos
  | createMint i decimals auth' =>
    obtain ⟨-, -, rfl⟩ := Bank.createMint_ok happ
    exact hb
  | setMintAuthority i auth' =>
    obtain ⟨t, -, rfl⟩ := Bank.setMintAuthority_ok happ
    exact hb

/-- **Held.** As long as no custodian is brought anything else, custodians hold what they trade. -/
theorem Deals.held (h : Deals now listed T b b') (hb : Held listed T b) : Held listed T b' := by
  induction h with
  | refl => exact hb
  | tail _ h ih =>
    obtain ⟨auth, op, hdeal⟩ := h
    exact hdeal.held ih

/-! ## Aim -/

/-- **Aimed.** The instruction brings no custodian a listed asset outside its pair, and drops no asset a custodian holds. Its
router, the holder of an NFT and everybody else may do with the token program whatever else it grants them. -/
def Instr.Aimed (listed : List Key) (w : World) : Instr → Prop
  | .allocate a => a.assetMint ∈ listed → w.trades a.custodianState a.assetMint
  | .setAssets a => ∀ k c, w.bank.accounts k = some c → c.owner = a.custodianState → c.mint ∈ listed → 0 < c.amount →
      c.mint = a.newBaseMint ∨ c.mint = a.newQuoteMint
  | .custodianSwap a => BringsAll listed w.trades w.bank a.routed
  -- the NFT of a custodian is an asset like any other, if GRAI lists it
  | .mint a => a.custodianOwner.isCustodian = true → .custodianMint w.state.nextCustodianId ∈ listed →
      w.trades a.custodianOwner (.custodianMint w.state.nextCustodianId)
  | .transferCustodianNft a => a.newOwner.isCustodian = true → ∀ c, w.custodians a.custodianState = some c → c.nftMint ∈ listed →
      w.trades a.newOwner c.nftMint
  | .withdrawToken a => Suits listed w.trades w.bank a.toAta
  | .token _ op => Brings listed w.trades w.bank op
  | _ => True

/-- the accounts are in order, and custodians hold what they trade of the listed assets -/
structure Kept (listed : List Key) (w : World) : Prop where
  sound : Sound w.grai.assetMints w.bank
  custodian : ∀ k c, w.custodians k = some c → k = .custodian c.custodianId ∧ c.grinders = .grinders ∧ c.baseMint ≠ c.quoteMint
  numbered : ∀ k c, w.custodians k = some c → c.custodianId < w.state.nextCustodianId
  held : Held listed w.trades w.bank

/-- only tokens moved -/
structure Dealt (listed : List Key) (w w' : World) : Prop where
  custodians : w'.custodians = w.custodians
  next : w'.state.nextCustodianId = w.state.nextCustodianId
  grai : w'.grai = w.grai
  deals : Deals w.grai.assetMints listed w.trades w.bank w'.bank

variable {w w' : World} {c : CustodianState} {a : TokenAccount Key} {u : Unit}

theorem Dealt.refl (hcustodians : w'.custodians = w.custodians) (hnext : w'.state.nextCustodianId = w.state.nextCustodianId)
    (hgrai : w'.grai = w.grai) (hbank : w'.bank = w.bank) : Dealt listed w w' := by
  refine ⟨hcustodians, hnext, hgrai, ?_⟩
  rw [hbank]
  exact .refl

theorem Dealt.trades (h : Dealt listed w w') : w'.trades = w.trades := by
  funext k m
  simp [World.trades, h.custodians]

theorem Kept.dealt (h : Kept listed w) (hd : Dealt listed w w') : Kept listed w' := by
  refine ⟨?_, fun k c hc => h.custodian k c (by rwa [hd.custodians] at hc), fun k c hc => ?_, ?_⟩
  · rw [hd.grai]
    exact hd.deals.sound h.sound
  · rw [hd.next]
    exact h.numbered k c (by rwa [hd.custodians] at hc)
  · rw [hd.trades]
    exact hd.deals.held h.held

/-! ## What the accounts of an instruction are -/

theorem ownAccount_ok {owner : Key} {e e' : ErrorCode} :
    ownAccount b k owner m e e' = .ok a ↔ b.accounts k = some a ∧ a.owner = owner ∧ a.mint = m := by
  simp only [ownAccount, loadAccount, bind_ok, demand_ok, require_ok, Except.ok.injEq, exists_const]
  constructor
  · rintro ⟨_, ha, ho, hm, rfl⟩
    exact ⟨ha, ho, hm⟩
  · rintro ⟨ha, ho, hm⟩
    exact ⟨a, ha, ho, hm, rfl⟩

theorem grindersAta_ok : grindersAta b k m = .ok a ↔ b.accounts k = some a ∧ a.owner = .grinders ∧ a.mint = m := ownAccount_ok

theorem custodianAta_ok {custodian : Key} :
    custodianAta b k custodian m = .ok a ↔ b.accounts k = some a ∧ a.owner = custodian ∧ a.mint = m := ownAccount_ok

theorem loadCustodian_ok :
    loadCustodian w k = .ok c ↔ w.custodians k = some c ∧ k = .custodian c.custodianId ∧ c.grinders = .grinders := by
  simp only [loadCustodian, bind_ok, demand_ok, require_ok, Except.ok.injEq, exists_const]
  constructor
  · rintro ⟨_, hc, hk, hg, rfl⟩
    exact ⟨hc, hk, hg⟩
  · rintro ⟨hc, hk, hg⟩
    exact ⟨c, hc, hk, hg, rfl⟩

theorem graiVault_ok : graiVault b k m = .ok a ↔ b.accounts k = some a ∧ k = .vault m ∧ a.mint = m := by
  simp only [graiVault, loadAccount, bind_ok, demand_ok, require_ok, Except.ok.injEq, exists_const]
  constructor
  · rintro ⟨_, ha, hk, hm, rfl⟩
    exact ⟨ha, hk, hm⟩
  · rintro ⟨ha, hk, hm⟩
    exact ⟨a, ha, hk, hm, rfl⟩

theorem forward_ok {custodian g v : Key} (h : forward b custodian k g v x = .ok b') :
    x = 0 ∧ b' = b ∨ ∃ b₁, b.transfer k g custodian x = .ok b₁ ∧ b₁.transfer g v .grinders x = .ok b' := by
  unfold forward at h
  split_ifs at h with hx
  · exact .inl ⟨hx, (Except.ok.inj h).symm⟩
  · simp only [bind_ok, spl_ok] at h
    exact .inr h

theorem forward_slots {custodian g v : Key} (h : forward b custodian k g v x = .ok b') :
    b'.mints = b.mints ∧ b'.slots = b.slots := by
  rcases forward_ok h with ⟨-, rfl⟩ | ⟨b₁, hx, hx'⟩
  · exact ⟨rfl, rfl⟩
  · obtain ⟨hmints, hslots⟩ := Bank.transfer_slots hx
    obtain ⟨hmints', hslots'⟩ := Bank.transfer_slots hx'
    exact ⟨hmints'.trans hmints, hslots'.trans hslots⟩

/-- an account of Grinders may be credited -/
theorem suits_grinders (ha : b.accounts k = some a) (ho : a.owner = .grinders) : Suits listed T b k := by
  refine suits_of_owner fun c hc => ?_
  obtain rfl := Option.some.inj (ha.symm.trans hc)
  rw [ho]
  rfl

/-- a vault may be credited -/
theorem Homed.suits_vault (h : Homed b) (m : Key) : Suits listed T b (.vault m) := by
  refine suits_of_owner fun a ha => ?_
  rw [(h (.vault m) .grai m rfl a ha).1]
  rfl

/-! ## Instruction by instruction -/

theorem executeAllocate_dealt {i : Allocate} (haim : Instr.Aimed listed w (.allocate i)) (h : executeAllocate w i = .ok w') :
    Dealt listed w w' := by
  simp only [executeAllocate, bind_ok, grindersAta_ok, custodianAta_ok, spl_ok, Except.ok.injEq] at h
  obtain ⟨_, -, c, -, t, -, r, -, a, ⟨ha, ho, hm⟩, _, -, _, -, bank, hx, rfl⟩ := h
  refine ⟨rfl, rfl, rfl, transfer_deals hx fun a' ha' _ hmint => ?_⟩
  obtain rfl := Option.some.inj (ha.symm.trans ha')
  rw [ho, hm]
  exact haim (hm ▸ hmint)

theorem executeCustodianDeallocate_dealt {i : CustodianDeallocate} (h : executeCustodianDeallocate w i = .ok w') :
    Dealt listed w w' := by
  simp only [executeCustodianDeallocate, bind_ok, grindersAta_ok, custodianAta_ok, spl_ok, Except.ok.injEq] at h
  obtain ⟨_, -, c, -, t, -, r, -, a, ⟨ha, ho, -⟩, _, -, _, -, bank, hx, rfl⟩ := h
  exact ⟨rfl, rfl, rfl, transfer_deals hx (suits_grinders ha ho)⟩

theorem executeCustodianDistribute_dealt {i : CustodianDistribute} (hb : Homed w.bank)
    (h : executeCustodianDistribute w i = .ok w') : Dealt listed w w' := by
  simp only [executeCustodianDistribute, graiDistribute, bind_ok, spl_ok, Except.ok.injEq] at h
  obtain ⟨_, -, c, -, t, -, a, -, _, -, _, -, bank, ⟨_, -, hx⟩, rfl⟩ := h
  exact ⟨rfl, rfl, rfl, transfer_deals hx (hb.suits_vault i.assetMint)⟩

theorem executeWithdrawToken_dealt {i : WithdrawToken} (haim : Instr.Aimed listed w (.withdrawToken i))
    (h : executeWithdrawToken w i = .ok w') : Dealt listed w w' := by
  simp only [executeWithdrawToken, bind_ok, spl_ok, Except.ok.injEq] at h
  obtain ⟨_, -, t, -, a, -, d, -, _, -, _, -, _, -, bank, hx, rfl⟩ := h
  exact ⟨rfl, rfl, rfl, transfer_deals hx haim⟩

/-- a router acts for the custodian and for outsiders, never for Grinders -/
theorem route_deals {custodian : Key} {routed : List (Key × Bank.Op Key)} (hcust : custodian ≠ .grinders)
    (h : route now custodian b routed = .ok b') (haim : BringsAll listed T b routed) : Deals now listed T b b' := by
  induction routed generalizing b with
  | nil =>
    obtain rfl := Except.ok.inj h
    exact .refl
  | cons r routed ih =>
    obtain ⟨auth, op⟩ := r
    obtain ⟨hbrings, hrest⟩ := haim
    simp only [route, bind_ok, require_ok] at h
    obtain ⟨_, ⟨hauth, hrule⟩, b₁, hb₁, h⟩ := h
    have hop : b.apply auth op = .ok b₁ := by
      cases hop : b.apply auth op with
      | ok b₂ =>
        rw [hop] at hb₁
        obtain rfl := Except.ok.inj hb₁
        rfl
      | error e =>
        rw [hop] at hb₁
        cases hb₁
    have hout : auth ≠ .grinders := by
      rintro rfl
      rcases hauth with hauth | hauth
      · exact hcust hauth.symm
      · cases hauth
    have hdeal : Deal now listed T auth op b b₁ := ⟨hop, hrule, fun ho => absurd ho hout, hbrings⟩
    exact hdeal.deals.trans (ih h (hrest b₁ hop))

theorem executeSwap_dealt {i : CustodianSwap} (haim : Instr.Aimed listed w (.custodianSwap i)) (h : executeSwap w i = .ok w') :
    Dealt listed w w' := by
  simp only [executeSwap, bind_ok, loadCustodian_ok, Except.ok.injEq] at h
  obtain ⟨c, ⟨-, hid, -⟩, _, -, _, -, _, -, _, -, _, -, _, -, _, -, _, -, _, -, bank, hroute, _, -, _, -, _, -, rfl⟩ := h
  have hcust : i.custodianState ≠ .grinders := by
    rw [hid]
    simp
  exact ⟨rfl, rfl, rfl, route_deals hcust hroute haim⟩

theorem executeJupiterGaslessSwap_error {i : CustodianJupiterGaslessSwap} : executeJupiterGaslessSwap w i ≠ .ok w' := by
  intro h
  simp only [executeJupiterGaslessSwap, bind_ok] at h
  obtain ⟨_, -, c, -, _, -, _, -, _, -, _, -, _, -, _, -, h⟩ := h
  cases h

theorem forward_deals {custodian g : Key} (hb : Homed b) (hg : ∃ a, b.accounts g = some a ∧ a.owner = .grinders)
    (h : forward b custodian k g (.vault m) x = .ok b') : Deals now listed T b b' := by
  obtain ⟨a, ha, ho⟩ := hg
  rcases forward_ok h with ⟨-, rfl⟩ | ⟨b₁, hx, hx'⟩
  · exact .refl
  · have hb₁ : Homed b₁ := hb.shape (Bank.transfer_shape hx)
    exact (transfer_deals hx (suits_grinders ha ho)).trans (transfer_deals hx' (hb₁.suits_vault m))

theorem executeLiquidateCustodian_dealt {i : LiquidateCustodian} (hb : Homed w.bank)
    (h : executeLiquidateCustodian w i = .ok w') : Dealt listed w w' := by
  simp only [executeLiquidateCustodian, bind_ok, grindersAta_ok, graiVault_ok, require_ok, Except.ok.injEq] at h
  obtain ⟨_, -, c, -, a, -, _, -, d, -, _, -, g, ⟨hg, hgo, -⟩, g', ⟨hg', hgo', -⟩, v, ⟨-, hv, -⟩, v', ⟨-, hv', -⟩, _, -, b₁, hx, b₂, hx',
    rfl⟩ := h
  rw [hv] at hx
  rw [hv'] at hx'
  have hfirst : Deals w.grai.assetMints listed w.trades w.bank b₁ := forward_deals hb ⟨g, hg, hgo⟩ hx
  have hslots : b₁.slots = w.bank.slots := (forward_slots hx).2
  obtain ⟨a', ha', -, ho'⟩ := account_slots hslots hg'
  exact ⟨rfl, rfl, rfl, hfirst.trans (forward_deals (hb.slots hslots) ⟨a', ha', ho'.trans hgo'⟩ hx')⟩

theorem checkIdle_cons {v : Key} {mints remaining : List Key} :
    checkIdle b (m :: mints) (k :: v :: remaining) = .ok u ↔
      (∃ a, b.accounts k = some a ∧ a.mint = m ∧ a.owner = .grinders) ∧
        (v = .vault m ∧ ∃ a, b.accounts v = some a ∧ a.mint = m ∧ a.owner = .grai) ∧ checkIdle b mints remaining = .ok u := by
  simp only [checkIdle, requireGraiVaultAta, loadAccount, bind_ok, demand_ok, require_ok, exists_const]
  constructor
  · rintro ⟨a, ha, hm, ho, ⟨hv, d, hd, hdm, hdo⟩, hrest⟩
    exact ⟨⟨a, ha, hm, ho⟩, ⟨hv, d, hd, hdm, hdo⟩, hrest⟩
  · rintro ⟨⟨a, ha, hm, ho⟩, ⟨hv, d, hd, hdm, hdo⟩, hrest⟩
    exact ⟨a, ha, hm, ho, ⟨hv, d, hd, hdm, hdo⟩, hrest⟩

/-- one account is emptied, if there is anything in it, and then the others are -/
theorem sweepIdle_cons {v : Key} {mints remaining : List Key} (h : sweepIdle b (m :: mints) (k :: v :: remaining) = .ok b') :
    ∃ a b₁, b.accounts k = some a ∧ (a.amount = 0 ∧ b₁ = b ∨ b.transfer k v .grinders a.amount = .ok b₁) ∧
      sweepIdle b₁ mints remaining = .ok b' := by
  simp only [sweepIdle, loadAccount, bind_ok, demand_ok] at h
  obtain ⟨a, ha, h⟩ := h
  split_ifs at h with h0
  · exact ⟨a, b, ha, .inl ⟨h0, rfl⟩, h⟩
  · simp only [bind_ok, spl_ok] at h
    obtain ⟨b₁, hx, h⟩ := h
    exact ⟨a, b₁, ha, .inr hx, h⟩

/-- the accounts are checked before the first of them is emptied -/
theorem sweepIdle_deals {mints remaining : List Key} {b₀ : Bank Key} (hcheck : checkIdle b₀ mints remaining = .ok u)
    (hs : b.slots = b₀.slots) (h : sweepIdle b mints remaining = .ok b') : Deals now listed T b b' := by
  induction mints, remaining using checkIdle.induct generalizing b with
  | case1 m mints k v remaining ih =>
    obtain ⟨-, ⟨-, d, hd, -, hdo⟩, hrest⟩ := checkIdle_cons.1 hcheck
    obtain ⟨a, b₁, -, ⟨-, rfl⟩ | hx, hrest'⟩ := sweepIdle_cons h
    · exact ih hrest hs hrest'
    · have hsuits : Suits listed T b₀ v := by
        refine suits_of_owner fun c hc => ?_
        obtain rfl := Option.some.inj (hd.symm.trans hc)
        rw [hdo]
        rfl
      have hslots := (Bank.transfer_slots hx).2
      exact (transfer_deals hx (hsuits.slots hs)).trans (ih hrest (hslots.trans hs) hrest')
  | case2 mints remaining hno =>
    rw [sweepIdle] at h
    · obtain rfl := Except.ok.inj h
      exact .refl
    · exact hno

theorem executeLiquidateIdle_dealt {i : LiquidateIdle} (h : executeLiquidateIdle w i = .ok w') : Dealt listed w w' := by
  simp only [executeLiquidateIdle, bind_ok, Except.ok.injEq] at h
  obtain ⟨_, -, _, -, _, hcheck, _, -, bank, hsweep, rfl⟩ := h
  exact ⟨rfl, rfl, rfl, sweepIdle_deals hcheck rfl hsweep⟩

/-- anyone may open an associated account -/
theorem openAta_deals {o : Key} (h : b.openAccount (.ata o m) m o = .ok b') : Deals now listed T b b' := by
  have hdeal : Deal now listed T .default (.openAccount (.ata o m) m o) b b' :=
    ⟨h, by simp [allowed, placed, graiKeeps], fun hauth => (by cases hauth), trivial⟩
  exact hdeal.deals

theorem initCustodian_deals {id : ℕ} {i : MintCustodian} (h : initCustodian b id i = .ok b') :
    Deals now listed T b b' ∧
      ∃ a, b'.accounts (.ata i.custodianOwner (.custodianMint id)) = some a ∧ a.owner = i.custodianOwner ∧
        a.mint = .custodianMint id := by
  simp only [initCustodian, bind_ok] at h
  obtain ⟨b₁, h₁, b₂, h₂, b₃, h₃, h₄⟩ := h
  have hmint : Deal now listed T .grinders (.createMint (.custodianMint id) 0 .grinders) b b₁ := ⟨h₁, rfl, fun _ => rfl, trivial⟩
  refine ⟨hmint.deals.trans ((openAta_deals h₂).trans ((openAta_deals h₃).trans (openAta_deals h₄))), ?_⟩
  have hopened : b₂.accounts (.ata i.custodianOwner (.custodianMint id)) = some ⟨.custodianMint id, i.custodianOwner, 0⟩ := by
    obtain ⟨-, -, -, rfl⟩ := Bank.openAccount_ok h₂
    rw [Bank.put_accounts, update_self]
  exact ⟨_, Bank.openAccount_kept h₄ (Bank.openAccount_kept h₃ hopened), rfl, rfl⟩

/-- a new custodian has a pair, and nothing of its NFT -/
theorem executeMint_kept {i : MintCustodian} (hw : Kept listed w) (haim : Instr.Aimed listed w (.mint i))
    (h : executeMint w i = .ok w') : Kept listed w' := by
  simp only [executeMint, bind_ok, require_ok, spl_ok, checkedAdd_ok, Except.ok.injEq] at h
  obtain ⟨_, -, t, -, t', -, _, hnew, b₁, hinit, _, -, _, -, _, hne, n, hn, _, -, b₂, hnft, rfl⟩ := h
  obtain ⟨hdeals, a, ha, ho, hm⟩ : Deals w.grai.assetMints listed w.trades w.bank b₁ ∧ _ := initCustodian_deals hinit
  have hsuits : Suits listed w.trades b₁ (.ata i.custodianOwner (.custodianMint w.state.nextCustodianId)) := by
    intro c hc hcust hlisted
    obtain rfl := Option.some.inj (ha.symm.trans hc)
    rw [ho] at hcust ⊢
    rw [hm] at hlisted ⊢
    exact haim hcust hlisted
  have hdeal : Deal w.grai.assetMints listed w.trades .grinders
      (.mintTo (.custodianMint w.state.nextCustodianId) (.ata i.custodianOwner (.custodianMint w.state.nextCustodianId)) 1) b₁ b₂ :=
    ⟨hnft, rfl, fun _ => rfl, fun _ => hsuits⟩
  have hall := hdeals.trans hdeal.deals
  refine ⟨hall.sound hw.sound, fun k c hc => ?_, fun k c hc => ?_, (hall.held hw.held).mono fun k m hkm => ?_⟩
  · simp only [update_apply] at hc
    split_ifs at hc with hk
    · obtain rfl := Option.some.inj hc
      exact ⟨hk, rfl, hne⟩
    · exact hw.custodian k c hc
  · simp only [update_apply] at hc
    split_ifs at hc
    · obtain rfl := Option.some.inj hc
      exact hn.2 ▸ Nat.lt_succ_self _
    · exact hn.2 ▸ (hw.numbered k c hc).trans (Nat.lt_succ_self _)
  · obtain ⟨c, hc, hm⟩ := hkm
    have hk : k ≠ .custodian w.state.nextCustodianId := by
      rintro rfl
      cases hnew.symm.trans hc
    exact ⟨c, by simp [hk, hc], hm⟩

theorem initAta_deals {o : Key} (h : initAta b o m = .ok b') :
    Deals now listed T b b' ∧ ∃ a, b'.accounts (.ata o m) = some a ∧ a.owner = o ∧ a.mint = m := by
  unfold initAta at h
  split at h
  · have hopen := spl_ok.1 h
    refine ⟨openAta_deals hopen, ⟨m, o, 0⟩, ?_, rfl, rfl⟩
    obtain ⟨-, -, -, rfl⟩ := Bank.openAccount_ok hopen
    rw [Bank.put_accounts, update_self]
  · rename_i a ha
    simp only [bind_ok, require_ok, Except.ok.injEq] at h
    obtain ⟨_, ⟨hm, ho⟩, rfl⟩ := h
    exact ⟨.refl, a, ha, ho, hm⟩

/-- the custodian's row changes in nothing it trades by -/
theorem executeTransferCustodianNft_kept {i : TransferCustodianNft} (hw : Kept listed w)
    (haim : Instr.Aimed listed w (.transferCustodianNft i)) (h : executeTransferCustodianNft w i = .ok w') : Kept listed w' := by
  simp only [executeTransferCustodianNft, bind_ok, demand_ok, require_ok, spl_ok, Except.ok.injEq] at h
  obtain ⟨c, hc, _, hseeds, s, -, _, -, _, -, _, -, b₁, hinit, b₂, hx, rfl⟩ := h
  obtain ⟨hdeals, a, ha, ho, hm⟩ : Deals w.grai.assetMints listed w.trades w.bank b₁ ∧ _ := initAta_deals hinit
  have hsuits : Suits listed w.trades b₁ (.ata i.newOwner c.nftMint) := by
    intro d hd hcust hlisted
    obtain rfl := Option.some.inj (ha.symm.trans hd)
    rw [ho] at hcust ⊢
    rw [hm] at hlisted ⊢
    exact haim hcust c hc hlisted
  have hall := hdeals.trans (transfer_deals hx hsuits)
  refine ⟨hall.sound hw.sound, fun k d hd => ?_, fun k d hd => ?_, (hall.held hw.held).mono fun k m hkm => ?_⟩
  · simp only [update_apply] at hd
    split_ifs at hd with hk
    · obtain rfl := Option.some.inj hd
      rw [hk]
      exact hw.custodian i.custodianState c hc
    · exact hw.custodian k d hd
  · simp only [update_apply] at hd
    split_ifs at hd
    · obtain rfl := Option.some.inj hd
      exact hw.numbered i.custodianState c hc
    · exact hw.numbered k d hd
  · obtain ⟨d, hd, hm⟩ := hkm
    by_cases hk : k = i.custodianState
    · obtain rfl := hk
      obtain rfl := Option.some.inj (hc.symm.trans hd)
      exact ⟨{ c with nftOwner := i.newOwner }, by simp, hm⟩
    · exact ⟨d, by simp [hk, hd], hm⟩

/-- what the custodian holds is of the new pair -/
theorem executeSetAssets_kept {i : SetAssets} (hw : Kept listed w) (haim : Instr.Aimed listed w (.setAssets i))
    (h : executeSetAssets w i = .ok w') : Kept listed w' := by
  simp only [executeSetAssets, bind_ok, loadCustodian_ok, require_ok, Except.ok.injEq] at h
  obtain ⟨_, -, c, ⟨hc, hseeds, hgrinders⟩, _, -, _, -, _, -, _, -, _, -, _, -, _, -, _, hne, rfl⟩ := h
  refine ⟨hw.sound, fun k d hd => ?_, fun k d hd => ?_, fun k a ha hcust hmint hpos => ?_⟩
  · simp only [update_apply] at hd
    split_ifs at hd with hk
    · obtain rfl := Option.some.inj hd
      exact ⟨hk.trans hseeds, hgrinders, hne⟩
    · exact hw.custodian k d hd
  · simp only [update_apply] at hd
    split_ifs at hd
    · obtain rfl := Option.some.inj hd
      exact hw.numbered i.custodianState c hc
    · exact hw.numbered k d hd
  · by_cases ho : a.owner = i.custodianState
    · rw [ho]
      exact ⟨_, update_self .., haim k a ha ho hmint hpos⟩
    · obtain ⟨d, hd, hm⟩ := hw.held k a ha hcust hmint hpos
      exact ⟨d, by simp [ho, hd], hm⟩

/-! ## Runs -/

/-- one step: the instructions deal, and what they deal is aimed -/
theorem step_kept {i : Instr} (hw : Kept listed w) (haim : i.Aimed listed w) (h : step w i = .ok w') : Kept listed w' := by
  have hb := hw.sound.homed
  cases i with
  | setGrindPeriod i =>
    simp only [step, executeSetGrindPeriod, bind_ok, Except.ok.injEq] at h
    obtain ⟨_, -, _, -, rfl⟩ := h
    exact hw.dealt (.refl rfl rfl rfl rfl)
  | setToreador i =>
    simp only [step, executeSetToreador, bind_ok, Except.ok.injEq] at h
    obtain ⟨_, -, _, -, rfl⟩ := h
    exact hw.dealt (.refl rfl rfl rfl rfl)
  | heartbeat graiSigns =>
    simp only [step, executeHeartbeat, bind_ok, Except.ok.injEq] at h
    obtain ⟨_, -, _, -, rfl⟩ := h
    exact hw.dealt (.refl rfl rfl rfl rfl)
  | mint i => exact executeMint_kept hw haim h
  | custodianSwap i => exact hw.dealt (executeSwap_dealt haim h)
  | custodianJupiterGaslessSwap i => exact absurd h executeJupiterGaslessSwap_error
  | allocate i => exact hw.dealt (executeAllocate_dealt haim h)
  | setAssets i => exact executeSetAssets_kept hw haim h
  | custodianDeallocate i => exact hw.dealt (executeCustodianDeallocate_dealt h)
  | custodianDistribute i => exact hw.dealt (executeCustodianDistribute_dealt hb h)
  | liquidateIdle i => exact hw.dealt (executeLiquidateIdle_dealt h)
  | liquidateCustodian i => exact hw.dealt (executeLiquidateCustodian_dealt hb h)
  | transferCustodianNft i => exact executeTransferCustodianNft_kept hw haim h
  | withdrawToken i => exact hw.dealt (executeWithdrawToken_dealt haim h)
  | token auth op =>
    simp only [step, bind_ok, require_ok, spl_ok, Except.ok.injEq] at h
    obtain ⟨_, ⟨hauth, hrule⟩, bank, happ, rfl⟩ := h
    have hdeal : Deal w.grai.assetMints listed w.trades auth op w.bank bank :=
      ⟨happ, hrule, fun ho => (by rw [ho] at hauth; cases hauth), haim⟩
    exact hw.dealt ⟨rfl, rfl, rfl, hdeal.deals⟩
  | grai g =>
    simp only [step, bind_ok, require_ok, Except.ok.injEq] at h
    obtain ⟨_, hvaults, rfl⟩ := h
    refine ⟨⟨hb, hw.sound.room, hw.sound.placed, hw.sound.minted, hw.sound.backed, fun m hm => ?_⟩, hw.custodian, hw.numbered, hw.held⟩
    have hstands := hvaults m hm
    simp only [vaultStands, Option.any_eq_true, decide_eq_true_eq] at hstands
    exact hstands
  | tick seconds =>
    obtain rfl := Except.ok.inj h
    exact hw.dealt (.refl rfl rfl rfl rfl)

namespace Genesis

/-- at the beginning there is no custodian -/
theorem kept (g : Genesis) (listed : List Key) : Kept listed g.world := by
  have hinit := g.initialized
  simp only [executeInitialize, createCollection, bind_ok, spl_ok, Except.ok.injEq] at hinit
  obtain ⟨r, -, b₄, ⟨b₁, h₁, b₂, h₂, b₃, h₃, h₄⟩, hw⟩ := hinit
  rw [← hw]
  have hsound : Sound [] g.bank := ⟨g.homed, g.room, g.placed, fun k a => g.minted k a, g.backed, by simp⟩
  have hdeals : Deals [] listed (fun _ _ => False) g.bank b₄ := by
    have hmint : Deal [] listed (fun _ _ => False) .grinders (.createMint .collection 0 .grinders) g.bank b₁ :=
      ⟨h₁, rfl, fun _ => rfl, trivial⟩
    have hhomed : Homed b₂ := ((hmint.deals.trans (openAta_deals h₂)).sound hsound).homed
    have hsuits : Suits listed (fun _ _ => False) b₂ (.ata .grinders .collection) := by
      refine suits_of_owner fun a ha => ?_
      rw [(hhomed _ .grinders .collection rfl a ha).1]
      rfl
    have hnft : Deal [] listed (fun _ _ => False) .grinders (.mintTo .collection (.ata .grinders .collection) 1) b₂ b₃ :=
      ⟨h₃, rfl, fun _ => rfl, fun _ => hsuits⟩
    have hedition : Deal [] listed (fun _ _ => False) .grinders (.setMintAuthority .collection (some (.edition .collection))) b₃ b₄ :=
      ⟨h₄, rfl, fun _ => rfl, trivial⟩
    exact hmint.deals.trans ((openAta_deals h₂).trans (hnft.deals.trans hedition.deals))
  have hheld : Held listed (fun _ _ => False) g.bank := fun k a ha hcust _ hpos => by
    rw [g.empty k a ha hcust] at hpos
    exact absurd hpos (lt_irrefl 0)
  refine ⟨?_, fun k c hc => (by cases hc), fun k c hc => (by cases hc), (hdeals.held hheld).mono fun _ _ => False.elim⟩
  have hlisted := g.unlisted
  show Sound g.grai.assetMints b₄
  rw [hlisted]
  exact hdeals.sound hsound

/-- **Kept.** After a run of aimed instructions the accounts are in order, and custodians hold what they trade. -/
theorem after_kept (g : Genesis) {listed : List Key} {is : List Instr} (haim : Meets step (fun w i => i.Aimed listed w) g.world is) :
    Kept listed (g.after is) :=
  run_invariant_of (fun _ _ _ hw haim h => step_kept hw haim h) g.world is haim (g.kept listed)

end Genesis

end Grindurus.Grinders
