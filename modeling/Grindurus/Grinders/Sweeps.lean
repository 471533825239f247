/-
Sweeps are complete, where custodians hold what they trade.

- `World.Sweepable`: while liquidation is open and every custodian's pair is listed, permissionless calls move all that Grinders
  and its custodians hold of the listed assets into the vaults.
- `exists_opened`: the accounts of Grinders and its custodians that a sweep names can be opened by anyone, at unused addresses.
- `liquidate_idle_empties`, `liquidate_custodian_empties`: for every account in reach there is a call that empties it.
- `sweepable_of_held`, `held_of_sweepable`: so the sweeps are complete exactly if custodians hold only what they trade.
- `sweeps_complete`: and that is so after every run of aimed instructions.
- `sweeps_incomplete`: two short runs after which they miss something.
-/
import Grindurus.Grinders.Drains

namespace Grindurus.Grinders

open Checked TokenBank Machine Tally Function

/-- GRAI says that liquidation is open, and that this is its Grinders -/
structure World.Liquidating (w : World) : Prop where
  opened : w.grai.liquidation = true
  linked : w.grai.grinders = .grinders

def World.PairsListed (w : World) : Prop :=
  ∀ k c, w.custodians k = some c → c.baseMint ∈ w.grai.assetMints ∧ c.quoteMint ∈ w.grai.assetMints

/-- nothing is left of the listed assets, and all there was is in the vaults -/
def World.SweptClean (w w' : World) : Prop :=
  ∀ m ∈ w.grai.assetMints, (∀ k, reserve m w'.bank k = 0) ∧
    ∃ n, HasTotal (reserve m w.bank) n ∧ w'.bank.balance (.vault m) = w.bank.balance (.vault m) + n

/-- **Complete sweeps.** Permissionless calls move every unit of every listed asset into the vaults -/
def World.Sweepable (w : World) : Prop := w.Liquidating → w.PairsListed → ∃ w', Swept w w' ∧ w.SweptClean w'

variable {listed : List Key} {w w' : World} {b b₁ b' : Bank Key} {k m o g custodian : Key} {n : ℕ} {c : CustodianState}
  {a : TokenAccount Key}

/-! ## What stands -/

theorem stands_slots (h : b.Stands o m k) (hs : b'.slots = b.slots) : b'.Stands o m k := by
  obtain ⟨a, ha, ho, hm⟩ := h
  obtain ⟨a', ha', hm', ho'⟩ := account_slots hs ha
  exact ⟨a', ha', ho'.trans ho, hm'.trans hm⟩

/-- accounts were opened, and what stood is as it was -/
structure Extends (b b' : Bank Key) : Prop where
  mints : b'.mints = b.mints
  kept : ∀ k a, b.accounts k = some a → b'.accounts k = some a

theorem Extends.trans (h : Extends b b₁) (h' : Extends b₁ b') : Extends b b' :=
  ⟨h'.mints.trans h.mints, fun k a ha => h'.kept k a (h.kept k a ha)⟩

theorem stands_extends (h : b.Stands o m k) (hb : Extends b b') : b'.Stands o m k := by
  obtain ⟨a, ha, ho, hm⟩ := h
  exact ⟨a, hb.kept k a ha, ho, hm⟩

/-- an account for an asset can be opened in the name of anyone -/
theorem exists_opened_one (hw : Kept listed w) (o : Key) (hm : w.bank.mints m ≠ none) :
    ∃ b k, Swept w { w with bank := b } ∧ Extends w.bank b ∧ b.Stands o m k := by
  obtain ⟨n, hnone, hmint⟩ := hw.sound.room.nonempty
  obtain ⟨t, ht⟩ := Option.ne_none_iff_exists'.1 hm
  have hopen : w.bank.openAccount (.wallet n) m o = .ok (w.bank.put (.wallet n) ⟨m, o, 0⟩) := by
    simp [Bank.openAccount, require, demand, hnone, hmint, ht, bind, Except.bind]
  have hstep : step w (.token (.wallet 0) (.openAccount (.wallet n) m o)) =
      .ok { w with bank := w.bank.put (.wallet n) ⟨m, o, 0⟩ } := by
    simp only [step, bind_ok, require_ok, spl_ok]
    exact ⟨(), ⟨rfl, by simp [allowed, placed, graiKeeps]⟩, _, hopen, rfl⟩
  exact ⟨_, .wallet n, .single ⟨_, rfl, hstep⟩, ⟨rfl, fun k a ha => Bank.openAccount_kept hopen ha⟩, ⟨m, o, 0⟩, by simp, rfl, rfl⟩

/-- and so can several -/
theorem exists_opened (hw : Kept listed w) (needs : List (Key × Key)) (hneeds : ∀ s ∈ needs, w.bank.mints s.2 ≠ none) :
    ∃ b, ∃ acct : Key × Key → Key, Swept w { w with bank := b } ∧ Extends w.bank b ∧
      ∀ s ∈ needs, b.Stands s.1 s.2 (acct s) := by
  induction needs with
  | nil => exact ⟨w.bank, fun _ => .default, .refl, ⟨rfl, fun _ _ ha => ha⟩, by simp⟩
  | cons s needs ih =>
    obtain ⟨b₁, acct, hswept₁, hext₁, hstands₁⟩ := ih fun s hs => hneeds s (List.mem_cons_of_mem _ hs)
    have hkept₁ : Kept listed { w with bank := b₁ } := (hswept₁.frame hw).1
    have hmint₁ : b₁.mints s.2 ≠ none := by
      rw [hext₁.mints]
      exact hneeds s List.mem_cons_self
    obtain ⟨b₂, k, hswept₂, hext₂, hstands₂⟩ := exists_opened_one hkept₁ s.1 hmint₁
    refine ⟨b₂, update acct s k, Relation.ReflTransGen.trans hswept₁ hswept₂, hext₁.trans hext₂, fun s' hs' => ?_⟩
    rw [update_apply]
    split_ifs with heq
    · exact heq ▸ hstands₂
    · exact stands_extends (hstands₁ s' ((List.mem_cons.1 hs').resolve_left heq)) hext₂

/-! ## Calls that succeed -/

/-- in a backed bank both hops go through -/
theorem forward_succeeds (hb : b.Backed m) (ha : b.accounts k = some a) (hm : a.mint = m) (hg : b.Stands .grinders m g)
    (hv : b.Stands .grai m (.vault m)) (hkg : k ≠ g) : ∃ b', forward b a.owner k g (.vault m) a.amount = .ok b' := by
  unfold forward
  split_ifs with h0
  · exact ⟨b, rfl⟩
  · obtain ⟨d, hd, -, hdm⟩ := id hg
    obtain ⟨b₁, hx⟩ := hb.transfer_succeeds ha hd hm hdm rfl le_rfl
    have hslots := (Bank.transfer_slots hx).2
    obtain ⟨d₁, hd₁, hdo₁, hdm₁⟩ := stands_slots hg hslots
    obtain ⟨v₁, hv₁, -, hvm₁⟩ := stands_slots hv hslots
    have hcovered : a.amount ≤ d₁.amount := by
      have hdst := Bank.transfer_dst hx hkg
      rw [Bank.balance_some hd₁] at hdst
      omega
    obtain ⟨b', hx'⟩ := (hb.transfer hx).transfer_succeeds hd₁ hv₁ hdm₁ hvm₁ hdo₁ hcovered
    refine ⟨b', ?_⟩
    simp only [bind_ok, spl_ok]
    exact ⟨b₁, hx, hx'⟩

/-- the call that empties `kb` and `kq` by way of the accounts `gb` and `gq` of Grinders -/
def liquidation (custodian kb kq gb gq : Key) (c : CustodianState) : LiquidateCustodian where
  custodianState := custodian
  baseMint := c.baseMint
  quoteMint := c.quoteMint
  baseCustodianAta := kb
  quoteCustodianAta := kq
  baseGrindersAta := gb
  quoteGrindersAta := gq
  baseVaultAta := .vault c.baseMint
  quoteVaultAta := .vault c.quoteMint

/-- accounts of two owners are two accounts -/
theorem stands_ne {p q i j : Key} (h : b.Stands p i k) (h' : b.Stands q j g) (hpq : p ≠ q) : k ≠ g := by
  rintro rfl
  obtain ⟨a, ha, hp, -⟩ := h
  obtain ⟨d, hd, hq, -⟩ := h'
  obtain rfl := Option.some.inj (ha.symm.trans hd)
  exact hpq (hp.symm.trans hq)

/-- a call of `liquidate_custodian` succeeds when its accounts stand -/
theorem executeLiquidateCustodian_succeeds {kb kq gb gq : Key} (hw : Kept listed w) (hliq : w.Liquidating)
    (hc : w.custodians custodian = some c) (hbase : w.bank.Stands custodian c.baseMint kb)
    (hquote : w.bank.Stands custodian c.quoteMint kq) (hgb : w.bank.Stands .grinders c.baseMint gb)
    (hgq : w.bank.Stands .grinders c.quoteMint gq)
    (hvb : w.bank.Stands .grai c.baseMint (.vault c.baseMint)) (hvq : w.bank.Stands .grai c.quoteMint (.vault c.quoteMint)) :
    ∃ w', executeLiquidateCustodian w (liquidation custodian kb kq gb gq c) = .ok w' := by
  obtain ⟨hid, hgrinders, hpair⟩ := hw.custodian custodian c hc
  have hcust : custodian ≠ .grinders := by
    rw [hid]
    exact nofun
  have hgrai : custodian ≠ .grai := by
    rw [hid]
    exact nofun
  obtain ⟨base, hb, hbo, hbm⟩ := id hbase
  obtain ⟨quote, hq, hqo, hqm⟩ := id hquote
  obtain ⟨b₁, hx⟩ := forward_succeeds (hw.sound.backed _) hb hbm hgb hvb (stands_ne hbase hgb hcust)
  have hslots := (forward_slots hx).2
  obtain ⟨d, hd, hdo, hdm⟩ := id hgb
  obtain ⟨v, hv, hvo, hvm⟩ := id hvb
  have hfirst : Drain w kb c.baseMint w.bank b₁ :=
    forward_drain hb hbo hbm (by rw [hid]; rfl) ⟨c, hc, .inl rfl⟩ ⟨d, hd, hdo⟩ ⟨v, hv, hvm, hvo⟩ (hbo ▸ hx)
  have hne : kq ≠ kb := by
    rintro rfl
    obtain rfl := Option.some.inj (hb.symm.trans hq)
    exact hpair (hbm.symm.trans hqm)
  have hsame : b₁.accounts kq = some quote := by rw [hfirst.emptied.account hne (stands_ne hquote hvb hgrai), hq]
  have hbacked₁ : b₁.Backed c.quoteMint := by
    rcases forward_ok hx with ⟨-, rfl⟩ | ⟨b₀, h₀, h₁⟩
    · exact hw.sound.backed _
    · exact ((hw.sound.backed _).transfer h₀).transfer h₁
  obtain ⟨b₂, hx'⟩ := forward_succeeds hbacked₁ hsame hqm (stands_slots hgq hslots) (stands_slots hvq hslots)
    (stands_ne hquote hgq hcust)
  obtain ⟨d', hd', hdo', hdm'⟩ := hgq
  obtain ⟨v', hv', -, hvm'⟩ := hvq
  refine ⟨{ w with bank := b₂ }, ?_⟩
  rw [hbo] at hx
  rw [hqo] at hx'
  simp only [executeLiquidateCustodian, liquidation, bind_ok, loadCustodian_ok, custodianAta_ok, grindersAta_ok, graiVault_ok,
    require_ok, Except.ok.injEq]
  exact ⟨(), hliq.linked, c, ⟨hc, hid, hgrinders⟩, base, ⟨hb, hbo, hbm⟩, (), require_ok.2 rfl, quote, ⟨hq, hqo, hqm⟩, (), require_ok.2 rfl,
    d, ⟨hd, hdo, hdm⟩, d', ⟨hd', hdo', hdm'⟩, v, ⟨hv, trivial, hvm⟩, v', ⟨hv', trivial, hvm'⟩, (), hliq.opened, b₁, hx, b₂, hx', rfl⟩

/-- the remaining accounts of `liquidate_idle` that name `acct m` for the asset `m` -/
def idleAccounts (acct : Key → Key) (mints : List Key) : List Key := mints.flatMap fun m => [acct m, .vault m]

@[simp] theorem idleAccounts_cons (acct : Key → Key) (mints : List Key) :
    idleAccounts acct (m :: mints) = acct m :: .vault m :: idleAccounts acct mints := rfl

theorem idleAccounts_length (acct : Key → Key) (mints : List Key) : (idleAccounts acct mints).length = mints.length * 2 := by
  induction mints with
  | nil => rfl
  | cons m mints ih =>
    simp only [idleAccounts_cons, List.length_cons, ih]
    omega

theorem checkIdle_succeeds {acct : Key → Key} {mints : List Key} (hg : ∀ m ∈ mints, b.Stands .grinders m (acct m))
    (hv : ∀ m ∈ mints, b.Stands .grai m (.vault m)) : checkIdle b mints (idleAccounts acct mints) = .ok () := by
  induction mints with
  | nil => rfl
  | cons m mints ih =>
    obtain ⟨a, ha, ho, hm⟩ := hg m List.mem_cons_self
    obtain ⟨d, hd, hdo, hdm⟩ := hv m List.mem_cons_self
    have hrest := ih (fun m hm => hg m (List.mem_cons_of_mem _ hm)) fun m hm => hv m (List.mem_cons_of_mem _ hm)
    exact checkIdle_cons.2 ⟨⟨a, ha, hm, ho⟩, ⟨rfl, d, hd, hdm, hdo⟩, hrest⟩

/-- every account in the row is emptied -/
theorem sweepIdle_succeeds (w : World) {acct : Key → Key} {mints : List Key} (hb : ∀ m ∈ mints, b.Backed m)
    (hg : ∀ m ∈ mints, b.Stands .grinders m (acct m)) (hv : ∀ m ∈ mints, b.Stands .grai m (.vault m)) :
    ∃ b', sweepIdle b mints (idleAccounts acct mints) = .ok b' ∧ ∀ m ∈ mints, ∀ i, reserve i b' (acct m) = 0 := by
  induction mints generalizing b with
  | nil => exact ⟨b, rfl, by simp⟩
  | cons m mints ih =>
    have hgm := hg m List.mem_cons_self
    have hvm := hv m List.mem_cons_self
    obtain ⟨a, ha, ho, hm⟩ := id hgm
    obtain ⟨d, hd, hdo, hdm⟩ := id hvm
    -- the first account is emptied, by a transfer if there is anything in it
    obtain ⟨b₁, hmove, hbacked₁⟩ : ∃ b₁, (a.amount = 0 ∧ b₁ = b ∨
        0 < a.amount ∧ b.transfer (acct m) (.vault m) .grinders a.amount = .ok b₁) ∧ ∀ i ∈ mints, b₁.Backed i := by
      rcases Nat.eq_zero_or_pos a.amount with h0 | hpos
      · exact ⟨b, .inl ⟨h0, rfl⟩, fun i hi => hb i (List.mem_cons_of_mem _ hi)⟩
      · obtain ⟨b₁, hx⟩ := (hb m List.mem_cons_self).transfer_succeeds ha hd hm hdm ho le_rfl
        exact ⟨b₁, .inr ⟨hpos, hx⟩, fun i hi => (hb i (List.mem_cons_of_mem _ hi)).transfer hx⟩
    have hdrain : Drain w (acct m) m b b₁ :=
      idle_drain ⟨a, ha, hm, ho⟩ ⟨d, hd, hdm, hdo⟩ ⟨a, ha, hmove.imp_right And.right⟩
    have hslots := hdrain.emptied.slots
    have hg₁ : ∀ i ∈ mints, b₁.Stands .grinders i (acct i) := fun i hi => stands_slots (hg i (List.mem_cons_of_mem _ hi)) hslots
    have hv₁ : ∀ i ∈ mints, b₁.Stands .grai i (.vault i) := fun i hi => stands_slots (hv i (List.mem_cons_of_mem _ hi)) hslots
    obtain ⟨b', hsweep, hzero⟩ := ih hbacked₁ hg₁ hv₁
    refine ⟨b', ?_, fun i hi j => ?_⟩
    · simp only [idleAccounts_cons, sweepIdle, loadAccount, bind_ok, demand_ok]
      refine ⟨a, ha, ?_⟩
      rcases hmove with ⟨h0, rfl⟩ | ⟨hpos, hx⟩
      · rw [if_pos h0]
        exact hsweep
      · rw [if_neg hpos.ne']
        simp only [bind_ok, spl_ok]
        exact ⟨b₁, hx, hsweep⟩
    · rcases List.mem_cons.1 hi with rfl | hi
      · have hrow : Drains w b₁ b' := sweepIdle_drains (checkIdle_succeeds hg₁ hv₁) rfl hsweep
        have hle := hrow.le j (acct i)
        have hzero₁ := hdrain.reserve j (acct i)
        rw [if_pos rfl] at hzero₁
        omega
      · exact hzero i hi j

/-! ## A call for every account in reach -/

theorem Kept.mints (hw : Kept listed w) (hm : m ∈ w.grai.assetMints) : w.bank.mints m ≠ none := by
  obtain ⟨a, ha, -, rfl⟩ := hw.sound.vaults m hm
  exact hw.sound.minted _ a ha

/-- one more call, after accounts were opened -/
theorem Swept.call {i : Instr} (h : Swept w { w with bank := b }) (hi : i.permissionless = true)
    (hstep : step { w with bank := b } i = .ok w') : Swept w w' := Relation.ReflTransGen.tail h ⟨i, hi, hstep⟩

/-- **Idle reserve.** Anyone can empty an account of Grinders for a listed asset. -/
theorem liquidate_idle_empties (hw : Kept listed w) (hliq : w.Liquidating) (ha : w.bank.accounts k = some a)
    (ho : a.owner = .grinders) (hm : a.mint ∈ w.grai.assetMints) : ∃ w', Swept w w' ∧ ∀ i, reserve i w'.bank k = 0 := by
  have hneeds : ∀ s ∈ w.grai.assetMints.map fun m => (Key.grinders, m), w.bank.mints s.2 ≠ none := by
    intro s hs
    obtain ⟨m, hm, rfl⟩ := List.mem_map.1 hs
    exact hw.mints hm
  obtain ⟨b, empty, hswept, hopened, hstands⟩ := exists_opened hw _ hneeds
  have hkept := (hswept.frame hw).1
  -- the account itself for its asset, and empty accounts for the others
  let acct : Key → Key := fun m => if m = a.mint then k else empty (.grinders, m)
  have hself : acct a.mint = k := if_pos rfl
  have hg : ∀ m ∈ w.grai.assetMints, b.Stands .grinders m (acct m) := by
    intro m hm
    by_cases hma : m = a.mint
    · rw [hma, hself]
      exact ⟨a, hopened.kept k a ha, ho, rfl⟩
    · simp only [acct, if_neg hma]
      exact hstands (.grinders, m) (List.mem_map.2 ⟨m, hm, rfl⟩)
  have hv : ∀ m ∈ w.grai.assetMints, b.Stands .grai m (.vault m) := fun m hm => stands_extends (hw.sound.vaults m hm) hopened
  obtain ⟨b', hsweep, hzero⟩ := sweepIdle_succeeds w (fun m _ => hkept.sound.backed m) hg hv
  have hstep : step { w with bank := b } (.liquidateIdle ⟨idleAccounts acct w.grai.assetMints⟩) = .ok { w with bank := b' } := by
    simp only [step, executeLiquidateIdle, bind_ok, require_ok, Except.ok.injEq]
    exact ⟨(), hliq.linked, (), idleAccounts_length acct _, (), checkIdle_succeeds hg hv, (), hliq.opened, b', hsweep, rfl⟩
  refine ⟨_, hswept.call rfl hstep, fun i => ?_⟩
  rw [← hself]
  exact hzero a.mint hm i

/-- **Custodians.** Anyone can empty an account of a custodian for an asset it trades. -/
theorem liquidate_custodian_empties (hw : Kept listed w) (hliq : w.Liquidating) (hpairs : w.PairsListed)
    (ha : w.bank.accounts k = some a) (ht : w.trades a.owner a.mint) : ∃ w', Swept w w' ∧ ∀ i, reserve i w'.bank k = 0 := by
  obtain ⟨c, hc, hm⟩ := ht
  obtain ⟨hbase, hquote⟩ := hpairs a.owner c hc
  have hneeds : ∀ s ∈ [(a.owner, c.baseMint), (a.owner, c.quoteMint), (.grinders, c.baseMint), (.grinders, c.quoteMint)],
      w.bank.mints s.2 ≠ none := by
    simp only [List.forall_mem_cons, List.not_mem_nil, false_imp_iff, implies_true, and_true]
    exact ⟨hw.mints hbase, hw.mints hquote, hw.mints hbase, hw.mints hquote⟩
  obtain ⟨b, empty, hswept, hopened, hstands⟩ := exists_opened hw _ hneeds
  have hkept := (hswept.frame hw).1
  have hak : b.Stands a.owner a.mint k := ⟨a, hopened.kept k a ha, rfl, rfl⟩
  have hob := hstands (a.owner, c.baseMint) (by simp)
  have hoq := hstands (a.owner, c.quoteMint) (by simp)
  have hgb := hstands (.grinders, c.baseMint) (by simp)
  have hgq := hstands (.grinders, c.quoteMint) (by simp)
  have hvb := hkept.sound.vaults _ hbase
  have hvq := hkept.sound.vaults _ hquote
  have hliq' : World.Liquidating { w with bank := b } := ⟨hliq.opened, hliq.linked⟩
  rcases hm with hm | hm
  · rw [hm] at hak
    obtain ⟨w', h⟩ := executeLiquidateCustodian_succeeds hkept hliq' hc hak hoq hgb hgq hvb hvq
    obtain ⟨c', b₁, -, hfirst, hsecond, -⟩ := executeLiquidateCustodian_drains hkept h
    refine ⟨w', hswept.call (i := .liquidateCustodian (liquidation a.owner k _ _ _ c)) rfl h, fun i => ?_⟩
    have hzero := hfirst.reserve i k
    have hle := hsecond.le i k
    simp only [liquidation, if_true] at hzero
    omega
  · rw [hm] at hak
    obtain ⟨w', h⟩ := executeLiquidateCustodian_succeeds hkept hliq' hc hob hak hgb hgq hvb hvq
    obtain ⟨c', b₁, -, -, hsecond, -⟩ := executeLiquidateCustodian_drains hkept h
    refine ⟨w', hswept.call (i := .liquidateCustodian (liquidation a.owner _ k _ _ c)) rfl h, fun i => ?_⟩
    have hzero := hsecond.reserve i k
    simpa [liquidation] using hzero

/-- whatever custodians hold that they trade, and whatever Grinders holds, can be emptied -/
theorem reserve_empties (hw : Kept w.grai.assetMints w) (hliq : w.Liquidating) (hpairs : w.PairsListed)
    (hm : m ∈ w.grai.assetMints) (hpos : 0 < reserve m w.bank k) : ∃ w', Swept w w' ∧ ∀ i, reserve i w'.bank k = 0 := by
  obtain ⟨a, ha, hown, rfl, hamount⟩ := Bank.reserve_pos hpos
  rcases Key.ofGrinders_cases hown with ho | hcust
  · exact liquidate_idle_empties hw hliq ha ho hm
  · exact liquidate_custodian_empties hw hliq hpairs ha (hw.held k a ha hcust hm hamount)

/-! ## All of them -/

theorem reserve_le_holds (m : Key) (b : Bank Key) (k : Key) : reserve m b k ≤ b.holds m k := by
  rcases Nat.eq_zero_or_pos (reserve m b k) with h0 | hpos
  · rw [h0]
    exact Nat.zero_le _
  · obtain ⟨a, ha, hown, hm, -⟩ := Bank.reserve_pos hpos
    have hslot : b.slots k = some (a.mint, a.owner) := Bank.slots_some.2 ⟨a, ha, rfl, rfl⟩
    unfold reserve
    rw [Bank.reserve_some hslot, Bank.holds_some ha, if_pos hm, if_pos ⟨hown, hm⟩, Bank.balance_some ha]

theorem Kept.reserve_total (hw : Kept listed w) (m : Key) : ∃ n, HasTotal (reserve m w.bank) n := by
  obtain ⟨n, hn, -⟩ := hw.sound.backed m
  obtain ⟨n', hn', -⟩ := hn.exists_of_le (reserve_le_holds m w.bank)
  exact ⟨n', hn'⟩

/-- what the account at `k` holds of any listed asset -/
def pocket (listed : List Key) (w : World) (k : Key) : ℕ := ∑ m ∈ listed.toFinset, reserve m w.bank k

theorem pocket_finite (hw : Kept listed w) : (pocket listed w).support.Finite := by
  have hsub : (pocket listed w).support ⊆ ⋃ m ∈ listed.toFinset, (reserve m w.bank).support := by
    intro k hk
    obtain ⟨m, hm, hne⟩ := Finset.exists_ne_zero_of_sum_ne_zero hk
    exact Set.mem_biUnion (Finset.mem_coe.2 hm) hne
  refine Set.Finite.subset (Set.Finite.biUnion listed.toFinset.finite_toSet fun m _ => ?_) hsub
  obtain ⟨n, hn⟩ := hw.reserve_total m
  exact hn.1

/-- **Complete, if held.** Where custodians hold only what they trade, the sweeps are complete. -/
theorem sweepable_of_held (hw : Kept w.grai.assetMints w) : w.Sweepable := by
  intro hliq hpairs
  have hdrain : ∀ s k, Swept w s → 0 < pocket w.grai.assetMints s k →
      ∃ s', Swept s s' ∧ Swept w s' ∧ pocket w.grai.assetMints s' k = 0 ∧
        ∀ j, pocket w.grai.assetMints s' j ≤ pocket w.grai.assetMints s j := by
    intro s k hs hpos
    obtain ⟨hkept, hframe⟩ := hs.frame hw
    have hgrai : s.grai = w.grai := by rw [hframe]
    have hcustodians : s.custodians = w.custodians := by rw [hframe]
    obtain ⟨m, hm, hne⟩ := Finset.exists_ne_zero_of_sum_ne_zero hpos.ne'
    rw [← hgrai] at hkept hm
    have hliq' : s.Liquidating := ⟨hgrai ▸ hliq.opened, hgrai ▸ hliq.linked⟩
    have hpairs' : s.PairsListed := fun k c hc => by
      rw [hgrai]
      exact hpairs k c (hcustodians ▸ hc)
    obtain ⟨s', hswept, hzero⟩ := reserve_empties hkept hliq' hpairs' (List.mem_toFinset.1 hm) (Nat.pos_of_ne_zero hne)
    refine ⟨s', hswept, Relation.ReflTransGen.trans hs hswept, Finset.sum_eq_zero fun i _ => hzero i, fun j => ?_⟩
    exact Finset.sum_le_sum fun i _ => hswept.le hkept i j
  obtain ⟨w', -, hswept, hzero⟩ := exists_drained hdrain Relation.ReflTransGen.refl (pocket_finite hw)
  refine ⟨w', hswept, fun m hm => ?_⟩
  have hempty : ∀ k, reserve m w'.bank k = 0 := fun k => Finset.sum_eq_zero_iff.1 (hzero k) m (List.mem_toFinset.2 hm)
  obtain ⟨n, hn⟩ := hw.reserve_total m
  obtain ⟨n', hn', hsum⟩ := hswept.total hw hn
  have hnone : n' = 0 := hn'.unique (hasTotal_zero.congr fun k => (hempty k).symm)
  refine ⟨hempty, n, hn, ?_⟩
  omega

/-- **Incomplete, unless held.** What a custodian holds of a listed asset it does not trade, the sweeps miss. -/
theorem held_of_sweepable (hw : Kept [] w) (hliq : w.Liquidating) (hpairs : w.PairsListed) (h : w.Sweepable) :
    Held w.grai.assetMints w.trades w.bank := by
  intro k a ha hcust hm hpos
  by_contra hno
  obtain ⟨w', hswept, hclean⟩ := h hliq hpairs
  have ha' := hswept.stranded hw ha hcust hno
  have hslot : w'.bank.slots k = some (a.mint, a.owner) := Bank.slots_some.2 ⟨a, ha', rfl, rfl⟩
  have hzero : reserve a.mint w'.bank k = 0 := (hclean a.mint hm).1 k
  unfold reserve at hzero
  rw [Bank.reserve_some hslot, if_pos ⟨Key.isCustodian_ofGrinders hcust, rfl⟩, Bank.balance_some ha'] at hzero
  omega

/-- **Sweeps are complete.** After every run of instructions that bring no custodian a listed asset outside its pair, and leave
it none, the sweeps of a liquidation move every unit of every listed asset into the vaults. The sweeps are calls that anybody can
make: of the liquidation of each custodian, and of what has come to Grinders. The condition is on the steps before, and it is
necessary state by state: what a custodian holds outside its pair no sweep can reach. -/
theorem sweeps_complete (g : Genesis) (is : List Instr)
    (haim : Meets step (fun w i => i.Aimed (g.after is).grai.assetMints w) g.world is) : (g.after is).Sweepable :=
  sweepable_of_held (g.after_kept haim)

/-! ## Three runs -/

/-- the pairs are listed if those of the ids given out are -/
theorem pairsListed_of (hw : Kept listed w) (h : ∀ id < w.state.nextCustodianId,
      (w.custodians (.custodian id)).all (fun c => c.baseMint ∈ w.grai.assetMints ∧ c.quoteMint ∈ w.grai.assetMints) = true) :
    w.PairsListed := by
  intro k c hc
  obtain ⟨hk, -, -⟩ := hw.custodian k c hc
  have hall := h c.custodianId (hw.numbered k c hc)
  rw [← hk, hc] at hall
  simpa using hall

/-- a listed account of a custodian that it does not trade is enough for the sweeps to miss something -/
theorem not_sweepable_of (hw : Kept [] w) (hliq : w.Liquidating) (hpairs : w.PairsListed) (ha : w.bank.accounts k = some a)
    (hcust : a.owner.isCustodian = true) (hm : a.mint ∈ w.grai.assetMints) (hpos : 0 < a.amount)
    (hno : (w.custodians a.owner).all (fun c => a.mint ≠ c.baseMint ∧ a.mint ≠ c.quoteMint) = true) : ¬ w.Sweepable := by
  intro h
  obtain ⟨c, hc, hm⟩ := held_of_sweepable hw hliq hpairs h k a ha hcust hm hpos
  rw [hc] at hno
  simp at hno
  tauto

namespace Sample

/-- gold goes to a custodian of dollars and euros -/
def goldAllocated : List Instr :=
  setup ++ [.token (wallet 9).key (.openAccount (.ata (.custodian 0) gold) gold (.custodian 0)), allocate gold 200, listing true]

/-- dollars go to the custodian, which is then pointed at gold and euros: the dollar account passed is another one, and empty -/
def retargeted : List Instr :=
  setup ++
    [allocate usdc 200,
      .token (wallet 9).key (.openAccount (.wallet 60) usdc (.custodian 0)),
      .setAssets ⟨wallet 1, .custodian 0, .wallet 60, .ata (.custodian 0) eurc, gold, eurc⟩,
      listing true]

/-- dollars go to the custodian, which trades them -/
def dollarsAllocated : List Instr := setup ++ [allocate usdc 200, listing true]

theorem goldAllocated_kept : Kept [] (genesis.after goldAllocated) :=
  genesis.after_kept (by simp [Meets, Instr.Aimed, Brings, Suits, goldAllocated, setup, issue, custodian, allocate, listing, wallet, Signer.key, Key.isCustodian])

theorem retargeted_kept : Kept [] (genesis.after retargeted) :=
  genesis.after_kept (by simp [Meets, Instr.Aimed, Brings, Suits, retargeted, setup, issue, custodian, allocate, listing, wallet, Signer.key, Key.isCustodian])

end Sample

/-- every step of the two runs commits, and then sweeps do not get at the gold, or at the dollars -/
theorem sweeps_incomplete :
    (Sample.goldAllocated.foldlM step Sample.genesis.world).toBool = true ∧ ¬ (Sample.genesis.after Sample.goldAllocated).Sweepable ∧
      (Sample.retargeted.foldlM step Sample.genesis.world).toBool = true ∧ ¬ (Sample.genesis.after Sample.retargeted).Sweepable := by
  refine ⟨by decide +kernel, ?_, by decide +kernel, ?_⟩
  · have hpairs := pairsListed_of Sample.goldAllocated_kept (by decide +kernel)
    have ha : (Sample.genesis.after Sample.goldAllocated).bank.accounts (.ata (.custodian 0) Sample.gold) =
        some ⟨Sample.gold, .custodian 0, 200⟩ := by decide +kernel
    exact not_sweepable_of Sample.goldAllocated_kept ⟨by decide +kernel, by decide +kernel⟩ hpairs ha rfl (by decide +kernel)
      (by decide) (by decide +kernel)
  · have hpairs := pairsListed_of Sample.retargeted_kept (by decide +kernel)
    have ha : (Sample.genesis.after Sample.retargeted).bank.accounts (.ata (.custodian 0) Sample.usdc) =
        some ⟨Sample.usdc, .custodian 0, 200⟩ := by decide +kernel
    exact not_sweepable_of Sample.retargeted_kept ⟨by decide +kernel, by decide +kernel⟩ hpairs ha rfl (by decide +kernel)
      (by decide) (by decide +kernel)

/-- an account that no custodian owns may be credited -/
theorem suits_of_all {T : Key → Key → Prop} (h : (b.accounts k).all (fun a => a.owner.isCustodian = false) = true) :
    Suits listed T b k := by
  refine suits_of_owner fun a ha => ?_
  rw [ha] at h
  simpa using h

theorem sweeps_complete_dollars :
    ∃ w', Swept (Sample.genesis.after Sample.dollarsAllocated) w' ∧ (Sample.genesis.after Sample.dollarsAllocated).SweptClean w' := by
  have haim : Meets step (fun w i => i.Aimed (Sample.genesis.after Sample.dollarsAllocated).grai.assetMints w)
      Sample.genesis.world Sample.dollarsAllocated := by
    have hissued {b : Bank Key} {T : Key → Key → Prop} {m : Key}
        (h : (b.accounts (.ata .grinders m)).all (fun a => a.owner.isCustodian = false) = true) :
        0 < 1000 → Suits (Sample.genesis.after Sample.dollarsAllocated).grai.assetMints T b (.ata .grinders m) :=
      fun _ => suits_of_all h
    exact
      ⟨fun _ _ => trivial, fun _ _ => trivial, fun _ _ => trivial, fun _ _ => hissued (by decide +kernel),
        fun _ _ => trivial, fun _ _ => trivial, fun _ _ => trivial, fun _ _ => hissued (by decide +kernel),
        fun _ _ => trivial, fun _ _ => trivial, fun _ _ => trivial, fun _ _ => hissued (by decide +kernel),
        fun _ _ => trivial, fun _ _ h => (by cases h), fun _ _ _ => ⟨_, rfl, .inl rfl⟩, fun _ _ => trivial, trivial⟩
  have hpairs := pairsListed_of (Sample.genesis.after_kept haim) (by decide +kernel)
  exact sweeps_complete Sample.genesis Sample.dollarsAllocated haim ⟨by decide +kernel, by decide +kernel⟩ hpairs

end Grindurus.Grinders
