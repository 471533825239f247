/-
What a sweep does to the bank.

- `Drain w b b'`: an account of Grinders, or one of a custodian for an asset it trades, is emptied into the vault of its asset.
- `executeLiquidateIdle_drains`, `executeLiquidateCustodian_drains`: a sweep is a row of these.
- `Drains.le`, `Drains.total`: no reserve grows, and what the reserves of an asset lose its vault gains.
- `Swept.frame`: sweeps touch neither the custodians nor what GRAI publishes. `Swept.stranded`: an account of a custodian for an
  asset it does not trade is as it was.
-/
import Grindurus.Lib.Drain
import Grindurus.Grinders.Holdings

namespace Grindurus.Grinders

open Checked TokenBank Tally Function

/-- what the account at `k` holds of `m` for Grinders or a custodian -/
def reserve (m : Key) (b : Bank Key) (k : Key) : ℕ := b.reserve Key.ofGrinders m k

/-- an account that a sweep can reach is emptied -/
structure Drain (w : World) (k m : Key) (b b' : Bank Key) : Prop where
  account : ∃ a, b.accounts k = some a ∧ a.mint = m ∧ (a.owner = .grinders ∨ a.owner.isCustodian = true ∧ w.trades a.owner m)
  vault : ∃ a, b.accounts (.vault m) = some a ∧ a.mint = m ∧ a.owner = .grai
  emptied : Bank.Emptied k (.vault m) b b'

def Drains (w : World) : Bank Key → Bank Key → Prop := Relation.ReflTransGen fun b b' => ∃ k m, Drain w k m b b'

variable {listed : List Key} {w w' : World} {b b₁ b' : Bank Key} {k m v : Key} {n : ℕ} {u : Unit} {a : TokenAccount Key}

/-! ## One account -/

namespace Drain

theorem drains (h : Drain w k m b b') : Drains w b b' := .single ⟨k, m, h⟩

theorem vault_other (h : Drain w k m b b') : ∀ a, b.accounts (.vault m) = some a → a.owner.ofGrinders = false := by
  intro a ha
  obtain ⟨a', ha', -, ho⟩ := h.vault
  obtain rfl := Option.some.inj (ha'.symm.trans ha)
  rw [ho]
  rfl

theorem reserve (h : Drain w k m b b') (i j : Key) : reserve i b' j = if j = k then 0 else reserve i b j :=
  h.emptied.reserve h.vault_other j

theorem le (h : Drain w k m b b') (i j : Key) : Grinders.reserve i b' j ≤ Grinders.reserve i b j := by
  rw [h.reserve]
  split_ifs
  · exact Nat.zero_le _
  · exact le_rfl

/-- the account is a reserve of its asset, and of no other -/
theorem reserve_self (h : Drain w k m b b') (i : Key) : Grinders.reserve i b k = if m = i then b.balance k else 0 := by
  obtain ⟨a, ha, hm, ho⟩ := h.account
  have hown : a.owner.ofGrinders = true := by
    rcases ho with ho | ⟨hcust, -⟩
    · rw [ho]
      rfl
    · exact Key.isCustodian_ofGrinders hcust
  have hslot : b.slots k = some (m, a.owner) := Bank.slots_some.2 ⟨a, ha, hm, rfl⟩
  unfold Grinders.reserve
  rw [Bank.reserve_some hslot]
  simp [hown]

/-- what the reserves of an asset lose, its vault gains -/
theorem total (h : Drain w k m b b') (hb : Homed b) {i : Key} (hn : HasTotal (Grinders.reserve i b) n) :
    ∃ n', HasTotal (Grinders.reserve i b') n' ∧ n' + b'.balance (.vault i) = n + b.balance (.vault i) := by
  have htotal : HasTotal (Grinders.reserve i b') (n - Grinders.reserve i b k) := h.emptied.total h.vault_other hn
  have hle := hn.le k
  refine ⟨n - Grinders.reserve i b k, htotal, ?_⟩
  rw [h.reserve_self] at hle ⊢
  by_cases hi : m = i
  · obtain rfl := hi
    rw [if_pos rfl] at hle ⊢
    rw [h.emptied.vault]
    omega
  · have hk : Key.vault i ≠ k := by
      rintro rfl
      obtain ⟨a, ha, -, ho⟩ := h.account
      rw [(hb _ .grai i rfl a ha).1] at ho
      rcases ho with ho | ⟨hcust, -⟩
      · cases ho
      · cases hcust
    rw [if_neg hi, h.emptied.frame _ hk fun hv => hi (Key.vault.inj hv).symm]
    rfl

end Drain

/-! ## A row of them -/

namespace Drains

theorem trans (h : Drains w b b₁) (h' : Drains w b₁ b') : Drains w b b' := Relation.ReflTransGen.trans h h'

theorem slots (h : Drains w b b') : b'.slots = b.slots := by
  induction h with
  | refl => rfl
  | tail _ h ih =>
    obtain ⟨k, m, hdrain⟩ := h
    exact hdrain.emptied.slots.trans ih

/-- **No reserve grows.** -/
theorem le (h : Drains w b b') (i j : Key) : reserve i b' j ≤ reserve i b j := by
  induction h with
  | refl => exact le_rfl
  | tail _ h ih =>
    obtain ⟨k, m, hdrain⟩ := h
    exact (hdrain.le i j).trans ih

/-- **Conserved.** What the reserves of an asset lose, its vault gains. -/
theorem total (h : Drains w b b') (hb : Homed b) {i : Key} (hn : HasTotal (reserve i b) n) :
    ∃ n', HasTotal (reserve i b') n' ∧ n' + b'.balance (.vault i) = n + b.balance (.vault i) := by
  induction h with
  | refl => exact ⟨n, hn, rfl⟩
  | tail hrow h ih =>
    obtain ⟨k, m, hdrain⟩ := h
    obtain ⟨n₁, hn₁, hsum₁⟩ := ih
    obtain ⟨n', hn', hsum⟩ := hdrain.total (hb.slots (Drains.slots hrow)) hn₁
    exact ⟨n', hn', hsum.trans hsum₁⟩

/-- an account of a custodian for an asset it does not trade is out of reach -/
theorem stranded (h : Drains w b b') (hb : Homed b) (ha : b.accounts k = some a) (hcust : a.owner.isCustodian = true)
    (hno : ¬ w.trades a.owner a.mint) : b'.accounts k = some a := by
  induction h with
  | refl => exact ha
  | @tail b₁ b₂ hrow h ih =>
    obtain ⟨j, m, hdrain⟩ := h
    have hhomed : Homed b₁ := hb.slots (Drains.slots hrow)
    have hj : k ≠ j := by
      rintro rfl
      obtain ⟨c, hc, hm, ho | ⟨-, ht⟩⟩ := hdrain.account
      · obtain rfl := Option.some.inj (ih.symm.trans hc)
        rw [ho] at hcust
        cases hcust
      · obtain rfl := Option.some.inj (ih.symm.trans hc)
        exact hno (hm ▸ ht)
    have hv : k ≠ .vault m := by
      rintro rfl
      rw [(hhomed _ .grai m rfl a ih).1] at hcust
      cases hcust
    rw [hdrain.emptied.account hj hv, ih]

end Drains

/-! ## Sweep by sweep -/

/-- two hops empty an account of a custodian -/
theorem forward_drain {custodian g : Key} (ha : b.accounts k = some a) (ho : a.owner = custodian) (hm : a.mint = m)
    (hcust : custodian.isCustodian = true) (ht : w.trades custodian m) (hg : ∃ d, b.accounts g = some d ∧ d.owner = .grinders)
    (hv : ∃ d, b.accounts (.vault m) = some d ∧ d.mint = m ∧ d.owner = .grai)
    (h : forward b custodian k g (.vault m) a.amount = .ok b') : Drain w k m b b' := by
  refine ⟨⟨a, ha, hm, .inr ⟨ho ▸ hcust, ho ▸ ht⟩⟩, hv, ?_⟩
  obtain ⟨d, hd, hdo⟩ := hg
  obtain ⟨d', hd', -, hdo'⟩ := hv
  have hbal := Bank.balance_some ha
  rcases forward_ok h with ⟨h0, rfl⟩ | ⟨b₁, hx, hx'⟩
  · exact .refl (hbal.trans h0)
  · refine .of_hops hx hx' hbal.symm ?_ ?_ ?_
    · rintro rfl
      obtain rfl := Option.some.inj (ha.symm.trans hd)
      rw [← ho, hdo] at hcust
      cases hcust
    · rintro rfl
      obtain rfl := Option.some.inj (hd.symm.trans hd')
      cases hdo.symm.trans hdo'
    · rintro rfl
      obtain rfl := Option.some.inj (ha.symm.trans hd')
      rw [← ho, hdo'] at hcust
      cases hcust

/-- `liquidate_custodian` empties the two accounts it is given -/
theorem executeLiquidateCustodian_drains {i : LiquidateCustodian} (hw : Kept listed w)
    (h : executeLiquidateCustodian w i = .ok w') :
    ∃ c b₁, w.custodians i.custodianState = some c ∧ Drain w i.baseCustodianAta c.baseMint w.bank b₁ ∧
      Drain w i.quoteCustodianAta c.quoteMint b₁ w'.bank ∧ w' = { w with bank := w'.bank } := by
  have hb := hw.sound.homed
  simp only [executeLiquidateCustodian, bind_ok, loadCustodian_ok, custodianAta_ok, grindersAta_ok, graiVault_ok, require_ok,
    Except.ok.injEq] at h
  obtain ⟨_, -, c, ⟨hc, hseeds, -⟩, base, ⟨hbase, hbo, hbm⟩, _, hmb, quote, ⟨hquote, hqo, hqm⟩, _, hmq, g, ⟨hg, hgo, -⟩, g',
    ⟨hg', hgo', -⟩, v, ⟨hv, hvk, hvm⟩, v', ⟨hv', hvk', hvm'⟩, _, -, b₁, hx, b₂, hx', rfl⟩ := h
  have hcust : i.custodianState.isCustodian = true := by
    rw [hseeds]
    rfl
  rw [hvk, hmb] at hx hv
  rw [hvk', hmq] at hx' hv'
  have hfirst : Drain w i.baseCustodianAta c.baseMint w.bank b₁ :=
    forward_drain hbase hbo hbm hcust ⟨c, hc, .inl rfl⟩ ⟨g, hg, hgo⟩ ⟨v, hv, hb _ _ _ rfl v hv |>.symm⟩ hx
  have hslots := hfirst.emptied.slots
  -- the first hop leaves the other account of the custodian as it was
  have hsame : b₁.accounts i.quoteCustodianAta = some quote := by
    rw [hfirst.emptied.account, hquote]
    · intro hk
      rw [hk] at hquote
      obtain rfl := Option.some.inj (hbase.symm.trans hquote)
      exact (hw.custodian _ c hc).2.2 (hbm.symm.trans hqm)
    · intro hk
      rw [hk] at hquote
      rw [← hqo, (hb _ .grai c.baseMint rfl quote hquote).1] at hcust
      cases hcust
  obtain ⟨g₁, hg₁, -, hgo₁⟩ := account_slots hslots hg'
  obtain ⟨v₁, hv₁, hvm₁, hvo₁⟩ := account_slots hslots hv'
  obtain ⟨hvo, hvm⟩ := hb _ .grai c.quoteMint rfl v' hv'
  have hsecond : Drain w i.quoteCustodianAta c.quoteMint b₁ b₂ :=
    forward_drain hsame hqo hqm hcust ⟨c, hc, .inr rfl⟩ ⟨g₁, hg₁, hgo₁.trans hgo'⟩
      ⟨v₁, hv₁, hvm₁.trans hvm, hvo₁.trans hvo⟩ hx'
  exact ⟨c, b₁, hc, hfirst, hsecond, rfl⟩

/-- an account of Grinders is emptied, or is empty -/
theorem idle_drain (ha : ∃ a, b.accounts k = some a ∧ a.mint = m ∧ a.owner = .grinders)
    (hv : ∃ d, b.accounts (.vault m) = some d ∧ d.mint = m ∧ d.owner = .grai)
    (h : ∃ a, b.accounts k = some a ∧ (a.amount = 0 ∧ b₁ = b ∨ b.transfer k (.vault m) .grinders a.amount = .ok b₁)) :
    Drain w k m b b₁ := by
  obtain ⟨a, ha, hm, ho⟩ := ha
  obtain ⟨a', ha', h⟩ := h
  obtain rfl := Option.some.inj (ha.symm.trans ha')
  refine ⟨⟨a, ha, hm, .inl ho⟩, hv, ?_⟩
  obtain ⟨d, hd, -, hdo⟩ := hv
  have hbal := Bank.balance_some ha
  rcases h with ⟨h0, rfl⟩ | hx
  · exact .refl (hbal.trans h0)
  · refine .of_transfer hx hbal.symm ?_
    rintro rfl
    obtain rfl := Option.some.inj (ha.symm.trans hd)
    cases ho.symm.trans hdo

/-- the accounts are emptied from the first to the last -/
theorem sweepIdle_drains {mints remaining : List Key} {b₀ : Bank Key} (hcheck : checkIdle b₀ mints remaining = .ok u)
    (hs : b.slots = b₀.slots) (h : sweepIdle b mints remaining = .ok b') : Drains w b b' := by
  induction mints, remaining using checkIdle.induct generalizing b with
  | case1 m mints k v remaining ih =>
    obtain ⟨⟨a, ha, hm, ho⟩, ⟨rfl, d, hd, hdm, hdo⟩, hrest⟩ := checkIdle_cons.1 hcheck
    obtain ⟨c, b₁, hc, hmove, hrest'⟩ := sweepIdle_cons h
    obtain ⟨a₁, ha₁, hm₁, ho₁⟩ := account_slots hs ha
    obtain ⟨d₁, hd₁, hdm₁, hdo₁⟩ := account_slots hs hd
    have hdrain : Drain w k m b b₁ :=
      idle_drain ⟨a₁, ha₁, hm₁.trans hm, ho₁.trans ho⟩ ⟨d₁, hd₁, hdm₁.trans hdm, hdo₁.trans hdo⟩ ⟨c, hc, hmove⟩
    exact hdrain.drains.trans (ih hrest (hdrain.emptied.slots.trans hs) hrest')
  | case2 mints remaining hno =>
    rw [sweepIdle] at h
    · obtain rfl := Except.ok.inj h
      exact .refl
    · exact hno

/-- `liquidate_idle` empties the accounts of Grinders it is given -/
theorem executeLiquidateIdle_drains {i : LiquidateIdle} (h : executeLiquidateIdle w i = .ok w') :
    Drains w w.bank w'.bank ∧ w' = { w with bank := w'.bank } := by
  simp only [executeLiquidateIdle, bind_ok, Except.ok.injEq] at h
  obtain ⟨_, -, _, -, _, hcheck, _, -, bank, hsweep, rfl⟩ := h
  exact ⟨sweepIdle_drains hcheck rfl hsweep, rfl⟩

/-! ## Runs of sweeps -/

/-- nothing is in an account that is opened -/
theorem openAccount_reserve {o : Key} (h : b.openAccount k m o = .ok b') (i j : Key) : reserve i b' j = reserve i b j := by
  have hbal := Bank.openAccount_balance h j
  obtain ⟨hnone, -, -, rfl⟩ := Bank.openAccount_ok h
  by_cases hj : j = k
  · have hzero : b.balance j = 0 := by simp [Bank.balance, hj, hnone]
    have hle : reserve i b j ≤ b.balance j := Bank.reserve_le j
    have hle' : reserve i (b.put k ⟨m, o, 0⟩) j ≤ (b.put k ⟨m, o, 0⟩).balance j := Bank.reserve_le j
    omega
  · refine Bank.reserve_congr ?_ hbal
    simp [Bank.slots, hj]

/-- what anyone can do: open a token account, or sweep -/
theorem permissionless_cases {i : Instr} (hw : Kept listed w) (hi : i.permissionless = true) (h : step w i = .ok w') :
    w' = { w with bank := w'.bank } ∧
      ((∃ k m o, w.bank.openAccount k m o = .ok w'.bank) ∨ Drains w w.bank w'.bank) := by
  cases i with
  | liquidateIdle i =>
    obtain ⟨hdrains, hframe⟩ := executeLiquidateIdle_drains h
    exact ⟨hframe, .inr hdrains⟩
  | liquidateCustodian i =>
    obtain ⟨c, b₁, -, hfirst, hsecond, hframe⟩ := executeLiquidateCustodian_drains hw h
    exact ⟨hframe, .inr (hfirst.drains.trans hsecond.drains)⟩
  | token auth op =>
    simp only [step, bind_ok, require_ok, spl_ok, Except.ok.injEq] at h
    obtain ⟨_, -, bank, happ, rfl⟩ := h
    refine ⟨rfl, .inl ?_⟩
    cases op with
    | openAccount k m owner => exact ⟨k, m, owner, happ⟩
    | _ => simp [Instr.permissionless] at hi
  | _ => cases hi

theorem permissionless_aimed {i : Instr} (hi : i.permissionless = true) : i.Aimed listed w := by
  cases i with
  | token auth op =>
    cases op with
    | openAccount k m owner => trivial
    | _ => simp [Instr.permissionless] at hi
  | liquidateIdle i => trivial
  | liquidateCustodian i => trivial
  | _ => cases hi

/-- the accounts stay in order, and neither the custodians nor GRAI are touched -/
theorem Swept.frame (h : Swept w w') (hw : Kept listed w) : Kept listed w' ∧ w' = { w with bank := w'.bank } := by
  induction h with
  | refl => exact ⟨hw, rfl⟩
  | tail _ h ih =>
    obtain ⟨i, hi, hstep⟩ := h
    obtain ⟨hkept, hframe⟩ := ih
    obtain ⟨hframe', -⟩ := permissionless_cases hkept hi hstep
    refine ⟨step_kept hkept (permissionless_aimed hi) hstep, ?_⟩
    rw [hframe', hframe]

/-- sweeps fill no reserve -/
theorem Swept.le (h : Swept w w') (hw : Kept listed w) (i j : Key) : reserve i w'.bank j ≤ reserve i w.bank j := by
  induction h with
  | refl => exact le_rfl
  | tail hrow h ih =>
    obtain ⟨c, hc, hstep⟩ := h
    obtain ⟨-, ⟨i₀, m, o, hopen⟩ | hdrains⟩ := permissionless_cases (Swept.frame hrow hw).1 hc hstep
    · rw [openAccount_reserve hopen]
      exact ih
    · exact (hdrains.le i j).trans ih

/-- sweeps move the reserves of an asset into its vault, and nowhere else -/
theorem Swept.total (h : Swept w w') (hw : Kept listed w) {i : Key} (hn : HasTotal (reserve i w.bank) n) :
    ∃ n', HasTotal (reserve i w'.bank) n' ∧ n' + w'.bank.balance (.vault i) = n + w.bank.balance (.vault i) := by
  induction h with
  | refl => exact ⟨n, hn, rfl⟩
  | tail hrow h ih =>
    obtain ⟨c, hc, hstep⟩ := h
    obtain ⟨n₁, hn₁, hsum₁⟩ := ih
    have hkept := (Swept.frame hrow hw).1
    obtain ⟨-, ⟨i₀, m, o, hopen⟩ | hdrains⟩ := permissionless_cases hkept hc hstep
    · refine ⟨n₁, hn₁.congr fun j => (openAccount_reserve hopen i j).symm, ?_⟩
      rw [Bank.openAccount_balance hopen]
      exact hsum₁
    · obtain ⟨n', hn', hsum⟩ := hdrains.total hkept.sound.homed hn₁
      exact ⟨n', hn', hsum.trans hsum₁⟩

/-- **Stranded.** What a custodian holds of an asset it does not trade, no row of sweeps moves. -/
theorem Swept.stranded (h : Swept w w') (hw : Kept listed w) (ha : w.bank.accounts k = some a)
    (hcust : a.owner.isCustodian = true) (hno : ¬ w.trades a.owner a.mint) : w'.bank.accounts k = some a := by
  induction h with
  | refl => exact ha
  | @tail w₁ w₂ hrow h ih =>
    obtain ⟨i, hi, hstep⟩ := h
    obtain ⟨hkept, hframe⟩ := Swept.frame hrow hw
    obtain ⟨-, ⟨i₀, m, o, hopen⟩ | hdrains⟩ := permissionless_cases hkept hi hstep
    · exact Bank.openAccount_kept hopen ih
    · refine hdrains.stranded hkept.sound.homed ih hcust ?_
      rw [hframe]
      exact hno

end Grindurus.Grinders
