/-
Whom the revenue share of a claim goes to (`programs/grai/src/treasury.rs`: `distribute_claim_treasury`).

- `World.ancestors`: the accounts bound above a locker. `World.due`: what their levels are due of the revenue share.
- `Kept`: what an ancestor is due goes to the payee of its cashflow or stays in the treasury, and never to the beneficiar.
- `shares_kept_iff`: exactly when a split keeps it. It does not where the caller passes another account than the book a level
  starts from, or a destination that is not the payee's: the level is skipped, and the beneficiar gets its share
  (`share_taken`).

The share of an ancestor is decided by the books and paid to whoever holds the NFT of the book. The walk over the ancestors uses
the accounts that the caller of the claim passes, and the caller need not be the holder. The comments of the source say that a
share which cannot be paid stays in the treasury; which of the ways in which it cannot be paid do so is what `shares_kept_iff`
says.
-/
import Grindurus.Grai.Lineage

namespace Grindurus.Grai

open Checked TokenBank Machine Uplines Ancestry Function

/-! ## What the ancestors are due -/

/-- the account that `cur` is bound under, in the tree of `locker` -/
def World.ancestor (w : World) (locker cur : Key) : Option Key := (w.upline cur).filter (· ≠ locker)

/-- the accounts bound above `cur`, at most `levels` of them -/
def World.ancestors (w : World) (locker : Key) : ℕ → Key → List Key
  | 0, _ => []
  | levels + 1, cur =>
    match w.ancestor locker cur with
    | none => []
    | some a => a :: w.ancestors locker levels a

/-- the share of a level in the revenue share -/
def World.levelShare (w : World) (d : Distribution) (level : ℕ) : ℕ :=
  d.revenueShare * w.state.affiliateShareBps.getD level 0 / BPS

/-- what the ancestors of the levels from `level` on are due -/
def World.due (w : World) (d : Distribution) : List Key → ℕ → ℕ
  | [], _ => 0
  | _ :: as, level => w.levelShare d level + w.due d as (level + 1)

/-- `payee` receives the cashflow of `a`: it is `a` itself, or it owns the account of the cashflow NFT, in which a split of
another token finds the NFT -/
def World.Payee (w : World) (d : Distribution) (a payee : Key) : Prop :=
  if (w.bookOf a).nftMint = .default then payee = a
  else ∃ k t, w.bank.accounts k = some t ∧ t.mint = (w.bookOf a).nftMint ∧ t.owner = payee ∧ (t.mint ≠ d.mint → 1 ≤ t.amount)

/-- what an ancestor is due is paid to its payee or stays in the treasury: the split logs payments of the levels to their
payees only, and pays the beneficiar what nobody else is due -/
structure Kept (w : World) (d : Distribution) (log : List TreasuryMsg) : Prop where
  affiliate : ∀ level payee share, .affiliate level payee share ∈ log →
    share = w.levelShare d level ∧ ∃ a, (w.ancestors d.locker 2 d.locker)[level]? = some a ∧ w.Payee d a payee
  beneficiar : ∀ x, .beneficiar x ∈ log → x + w.due d (w.ancestors d.locker 2 d.locker) 0 ≤ d.grossProfitShare

/-! ## When the levels are settled -/

/-- is `destination` a token account of `dst` -/
def Payable (b : Bank Key) (dst destination : Key) : Prop := dst ≠ .default ∧ ∃ t, b.accounts destination = some t ∧ t.owner = dst

/-- the account passed in at a position of the affiliate walk -/
def Distribution.slot (d : Distribution) (i : ℕ) : Key := d.remaining.getD i .default

/-- no level from `level` on that is due something is skipped: the account in its slot is the book of `cur`, the book of the
ancestor is passed in and exists, and its payee is unknown or can be paid -/
def Served (w : World) (d : Distribution) : List Key → ℕ → Key → Split → Prop
  | [], _, _, _ => True
  | a :: as, level, cur, s =>
    w.due d (a :: as) level = 0 ∨
      (d.slot (level * 3) = .referrer cur ∧ referrerInfo a d.remaining ≠ none ∧ (w.books a).isSome) ∧
      (w.levelShare d level = 0 ∨ ∀ payee, resolveCashflowPayee s.bank (w.bookOf a) a (d.slot (level * 3 + 1)) = some payee →
        Payable s.bank payee (d.slot (level * 3 + 2))) ∧
      ∀ s', payLevel d level (w.levelShare d level) a (w.bookOf a) (d.slot (level * 3 + 1)) (d.slot (level * 3 + 2)) s = .ok s' →
        Served w d as (level + 1) a s'

/-- the split pays no beneficiar, or no level is skipped -/
def Undiverted (w : World) (d : Distribution) : Prop :=
  w.treasuryOf d.mint < d.grossProfitShare ∨ ¬Payable w.bank w.state.beneficiar d.beneficiarAta ∨
    Served w d (w.ancestors d.locker 2 d.locker) 0 d.locker ⟨w.bank, 0, 0, []⟩

variable {w w' : World} {d : Distribution}

/-- what a split has set aside: paid to the payees, or retained -/
def Split.setAside (s : Split) : ℕ := s.paidRevenue + s.retainedAffiliate

/-! ## One level -/

/-- a payment counts as made exactly if there is nothing to pay, or the destination can take it for the payee -/
theorem tryPayFromTreasury_paid {b b' : Bank Key} {treasury destination dst : Key} {x : ℕ} {paid : Bool}
    (h : tryPayFromTreasury b treasury destination dst x = .ok (b', paid)) :
    paid = true ↔ x = 0 ∨ Payable b dst destination := by
  unfold tryPayFromTreasury at h
  unfold Payable
  split_ifs at h with h0 hd
  · cases h
    simp [h0]
  · cases h
    simp [h0, hd]
  · split at h
    · rename_i hnone
      cases h
      simp [h0, hnone]
    · rename_i t ht
      split_ifs at h with ho
      · cases h
        simp [h0, ht, ho]
      · simp only [bind_ok, Except.ok.injEq, Prod.mk.injEq] at h
        obtain ⟨_, -, -, rfl⟩ := h
        rw [not_not] at ho
        simp [hd, ht, ho]

/-- a level sets its share aside unless its payee is known and cannot be paid -/
theorem payLevel_setAside {level share : ℕ} {a nftAta destination : Key} {book : Referrer} {s s' : Split}
    (h : payLevel d level share a book nftAta destination s = .ok s') :
    s.setAside ≤ s'.setAside ∧ s'.setAside ≤ s.setAside + share ∧ (s'.setAside = s.setAside + share ↔
      share = 0 ∨ ∀ payee, resolveCashflowPayee s.bank book a nftAta = some payee → Payable s.bank payee destination) := by
  unfold payLevel at h
  split at h
  · rename_i hnone
    simp only [bind_ok, checkedAdd_ok, Except.ok.injEq] at h
    obtain ⟨_, ⟨-, rfl⟩, rfl⟩ := h
    simp only [Split.setAside, hnone]
    refine ⟨by omega, by omega, fun _ => .inr nofun, fun _ => by omega⟩
  · rename_i payee hsome
    simp only [bind_ok, Prod.exists] at h
    obtain ⟨b, paid, hpay, h⟩ := h
    have hpaid := tryPayFromTreasury_paid hpay
    have hiff : (share = 0 ∨ ∀ p, resolveCashflowPayee s.bank book a nftAta = some p → Payable s.bank p destination) ↔
        paid = true := by
      rw [hpaid, hsome]
      simp
    rw [hiff]
    cases paid with
    | true =>
      simp only [if_true, bind_ok, checkedAdd_ok, Except.ok.injEq] at h
      obtain ⟨_, ⟨-, rfl⟩, rfl⟩ := h
      simp only [Split.setAside]
      refine ⟨by omega, by omega, fun _ => trivial, fun _ => by omega⟩
    | false =>
      simp only [Bool.false_eq_true, if_false, Except.ok.injEq] at h
      subst h
      have hshare : share ≠ 0 := fun h0 => by simpa using hpaid.2 (.inl h0)
      simp only [Split.setAside]
      refine ⟨by omega, by omega, fun _ => by omega, nofun⟩

/-! ## The walk -/

theorem ancestor_some {locker cur a : Key} (h : w.ancestor locker cur = some a) : w.upline cur = some a ∧ a ≠ locker := by
  simpa [World.ancestor, Option.filter_eq_some_iff] using h

theorem slot_eq {i : ℕ} {k : Key} (h : d.remaining[i]? = some k) : d.slot i = k := by
  rw [Distribution.slot, List.getD_eq_getElem?_getD, h]
  rfl

/-- the walk looks at the ancestor, if the accounts passed in show it -/
theorem boundAncestor_some {refInfo cur a : Key} {book : Referrer} (h : boundAncestor w d refInfo cur = some (a, book)) :
    refInfo = .referrer cur ∧ w.ancestor d.locker cur = some a ∧ referrerInfo a d.remaining ≠ none ∧ w.books a = some book := by
  unfold boundAncestor at h
  split_ifs at h with hslot
  rw [not_not] at hslot
  split at h
  · cases h
  · rename_i binding hbinding
    split_ifs at h with hstop
    simp only [not_or] at hstop
    obtain ⟨hd, hl, hc⟩ := hstop
    split at h
    · rename_i book' hinfo hbook
      cases h
      refine ⟨hslot, ?_, by rw [hinfo]; exact nofun, hbook⟩
      have hup : w.upline cur = some binding.referrer := by
        unfold World.upline
        rw [World.bookOf_some hbinding]
        exact Referrer.upline_bound hd hc
      simpa [World.ancestor, hup] using hl
    · cases h

/-- the walk stops where there is no ancestor, or the accounts passed in do not show it -/
theorem boundAncestor_none {refInfo cur a : Key} (h : boundAncestor w d refInfo cur = none)
    (ha : w.ancestor d.locker cur = some a) :
    ¬(refInfo = .referrer cur ∧ referrerInfo a d.remaining ≠ none ∧ (w.books a).isSome) := by
  rintro ⟨rfl, hinfo, hbook⟩
  obtain ⟨hup, hl⟩ := ancestor_some ha
  obtain ⟨hr, hd, hc⟩ := Referrer.upline_eq_some hup
  obtain ⟨info, hinfo⟩ := Option.ne_none_iff_exists'.1 hinfo
  obtain ⟨book, hbook⟩ := Option.isSome_iff_exists.1 hbook
  obtain ⟨binding, hbinding⟩ : ∃ binding, w.books cur = some binding := by
    cases hb : w.books cur with
    | none =>
      unfold World.upline World.bookOf at hup
      rw [hb] at hup
      cases hup
    | some binding => exact ⟨binding, rfl⟩
  rw [World.bookOf_some hbinding] at hr
  subst hr
  simp [boundAncestor, hbinding, hd, hl, hc, hinfo, hbook] at h

theorem levelShare_of_bps {bps share level : ℕ} (hbps : w.state.affiliateShareBps[level]? = some bps)
    (h : bpsOf d.revenueShare bps = .ok share) : share = w.levelShare d level := by
  rw [bpsOf_ok h, World.levelShare, List.getD_eq_getElem?_getD, hbps]
  rfl

/-- **The walk.** It sets aside at most what the ancestors are due, and all of it exactly if no level is skipped. -/
theorem affiliateWalk_setAside {levels level : ℕ} {cur : Key} {s s' : Split}
    (h : affiliateWalk w d levels level cur s = .ok s') :
    s.setAside ≤ s'.setAside ∧ s'.setAside ≤ s.setAside + w.due d (w.ancestors d.locker levels cur) level ∧
      (s'.setAside = s.setAside + w.due d (w.ancestors d.locker levels cur) level ↔
        Served w d (w.ancestors d.locker levels cur) level cur s) := by
  induction levels generalizing level cur s with
  | zero =>
    cases h
    exact ⟨le_rfl, le_rfl, fun _ => trivial, fun _ => rfl⟩
  | succ levels ih =>
    simp only [affiliateWalk, bind_ok, demand_ok] at h
    obtain ⟨refInfo, hslot, nftAta, hnft, destination, hdestination, h⟩ := h
    have hslot := slot_eq hslot
    have hnft := slot_eq hnft
    have hdestination := slot_eq hdestination
    cases ha : w.ancestor d.locker cur with
    | none =>
      have hnone : boundAncestor w d refInfo cur = none := by
        cases hb : boundAncestor w d refInfo cur with
        | none => rfl
        | some r => cases ha.symm.trans (boundAncestor_some hb).2.1
      rw [hnone] at h
      cases h
      rw [World.ancestors, ha]
      exact ⟨le_rfl, le_rfl, fun _ => trivial, fun _ => rfl⟩
    | some a =>
      rw [World.ancestors, ha]
      dsimp only
      rw [Served]
      split at h
      · rename_i hnone
        cases h
        have hskipped := boundAncestor_none hnone ha
        rw [← hslot] at hskipped
        refine ⟨le_rfl, Nat.le_add_right .., fun heq => .inl (by omega), ?_⟩
        rintro (hdue | ⟨hshown, -⟩)
        · omega
        · exact absurd hshown hskipped
      · rename_i a' book hbound
        obtain ⟨rfl, ha', hinfo, hbook⟩ := boundAncestor_some hbound
        cases ha.symm.trans ha'
        simp only [bind_ok, demand_ok] at h
        obtain ⟨bps, hbps, share, hshare, s₁, hpay, h⟩ := h
        cases levelShare_of_bps hbps hshare
        rw [← World.bookOf_some hbook, ← hnft, ← hdestination] at hpay
        obtain ⟨hle, hge, hiff⟩ := payLevel_setAside hpay
        obtain ⟨hle', hge', hiff'⟩ := ih h
        rw [World.due]
        refine ⟨hle.trans hle', by omega, fun heq => ?_, ?_⟩
        · refine .inr ⟨⟨hslot, hinfo, by rw [hbook]; rfl⟩, hiff.1 (by omega), fun s₂ hs₂ => ?_⟩
          cases hpay.symm.trans hs₂
          exact hiff'.1 (by omega)
        · rintro (hdue | ⟨-, hpaid, hrest⟩)
          · omega
          · have h₁ := hiff.2 hpaid
            have h₂ := hiff'.2 (hrest s₁ hpay)
            omega

/-! ## Payments -/

/-- from `b` to `b'` tokens of `m` moved between accounts -/
structure Spends (m : Key) (b b' : Bank Key) : Prop where
  shape : ∀ k, (b'.accounts k).map (fun t => (t.mint, t.owner)) = (b.accounts k).map fun t => (t.mint, t.owner)
  amount : ∀ k t t', b.accounts k = some t → b'.accounts k = some t' → t.mint ≠ m → t'.amount = t.amount

theorem Spends.refl (m : Key) (b : Bank Key) : Spends m b b :=
  ⟨fun _ => rfl, fun _ _ _ h h' _ => by rw [h] at h'; cases h'; rfl⟩

theorem Spends.account {m k : Key} {b b' : Bank Key} {t' : TokenAccount Key} (h : Spends m b b')
    (ht' : b'.accounts k = some t') : ∃ t, b.accounts k = some t ∧ t'.mint = t.mint ∧ t'.owner = t.owner := by
  have hshape := h.shape k
  rw [ht', Option.map_some] at hshape
  obtain ⟨t, ht, heq⟩ := Option.map_eq_some_iff.1 hshape.symm
  simp only [Prod.mk.injEq] at heq
  exact ⟨t, ht, heq.1.symm, heq.2.symm⟩

theorem Spends.trans {m : Key} {b₁ b₂ b₃ : Bank Key} (h : Spends m b₁ b₂) (h' : Spends m b₂ b₃) : Spends m b₁ b₃ := by
  refine ⟨fun k => (h'.shape k).trans (h.shape k), fun k t₁ t₃ ht₁ ht₃ hne => ?_⟩
  obtain ⟨t₂, ht₂, hm₂, -⟩ := h'.account ht₃
  obtain ⟨t, ht, hm, -⟩ := h.account ht₂
  cases ht₁.symm.trans ht
  rw [h'.amount k t₂ t₃ ht₂ ht₃ (by rwa [hm]), h.amount k t₁ t₂ ht₁ ht₂ hne]

theorem Spends.payable {m dst destination : Key} {b b' : Bank Key} (h : Spends m b b') :
    Payable b' dst destination ↔ Payable b dst destination := by
  have hshape := h.shape destination
  unfold Payable
  cases hb : b.accounts destination with
  | none =>
    rw [hb] at hshape
    simp [Option.map_eq_none_iff.1 hshape]
  | some t =>
    rw [hb, Option.map_some] at hshape
    obtain ⟨t', ht', heq⟩ := Option.map_eq_some_iff.1 hshape
    simp only [Prod.mk.injEq] at heq
    simp [ht', heq.2]

/-- what one payee gets does not hinder the payment of another -/
theorem transferFromVault_spends {m src dst : Key} {x : ℕ} {b b' : Bank Key} (h : transferFromVault b src dst x = .ok b')
    (hsrc : ∀ t, b.accounts src = some t → t.mint = m) : Spends m b b' := by
  unfold transferFromVault at h
  split_ifs at h
  · cases h
    exact .refl m b
  obtain ⟨s, t, hs, ht, -, hmint, -, ⟨-, rfl⟩ | ⟨hne, rfl⟩⟩ := Bank.transfer_ok (spl_ok.1 h)
  · exact .refl m _
  have hm := hsrc s hs
  refine ⟨fun k => ?_, fun k u u' hu hu' hother => ?_⟩
  · rcases eq_or_ne k dst with rfl | hd
    · simp [Bank.put, ht]
    · rcases eq_or_ne k src with rfl | hk
      · simp [Bank.put, hd, hs]
      · simp [Bank.put, hd, hk]
  · rcases eq_or_ne k dst with rfl | hd
    · cases ht.symm.trans hu
      exact absurd (hmint.symm.trans hm) hother
    · rcases eq_or_ne k src with rfl | hk
      · cases hs.symm.trans hu
        exact absurd hm hother
      · simp only [Bank.put, update_of_ne hd, update_of_ne hk] at hu'
        cases hu.symm.trans hu'
        rfl

theorem tryPayFromTreasury_spends {m destination dst : Key} {x : ℕ} {paid : Bool} {b b' : Bank Key}
    (hsrc : ∀ t, b.accounts (.treasury m) = some t → t.mint = m)
    (h : tryPayFromTreasury b (.treasury m) destination dst x = .ok (b', paid)) : Spends m b b' := by
  unfold tryPayFromTreasury at h
  split_ifs at h
  · cases h
    exact .refl m b
  · cases h
    exact .refl m b
  · split at h
    · cases h
      exact .refl m b
    · split_ifs at h
      · cases h
        exact .refl m b
      · simp only [bind_ok, Except.ok.injEq, Prod.mk.injEq] at h
        obtain ⟨b₁, hb₁, rfl, -⟩ := h
        exact transferFromVault_spends hb₁ hsrc

theorem Spends.treasury {m : Key} {b b' : Bank Key} (h : Spends m b b')
    (hsrc : ∀ t, b.accounts (.treasury m) = some t → t.mint = m) : ∀ t, b'.accounts (.treasury m) = some t → t.mint = m := by
  intro t ht
  obtain ⟨t₀, ht₀, hm, -⟩ := h.account ht
  exact hm.trans (hsrc t₀ ht₀)

/-- the payee that a level resolves is the one of its ancestor -/
theorem resolveCashflowPayee_payee {a payee nftAta : Key} {b : Bank Key} (hb : Spends d.mint w.bank b)
    (h : resolveCashflowPayee b (w.bookOf a) a nftAta = some payee) : w.Payee d a payee := by
  unfold resolveCashflowPayee at h
  unfold World.Payee
  split_ifs at h ⊢ with hnft
  · exact (Option.some.inj h).symm
  · split at h
    · cases h
    · rename_i t ht
      split_ifs at h with hshown
      cases h
      simp only [ne_eq, not_or, not_not, Nat.not_lt] at hshown
      obtain ⟨t₀, ht₀, hm, ho⟩ := hb.account ht
      refine ⟨nftAta, t₀, ht₀, hm.symm.trans hshown.1, ho.symm, fun hne => ?_⟩
      rw [← hb.amount nftAta t₀ t ht₀ ht hne]
      exact hshown.2

/-- a walk logs payments of the levels to the payees of their ancestors -/
theorem affiliateWalk_affiliates {levels level : ℕ} {cur : Key} {s s' : Split}
    (hsrc : ∀ t, w.bank.accounts (.treasury d.mint) = some t → t.mint = d.mint) (hs : Spends d.mint w.bank s.bank)
    (h : affiliateWalk w d levels level cur s = .ok s') : Spends d.mint w.bank s'.bank ∧
      (∀ x, .beneficiar x ∈ s'.log → .beneficiar x ∈ s.log) ∧
      ∀ i payee share, .affiliate i payee share ∈ s'.log → .affiliate i payee share ∈ s.log ∨
        level ≤ i ∧ share = w.levelShare d i ∧
          ∃ a, (w.ancestors d.locker levels cur)[i - level]? = some a ∧ w.Payee d a payee := by
  induction levels generalizing level cur s with
  | zero =>
    cases h
    exact ⟨hs, fun _ => id, fun _ _ _ => .inl⟩
  | succ levels ih =>
    simp only [affiliateWalk, bind_ok, demand_ok] at h
    obtain ⟨refInfo, -, nftAta, -, destination, -, h⟩ := h
    split at h
    · cases h
      exact ⟨hs, fun _ => id, fun _ _ _ => .inl⟩
    · rename_i a book hbound
      obtain ⟨rfl, ha, -, hbook⟩ := boundAncestor_some hbound
      simp only [bind_ok, demand_ok] at h
      obtain ⟨bps, hbps, share, hshare, s₁, hpay, h⟩ := h
      cases levelShare_of_bps hbps hshare
      rw [← World.bookOf_some hbook] at hpay
      have hlevel : Spends d.mint w.bank s₁.bank ∧ (∀ x, .beneficiar x ∈ s₁.log → .beneficiar x ∈ s.log) ∧
          ∀ i payee share, .affiliate i payee share ∈ s₁.log → .affiliate i payee share ∈ s.log ∨
            i = level ∧ share = w.levelShare d level ∧ w.Payee d a payee := by
        unfold payLevel at hpay
        split at hpay
        · simp only [bind_ok, Except.ok.injEq] at hpay
          obtain ⟨_, -, rfl⟩ := hpay
          refine ⟨hs, fun x hx => ?_, fun i payee share hi => .inl ?_⟩
          · simpa using hx
          · simpa using hi
        · rename_i payee hpayee
          simp only [bind_ok, Prod.exists] at hpay
          obtain ⟨b, paid, htry, hpay⟩ := hpay
          have hb := hs.trans (tryPayFromTreasury_spends (hs.treasury hsrc) htry)
          split_ifs at hpay
          · simp only [bind_ok, Except.ok.injEq] at hpay
            obtain ⟨_, -, rfl⟩ := hpay
            refine ⟨hb, fun x hx => by simpa using hx, fun i p share hi => ?_⟩
            rcases List.mem_append.1 hi with hi | hi
            · exact .inl hi
            · cases List.mem_singleton.1 hi
              exact .inr ⟨rfl, rfl, resolveCashflowPayee_payee hs hpayee⟩
          · cases hpay
            exact ⟨hb, fun _ => id, fun _ _ _ => .inl⟩
      obtain ⟨hs₁, hbeneficiar, haffiliate⟩ := hlevel
      obtain ⟨hs', hbeneficiar', haffiliate'⟩ := ih hs₁ h
      rw [World.ancestors, ha]
      refine ⟨hs', fun x hx => hbeneficiar x (hbeneficiar' x hx), fun i payee share hi => ?_⟩
      rcases haffiliate' i payee share hi with hi | ⟨hle, hshare', a', ha', hpayee⟩
      · rcases haffiliate i payee share hi with hi | ⟨rfl, rfl, hpayee⟩
        · exact .inl hi
        · exact .inr ⟨le_rfl, rfl, a, by simp, hpayee⟩
      · refine .inr ⟨by omega, hshare', a', ?_, hpayee⟩
        rw [show i - level = i - (level + 1) + 1 by omega]
        exact ha'

/-! ## The split -/

/-- what the levels are due together is no more than the revenue share -/
theorem due_mul_le (w : World) (d : Distribution) (as : List Key) (level : ℕ) :
    w.due d as level * BPS ≤ d.revenueShare * (w.state.affiliateShareBps.drop level).sum := by
  induction as generalizing level with
  | nil =>
    rw [World.due, Nat.zero_mul]
    exact Nat.zero_le _
  | cons a as ih =>
    have hshare : w.levelShare d level * BPS ≤ d.revenueShare * w.state.affiliateShareBps.getD level 0 := Nat.div_mul_le_self _ _
    have hsum : (w.state.affiliateShareBps.drop level).sum =
        w.state.affiliateShareBps.getD level 0 + (w.state.affiliateShareBps.drop (level + 1)).sum := by
      rcases lt_or_ge level w.state.affiliateShareBps.length with hlt | hge
      · rw [List.drop_eq_getElem_cons hlt, List.sum_cons, List.getD_eq_getElem?_getD, List.getElem?_eq_getElem hlt]
        rfl
      · rw [List.drop_of_length_le hge, List.drop_of_length_le (by omega), List.getD_eq_getElem?_getD, List.getElem?_eq_none hge]
        rfl
    calc w.due d (a :: as) level * BPS
        = w.levelShare d level * BPS + w.due d as (level + 1) * BPS := by rw [World.due, Nat.add_mul]
      _ ≤ d.revenueShare * w.state.affiliateShareBps.getD level 0 +
          d.revenueShare * (w.state.affiliateShareBps.drop (level + 1)).sum := Nat.add_le_add hshare (ih (level + 1))
      _ = d.revenueShare * (w.state.affiliateShareBps.drop level).sum := by rw [hsum, Nat.mul_add]

/-- all ancestors together are due at most the revenue share -/
theorem due_le (hs : w.state.affiliateShareBps.sum = BPS) (as : List Key) : w.due d as 0 ≤ d.revenueShare := by
  have hle := due_mul_le w d as 0
  rw [List.drop_zero, hs] at hle
  exact Nat.le_of_mul_le_mul_right hle (by decide)

theorem served_of_due {as : List Key} {level : ℕ} {cur : Key} {s : Split} (h : w.due d as level = 0) :
    Served w d as level cur s := by
  cases as with
  | nil => trivial
  | cons a as => exact .inl h

/-- the affiliate part: what is set aside, and what is logged -/
theorem splitRevenue_served {s : Split} (hw : w.WF) (h : splitRevenue w d = .ok s) :
    Spends d.mint w.bank s.bank ∧ s.setAside ≤ w.due d (w.ancestors d.locker 2 d.locker) 0 ∧
      (s.setAside = w.due d (w.ancestors d.locker 2 d.locker) 0 ↔
        Served w d (w.ancestors d.locker 2 d.locker) 0 d.locker ⟨w.bank, 0, 0, []⟩) ∧
      (∀ x, .beneficiar x ∉ s.log) ∧ ∀ level payee share, .affiliate level payee share ∈ s.log →
        share = w.levelShare d level ∧ ∃ a, (w.ancestors d.locker 2 d.locker)[level]? = some a ∧ w.Payee d a payee := by
  have hsrc : ∀ t, w.bank.accounts (.treasury d.mint) = some t → t.mint = d.mint := fun t ht =>
    (hw.guarded.owned _ _ rfl t ht).2
  unfold splitRevenue at h
  rw [hw.shares.levels] at h
  split_ifs at h with hpos
  · obtain ⟨-, hle, hiff⟩ := affiliateWalk_setAside h
    obtain ⟨hspends, hbeneficiar, haffiliate⟩ := affiliateWalk_affiliates hsrc (.refl _ _) h
    have hzero : Split.setAside ⟨w.bank, 0, 0, []⟩ = 0 := rfl
    rw [hzero, Nat.zero_add] at hle hiff
    refine ⟨hspends, hle, hiff, fun x hx => ?_, fun level payee share hi => ?_⟩
    · exact absurd (hbeneficiar x hx) List.not_mem_nil
    · rcases haffiliate level payee share hi with hi | ⟨-, hshare, ha⟩
      · exact absurd hi List.not_mem_nil
      · exact ⟨hshare, ha⟩
  · cases h
    have hrevenue : d.revenueShare = 0 := by omega
    have hdue : w.due d (w.ancestors d.locker 2 d.locker) 0 = 0 := by
      have hle := due_le hw.shares.sum (w.ancestors d.locker 2 d.locker) (d := d)
      omega
    rw [hdue]
    exact ⟨.refl _ _, le_rfl, ⟨fun _ => served_of_due hdue, fun _ => rfl⟩, fun x hx => absurd hx List.not_mem_nil,
      fun _ _ _ hi => absurd hi List.not_mem_nil⟩

/-- a split keeps what the ancestors are due exactly if it pays no beneficiar or skips no level -/
theorem splitGross_kept {b : Bank Key} {log : List TreasuryMsg} (hw : w.WF) (hle : d.revenueShare ≤ d.grossProfitShare)
    (h : splitGross w d = .ok (b, log)) : Kept w d log ↔ Undiverted w d := by
  have hdue : w.due d (w.ancestors d.locker 2 d.locker) 0 ≤ d.grossProfitShare := (due_le hw.shares.sum _).trans hle
  unfold splitGross at h
  split_ifs at h with hgross
  · cases h
    refine ⟨fun _ => .inr (.inr (served_of_due (by omega))), fun _ => ⟨fun _ _ _ hi => ?_, fun _ hx => ?_⟩⟩
    · exact absurd hi List.not_mem_nil
    · exact absurd hx List.not_mem_nil
  simp only [bind_ok, demand_ok] at h
  obtain ⟨t, ht, h⟩ := h
  have hbalance : w.treasuryOf d.mint = t.amount := Bank.balance_some ht
  split_ifs at h with hunder
  · cases h
    exact ⟨fun _ => .inl (by rwa [hbalance]), fun _ => ⟨fun _ _ _ hi => by simp at hi, fun _ hx => by simp at hx⟩⟩
  simp only [bind_ok] at h
  obtain ⟨s, hs, net, hnet, h⟩ := h
  obtain ⟨hspends, haside, hiff, hbeneficiar, haffiliate⟩ := splitRevenue_served hw hs
  have hsum : s.setAside + net = d.grossProfitShare := netShare_ok hnet
  have hkept : Undiverted w d ↔ ¬Payable w.bank w.state.beneficiar d.beneficiarAta ∨
      s.setAside = w.due d (w.ancestors d.locker 2 d.locker) 0 := by
    unfold Undiverted
    rw [hiff, hbalance]
    simp [hunder]
  rw [hkept]
  unfold payBeneficiar at h
  split_ifs at h with hpos
  · simp only [bind_ok, Prod.exists, Except.ok.injEq, Prod.mk.injEq] at h
    obtain ⟨b₁, paid, hpay, rfl, rfl⟩ := h
    have hpaid : paid = true ↔ Payable w.bank w.state.beneficiar d.beneficiarAta := by
      rw [tryPayFromTreasury_paid hpay, hspends.payable]
      constructor
      · rintro (h0 | hpayable)
        · omega
        · exact hpayable
      · exact .inr
    cases paid with
    | true =>
      have hpayable := hpaid.1 rfl
      rw [if_pos rfl]
      refine ⟨fun hk => .inr ?_, ?_⟩
      · have hx := hk.beneficiar net (by simp)
        omega
      · rintro (hno | heq)
        · exact absurd hpayable hno
        · refine ⟨fun level payee share hi => haffiliate level payee share (by simpa using hi), fun x hx => ?_⟩
          rcases List.mem_append.1 hx with hx | hx
          · exact absurd hx (hbeneficiar x)
          · cases List.mem_singleton.1 hx
            omega
    | false =>
      rw [if_neg Bool.false_ne_true]
      refine ⟨fun _ => .inl fun hpayable => by simpa using hpaid.2 hpayable, fun _ => ⟨haffiliate, fun x hx => ?_⟩⟩
      exact absurd hx (hbeneficiar x)
  · cases h
    exact ⟨fun _ => .inr (by omega), fun _ => ⟨haffiliate, fun x hx => absurd hx (hbeneficiar x)⟩⟩

/-! ## The credit before it -/

theorem payLevel_congr {level share : ℕ} {a nftAta destination : Key} {book book' : Referrer} (h : book'.nftMint = book.nftMint)
    (s : Split) : payLevel d level share a book' nftAta destination s = payLevel d level share a book nftAta destination s := by
  unfold payLevel resolveCashflowPayee
  rw [h]

theorem levelShare_congr (h : w'.state = w.state) (level : ℕ) : w'.levelShare d level = w.levelShare d level := by
  unfold World.levelShare
  rw [h]

theorem due_congr (h : w'.state = w.state) (as : List Key) (level : ℕ) : w'.due d as level = w.due d as level := by
  induction as generalizing level with
  | nil => rfl
  | cons a as ih => rw [World.due, World.due, levelShare_congr h, ih]

theorem served_congr {as : List Key} (hstate : w'.state = w.state) (hlinks : w'.links = w.links)
    (hsome : ∀ a ∈ as, (w'.books a).isSome = (w.books a).isSome) (level : ℕ) (cur : Key) (s : Split) :
    Served w' d as level cur s ↔ Served w d as level cur s := by
  induction as generalizing level cur s with
  | nil => exact Iff.rfl
  | cons a as ih =>
    have hnft : (w'.bookOf a).nftMint = (w.bookOf a).nftMint := congrArg Prod.snd (congrFun hlinks a)
    have hresolve : ∀ b n, resolveCashflowPayee b (w'.bookOf a) a n = resolveCashflowPayee b (w.bookOf a) a n := by
      intro b n
      unfold resolveCashflowPayee
      rw [hnft]
    have hrest := ih fun a' ha' => hsome a' (List.mem_cons_of_mem a ha')
    simp only [Served, due_congr hstate, levelShare_congr hstate, hsome a List.mem_cons_self, hresolve, payLevel_congr hnft, hrest]

theorem mem_ancestors {locker a : Key} {levels : ℕ} {cur : Key} (h : a ∈ w.ancestors locker levels cur) : a ≠ locker := by
  induction levels generalizing cur with
  | zero => exact absurd h List.not_mem_nil
  | succ levels ih =>
    rw [World.ancestors] at h
    split at h
    · exact absurd h List.not_mem_nil
    · rename_i a' ha'
      rcases List.mem_cons.1 h with rfl | h
      · exact (ancestor_some ha').2
      · exact ih h

theorem ancestors_congr (hlinks : w'.links = w.links) (locker : Key) (levels : ℕ) (cur : Key) :
    w'.ancestors locker levels cur = w.ancestors locker levels cur := by
  have hup : ∀ k, w'.ancestor locker k = w.ancestor locker k := fun k => by
    unfold World.ancestor
    rw [upline_of_links hlinks]
  induction levels generalizing cur with
  | zero => rfl
  | succ levels ih => simp only [World.ancestors, hup, ih]

theorem payee_congr (hbank : w'.bank = w.bank) (hlinks : w'.links = w.links) (a payee : Key) :
    w'.Payee d a payee ↔ w.Payee d a payee := by
  have hnft : (w'.bookOf a).nftMint = (w.bookOf a).nftMint := congrArg Prod.snd (congrFun hlinks a)
  unfold World.Payee
  rw [hbank, hnft]

theorem creditClaim_keepsLinks (h : creditClaim w d = .ok w') :
    w'.state = w.state ∧ w'.bank = w.bank ∧ w'.links = w.links ∧
      ∀ a, a ≠ d.locker → (w'.books a).isSome = (w.books a).isSome := by
  simp only [creditClaim, ensureReferrerAccount_eq, bind_ok] at h
  obtain ⟨-, -, h⟩ := h
  have hkeeps := creditBooks_keepsLinks h
  split_ifs at hkeeps
  · refine ⟨hkeeps.state, hkeeps.bank, hkeeps.links.trans (World.links_store_same rfl), fun a ha => ?_⟩
    rw [hkeeps.isSome a]
    simp [World.storeReferrer, ha]
  · exact ⟨hkeeps.state, hkeeps.bank, hkeeps.links, fun a _ => hkeeps.isSome a⟩

/-- **Revenue shares.** A claim that succeeds keeps what the ancestors of the locker are due for their payees or the treasury
exactly if the treasury is short, the beneficiar cannot be paid, or no level that is due something is skipped. The right-hand
side looks at the accounts that the caller passed, level by level, before anything is paid. It is exact: in every other case the
share of a level that was skipped goes to the beneficiar with the rest. -/
theorem shares_kept_iff {claimed : ℕ} {log : List TreasuryMsg} (hw : w.WF)
    (hshares : claimTreasuryShares claimed w.state.config.treasuryCutBps w.state.config.dividendCutBps
      w.state.config.revenueShareBps = .ok (d.grossProfitShare, d.revenueShare))
    (h : distributeClaimTreasury w d = .ok (w', log)) : Kept w d log ↔ Undiverted w d := by
  have hle : d.revenueShare ≤ d.grossProfitShare := by
    obtain ⟨hgross, hrevenue⟩ := claimTreasuryShares_ok hshares
    rw [hgross, hrevenue]
    exact Nat.div_le_div_right (Nat.mul_le_mul_left _ hw.config.revenue)
  obtain ⟨w₁, b, hcredit, hsplit, -⟩ := distributeClaimTreasury_splits h
  obtain ⟨hstate, hbank, hlinks, hsome⟩ := creditClaim_keepsLinks hcredit
  have hkept := splitGross_kept ((creditClaim_booked hcredit).quiet.wf hw) hle hsplit
  have hancestors := ancestors_congr hlinks d.locker 2 d.locker
  have hserved : Served w₁ d (w.ancestors d.locker 2 d.locker) 0 d.locker ⟨w.bank, 0, 0, []⟩ ↔
      Served w d (w.ancestors d.locker 2 d.locker) 0 d.locker ⟨w.bank, 0, 0, []⟩ :=
    served_congr hstate hlinks (fun a ha => hsome a (mem_ancestors ha)) 0 d.locker _
  have hleft : Kept w₁ d log ↔ Kept w d log := by
    constructor
    · rintro ⟨haffiliate, hbeneficiar⟩
      simp only [hancestors, levelShare_congr hstate, due_congr hstate, payee_congr hbank hlinks] at haffiliate hbeneficiar
      exact ⟨haffiliate, hbeneficiar⟩
    · rintro ⟨haffiliate, hbeneficiar⟩
      refine ⟨?_, ?_⟩
      · simpa only [hancestors, levelShare_congr hstate, payee_congr hbank hlinks] using haffiliate
      · simpa only [hancestors, due_congr hstate] using hbeneficiar
  have hright : Undiverted w₁ d ↔ Undiverted w d := by
    unfold Undiverted World.treasuryOf
    rw [hancestors, hstate, hbank, hserved]
  rw [← hleft, ← hright]
  exact hkept

/-- wallet 2 deposits under wallet 3, locks, and yield arrives -/
def yieldUnderThree : List Instr :=
  [Sample.listing Sample.usdc false, Sample.deposit 3 1000 .default [],
    Sample.deposit 2 1000 (Sample.user 3) [.referrer (Sample.user 3)], Sample.lock 2 1000 [Sample.usdc],
    Sample.distribute 5 10000 Sample.usdc]

/-- wallet 6 claims everything for wallet 2, with these accounts for the affiliate walk -/
def claimForTwo (remaining : List Key) : Claim :=
  ⟨Sample.wallet 6, Sample.user 2, Sample.usdc, Sample.feed, .ata (Sample.user 1) Sample.usdc, remaining, u64Max⟩

/-- what that claim asks of the treasury -/
def splitForTwo (remaining : List Key) : Distribution :=
  ⟨Sample.user 2, Sample.usdc, 5000, 5000, 500, .ata (Sample.user 1) Sample.usdc, remaining⟩

/-- the book of wallet 2 in the first slot, then the NFT and the asset account of wallet 3 -/
def slotsOfThree : List Key :=
  [.referrer (Sample.user 2), .ata (Sample.user 3) (.treasuryNft (Sample.user 3)), .ata (Sample.user 3) Sample.usdc,
    .referrer (Sample.user 3), .default, .default, .default]

theorem shares_kept_iff_of_slots : ∃ r,
    distributeClaimTreasury (Sample.genesis.after yieldUnderThree) (splitForTwo slotsOfThree) = .ok r ∧
      (Kept (Sample.genesis.after yieldUnderThree) (splitForTwo slotsOfThree) r.2 ↔
        Undiverted (Sample.genesis.after yieldUnderThree) (splitForTwo slotsOfThree)) := by
  have hok : (distributeClaimTreasury (Sample.genesis.after yieldUnderThree) (splitForTwo slotsOfThree)).toBool = true := by
    decide +kernel
  have hshares : claimTreasuryShares 5000 (Sample.genesis.after yieldUnderThree).state.config.treasuryCutBps
      (Sample.genesis.after yieldUnderThree).state.config.dividendCutBps
      (Sample.genesis.after yieldUnderThree).state.config.revenueShareBps = .ok (5000, 500) := by decide +kernel
  cases hr : distributeClaimTreasury (Sample.genesis.after yieldUnderThree) (splitForTwo slotsOfThree) with
  | ok r => exact ⟨r, rfl, shares_kept_iff (Sample.genesis.after_wf _) hshares hr⟩
  | error e =>
    rw [hr] at hok
    cases hok

/-- the accounts of a caller that leaves the first slot empty: the books are credited all the same -/
def slotsOfNobody : List Key := List.replicate 6 .default ++ [.referrer (Sample.user 3)]

/-- wallet 3 is due 400, and the beneficiar is paid all of the 5000 -/
theorem share_taken :
    (executeClaim (Sample.genesis.after yieldUnderThree) (claimForTwo slotsOfNobody)).toOption.map Prod.snd =
        some [.beneficiar 5000] ∧
      (Sample.genesis.after yieldUnderThree).due (splitForTwo slotsOfNobody) [Sample.user 3] 0 = 400 ∧
      ¬Kept (Sample.genesis.after yieldUnderThree) (splitForTwo slotsOfNobody) [.beneficiar 5000] := by
  refine ⟨by decide +kernel, by decide +kernel, fun h => ?_⟩
  have hx := h.beneficiar 5000 List.mem_cons_self
  revert hx
  decide +kernel

end Grindurus.Grai
