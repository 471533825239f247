/-
What a claim takes out of the treasury (`programs/grai/src/treasury.rs`: `distribute_claim_treasury`).

A claim credits the books, then splits its gross profit share: a part of the revenue share to each affiliate level, and what
is neither paid nor retained to the beneficiar. The accounts to look at and to pay are those the caller passed in. The split
reports what it did with the messages the program logs (`TreasuryMsg`).

`distributeClaimTreasury_ok`: whatever is passed in, the treasury of the claimed asset is debited by at most the gross share,
and no other account of the program is.
-/
import Grindurus.Grai.Referral

namespace Grindurus.Grai

open Checked TokenBank Function

/-- what the split logs -/
inductive TreasuryMsg where
  | underfunded (bal need : ℕ)
  | retained (level share : ℕ)
  | affiliate (level : ℕ) (payee : Key) (share : ℕ)
  | beneficiar (share : ℕ)
  deriving DecidableEq, Repr

/-! ## Shares -/

/-- the accounts of the affiliate walk: a book and two destinations per level, and the last ancestor's book -/
def affiliateClaimRemainingLen (levels : ℕ) : ℕ := if levels = 0 then 0 else levels * 3 + 1

/-- the gross profit share and the revenue share of a claim -/
def claimTreasuryShares (claimed treasuryCutBps dividendCutBps revenueShareBps : ℕ) : Except ErrorCode (ℕ × ℕ) :=
  if claimed = 0 ∨ dividendCutBps = 0 then .ok (0, 0)
  else do
    let v ← checkedMul u128 claimed treasuryCutBps .mathOverflow
    let gross ← checkedDiv v dividendCutBps .mathOverflow
    let v ← checkedMul u128 claimed revenueShareBps .mathOverflow
    let revenue ← checkedDiv v dividendCutBps .mathOverflow
    require (gross ≤ u64Max ∧ revenue ≤ u64Max) .mathOverflow
    .ok (gross, revenue)

/-! ## Paying one share -/

/-- who a share of `referrer` goes to: the holder of its cashflow NFT, if there is one and the account passed in shows it -/
def resolveCashflowPayee (b : Bank Key) (book : Referrer) (referrer nftAta : Key) : Option Key :=
  if book.nftMint = .default then some referrer
  else
    match b.accounts nftAta with
    | none => none
    | some a => if a.mint ≠ book.nftMint ∨ a.amount < 1 then none else some a.owner

/-- pay `amount` to a token account of `dst`, unless the account passed in is not one -/
def tryPayFromTreasury (b : Bank Key) (treasuryVault destination dst : Key) (amount : ℕ) :
    Except ErrorCode (Bank Key × Bool) :=
  if amount = 0 then .ok (b, true)
  else if dst = .default then .ok (b, false)
  else
    match b.accounts destination with
    | none => .ok (b, false)
    | some a =>
      if a.owner ≠ dst then .ok (b, false)
      else do
        let bank ← transferFromVault b treasuryVault destination amount
        .ok (bank, true)

/-! ## The split -/

/-- the arguments of `distribute_claim_treasury` -/
structure Distribution where
  locker : Key
  mint : Key
  claimedValue : ℕ
  grossProfitShare : ℕ
  revenueShare : ℕ
  beneficiarAta : Key
  remaining : List Key
  deriving DecidableEq, Repr

/-- how far the walk has come: the bank, what it paid and retained, and what it logged -/
structure Split where
  bank : Bank Key
  paidRevenue : ℕ
  retainedAffiliate : ℕ
  log : List TreasuryMsg

/-- the ancestor above `cur` and its book, as the account in the slot of `cur` and the others passed in show it -/
def boundAncestor (w : World) (d : Distribution) (refInfo cur : Key) : Option (Key × Referrer) :=
  if refInfo ≠ .referrer cur then none
  else
    match w.books cur with
    | none => none
    | some binding =>
      if binding.referrer = .default ∨ binding.referrer = d.locker ∨ binding.referrer = cur then none
      else
        match referrerInfo binding.referrer d.remaining, w.books binding.referrer with
        | some _, some book => some (binding.referrer, book)
        | _, _ => none

/-- pay the share of one level, or retain it; a destination that cannot be paid is neither -/
def payLevel (d : Distribution) (level share : ℕ) (referrer : Key) (book : Referrer) (nftAta destination : Key) (s : Split) :
    Except ErrorCode Split :=
  match resolveCashflowPayee s.bank book referrer nftAta with
  | none => do
    let retainedAffiliate ← checkedAdd u64 s.retainedAffiliate share .mathOverflow
    .ok { s with retainedAffiliate, log := s.log ++ [.retained level share] }
  | some payee => do
    let (bank, paid) ← tryPayFromTreasury s.bank (.treasury d.mint) destination payee share
    if paid then do
      let paidRevenue ← checkedAdd u64 s.paidRevenue share .mathOverflow
      .ok { s with bank, paidRevenue, log := s.log ++ [.affiliate level payee share] }
    else .ok { s with bank }

/-- `levels` more levels from `level` on, at the account `cur` of the tree -/
def affiliateWalk (w : World) (d : Distribution) : ℕ → ℕ → Key → Split → Except ErrorCode Split
  | 0, _, _, s => .ok s
  | levels + 1, level, cur, s => do
    let refInfo ← demand .panicked d.remaining[level * 3]?
    let nftAta ← demand .panicked d.remaining[level * 3 + 1]?
    let destination ← demand .panicked d.remaining[level * 3 + 2]?
    match boundAncestor w d refInfo cur with
    | none => .ok s
    | some (referrer, book) => do
      let bps ← demand .panicked w.state.affiliateShareBps[level]?
      let share ← bpsOf d.revenueShare bps
      let s ← payLevel d level share referrer book nftAta destination s
      affiliateWalk w d levels (level + 1) referrer s

/-- what is left for the beneficiar -/
def netShare (gross : ℕ) (s : Split) : Except ErrorCode ℕ := do
  let rest ← checkedSub gross s.paidRevenue .mathOverflow
  checkedSub rest s.retainedAffiliate .mathOverflow

def payBeneficiar (w : World) (d : Distribution) (net : ℕ) (s : Split) : Except ErrorCode (Bank Key × List TreasuryMsg) :=
  if 0 < net then do
    let (bank, paid) ← tryPayFromTreasury s.bank (.treasury d.mint) d.beneficiarAta w.state.beneficiar net
    .ok (bank, if paid then s.log ++ [.beneficiar net] else s.log)
  else .ok (s.bank, s.log)

/-- the affiliate part of a split -/
def splitRevenue (w : World) (d : Distribution) : Except ErrorCode Split :=
  if 0 < d.revenueShare ∧ 0 < w.state.affiliateLevels then
    affiliateWalk w d w.state.affiliateLevels 0 d.locker ⟨w.bank, 0, 0, []⟩
  else .ok ⟨w.bank, 0, 0, []⟩

/-- split the gross profit share -/
def splitGross (w : World) (d : Distribution) : Except ErrorCode (Bank Key × List TreasuryMsg) :=
  if d.grossProfitShare = 0 then .ok (w.bank, [])
  else do
    let t ← demand .invalidDestination (w.bank.accounts (.treasury d.mint))
    if t.amount < d.grossProfitShare then .ok (w.bank, [.underfunded t.amount d.grossProfitShare])
    else do
      let s ← splitRevenue w d
      let net ← netShare d.grossProfitShare s
      payBeneficiar w d net s

/-- credit the books with the claimed value; a locker without a book gets an unbound one -/
def creditClaim (w : World) (d : Distribution) : Except ErrorCode World := do
  let levels := w.state.affiliateLevels
  require (affiliateClaimRemainingLen levels ≤ d.remaining.length) .invalidRemainingAccounts
  let (book, isNew) := ensureReferrerAccount w d.locker
  let w := if isNew then w.storeReferrer d.locker book else w
  creditBooks w d.locker d.claimedValue levels d.remaining true

def distributeClaimTreasury (w : World) (d : Distribution) : Except ErrorCode (World × List TreasuryMsg) := do
  let w ← creditClaim w d
  let (bank, log) ← splitGross w d
  .ok ({ w with bank }, log)

/-! ## What leaves the treasury -/

variable {w w' : World} {d : Distribution}

/-- the three shares of the treasury's part, by basis points and rounded down -/
theorem claimTreasuryShares_ok {claimed treasury dividend share gross revenue : ℕ}
    (h : claimTreasuryShares claimed treasury dividend share = .ok (gross, revenue)) :
    gross = claimed * treasury / dividend ∧ revenue = claimed * share / dividend := by
  unfold claimTreasuryShares at h
  split_ifs at h with h0
  · cases h
    rcases h0 with rfl | rfl
    · simp
    · simp
  · simp only [bind_ok, checkedMul_ok, checkedDiv_ok, require_ok, Except.ok.injEq, Prod.mk.injEq] at h
    obtain ⟨_, ⟨-, rfl⟩, _, ⟨-, rfl⟩, _, ⟨-, rfl⟩, _, ⟨-, rfl⟩, -, -, rfl, rfl⟩ := h
    exact ⟨rfl, rfl⟩

/-- a payment takes its amount out of the treasury, or nothing -/
theorem tryPayFromTreasury_ok {b b' : Bank Key} {treasury destination payee : Key} {x : ℕ} {paid : Bool} (grai : Key)
    (h : tryPayFromTreasury b treasury destination payee x = .ok (b', paid)) :
    if paid then BankMoves grai (-Pi.single treasury (x : ℤ)) 0 b b' else b' = b := by
  unfold tryPayFromTreasury at h
  split_ifs at h with h0 hd
  · cases h
    subst h0
    simpa using BankMoves.refl grai b
  · cases h
    rfl
  · split at h
    · cases h
      rfl
    · split_ifs at h
      · cases h
        rfl
      · simp only [bind_ok, Except.ok.injEq, Prod.mk.injEq] at h
        obtain ⟨b₁, hb, rfl, rfl⟩ := h
        exact transferFromVault_debits grai hb

/-- from `s` to `s'` the treasury of the claimed asset is debited by what is newly paid -/
def Paying (grai : Key) (d : Distribution) (s s' : Split) : Prop :=
  ∃ x, s'.paidRevenue = s.paidRevenue + x ∧ BankMoves grai (-Pi.single (.treasury d.mint) (x : ℤ)) 0 s.bank s'.bank

theorem Paying.refl (grai : Key) (d : Distribution) (s : Split) : Paying grai d s s :=
  ⟨0, rfl, by simpa using BankMoves.refl grai s.bank⟩

theorem Paying.trans {grai : Key} {s₁ s₂ s₃ : Split} (h : Paying grai d s₁ s₂) (h' : Paying grai d s₂ s₃) :
    Paying grai d s₁ s₃ := by
  obtain ⟨x, hx, hb⟩ := h
  obtain ⟨y, hy, hb'⟩ := h'
  refine ⟨x + y, by omega, (hb.trans hb').mono fun k _ _ => ?_⟩
  simp only [Pi.neg_apply, Pi.add_apply, Pi.single_apply]
  split_ifs <;> omega

theorem payLevel_paying (grai : Key) {level share : ℕ} {referrer nftAta destination : Key} {book : Referrer} {s s' : Split}
    (h : payLevel d level share referrer book nftAta destination s = .ok s') : Paying grai d s s' := by
  unfold payLevel at h
  split at h
  · simp only [bind_ok, Except.ok.injEq] at h
    obtain ⟨_, -, rfl⟩ := h
    exact .refl grai d s
  · simp only [bind_ok, Prod.exists] at h
    obtain ⟨b, paid, hpay, h⟩ := h
    have hpay := tryPayFromTreasury_ok grai hpay
    cases paid with
    | true =>
      simp only [if_true, bind_ok, checkedAdd_ok, Except.ok.injEq] at h hpay
      obtain ⟨_, ⟨-, rfl⟩, rfl⟩ := h
      exact ⟨share, rfl, hpay⟩
    | false =>
      simp only [Bool.false_eq_true, if_false, Except.ok.injEq] at h hpay
      subst h hpay
      exact .refl grai d s

/-- by induction on the levels, what the walk pays is what it takes off the revenue share -/
theorem affiliateWalk_paying (grai : Key) {levels level : ℕ} {cur : Key} {s s' : Split}
    (h : affiliateWalk w d levels level cur s = .ok s') : Paying grai d s s' := by
  induction levels generalizing level cur s with
  | zero =>
    cases h
    exact .refl grai d _
  | succ levels ih =>
    simp only [affiliateWalk, bind_ok] at h
    obtain ⟨_, -, _, -, _, -, h⟩ := h
    split at h
    · cases h
      exact .refl grai d _
    · simp only [bind_ok] at h
      obtain ⟨_, -, _, -, s₁, hpay, h⟩ := h
      exact (payLevel_paying grai hpay).trans (ih h)

theorem splitRevenue_paying (grai : Key) {s : Split} (h : splitRevenue w d = .ok s) : Paying grai d ⟨w.bank, 0, 0, []⟩ s := by
  unfold splitRevenue at h
  split_ifs at h
  · exact affiliateWalk_paying grai h
  · cases h
    exact .refl grai d _

theorem netShare_ok {gross net : ℕ} {s : Split} (h : netShare gross s = .ok net) :
    s.paidRevenue + s.retainedAffiliate + net = gross := by
  simp only [netShare, bind_ok, checkedSub_ok] at h
  obtain ⟨_, ⟨h₁, rfl⟩, h₂, rfl⟩ := h
  omega

/-- at most the gross share leaves the treasury -/
theorem splitGross_ok (grai : Key) {b : Bank Key} {log : List TreasuryMsg} (h : splitGross w d = .ok (b, log)) :
    ∃ x, x ≤ d.grossProfitShare ∧ BankMoves grai (-Pi.single (.treasury d.mint) (x : ℤ)) 0 w.bank b := by
  have hnone : ∃ x, x ≤ d.grossProfitShare ∧ BankMoves grai (-Pi.single (.treasury d.mint) (x : ℤ)) 0 w.bank w.bank :=
    ⟨0, Nat.zero_le _, by simpa using BankMoves.refl grai w.bank⟩
  unfold splitGross at h
  split_ifs at h with h0
  · cases h
    exact hnone
  simp only [bind_ok] at h
  obtain ⟨t, -, h⟩ := h
  split_ifs at h
  · cases h
    exact hnone
  simp only [bind_ok] at h
  obtain ⟨s, hs, net, hnet, h⟩ := h
  obtain ⟨x, hx, hb⟩ := splitRevenue_paying grai hs
  have hsum := netShare_ok hnet
  have hpaid : s.paidRevenue = x := by simpa using hx
  unfold payBeneficiar at h
  split_ifs at h
  · simp only [bind_ok, Prod.exists, Except.ok.injEq, Prod.mk.injEq] at h
    obtain ⟨b₁, paid, hpay, rfl, -⟩ := h
    have hpay := tryPayFromTreasury_ok grai hpay
    cases paid with
    | true =>
      refine ⟨x + net, by omega, (hb.trans hpay).mono fun k _ _ => ?_⟩
      simp only [Pi.neg_apply, Pi.add_apply, Pi.single_apply]
      split_ifs <;> omega
    | false =>
      simp only [Bool.false_eq_true, if_false] at hpay
      exact ⟨x, by omega, hpay ▸ hb⟩
  · cases h
    exact ⟨x, by omega, hb⟩

theorem creditClaim_booked (h : creditClaim w d = .ok w') : Booked 0 w w' := by
  simp only [creditClaim, bind_ok] at h
  obtain ⟨-, -, h⟩ := h
  refine Booked.trans ?_ (creditBooks_booked h)
  split_ifs
  · exact .store d.locker _ (.refl 0 w)
  · exact .refl 0 w

/-- a distribution credits books, and splits the gross share over the bank -/
theorem distributeClaimTreasury_splits {log : List TreasuryMsg} (h : distributeClaimTreasury w d = .ok (w', log)) :
    ∃ w₁ b, creditClaim w d = .ok w₁ ∧ splitGross w₁ d = .ok (b, log) ∧ w' = { w₁ with bank := b } := by
  simp only [distributeClaimTreasury, bind_ok, Prod.exists, Except.ok.injEq, Prod.mk.injEq] at h
  obtain ⟨w₁, hcredit, b, log', hsplit, rfl, rfl⟩ := h
  exact ⟨w₁, b, hcredit, hsplit, rfl⟩

/-- a distribution credits books, and takes at most the gross share out of the treasury of the asset -/
theorem distributeClaimTreasury_ok {log : List TreasuryMsg} (h : distributeClaimTreasury w d = .ok (w', log)) :
    ∃ w₁ b x, Quiet w w₁ ∧ x ≤ d.grossProfitShare ∧
      BankMoves w.state.graiMint (-Pi.single (.treasury d.mint) (x : ℤ)) 0 w₁.bank b ∧ w' = { w₁ with bank := b } := by
  obtain ⟨w₁, b, hcredit, hsplit, rfl⟩ := distributeClaimTreasury_splits h
  obtain ⟨x, hx, hb⟩ := splitGross_ok w.state.graiMint hsplit
  exact ⟨w₁, b, x, (creditClaim_booked hcredit).quiet, hx, hb, rfl⟩

/-! ## What is set aside for the ancestors -/

/-- a level pays or retains at most its share -/
theorem payLevel_share_le {level share : ℕ} {referrer nftAta destination : Key} {book : Referrer} {s s' : Split}
    (h : payLevel d level share referrer book nftAta destination s = .ok s') :
    s'.paidRevenue + s'.retainedAffiliate ≤ s.paidRevenue + s.retainedAffiliate + share := by
  unfold payLevel at h
  split at h
  · simp only [bind_ok, checkedAdd_ok, Except.ok.injEq] at h
    obtain ⟨_, ⟨-, rfl⟩, rfl⟩ := h
    exact (Nat.add_assoc ..).ge
  · simp only [bind_ok, Prod.exists] at h
    obtain ⟨b, paid, -, h⟩ := h
    split_ifs at h
    · simp only [bind_ok, checkedAdd_ok, Except.ok.injEq] at h
      obtain ⟨_, ⟨-, rfl⟩, rfl⟩ := h
      exact (Nat.add_right_comm ..).le
    · cases h
      exact Nat.le_add_right ..

/-- the levels of a walk pay or retain at most their part of the revenue share -/
theorem affiliateWalk_share_le {levels level : ℕ} {cur : Key} {s s' : Split}
    (h : affiliateWalk w d levels level cur s = .ok s') :
    (s'.paidRevenue + s'.retainedAffiliate) * BPS ≤
      (s.paidRevenue + s.retainedAffiliate) * BPS + d.revenueShare * (w.state.affiliateShareBps.drop level).sum := by
  induction levels generalizing level cur s with
  | zero =>
    cases h
    exact Nat.le_add_right ..
  | succ levels ih =>
    simp only [affiliateWalk, bind_ok] at h
    obtain ⟨_, -, _, -, _, -, h⟩ := h
    split at h
    · cases h
      exact Nat.le_add_right ..
    · simp only [bind_ok, demand_ok] at h
      obtain ⟨bps, hbps, share, hshare, s₁, hpay, h⟩ := h
      obtain ⟨hlt, rfl⟩ := List.getElem?_eq_some_iff.1 hbps
      have h₁ := payLevel_share_le hpay
      have h₂ := ih h
      have h₃ := bpsOf_mul_le hshare
      rw [List.drop_eq_getElem_cons hlt, List.sum_cons, Nat.mul_add]
      calc (s'.paidRevenue + s'.retainedAffiliate) * BPS
          ≤ (s₁.paidRevenue + s₁.retainedAffiliate) * BPS +
            d.revenueShare * (w.state.affiliateShareBps.drop (level + 1)).sum := h₂
        _ ≤ (s.paidRevenue + s.retainedAffiliate + share) * BPS +
            d.revenueShare * (w.state.affiliateShareBps.drop (level + 1)).sum :=
          Nat.add_le_add_right (Nat.mul_le_mul_right _ h₁) _
        _ ≤ _ := by
          rw [Nat.add_mul]
          omega

/-- all levels together pay or retain at most the revenue share -/
theorem splitRevenue_le (hs : w.state.affiliateShareBps.sum = BPS) {s : Split} (h : splitRevenue w d = .ok s) :
    s.paidRevenue + s.retainedAffiliate ≤ d.revenueShare := by
  unfold splitRevenue at h
  split_ifs at h
  · have hle := affiliateWalk_share_le h
    rw [List.drop_zero, hs, Nat.add_zero, Nat.zero_mul, Nat.zero_add] at hle
    exact Nat.le_of_mul_le_mul_right hle (by decide)
  · cases h
    exact Nat.zero_le _

/-- a walk logs nothing about the treasury's balance -/
theorem affiliateWalk_log {levels level : ℕ} {cur : Key} {s s' : Split} (h : affiliateWalk w d levels level cur s = .ok s')
    {bal need : ℕ} (hmem : .underfunded bal need ∈ s'.log) : .underfunded bal need ∈ s.log := by
  induction levels generalizing level cur s with
  | zero =>
    cases h
    exact hmem
  | succ levels ih =>
    simp only [affiliateWalk, bind_ok] at h
    obtain ⟨_, -, _, -, _, -, h⟩ := h
    split at h
    · cases h
      exact hmem
    · simp only [bind_ok] at h
      obtain ⟨_, -, _, -, s₁, hpay, h⟩ := h
      have hmem := ih h
      unfold payLevel at hpay
      split at hpay
      · simp only [bind_ok, Except.ok.injEq] at hpay
        obtain ⟨_, -, rfl⟩ := hpay
        simpa using hmem
      · simp only [bind_ok, Prod.exists] at hpay
        obtain ⟨b, paid, -, hpay⟩ := hpay
        split_ifs at hpay
        · simp only [bind_ok, Except.ok.injEq] at hpay
          obtain ⟨_, -, rfl⟩ := hpay
          simpa using hmem
        · cases hpay
          exact hmem

/-- a split is skipped only if the treasury holds less than the gross share -/
theorem splitGross_log {b : Bank Key} {log : List TreasuryMsg} (h : splitGross w d = .ok (b, log)) {bal need : ℕ}
    (hmem : .underfunded bal need ∈ log) : w.bank.balance (.treasury d.mint) < d.grossProfitShare := by
  unfold splitGross at h
  split_ifs at h
  · cases h
    cases hmem
  simp only [bind_ok, demand_ok] at h
  obtain ⟨t, ht, h⟩ := h
  split_ifs at h with hlt
  · rwa [Bank.balance_some ht]
  -- what is logged otherwise comes from the walk and the beneficiar
  simp only [bind_ok] at h
  obtain ⟨s, hs, net, -, h⟩ := h
  have hno : .underfunded bal need ∉ s.log := by
    intro hmem
    unfold splitRevenue at hs
    split_ifs at hs
    · cases affiliateWalk_log hs hmem
    · cases hs
      cases hmem
  unfold payBeneficiar at h
  split_ifs at h
  · simp only [bind_ok, Prod.exists, Except.ok.injEq, Prod.mk.injEq] at h
    obtain ⟨b₁, paid, -, rfl, rfl⟩ := h
    cases paid with
    | true => exact absurd (by simpa using hmem) hno
    | false => exact absurd hmem hno
  · cases h
    exact absurd hmem hno

end Grindurus.Grai
