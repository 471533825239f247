/-
`claim_all` against `claim`, asset by asset (`programs/grai/src/claim.rs`).

- `claimEach`: `claim(u64::MAX)` of every asset in registry order, each with the accounts that `claim_all` takes for it.
- `claim` opens the associated accounts of the holder and of the payer where they are missing, `claim_all` does not. `Opened`
  says what this comes to: the banks of the two differ in empty accounts only. `Paid`: a payment is the same over both banks,
  and keeps them as they are to each other, as long as no such account is a destination.
- `claimAsset_claims`: what `claim_all` does with one asset, `claim` does. `claimAssets_claims`: by induction, with all of them.
- `ClaimAll.Claimable`: where the checks that only `claim` makes go through. `claim_all_is_claim_each`: there the two are the
  same, after every run.

The two instructions share `payOut`, so their difference is in what surrounds it: the order of the checks, the accounts opened on
the way, and the price feed, which `claim` loads and `claim_all` does not. None of it moves tokens of the asset. The induction is
over the list of assets, with the bank of the one run in the relation `Opened` to that of the other.
-/
import Grindurus.Lib.Opened
import Grindurus.Grai.Affiliates
import Grindurus.Grai.Upkeep

namespace Grindurus.Grai

open Checked TokenBank Machine Function

/-! ## Asset by asset -/

/-- the claim of one asset with the accounts of its row -/
def ClaimAll.claim (a : ClaimAll) (feed : Feed) (mint : Key) (slots : ClaimSlots) (affiliate : List Key) : Claim where
  payer := a.payer
  holder := a.holder
  assetMint := mint
  priceFeed := feed
  beneficiarAta := slots.beneficiarAta
  remaining := affiliate
  amount := u64Max

/-- one `claim` after the other, in registry order -/
def claimEach (a : ClaimAll) (feeds : Key → Feed) (tail : ℕ) :
    List Key → List Key → World → Except ErrorCode (World × List TreasuryMsg)
  | [], _, w => .ok (w, [])
  | mint :: mints, remaining, w => do
    let (slots, rest) ← demand .panicked (takeSlots remaining)
    let (w, log) ← executeClaim w (a.claim (feeds mint) mint slots (rest.take tail))
    let (w, log') ← claimEach a feeds tail mints (rest.drop tail) w
    .ok (w, log ++ log')

/-- the instructions of that -/
def claimInstrs (a : ClaimAll) (feeds : Key → Feed) (tail : ℕ) : List Key → List Key → List Instr
  | [], _ => []
  | mint :: mints, remaining =>
    match takeSlots remaining with
    | none => []
    | some (slots, rest) =>
      .claim (a.claim (feeds mint) mint slots (rest.take tail)) :: claimInstrs a feeds tail mints (rest.drop tail)

/-- where a row may pay the treasury's share to: the beneficiar, and a slot of every level -/
def rowDestinations (slots : ClaimSlots) (affiliate : List Key) : List Key :=
  slots.beneficiarAta :: (List.range affiliate.length).filterMap fun level => affiliate[level * 3 + 2]?

def destinations (tail : ℕ) : List Key → List Key → List Key
  | [], _ => []
  | _ :: mints, remaining =>
    match takeSlots remaining with
    | none => []
    | some (slots, rest) => rowDestinations slots (rest.take tail) ++ destinations tail mints (rest.drop tail)

/-- the accounts that `claim` opens if they are missing -/
def ClaimAll.blank (a : ClaimAll) (mints : List Key) : Key → Option (Key × Key)
  | .ata u m => if (u = a.holder ∨ u = a.payer.key) ∧ m ∈ mints then some (m, u) else none
  | _ => none

variable {blank : Key → Option (Key × Key)} {w w' w₁ : World} {b b' b₁ b₂ c : Bank Key} {src dst k : Key} {x : ℕ}
  {d : Distribution}

/-! ## Payments over both banks -/

/-- `b₁` comes from `b` by payments, and `b₁'` is `b₁` with some of the blank accounts -/
structure Paid (blank : Key → Option (Key × Key)) (b b₁ b₁' : Bank Key) : Prop where
  opened : Bank.Opened blank b₁ b₁'
  mints : b₁.mints = b.mints
  slots : b₁.slots = b.slots

theorem Paid.refl (h : Bank.Opened blank b b') : Paid blank b b b' := ⟨h, rfl, rfl⟩

theorem Paid.trans (h : Paid blank b b₁ b') (h' : Paid blank b₁ b₂ c) : Paid blank b b₂ c :=
  ⟨h'.opened, h'.mints.trans h.mints, h'.slots.trans h.slots⟩

/-- what stands at `k` is the same in both banks -/
def Agreed (blank : Key → Option (Key × Key)) (b : Bank Key) (k : Key) : Prop := blank k = none ∨ b.slots k ≠ none

theorem Agreed.same (hk : Agreed blank b k) (h : Bank.Opened blank b b') : b'.accounts k = b.accounts k := by
  rcases hk with hblank | hstands
  · exact h.same hblank
  · obtain ⟨⟨m, o⟩, hslot⟩ := Option.ne_none_iff_exists'.1 hstands
    obtain ⟨a, ha, -⟩ := Bank.slots_some.1 hslot
    rw [ha]
    exact h.kept ha

theorem Agreed.paid (hk : Agreed blank b k) (h : Paid blank b b₁ b') : Agreed blank b₁ k := by
  unfold Agreed
  rw [h.slots]
  exact hk

theorem transferFromVault_opened (h : Bank.Opened blank b b') (hx : transferFromVault b src dst x = .ok b₁) :
    ∃ b₁', transferFromVault b' src dst x = .ok b₁' ∧ Paid blank b b₁ b₁' := by
  unfold transferFromVault at hx ⊢
  split_ifs at hx ⊢
  · cases hx
    exact ⟨b', rfl, .refl h⟩
  · have hx := spl_ok.1 hx
    obtain ⟨b₁', hx', hopened⟩ := h.transfer hx
    obtain ⟨hmints, hslots⟩ := Bank.transfer_slots hx
    exact ⟨b₁', spl_ok.2 hx', hopened, hmints, hslots⟩

/-- the vault pays the holder and the tip over both banks alike -/
theorem payClaim_paid {claimed tip : ℕ} {vault holderAta tipAta : Key} (h : Bank.Opened blank b b')
    (hx : payClaim b claimed tip vault holderAta tipAta = .ok b₁) :
    ∃ b₁', payClaim b' claimed tip vault holderAta tipAta = .ok b₁' ∧ Paid blank b b₁ b₁' := by
  simp only [payClaim, bind_ok] at hx ⊢
  obtain ⟨t, ht, toHolder, hsub, hx⟩ := hx
  split_ifs at hx ⊢
  · obtain ⟨b₁', hx', hpaid⟩ := transferFromVault_opened h hx
    exact ⟨b₁', ⟨t, ht, toHolder, hsub, hx'⟩, hpaid⟩
  · simp only [bind_ok] at hx ⊢
    obtain ⟨b₀, hx₀, hx⟩ := hx
    obtain ⟨b₀', hx₀', hpaid₀⟩ := transferFromVault_opened h hx₀
    obtain ⟨b₁', hx', hpaid⟩ := transferFromVault_opened hpaid₀.opened hx
    exact ⟨b₁', ⟨t, ht, toHolder, hsub, b₀', hx₀', hx'⟩, hpaid₀.trans hpaid⟩

/-- an empty account shows no NFT -/
theorem resolveCashflowPayee_opened (h : Bank.Opened blank b b') (book : Referrer) (referrer nftAta : Key) :
    resolveCashflowPayee b' book referrer nftAta = resolveCashflowPayee b book referrer nftAta := by
  unfold resolveCashflowPayee
  rcases h.accounts nftAta with hsame | ⟨m, o, -, hnone, hopen⟩
  · rw [hsame]
  · rw [hnone, hopen]
    simp

/-- whether a payment can be made does not depend on the empty accounts -/
theorem tryPay_paid {treasury destination payee : Key} {paid : Bool} (h : Bank.Opened blank b b')
    (hd : Agreed blank b destination) (hx : tryPayFromTreasury b treasury destination payee x = .ok (b₁, paid)) :
    ∃ b₁', tryPayFromTreasury b' treasury destination payee x = .ok (b₁', paid) ∧ Paid blank b b₁ b₁' := by
  unfold tryPayFromTreasury at hx ⊢
  rw [hd.same h]
  split_ifs at hx ⊢
  · cases hx
    exact ⟨b', rfl, .refl h⟩
  · cases hx
    exact ⟨b', rfl, .refl h⟩
  · split at hx
    · cases hx
      exact ⟨b', rfl, .refl h⟩
    · split_ifs at hx ⊢
      · cases hx
        exact ⟨b', rfl, .refl h⟩
      · simp only [bind_ok, Except.ok.injEq, Prod.mk.injEq] at hx ⊢
        obtain ⟨b₂, hx, rfl, rfl⟩ := hx
        obtain ⟨b₂', hx', hpaid⟩ := transferFromVault_opened h hx
        exact ⟨b₂', ⟨b₂', hx', rfl, rfl⟩, hpaid⟩

/-- one level of the affiliates, over both banks -/
theorem payLevel_paid {level share : ℕ} {referrer nftAta destination : Key} {book : Referrer} {s s₁ : Split}
    (h : Bank.Opened blank s.bank b') (hd : Agreed blank s.bank destination)
    (hx : payLevel d level share referrer book nftAta destination s = .ok s₁) :
    ∃ b₁', payLevel d level share referrer book nftAta destination { s with bank := b' } = .ok { s₁ with bank := b₁' } ∧
      Paid blank s.bank s₁.bank b₁' := by
  unfold payLevel at hx ⊢
  rw [resolveCashflowPayee_opened h]
  split at hx
  · simp only [bind_ok, Except.ok.injEq] at hx ⊢
    obtain ⟨n, hn, rfl⟩ := hx
    exact ⟨b', ⟨n, hn, rfl⟩, .refl h⟩
  · simp only [bind_ok, Prod.exists] at hx ⊢
    obtain ⟨b₂, paid, hpay, hx⟩ := hx
    obtain ⟨b₂', hpay', hpaid⟩ := tryPay_paid h hd hpay
    split_ifs at hx with hp
    · simp only [bind_ok, Except.ok.injEq] at hx
      obtain ⟨n, hn, rfl⟩ := hx
      refine ⟨b₂', ⟨b₂', paid, hpay', ?_⟩, hpaid⟩
      rw [if_pos hp]
      exact bind_ok.2 ⟨n, hn, rfl⟩
    · cases hx
      exact ⟨b₂', ⟨b₂', paid, hpay', by rw [if_neg hp]⟩, hpaid⟩

/-- the walk over the levels, by induction on them -/
theorem affiliateWalk_paid {levels level : ℕ} {cur : Key} {s s₁ : Split} (h : Bank.Opened blank s.bank b')
    (hd : ∀ n destination, d.remaining[n * 3 + 2]? = some destination → Agreed blank s.bank destination)
    (hx : affiliateWalk w d levels level cur s = .ok s₁) :
    ∃ b₁', affiliateWalk { w with bank := c } d levels level cur { s with bank := b' } = .ok { s₁ with bank := b₁' } ∧
      Paid blank s.bank s₁.bank b₁' := by
  induction levels generalizing level cur s b' with
  | zero =>
    cases hx
    exact ⟨b', rfl, .refl h⟩
  | succ levels ih =>
    simp only [affiliateWalk, bind_ok, demand_ok] at hx ⊢
    obtain ⟨refInfo, href, nftAta, hnft, destination, hdest, hx⟩ := hx
    have hsame : boundAncestor { w with bank := c } d refInfo cur = boundAncestor w d refInfo cur := rfl
    cases hancestor : boundAncestor w d refInfo cur with
    | none =>
      rw [hancestor] at hx
      cases hx
      exact ⟨b', ⟨refInfo, href, nftAta, hnft, destination, hdest, by rw [hsame, hancestor]⟩, .refl h⟩
    | some ancestor =>
      obtain ⟨referrer, book⟩ := ancestor
      rw [hancestor] at hx
      simp only [bind_ok, demand_ok] at hx
      obtain ⟨bps, hbps, share, hshare, s₂, hlevel, hx⟩ := hx
      obtain ⟨b₂', hlevel', hpaid⟩ := payLevel_paid h (hd _ _ hdest) hlevel
      obtain ⟨b₁', hx', hpaid'⟩ := ih hpaid.opened (fun n k hk => (hd n k hk).paid hpaid) hx
      refine ⟨b₁', ⟨refInfo, href, nftAta, hnft, destination, hdest, ?_⟩, hpaid.trans hpaid'⟩
      rw [hsame, hancestor]
      simp only [bind_ok, demand_ok]
      exact ⟨bps, hbps, share, hshare, _, hlevel', hx'⟩

theorem payBeneficiar_paid {net : ℕ} {s : Split} {log : List TreasuryMsg} (h : Bank.Opened blank s.bank b')
    (hd : Agreed blank s.bank d.beneficiarAta) (hx : payBeneficiar w d net s = .ok (b₁, log)) :
    ∃ b₁', payBeneficiar { w with bank := c } d net { s with bank := b' } = .ok (b₁', log) ∧ Paid blank s.bank b₁ b₁' := by
  unfold payBeneficiar at hx ⊢
  split_ifs at hx ⊢
  · simp only [bind_ok, Prod.exists, Except.ok.injEq, Prod.mk.injEq] at hx ⊢
    obtain ⟨b₂, paid, hpay, rfl, rfl⟩ := hx
    obtain ⟨b₂', hpay', hpaid⟩ := tryPay_paid h hd hpay
    exact ⟨b₂', ⟨b₂', paid, hpay', rfl, rfl⟩, hpaid⟩
  · cases hx
    exact ⟨b', rfl, .refl h⟩

/-- a split of the treasury's share is the same, if its destinations are -/
theorem splitGross_paid {log : List TreasuryMsg} (h : Bank.Opened blank w.bank b')
    (hd : ∀ n destination, d.remaining[n * 3 + 2]? = some destination → Agreed blank w.bank destination)
    (hb : Agreed blank w.bank d.beneficiarAta) (hx : splitGross w d = .ok (b₁, log)) :
    ∃ b₁', splitGross { w with bank := b' } d = .ok (b₁', log) ∧ Paid blank w.bank b₁ b₁' := by
  unfold splitGross at hx ⊢
  split_ifs at hx ⊢
  · cases hx
    exact ⟨b', rfl, .refl h⟩
  · simp only [bind_ok, demand_ok] at hx ⊢
    obtain ⟨t, ht, hx⟩ := hx
    have ht' : b'.accounts (.treasury d.mint) = some t := h.kept ht
    split_ifs at hx with hfunded
    · cases hx
      exact ⟨b', ⟨t, ht', by rw [if_pos hfunded]⟩, .refl h⟩
    · simp only [bind_ok] at hx
      obtain ⟨s, hs, net, hnet, hx⟩ := hx
      have hsplit : ∃ b₂, splitRevenue { w with bank := b' } d = .ok { s with bank := b₂ } ∧ Paid blank w.bank s.bank b₂ := by
        unfold splitRevenue at hs ⊢
        split_ifs at hs ⊢
        · exact affiliateWalk_paid (s := ⟨w.bank, 0, 0, []⟩) h hd hs
        · cases hs
          exact ⟨b', rfl, .refl h⟩
      obtain ⟨b₂, hs', hpaid⟩ := hsplit
      obtain ⟨b₁', hx', hpaid'⟩ := payBeneficiar_paid (w := w) (c := b') hpaid.opened (hb.paid hpaid) hx
      refine ⟨b₁', ⟨t, ht', ?_⟩, hpaid.trans hpaid'⟩
      rw [if_neg hfunded]
      simp only [bind_ok]
      exact ⟨_, hs', net, hnet, hx'⟩

/-! ## Books do not look at the bank -/

/-- the books are the same on both sides, so they are credited alike -/
theorem creditUplines_on {locker refKey : Key} {value levels level : ℕ} {remaining : List Key} {requireAncestors : Bool}
    (h : creditUplines locker value remaining requireAncestors levels level refKey w = .ok w') (b : Bank Key) :
    creditUplines locker value remaining requireAncestors levels level refKey { w with bank := b } =
      .ok { w' with bank := b } := by
  induction levels generalizing level refKey w with
  | zero =>
    cases h
    rfl
  | succ levels ih =>
    unfold creditUplines at h ⊢
    split_ifs at h ⊢
    · cases h
      rfl
    · dsimp only
      split at h
      · simp only [bind_ok] at h ⊢
        obtain ⟨up', hup, h⟩ := h
        refine ⟨up', hup, ?_⟩
        split_ifs at h ⊢
        · cases h
          rfl
        · exact ih h
      · simp only [bind_ok, require_ok, Except.ok.injEq] at h ⊢
        obtain ⟨-, hrequired, rfl⟩ := h
        exact ⟨(), hrequired, rfl⟩

theorem creditBooks_on {locker : Key} {value levels : ℕ} {remaining : List Key} {requireAncestors : Bool}
    (h : creditBooks w locker value levels remaining requireAncestors = .ok w') (b : Bank Key) :
    creditBooks { w with bank := b } locker value levels remaining requireAncestors = .ok { w' with bank := b } := by
  unfold creditBooks at h ⊢
  split_ifs at h ⊢
  · cases h
    rfl
  · dsimp only
    split at h
    · simp only [bind_ok, require_ok, Except.ok.injEq] at h ⊢
      obtain ⟨-, hrequired, rfl⟩ := h
      exact ⟨(), hrequired, rfl⟩
    · simp only [bind_ok] at h ⊢
      obtain ⟨n, hn, h⟩ := h
      exact ⟨n, hn, creditUplines_on h b⟩

theorem creditClaim_on (h : creditClaim w d = .ok w') (b : Bank Key) :
    creditClaim { w with bank := b } d = .ok { w' with bank := b } := by
  simp only [creditClaim, bind_ok] at h ⊢
  obtain ⟨_, hlen, h⟩ := h
  refine ⟨_, hlen, ?_⟩
  have hensure : ensureReferrerAccount { w with bank := b } d.locker = ensureReferrerAccount w d.locker := rfl
  rw [hensure]
  split_ifs at h ⊢
  · exact creditBooks_on h b
  · exact creditBooks_on h b

/-! ## One asset -/

/-- the same payout over a bank with some of the blank accounts -/
theorem payOut_paid {p : Payout} {asset : AssetConfig} {position : Position} {log : List TreasuryMsg}
    (h : Bank.Opened blank w.bank b')
    (hd : ∀ n destination, p.remaining[n * 3 + 2]? = some destination → Agreed blank w.bank destination)
    (hb : Agreed blank w.bank p.beneficiarAta) (hx : payOut w p asset position = .ok (w', log)) :
    ∃ b₁', payOut { w with bank := b' } p asset position = .ok ({ w' with bank := b₁' }, log) ∧
      Paid blank w.bank w'.bank b₁' := by
  simp only [payOut, distributeClaimTreasury, bind_ok, Prod.exists, Except.ok.injEq, Prod.mk.injEq] at hx ⊢
  obtain ⟨b₁, hb₁, gross, revenue, hshares, w₂, log', ⟨w₁, hcredit, b₂, log'', hsplit, rfl, rfl⟩, n, hn, rfl, rfl⟩ := hx
  obtain ⟨b₁', hb₁', hpaid₁⟩ := payClaim_paid h hb₁
  have hbank := (creditClaim_booked hcredit).bank
  have hcredit' := creditClaim_on hcredit b₁'
  have hopened : Bank.Opened blank w₁.bank b₁' := by
    rw [hbank]
    exact hpaid₁.opened
  have hsplit' := splitGross_paid hopened (fun n k hk => by rw [hbank]; exact (hd n k hk).paid hpaid₁)
    (by rw [hbank]; exact hb.paid hpaid₁) hsplit
  obtain ⟨b₂', hsplit', hpaid₂⟩ := hsplit'
  rw [hbank] at hpaid₂
  exact ⟨b₂', ⟨b₁', hb₁', gross, revenue, hshares, _, log'', ⟨_, hcredit', b₂', log'', hsplit', rfl, rfl⟩, n, hn, rfl, rfl⟩,
    hpaid₁.trans hpaid₂⟩

/-- `init_if_needed` of an account that stands, or is among the blank ones -/
theorem initAta_opened {u m : Key} (h : Bank.Opened blank b b') (hmint : b.mints m ≠ none)
    (hata : b.slots (.ata u m) = some (m, u) ∨
      b.slots (.ata u m) = none ∧ b.mints (.ata u m) = none ∧ blank (.ata u m) = some (m, u)) :
    ∃ b₁', initAta b' u m = .ok b₁' ∧ Bank.Opened blank b b₁' := by
  have hstands : ∀ a, b'.accounts (.ata u m) = some a → a.mint = m ∧ a.owner = u → initAta b' u m = .ok b' := by
    intro a ha hslot
    unfold initAta initTokenAccount
    rw [ha]
    simp only [bind_ok, require_ok]
    exact ⟨(), hslot, trivial⟩
  rcases hata with hslot | ⟨hnone, hfree, hblank⟩
  · obtain ⟨a, ha, hm, ho⟩ := Bank.slots_some.1 hslot
    exact ⟨b', hstands a (h.kept ha) ⟨hm, ho⟩, h⟩
  · rw [Bank.slots_none] at hnone
    rcases h.accounts (.ata u m) with hsame | ⟨m', o', hblank', -, hopen⟩
    · have hnone' : b'.accounts (.ata u m) = none := hsame.trans hnone
      obtain ⟨t, ht⟩ := Option.ne_none_iff_exists'.1 hmint
      have hopen : b'.openAccount (.ata u m) m u = .ok (b'.put (.ata u m) ⟨m, u, 0⟩) := by
        simp only [Bank.openAccount, bind_ok, require_ok, demand_ok]
        rw [h.mints]
        exact ⟨(), ⟨hnone', hfree⟩, t, ht, trivial⟩
      refine ⟨_, ?_, h.openAccount hblank hnone hopen⟩
      unfold initAta initTokenAccount
      rw [hnone']
      exact spl_ok.2 hopen
    · -- opened before: the payer is the holder
      cases hblank.symm.trans hblank'
      exact ⟨b', hstands _ hopen ⟨rfl, rfl⟩, h⟩

/-- what `claim` checks of the mint `m` and `claim_all` does not -/
structure Ready (a : ClaimAll) (feeds : Key → Feed) (blank : Key → Option (Key × Key)) (w : World) (m : Key) : Prop where
  authority : ∀ t, w.bank.mints m = some t → t.mintAuthority ≠ some .protocol
  feed : ∀ asset, w.assets m = some asset → (feeds m).key = asset.priceFeed ∧ (feeds m).matchesAssetMint = true ∧
    (feeds m).price = a.feed asset.priceFeed
  treasury : ∀ asset, w.assets m = some asset → ∃ o, w.bank.slots (.treasury m) = some (m, o)
  ata : ∀ u, u = a.holder ∨ u = a.payer.key → w.bank.slots (.ata u m) = some (m, u) ∨
    w.bank.slots (.ata u m) = none ∧ w.bank.mints (.ata u m) = none ∧ blank (.ata u m) = some (m, u)

theorem mem_rowDestinations {slots : ClaimSlots} {affiliate : List Key} {n : ℕ} (h : affiliate[n * 3 + 2]? = some k) :
    k ∈ rowDestinations slots affiliate := by
  obtain ⟨hlt, -⟩ := List.getElem?_eq_some_iff.1 h
  exact List.mem_cons_of_mem _ (List.mem_filterMap.2 ⟨n, List.mem_range.2 (by omega), h⟩)

/-- the accounts of the claim load -/
theorem claim_load {a : ClaimAll} {feeds : Key → Feed} {m : Key} {escrow : Escrow} {asset : AssetConfig} {t : MintAccount Key}
    (slots : ClaimSlots) (affiliate : List Key) (h : Bank.Opened blank w.bank b') (hr : Ready a feeds blank w m)
    (he : loadEscrow w a.holder = .ok escrow) (ht : loadMint w.bank m = .ok t) (ha : w.assets m = some asset)
    (hmint : asset.assetMint = m) (hv : ∃ v, w.bank.accounts (.vault m) = some v ∧ v.mint = m) :
    ∃ b₁', Claim.load { w with bank := b' } (a.claim (feeds m) m slots affiliate) = .ok (escrow, t, asset, b₁') ∧
      Bank.Opened blank w.bank b₁' := by
  have ht := demand_ok.1 ht
  have hsome : w.bank.mints m ≠ none := by
    rw [ht]
    exact Option.some_ne_none t
  obtain ⟨b₁, hb₁, hopened₁⟩ := initAta_opened h hsome (hr.ata a.holder (.inl rfl))
  obtain ⟨b₂, hb₂, hopened₂⟩ := initAta_opened hopened₁ hsome (hr.ata a.payer.key (.inr rfl))
  have hmint' : loadMint b' m = .ok t := by
    unfold loadMint
    rw [h.mints]
    exact demand_ok.2 ht
  have hasset : loadAssetAccount { w with bank := b' } m = .ok asset := by
    simp only [loadAssetAccount, bind_ok, demand_ok, require_ok]
    exact ⟨asset, ha, (), hmint, rfl⟩
  obtain ⟨hkey, hmatches, -⟩ := hr.feed asset ha
  have hfeed : loadFeed asset (feeds m) = .ok () := by
    simp only [loadFeed, bind_ok, require_ok]
    exact ⟨(), hkey, hmatches⟩
  have hcustody : ∀ j, (∃ v, w.bank.accounts j = some v ∧ v.mint = m) → ∃ v, loadCustody b' j m = .ok v := by
    rintro j ⟨v, hv, hvm⟩
    simp only [loadCustody, loadTokenAccount, bind_ok, demand_ok, require_ok]
    exact ⟨v, v, h.kept hv, (), hvm, rfl⟩
  obtain ⟨v, hvault⟩ := hcustody _ hv
  obtain ⟨o, hslot⟩ := hr.treasury asset ha
  obtain ⟨tr, htr, htrm, -⟩ := Bank.slots_some.1 hslot
  obtain ⟨tr, htreasury⟩ := hcustody _ ⟨tr, htr, htrm⟩
  refine ⟨b₂, ?_, hopened₂⟩
  simp only [Claim.load, ClaimAll.claim, bind_ok]
  exact ⟨escrow, he, t, hmint', asset, hasset, (), hfeed, v, hvault, tr, htreasury, b₁, hb₁, b₂, hb₂, rfl⟩

/-- the accounts of a claim load into the bank `b`, and its position is settled -/
def Claim.Settles (w : World) (a : Claim) (t : MintAccount Key) (asset : AssetConfig) (b : Bank Key) (position : Position) : Prop :=
  ∃ escrow loaded, a.load w = .ok (escrow, t, asset, b) ∧ t.mintAuthority ≠ some .protocol ∧
    loadOrInitPosition w (.position a.holder a.assetMint) a.holder a.assetMint = .ok loaded ∧
    settleLoaded asset.accShare escrow.amount escrow.amount loaded = .ok position

/-- the world in which a claim pays -/
def Claim.settled (w : World) (a : Claim) (b : Bank Key) (position : Position) : World :=
  World.storePosition { w with bank := b } a.holder a.assetMint position

/-- what a claim pays: a position without dividends nothing -/
def Claim.claimed (w : World) (a : Claim) (asset : AssetConfig) (position : Position) : ℕ :=
  min (min (previewClaim a.amount position.claimable) (w.vaultOf a.assetMint)) asset.totalClaimable

section

variable {a : Claim} {t : MintAccount Key} {asset : AssetConfig} {position : Position} {r : World × List TreasuryMsg}

theorem executeClaim_nothing (hs : a.Settles w t asset b position) (h : a.claimed (a.settled w b position) asset position = 0) :
    executeClaim w a = .ok (a.settled w b position, []) := by
  obtain ⟨escrow, loaded, hload, hauthority, hloaded, hsettled⟩ := hs
  simp only [executeClaim, bind_ok, require_ok, Prod.exists]
  refine ⟨escrow, t, asset, b, hload, (), hauthority, loaded.1, loaded.2, hloaded, position, hsettled, ?_⟩
  split_ifs with hnone hzero
  · rfl
  · rfl
  · exact absurd h hzero

/-- a claim of everything, after the accounts it opens -/
theorem executeClaim_pays {price : PriceData} {value : ℕ} (hs : a.Settles w t asset b position)
    (h : a.claimed (a.settled w b position) asset position ≠ 0)
    (hprice : fetchAssetPrice asset a.assetMint a.priceFeed = .ok price)
    (hvalue : usdValue (a.claimed (a.settled w b position) asset position) t.decimals price = .ok value)
    (hpay : payOut (a.settled w b position) ⟨a.payer.key, a.holder, a.assetMint,
      a.claimed (a.settled w b position) asset position, value, a.beneficiarAta, a.remaining⟩ asset position = .ok r) :
    executeClaim w a = .ok r := by
  obtain ⟨escrow, loaded, hload, hauthority, hloaded, hsettled⟩ := hs
  have hpos : position.claimable ≠ 0 := by
    intro hnone
    apply h
    simp [Claim.claimed, hnone, previewClaim]
  simp only [executeClaim, bind_ok, require_ok, Prod.exists]
  refine ⟨escrow, t, asset, b, hload, (), hauthority, loaded.1, loaded.2, hloaded, position, hsettled, ?_⟩
  split_ifs with hnone hzero
  · exact absurd hnone hpos
  · exact absurd hzero h
  · simp only [bind_ok]
    exact ⟨price, hprice, value, hvalue, hpay⟩

end

/-- **One asset.** What `claim_all` does with it, `claim` does. -/
theorem claimAsset_claims {a : ClaimAll} {feeds : Key → Feed} {m : Key} {slots : ClaimSlots} {affiliate : List Key}
    {escrow : Escrow} {log : List TreasuryMsg} (h : Bank.Opened blank w.bank b') (hr : Ready a feeds blank w m)
    (he : loadEscrow w a.holder = .ok escrow) (hd : ∀ k ∈ rowDestinations slots affiliate, Agreed blank w.bank k)
    (hx : claimAsset w a escrow.amount m slots affiliate = .ok (w', log)) :
    ∃ b₁', executeClaim { w with bank := b' } (a.claim (feeds m) m slots affiliate) = .ok ({ w' with bank := b₁' }, log) ∧
      Paid blank w.bank w'.bank b₁' := by
  simp only [claimAsset, bind_ok, require_ok] at hx
  obtain ⟨_, -, asset, hasset, _, hposition, _, hvault, _, -, _, -, t, ht, loaded, hloaded, position, hsettled, hx⟩ := hx
  have ha := loadAssetConfig_ok hasset
  have hmint : asset.assetMint = m := by
    simp only [loadAssetConfig, bind_ok, demand_ok, require_ok, Except.ok.injEq] at hasset
    obtain ⟨_, -, _, -, _, hmint, rfl⟩ := hasset
    exact hmint
  have hv : ∃ v, w.bank.accounts (.vault m) = some v ∧ v.mint = m := by
    simp only [requireVaultPda, bind_ok, demand_ok, require_ok] at hvault
    obtain ⟨_, hkey, v, hv, hvm⟩ := hvault
    rw [hkey] at hv
    exact ⟨v, hv, hvm⟩
  obtain ⟨b₁, hload, hopened⟩ := claim_load slots affiliate h hr he ht ha hmint hv
  rw [hposition] at hloaded
  have hsettles : (a.claim (feeds m) m slots affiliate).Settles { w with bank := b' } t asset b₁ position :=
    ⟨escrow, loaded, hload, hr.authority t (demand_ok.1 ht), hloaded, hsettled⟩
  -- the vault holds the same in both banks
  have hclaimed : (a.claim (feeds m) m slots affiliate).claimed
      ((a.claim (feeds m) m slots affiliate).settled { w with bank := b' } b₁ position) asset position =
      min (min (previewClaim u64Max position.claimable) ((w.storePosition a.holder m position).vaultOf m))
        asset.totalClaimable := by
    have hbalance : b₁.balance (.vault m) = w.bank.balance (.vault m) := congrFun hopened.balance _
    show min (min _ (b₁.balance (.vault m))) _ = _
    rw [hbalance]
    rfl
  rw [← hclaimed] at hx
  split_ifs at hx with hzero
  · cases hx
    exact ⟨b₁, executeClaim_nothing hsettles hzero, .refl hopened⟩
  · simp only [bind_ok, require_ok] at hx
    obtain ⟨price, hprice, value, hvalue, _, -, _, -, hx⟩ := hx
    have hpaid := payOut_paid (w := w.storePosition a.holder m position) hopened
      (fun n k hk => hd k (mem_rowDestinations hk)) (hd _ List.mem_cons_self) hx
    obtain ⟨b₁', hpay, hpaid⟩ := hpaid
    refine ⟨b₁', executeClaim_pays hsettles hzero ?_ hvalue hpay, hpaid⟩
    obtain ⟨hkey, -, hsame⟩ := hr.feed asset ha
    simp only [fetchPriceFromFeed, bind_ok, require_ok] at hprice
    obtain ⟨_, hslot, hprice⟩ := hprice
    rw [hslot, ← hsame] at hprice
    simp only [fetchAssetPrice, fetchPriceFromFeed, bind_ok, require_ok]
    exact ⟨(), hmint.symm, (), hkey, hprice⟩

/-! ## All assets -/

/-- the claims of the single assets, one after the other -/
theorem claimEach_run {a : ClaimAll} {feeds : Key → Feed} {tail : ℕ} {mints remaining : List Key} {log : List TreasuryMsg}
    (h : claimEach a feeds tail mints remaining w = .ok (w', log)) :
    run step w (claimInstrs a feeds tail mints remaining) = w' := by
  induction mints generalizing remaining w log with
  | nil =>
    cases h
    rfl
  | cons m mints ih =>
    simp only [claimEach, bind_ok, demand_ok, Prod.exists, Except.ok.injEq, Prod.mk.injEq] at h
    obtain ⟨slots, rest, hslots, w₁, _, h₁, w₂, _, h₂, rfl, -⟩ := h
    have hstep : step w (.claim (a.claim (feeds m) m slots (rest.take tail))) = .ok w₁ := by
      simp only [step, bind_ok, Prod.exists]
      exact ⟨w₁, _, h₁, rfl⟩
    unfold claimInstrs
    rw [hslots]
    dsimp only
    rw [run_cons, exec_ok hstep]
    exact ih h₂

/-- a claim rewrites reserves, and no feed -/
theorem claimAsset_frame {a : ClaimAll} {locked : ℕ} {m : Key} {slots : ClaimSlots} {affiliate : List Key}
    {log : List TreasuryMsg} (h : claimAsset w a locked m slots affiliate = .ok (w', log)) :
    w'.escrows = w.escrows ∧
      ∀ n asset', w'.assets n = some asset' → ∃ asset, w.assets n = some asset ∧ asset'.priceFeed = asset.priceFeed := by
  obtain ⟨asset, _, position, ha, -, -, ⟨rfl, -⟩ | ⟨_, _, -, hpay⟩⟩ := claimAsset_cases h
  · exact ⟨rfl, fun n asset' hn => ⟨asset', hn, rfl⟩⟩
  · obtain ⟨b, _, _, w₁, -, -, hdist, -, rfl⟩ := payOut_pays hpay
    obtain ⟨w₂, b₂, _, hq, -, -, rfl⟩ := distributeClaimTreasury_ok hdist
    refine ⟨hq.escrows, fun n asset' hn => ?_⟩
    rcases eq_or_ne n m with rfl | hne
    · simp only [World.storeAsset, update_self, Option.some.injEq] at hn
      subst hn
      exact ⟨asset, ha, rfl⟩
    · simp only [World.storeAsset, update_of_ne hne, World.storePosition, hq.assets] at hn
      exact ⟨asset', hn, rfl⟩

/-- a payment keeps the accounts ready for the next asset -/
theorem Ready.paid {a : ClaimAll} {feeds : Key → Feed} {n : Key} (hr : Ready a feeds blank w n)
    (h : Paid blank w.bank w'.bank b')
    (ha : ∀ n asset', w'.assets n = some asset' → ∃ asset, w.assets n = some asset ∧ asset'.priceFeed = asset.priceFeed) :
    Ready a feeds blank w' n := by
  refine ⟨fun t ht => ?_, fun asset' hn => ?_, fun asset' hn => ?_, fun u hu => ?_⟩
  · rw [h.mints] at ht
    exact hr.authority t ht
  · obtain ⟨asset, hasset, hfeed⟩ := ha n asset' hn
    rw [hfeed]
    exact hr.feed asset hasset
  · obtain ⟨asset, hasset, -⟩ := ha n asset' hn
    rw [h.slots]
    exact hr.treasury asset hasset
  · rw [h.slots, h.mints]
    exact hr.ata u hu

/-- **Every asset**, by induction on the registry: the bank of the claims keeps its few more accounts. -/
theorem claimAssets_claims {a : ClaimAll} {feeds : Key → Feed} {escrow : Escrow} {tail : ℕ} {mints remaining : List Key}
    {log : List TreasuryMsg} (h : Bank.Opened blank w.bank b') (hr : ∀ m ∈ mints, Ready a feeds blank w m)
    (he : loadEscrow w a.holder = .ok escrow) (hd : ∀ k ∈ destinations tail mints remaining, Agreed blank w.bank k)
    (hx : claimAssets a escrow.amount tail mints remaining w = .ok (w', log)) :
    ∃ b₁', claimEach a feeds tail mints remaining { w with bank := b' } = .ok ({ w' with bank := b₁' }, log) ∧
      Paid blank w.bank w'.bank b₁' := by
  induction mints generalizing remaining w b' log with
  | nil =>
    cases hx
    exact ⟨b', rfl, .refl h⟩
  | cons m mints ih =>
    simp only [claimAssets, bind_ok, demand_ok, Prod.exists, Except.ok.injEq, Prod.mk.injEq] at hx
    obtain ⟨slots, rest, hslots, w₁, log₁, h₁, w₂, log₂, h₂, rfl, rfl⟩ := hx
    unfold destinations at hd
    rw [hslots] at hd
    simp only [List.mem_append] at hd
    obtain ⟨b₁, hclaim, hpaid⟩ := claimAsset_claims h (hr m List.mem_cons_self) he (fun k hk => hd k (.inl hk)) h₁
    obtain ⟨hescrows, hassets⟩ := claimAsset_frame h₁
    have he₁ : loadEscrow w₁ a.holder = .ok escrow := by
      unfold loadEscrow
      rw [hescrows]
      exact he
    have hr₁ : ∀ n ∈ mints, Ready a feeds blank w₁ n := fun n hn => (hr n (List.mem_cons_of_mem _ hn)).paid hpaid hassets
    obtain ⟨b₂, hrest, hpaid₂⟩ := ih hpaid.opened hr₁ he₁ (fun k hk => (hd k (.inr hk)).paid hpaid) h₂
    refine ⟨b₂, ?_, hpaid.trans hpaid₂⟩
    simp only [claimEach, bind_ok, demand_ok, Prod.exists]
    exact ⟨slots, rest, hslots, _, log₁, hclaim, _, log₂, hrest, rfl⟩

/-- **What only `claim` checks** goes through for every listed mint: `grai_state` does not hold its mint authority, its feed
is the listed one and still its own, and the associated accounts of the holder and of the payer are theirs, or are not there
yet and not passed in as a destination. -/
structure ClaimAll.Claimable (a : ClaimAll) (w : World) (feeds : Key → Feed) : Prop where
  authority : ∀ m ∈ w.state.assetMints, ∀ t, w.bank.mints m = some t → t.mintAuthority ≠ some .protocol
  feed : ∀ m ∈ w.state.assetMints, ∀ asset, w.assets m = some asset → (feeds m).key = asset.priceFeed ∧
    (feeds m).matchesAssetMint = true ∧ (feeds m).price = a.feed asset.priceFeed
  ata : ∀ m ∈ w.state.assetMints, ∀ u, u = a.holder ∨ u = a.payer.key → w.bank.slots (.ata u m) = some (m, u) ∨
    w.bank.slots (.ata u m) = none ∧ w.bank.mints (.ata u m) = none ∧
      .ata u m ∉ destinations (affiliateClaimRemainingLen w.state.affiliateLevels) w.state.assetMints a.remaining

/-- `v` is `w`, but for token accounts that hold nothing -/
structure SameState (w v : World) : Prop where
  rest : v = { w with bank := v.bank }
  balance : v.bank.balance = w.bank.balance
  supply : v.bank.supply = w.bank.supply

/-- **`claim_all` is `claim`, asset by asset.** Where it succeeds, so does every claim, and they end in the same state.

The hypotheses are the checks that only `claim` makes, of the price feed and of the accounts that it opens. -/
theorem claim_all_is_claim_each (g : Genesis) (is : List Instr) {a : ClaimAll} {feeds : Key → Feed} {w' : World}
    {log : List TreasuryMsg} (hc : a.Claimable (g.after is) feeds) (h : executeClaimAll (g.after is) a = .ok (w', log)) :
    ∃ v, claimEach a feeds (affiliateClaimRemainingLen (g.after is).state.affiliateLevels) (g.after is).state.assetMints
        a.remaining (g.after is) = .ok (v, log) ∧
      g.after (is ++ claimInstrs a feeds (affiliateClaimRemainingLen (g.after is).state.affiliateLevels)
        (g.after is).state.assetMints a.remaining) = v ∧
      SameState w' v := by
  generalize hw : g.after is = w at hc h ⊢
  simp only [executeClaimAll, bind_ok, require_ok] at h
  obtain ⟨escrow, he, -, -, h⟩ := h
  have hready : ∀ m ∈ w.state.assetMints, Ready a feeds (a.blank w.state.assetMints) w m := by
    intro m hm
    refine ⟨hc.authority m hm, hc.feed m hm, fun asset hasset => ?_, fun u hu => ?_⟩
    · have hfunded := g.after_funded is m
      rw [hw] at hfunded
      obtain ⟨t, ht, ho, htm⟩ := hfunded asset hasset
      exact ⟨.protocol, Bank.slots_some.2 ⟨t, ht, htm, ho⟩⟩
    · rcases hc.ata m hm u hu with hstands | ⟨hnone, hfree, -⟩
      · exact .inl hstands
      · exact .inr ⟨hnone, hfree, by simp [ClaimAll.blank, hu, hm]⟩
  have hagreed : ∀ k ∈ destinations (affiliateClaimRemainingLen w.state.affiliateLevels) w.state.assetMints a.remaining,
      Agreed (a.blank w.state.assetMints) w.bank k := by
    intro k hk
    cases hblank : a.blank w.state.assetMints k with
    | none => exact .inl hblank
    | some slot =>
      refine .inr fun hnone => ?_
      cases k with
      | ata u m =>
        simp only [ClaimAll.blank, Option.ite_none_right_eq_some] at hblank
        rcases hc.ata m hblank.1.2 u hblank.1.1 with hstands | ⟨-, -, hnot⟩
        · cases hnone.symm.trans hstands
        · exact hnot hk
      | _ => cases hblank
  obtain ⟨b, heach, hpaid⟩ := claimAssets_claims (.refl _ w.bank) hready he hagreed h
  refine ⟨_, heach, ?_, rfl, hpaid.opened.balance, hpaid.opened.supply⟩
  rw [Genesis.after, run_append]
  have hrun := claimEach_run heach
  rw [← hrun, ← hw]
  rfl

/-- the row of `m` when wallet `payer` claims for wallet 2, with these accounts for the affiliate walk -/
def Sample.row (payer : ℕ) (m : Key) (affiliate : List Key) : List Key :=
  [m, .asset m, .key 200, .position (Sample.user 2) m, .vault m, .ata (Sample.user 2) m, .ata (Sample.user payer) m,
    .treasury m, .ata (Sample.user 1) m] ++ affiliate

def Sample.claimAll (payer : ℕ) (rows : List Key) : ClaimAll where
  payer := Sample.wallet payer
  holder := Sample.user 2
  remaining := rows
  feed _ := .ok ⟨1, 0⟩

/-- wallet 6 claims for wallet 2, whose shares go to wallet 3 -/
theorem claim_all_is_claim_each_two :
    ∃ r v, executeClaimAll (Sample.genesis.after yieldUnderThree) (Sample.claimAll 6 (Sample.row 6 Sample.usdc slotsOfThree)) = .ok r ∧
      claimEach (Sample.claimAll 6 (Sample.row 6 Sample.usdc slotsOfThree)) (fun _ => Sample.feed) 7 [Sample.usdc]
        (Sample.row 6 Sample.usdc slotsOfThree) (Sample.genesis.after yieldUnderThree) = .ok (v, r.2) ∧ SameState r.1 v := by
  have hmints : (Sample.genesis.after yieldUnderThree).state.assetMints = [Sample.usdc] := by decide +kernel
  have hclaimable : (Sample.claimAll 6 (Sample.row 6 Sample.usdc slotsOfThree)).Claimable
      (Sample.genesis.after yieldUnderThree) fun _ => Sample.feed := by
    refine ⟨?_, ?_, ?_⟩
    all_goals
      rw [hmints]
      intro m hm
      obtain rfl := List.mem_singleton.1 hm
    · intro t ht
      have hmint : (Sample.genesis.after yieldUnderThree).bank.mints Sample.usdc = some ⟨6, 10 ^ 19, none⟩ := by decide +kernel
      cases hmint.symm.trans ht
      exact nofun
    · intro asset ha
      have hasset : (Sample.genesis.after yieldUnderThree).assets Sample.usdc =
          some ⟨Sample.usdc, .key 200, false, false, 0, 5 * 10 ^ 18, 5000, 10000, 0⟩ := by decide +kernel
      cases hasset.symm.trans ha
      exact ⟨rfl, rfl, rfl⟩
    · rintro u (rfl | rfl)
      · exact .inl (by decide +kernel)
      · exact .inl (by decide +kernel)
  have hok : (executeClaimAll (Sample.genesis.after yieldUnderThree)
      (Sample.claimAll 6 (Sample.row 6 Sample.usdc slotsOfThree))).toBool = true := by decide +kernel
  cases hr : executeClaimAll (Sample.genesis.after yieldUnderThree)
      (Sample.claimAll 6 (Sample.row 6 Sample.usdc slotsOfThree)) with
  | ok r =>
    obtain ⟨v, heach, -, hsame⟩ := claim_all_is_claim_each Sample.genesis yieldUnderThree hclaimable hr
    rw [hmints] at heach
    exact ⟨r, v, rfl, heach, hsame⟩
  | error e =>
    rw [hr] at hok
    cases hok

/-- the mint authority of another asset, which wallet 5 holds, is handed to the program -/
def handedOver : List Instr :=
  yieldUnderThree ++ [.token (Sample.wallet 5) (.createMint (.key 102) 6 (Sample.user 5)), Sample.listing (.key 102) false,
    .token (Sample.wallet 5) (.setMintAuthority (.key 102) (some .protocol))]

/-- wallet 2 hands the account it is paid in to wallet 7 -/
def reassigned : List Instr :=
  yieldUnderThree ++ [.token (Sample.wallet 2) (.setOwner (.ata (Sample.user 2) Sample.usdc) (Sample.user 7))]

/-- the beneficiar, wallet 1, empties and closes the account it would be paid in; the yield is too small for a tip -/
def closed : List Instr :=
  yieldUnderThree.take 4 ++ [Sample.distribute 5 10 Sample.usdc,
    .token (Sample.wallet 1) (.transfer (.ata (Sample.user 1) Sample.usdc) (.ata (Sample.user 5) Sample.usdc) (10 ^ 18 + 2000)),
    .token (Sample.wallet 1) (.closeAccount (.ata (Sample.user 1) Sample.usdc))]

/-- `claim_all` succeeds where `claim` refuses an asset (for its mint authority, for the account of the holder, for its feed),
and where the beneficiar claims for another it leaves its share in the treasury, which `claim` pays out -/
theorem claim_all_without_claim :
    let rows payer m := Sample.row payer m slotsOfThree
    let two := Sample.claimAll 6 (rows 6 Sample.usdc ++ rows 6 (.key 102))
    let one payer := Sample.claimAll payer (rows payer Sample.usdc)
    (executeClaimAll (Sample.genesis.after handedOver) two).toBool = true ∧
      refusal (claimEach two (fun _ => Sample.feed) 7 [Sample.usdc, .key 102] two.remaining (Sample.genesis.after handedOver)) =
        some .assetUnknown ∧
      (executeClaimAll (Sample.genesis.after reassigned) (one 6)).toBool = true ∧
      refusal (claimEach (one 6) (fun _ => Sample.feed) 7 [Sample.usdc] (one 6).remaining (Sample.genesis.after reassigned)) =
        some (.constraintToken (.ata (Sample.user 2) Sample.usdc)) ∧
      (executeClaimAll (Sample.genesis.after (yieldUnderThree.take 4)) (one 6)).toBool = true ∧
      refusal (claimEach (one 6) (fun _ => { Sample.feed with matchesAssetMint := false }) 7 [Sample.usdc] (one 6).remaining
        (Sample.genesis.after (yieldUnderThree.take 4))) = some .invalidCustomPriceFeed ∧
      ((executeClaimAll (Sample.genesis.after closed) (one 1)).toOption.map fun r => r.1.treasuryOf Sample.usdc) = some 5 ∧
      ((claimEach (one 1) (fun _ => Sample.feed) 7 [Sample.usdc] (one 1).remaining (Sample.genesis.after closed)).toOption.map
        fun r => r.1.treasuryOf Sample.usdc) = some 0 := by
  decide +kernel

end Grindurus.Grai
