/-
When an unlock succeeds.

- `minUnlock`: the smallest amount that pays a penalty at all, below which `previewUnlock` refuses.
- `Unlock.Canonical`: the unlock is given the accounts a client derives for it. `Unlocked`: what it has to do.
- `unlock_iff`: after every run, with liquidation closed, an unlock does it if and only if the amount is at least `minUnlock`
  and every pending dividend fits in 64 bits. The lock is not asked for: a lock below `minUnlock` cannot be left at once.

The penalty is rounded down, and the code refuses an unlock whose penalty would round to zero. This is meant for splitting an
unlock into parts too small to pay; it also refuses a full exit from a small lock, where there is nothing to split. `unlock_iff`
states the exact condition, for accounts derived as a client derives them.
-/
import Grindurus.Grai.Upkeep
import Grindurus.Grai.Exits

namespace Grindurus.Grai

open Checked TokenBank Machine Function

variable {w w' : World} {b b' : Bank Key} {m u k src dst : Key} {e : Escrow} {x : ℕ}

/-! ## The penalty -/

/-- the smallest unlock that is accepted; nothing is too small without a penalty -/
def minUnlock (unlockPenaltyBps : ℕ) : ℕ :=
  if unlockPenaltyBps = 0 then 0 else (BPS + unlockPenaltyBps - 1) / unlockPenaltyBps

/-- the quote answers exactly from the smallest unlock on -/
theorem previewUnlock_iff {g l bps : ℕ} (hpos : 0 < g) (hle : g ≤ l) (hg : g < 2 ^ 64) (hbps : bps ≤ BPS) :
    Succeeds (previewUnlock g l bps) ↔ minUnlock bps ≤ g := by
  unfold minUnlock
  by_cases h0 : bps = 0
  · rw [if_pos h0]
    refine ⟨fun _ => Nat.zero_le g, fun _ => ⟨(g, 0), ?_⟩⟩
    unfold previewUnlock
    rw [if_pos (.inl h0)]
    simp only [bind_ok, require_ok]
    exact ⟨(), hle, trivial⟩
  · rw [if_neg h0]
    constructor
    · rintro ⟨⟨x, p⟩, h⟩
      simp only [previewUnlock, bind_ok, require_ok] at h
      obtain ⟨-, -, h⟩ := h
      rw [if_neg (by omega)] at h
      simp only [bind_ok, require_ok] at h
      exact h.choose_spec.1
    · intro hmin
      have hbps' : bps ≤ 10000 := hbps
      have hmul : g * bps ≤ g * 10000 := Nat.mul_le_mul_left _ hbps'
      have hpenalty : (g * bps + (BPS - 1)) / BPS ≤ g := by
        have hlt : (g * bps + (BPS - 1)) / BPS < g + 1 := by
          apply Nat.div_lt_of_lt_mul
          unfold BPS
          omega
        omega
      refine ⟨⟨g - (g * bps + (BPS - 1)) / BPS, (g * bps + (BPS - 1)) / BPS⟩, ?_⟩
      unfold previewUnlock
      rw [if_neg (by omega)]
      simp only [bind_ok, require_ok, checkedMul_ok, checkedAdd_ok, checkedDiv_ok, narrow_ok, checkedSub_ok, Except.ok.injEq]
      have hmul' : g * bps < 2 ^ u128 := by
        unfold u128
        omega
      have hadd : g * bps + (BPS - 1) < 2 ^ u128 := by
        unfold u128 BPS
        omega
      have hnarrow : (g * bps + (BPS - 1)) / BPS < 2 ^ u64 := by
        unfold u64
        omega
      exact ⟨(), hle, (), hmin, _, ⟨hmul', rfl⟩, _, ⟨hadd, rfl⟩, _, ⟨by decide, rfl⟩, _, ⟨hnarrow, rfl⟩, _, ⟨hpenalty, rfl⟩, rfl⟩

/-! ## What the unlock is given, and what it does -/

structure Unlock.Canonical (w : World) (a : Unlock) : Prop where
  wallet : Bank.Stands a.account.key w.state.graiMint w.bank a.accountGraiAta
  grinders : Succeeds (initAta w.bank w.state.grinders w.state.graiMint)
  remaining : a.remaining = Sample.quads a.account.key w.state.assetMints

/-- `u` has unlocked `g` of its escrow `e`: `x` went to the account `dst`, and the penalty `p` to the Grinders -/
structure Unlocked (w w' : World) (u dst : Key) (e : Escrow) (g x p : ℕ) : Prop where
  escrow : ∃ e', w'.escrows u = some e' ∧ e'.amount = e.amount - g ∧ e'.voted = min e.voted (e.amount - g)
  others : ∀ v, v ≠ u → w'.escrows v = w.escrows v
  paid : x + p = g
  balance : ∀ k, w'.bank.balance k + (if k = .vault w.state.graiMint then g else 0) =
    w.bank.balance k + (if k = dst then x else 0) + if k = .ata w.state.grinders w.state.graiMint then p else 0

/-! ## Settling the dividends -/

theorem settleLoaded_iff {acc old new : ℕ} {loaded : Position × Bool} (hfits : old * acc < 2 ^ 128) (hn : new ≤ old) :
    Succeeds (settleLoaded acc old new loaded) ↔
      loaded.1.claimable + ((if loaded.2 then 0 else old) * acc / DIVIDEND_PRECISION - loaded.1.debt) < 2 ^ 64 := by
  constructor
  · rintro ⟨p, h⟩
    simp only [settleLoaded, settle, bind_ok, checkedMul_ok, checkedDiv_ok, narrow_ok, checkedAdd_ok] at h
    obtain ⟨_, ⟨-, rfl⟩, _, ⟨-, rfl⟩, _, ⟨-, rfl⟩, _, ⟨hlt, -⟩, -⟩ := h
    exact hlt
  · exact settleLoaded_succeeds hfits hn

theorem pending_storePosition {n : Key} {p : Position} (asset : AssetConfig) (hne : n ≠ m) :
    (w.storePosition u m p).pending n asset u = w.pending n asset u := by
  have hkey : (u, n) ≠ (u, m) := fun h => hne (Prod.mk.inj h).2
  unfold World.pending World.lockOf
  simp only [World.storePosition, update_of_ne hkey]

/-- the quad of a listed asset settles exactly while what is pending in it fits -/
theorem settleQuad_iff {asset : AssetConfig} {n : ℕ} (he : w.escrows u = some e) (ha : w.assets m = some asset)
    (hm : asset.assetMint = m) (hv : Bank.Stands .protocol m w.bank (.vault m)) (hfits : e.amount * asset.accShare < 2 ^ 128)
    (hn : n ≤ e.amount) :
    Succeeds (settleQuad w (.asset m) (.position u m) (.vault m) (.ata u m) m u e.amount n false) ↔
      w.pending m asset u < 2 ^ 64 := by
  obtain ⟨v, hv, -, hvm⟩ := hv
  obtain ⟨loaded, hl⟩ : ∃ loaded, loadOrInitPosition w (.position u m) u m = .ok loaded := by
    simp only [loadOrInitPosition, bind_ok, require_ok]
    cases hp : w.positions (u, m) with
    | none => exact ⟨_, (), trivial, rfl⟩
    | some p => exact ⟨_, (), trivial, rfl⟩
  rw [← loaded_pending he hl, ← settleLoaded_iff hfits hn]
  have hasset : loadAssetConfig w (.asset m) m = .ok asset := by
    simp only [loadAssetConfig, bind_ok, require_ok, demand_ok]
    exact ⟨(), trivial, asset, ha, (), hm, rfl⟩
  have hvault : requireVaultPda w (.vault m) m = .ok () := by
    simp only [requireVaultPda, bind_ok, require_ok, demand_ok]
    exact ⟨(), trivial, v, hv, hvm⟩
  constructor
  · rintro ⟨w', h⟩
    simp only [settleQuad, bind_ok] at h
    obtain ⟨asset', ha', -, -, -, -, loaded', hl', p, hp, -⟩ := h
    cases hasset.symm.trans ha'
    cases hl.symm.trans hl'
    exact ⟨p, hp⟩
  · rintro ⟨p, hp⟩
    refine ⟨w.storePosition u m p, ?_⟩
    simp only [settleQuad, bind_ok, requireHolderAta, require_ok, Bool.false_eq_true, false_and, if_false]
    exact ⟨asset, hasset, (), hvault, (), trivial, loaded, hl, p, hp, rfl⟩

/-- the quads of all listed assets settle exactly while what is pending in each of them fits -/
theorem settleQuads_iff {n : ℕ} {mints : List Key} (he : w.escrows u = some e) (hn : n ≤ e.amount) (hnodup : mints.Nodup)
    (hlisted : ∀ m ∈ mints, ∃ asset, w.assets m = some asset ∧ asset.assetMint = m ∧
      Bank.Stands .protocol m w.bank (.vault m) ∧ e.amount * asset.accShare < 2 ^ 128) :
    Succeeds (settleQuads u e.amount n false mints (Sample.quads u mints) w) ↔
      ∀ m ∈ mints, ∀ asset, w.assets m = some asset → w.pending m asset u < 2 ^ 64 := by
  induction mints generalizing w with
  | nil => exact ⟨fun _ m hm => absurd hm List.not_mem_nil, fun _ => ⟨w, rfl⟩⟩
  | cons m mints ih =>
    obtain ⟨hm, hnodup⟩ := List.nodup_cons.1 hnodup
    obtain ⟨asset, ha, hmint, hv, hfits⟩ := hlisted m List.mem_cons_self
    have hfirst := settleQuad_iff he ha hmint hv hfits hn
    -- settling the first asset leaves what is pending in the others
    have hrest : ∀ p, Succeeds (settleQuads u e.amount n false mints (Sample.quads u mints) (w.storePosition u m p)) ↔
        ∀ m ∈ mints, ∀ asset, w.assets m = some asset → w.pending m asset u < 2 ^ 64 := by
      intro p
      rw [ih (w := w.storePosition u m p) he hnodup fun k hk => hlisted k (List.mem_cons_of_mem m hk)]
      refine forall₂_congr fun k hk => forall_congr' fun a => ?_
      rw [pending_storePosition a (ne_of_mem_of_not_mem hk hm)]
      exact Iff.rfl
    rw [List.forall_mem_cons]
    constructor
    · rintro ⟨w', h⟩
      obtain ⟨w₁, hw₁, h⟩ := bind_ok.1 h
      have hpending := hfirst.1 ⟨w₁, hw₁⟩
      simp only [settleQuad, Bool.false_eq_true, false_and, if_false, bind_ok, Except.ok.injEq] at hw₁
      obtain ⟨_, -, -, -, -, -, _, -, p, -, rfl⟩ := hw₁
      refine ⟨fun a ha' => ?_, (hrest p).1 ⟨w', h⟩⟩
      rwa [← Option.some.inj (ha.symm.trans ha')]
    · rintro ⟨hpending, hothers⟩
      obtain ⟨w₁, hw₁⟩ := hfirst.2 (hpending asset ha)
      have hstored : ∃ p, w₁ = w.storePosition u m p := by
        have h := hw₁
        simp only [settleQuad, Bool.false_eq_true, false_and, if_false, bind_ok, Except.ok.injEq] at h
        obtain ⟨_, -, -, -, -, -, _, -, p, -, rfl⟩ := h
        exact ⟨p, rfl⟩
      obtain ⟨p, rfl⟩ := hstored
      obtain ⟨w', h⟩ := (hrest p).2 hothers
      exact ⟨w', bind_ok.2 ⟨_, hw₁, h⟩⟩

/-! ## Paying out -/

/-- a transfer removes no account -/
theorem transferFromVault_stands {p : Key} (h : transferFromVault b src dst x = .ok b') (hs : Bank.Stands p m b k) :
    Bank.Stands p m b' k := by
  unfold transferFromVault at h
  split_ifs at h
  · cases h
    exact hs
  · have hmoved : Bank.Moved p (fun _ => True) .nativeMint b b' := .transfer (spl_ok.1 h)
    exact hmoved.stands trivial hs

theorem initAta_stands {owner p : Key} (h : initAta b owner m = .ok b') {n : Key} (hs : Bank.Stands p n b k) :
    Bank.Stands p n b' k := by
  rcases initTokenAccount_ok h with ⟨rfl, -⟩ | h
  · exact hs
  · have hmoved : Bank.Moved p (fun _ => True) .nativeMint b b' := .openAccount h
    exact hmoved.stands trivial hs

/-- after `init_if_needed` the account stands -/
theorem initAta_stands_self {owner : Key} (h : initAta b owner m = .ok b') : Bank.Stands owner m b' (.ata owner m) := by
  rcases initTokenAccount_ok h with ⟨rfl, a, ha, hm, ho⟩ | h
  · exact ⟨a, ha, ho, hm⟩
  · obtain ⟨-, -, -, rfl⟩ := Bank.openAccount_ok h
    exact ⟨⟨m, owner, 0⟩, by simp, rfl, rfl⟩

/-- a covered transfer out of a vault succeeds -/
theorem transferFromVault_succeeds {p : Key} (hb : Bank.Backed m b) (hs : Bank.Stands .protocol m b src)
    (hd : Bank.Stands p m b dst) (hx : x ≤ b.balance src) : Succeeds (transferFromVault b src dst x) := by
  obtain ⟨s, hs, ho, hsm⟩ := hs
  obtain ⟨d, hd, -, hdm⟩ := hd
  rw [Bank.balance_some hs] at hx
  unfold transferFromVault
  split_ifs
  · exact ⟨b, rfl⟩
  · obtain ⟨b', h⟩ := hb.transfer_succeeds hs hd hsm hdm ho hx
    exact ⟨b', spl_ok.2 h⟩

theorem transferFromVault_balance (h : transferFromVault b src dst x = .ok b') (k : Key) :
    b'.balance k + (if k = src then x else 0) = b.balance k + if k = dst then x else 0 := by
  unfold transferFromVault at h
  split_ifs at h with h0
  · cases h
    simp [h0]
  · exact Bank.transfer_balance (spl_ok.1 h) k

theorem transferFromSigner_balance {s : Signer} (h : transferFromSigner b src dst s x = .ok b') (k : Key) :
    b'.balance k + (if k = src then x else 0) = b.balance k + if k = dst then x else 0 := by
  unfold transferFromSigner at h
  split_ifs at h with h0
  · cases h
    simp [h0]
  · exact Bank.transfer_balance (spl_ok.1 h) k

/-! ## The unlock -/

theorem clampVote_voted {s s' : GraiState} {e' : Escrow} (h : clampVote s e u = .ok (s', e')) :
    e'.voted = min e.voted e.amount := by
  unfold clampVote at h
  by_cases h0 : e.voted = 0 ∨ e.voted ≤ e.amount
  · rw [if_pos h0] at h
    cases h
    omega
  · rw [if_neg h0] at h
    simp only [bind_ok, Except.ok.injEq, Prod.mk.injEq] at h
    obtain ⟨_, -, -, rfl⟩ := h
    simp only
    omega

theorem clampVote_succeeds {s : GraiState} (h : e.voted ≤ s.totalVoted) : Succeeds (clampVote s e u) := by
  unfold clampVote
  by_cases h0 : e.voted = 0 ∨ e.voted ≤ e.amount
  · rw [if_pos h0]
    exact ⟨_, rfl⟩
  · rw [if_neg h0]
    have hle : e.voted - e.amount ≤ s.totalVoted := (Nat.sub_le ..).trans h
    exact ⟨_, bind_ok.2 ⟨_, checkedSub_ok.2 ⟨hle, rfl⟩, rfl⟩⟩

/-- an unlock that succeeds does what it has to do -/
theorem executeUnlock_unlocked {a : Unlock} (hw : w.WF) (he : w.escrows a.account.key = some e)
    (h : executeUnlock w a = .ok w') :
    ∃ x p, previewUnlock a.graiAmount e.amount w.state.config.unlockPenaltyBps = .ok (x, p) ∧
      Unlocked w w' a.account.key a.accountGraiAta e a.graiAmount x p := by
  obtain ⟨e', b, x, p, ps, s, e'', b₁, b₂, he', hb, -, -, hprice, -, -, hclamp, hb₁, hb₂, rfl⟩ := executeUnlock_releases hw h
  obtain rfl := Option.some.inj (he.symm.trans he')
  obtain ⟨hamount, -, -, -⟩ := clampVote_ok hclamp
  have hvoted := clampVote_voted hclamp
  have hsum : x + p = a.graiAmount := previewUnlock_ok hprice
  refine ⟨x, p, hprice, ⟨e'', update_self .., hamount, hvoted⟩, fun v hv => update_of_ne hv _ _, hsum, fun k => ?_⟩
  have hsame : b.balance k = w.bank.balance k := congrFun (initTokenAccount_same hb).1 k
  have h₁ : b₁.balance k + _ = b.balance k + _ := transferFromVault_balance hb₁ k
  have h₂ : b₂.balance k + _ = b₁.balance k + _ := transferFromVault_balance hb₂ k
  simp only [World.storeEscrow]
  split_ifs at h₁ h₂ ⊢ <;> omega

/-- what holds of the accounts after every run, as far as an unlock needs it -/
structure World.Standing (w : World) : Prop where
  wf : w.WF
  custody : w.Custody
  sound : w.Sound
  indexed : w.Indexed
  backed : Bank.Backed w.state.graiMint w.bank

theorem Genesis.after_standing (g : Genesis) (hg : Minted g.bank) (is : List Instr) : (g.after is).Standing :=
  ⟨g.after_wf is, (after_staked g is).keepsCustody, g.after_sound is, after_indexed g is, g.after_backed hg is⟩

theorem World.Custody.amount_le (h : w.Custody) (he : w.escrows u = some e) : e.amount ≤ w.state.totalLocked := by
  have hle := h.totalLocked.le u
  simpa [he] using hle

theorem World.Custody.voted_le_total (h : w.Custody) (he : w.escrows u = some e) : e.voted ≤ w.state.totalVoted := by
  have hle := h.totalVoted.le u
  simpa [he] using hle

/-- the vault of the shares stands while anything is locked -/
theorem World.Standing.vault (h : w.Standing) (hpos : 0 < w.state.totalLocked) :
    Bank.Stands .protocol w.state.graiMint w.bank (.vault w.state.graiMint) := by
  have hle := h.custody.vault
  cases hv : w.bank.accounts (.vault w.state.graiMint) with
  | none =>
    simp only [Bank.balance, hv] at hle
    omega
  | some v =>
    obtain ⟨ho, hm⟩ := h.wf.guarded.owned _ w.state.graiMint (by rfl) v hv
    exact ⟨v, hv, ho, hm⟩

/-- the dividends of `u` that an unlock settles are numbers of 64 bits -/
def World.PendingFits (w : World) (u : Key) : Prop :=
  ∀ m ∈ w.state.assetMints, ∀ asset, w.assets m = some asset → w.pending m asset u < 2 ^ 64

/-- the quads of an unlock settle exactly while the pending dividends fit, whatever accounts were just opened -/
theorem World.Standing.settles (h : w.Standing) (he : w.escrows u = some e) (hc : Circulates (fun _ => False) w.bank b) {n : ℕ}
    (hn : n ≤ e.amount) :
    Succeeds (settleAllQuads { w with bank := b } (Sample.quads u w.state.assetMints) u e.amount n false) ↔
      w.PendingFits u := by
  have hlisted : ∀ m ∈ w.state.assetMints, ∃ asset, w.assets m = some asset ∧ asset.assetMint = m ∧
      Bank.Stands .protocol m b (.vault m) ∧ e.amount * asset.accShare < 2 ^ 128 := by
    intro m hm
    obtain ⟨asset, ha⟩ := Option.isSome_iff_exists.1 ((h.wf.listed.2 m).1 hm)
    obtain ⟨hmint, hv⟩ := h.sound.listing m asset ha
    have hfits := h.indexed m asset u ha
    rw [World.lockOf_some he] at hfits
    exact ⟨asset, ha, hmint, Bank.Circulates.stands hc (.inl ⟨m, rfl⟩) hv, hfits⟩
  have hquads : (Sample.quads u w.state.assetMints).length = w.state.assetMints.length * 4 := by
    unfold Sample.quads
    rw [List.length_flatMap]
    simp
  have hiff : _ ↔ w.PendingFits u := settleQuads_iff (w := { w with bank := b }) he hn h.wf.nodup hlisted
  rw [← hiff]
  constructor
  · rintro ⟨w', h⟩
    simp only [settleAllQuads, bind_ok] at h
    obtain ⟨-, -, h⟩ := h
    exact ⟨w', h⟩
  · rintro ⟨w', h⟩
    refine ⟨w', ?_⟩
    simp only [settleAllQuads, bind_ok, require_ok]
    exact ⟨(), hquads, h⟩

/-- an unlock succeeds exactly if the amount is not too small for the penalty and the pending dividends fit -/
theorem World.Standing.unlock (h : w.Standing) {a : Unlock} (ha : a.Canonical w) (he : w.escrows a.account.key = some e)
    (hlive : w.state.liquidation = false) (hpos : 0 < a.graiAmount) (hle : a.graiAmount ≤ e.amount) :
    Succeeds (executeUnlock w a) ↔
      minUnlock w.state.config.unlockPenaltyBps ≤ a.graiAmount ∧ w.PendingFits a.account.key := by
  have htotal := h.custody.amount_le he
  have hvault := h.vault (by omega)
  -- the lock is covered by the vault, and so a number of 64 bits
  have hcovered : e.amount ≤ w.bank.balance (.vault w.state.graiMint) := htotal.trans h.custody.vault
  have hfits : a.graiAmount < 2 ^ 64 := by
    obtain ⟨v, hv, -, hm⟩ := hvault
    have hsupply := h.backed.amount_le hv hm
    have hlt := h.backed.supply_lt
    rw [Bank.balance_some hv] at hcovered
    omega
  have hbps : w.state.config.unlockPenaltyBps ≤ BPS := h.wf.config.penalty.trans (by decide)
  have hprice := previewUnlock_iff hpos hle hfits hbps
  constructor
  · rintro ⟨w', hok⟩
    simp only [executeUnlock, bind_ok, checkedSub_ok, Prod.exists] at hok
    obtain ⟨_, -, e', he', _, -, _, -, b, hb, -, -, -, -, -, -, n, ⟨-, rfl⟩, x, p, hx, w₁, hs, -⟩ := hok
    obtain rfl := Option.some.inj (he.symm.trans (loadEscrow_ok he'))
    rw [ha.remaining] at hs
    exact ⟨hprice.1 ⟨_, hx⟩, (h.settles he (initAta_circulates hb) (Nat.sub_le ..)).1 ⟨_, hs⟩⟩
  · rintro ⟨hmin, hpending⟩
    obtain ⟨⟨x, p⟩, hx⟩ := hprice.2 hmin
    obtain ⟨b, hb⟩ := ha.grinders
    have hc : Circulates (fun _ => False) w.bank b := initAta_circulates hb
    have hsum : x + p = a.graiAmount := previewUnlock_ok hx
    obtain ⟨w₁, hs⟩ := (h.settles he hc (n := e.amount - a.graiAmount) (Nat.sub_le ..)).2 hpending
    obtain ⟨ps, rfl, -⟩ := settleAllQuads_ok (h.wf.bank (initAta_moves w.state.graiMint hb)).nodup hs
    have hvoted : e.voted ≤ w.state.totalVoted := h.custody.voted_le_total he
    have hclamp : Succeeds (clampVote { w.state with totalLocked := w.state.totalLocked - a.graiAmount }
      { e with amount := e.amount - a.graiAmount } a.account.key) := clampVote_succeeds hvoted
    obtain ⟨⟨s, e'⟩, hclamp⟩ := hclamp
    -- the two transfers leave the vault of the shares
    have hmint : w.state.graiMint ≠ .nativeMint := by
      obtain ⟨s, hs⟩ := h.wf.mint
      rw [hs]
      exact Key.noConfusion
    have hbacked : Bank.Backed w.state.graiMint b := Bank.Circulates.backed hc hmint h.backed
    have hvault_b := initAta_stands hb hvault
    have hbalance : b.balance (.vault w.state.graiMint) = w.bank.balance (.vault w.state.graiMint) :=
      congrFun (initTokenAccount_same hb).1 _
    obtain ⟨b₁, hb₁⟩ := transferFromVault_succeeds hbacked hvault_b (initAta_stands hb ha.wallet) (x := x) (by omega)
    have hc₁ : Circulates (fun _ => False) b b₁ := transferFromVault_circulates hb₁
    have hbacked₁ : Bank.Backed w.state.graiMint b₁ := Bank.Circulates.backed hc₁ hmint hbacked
    have hleft := transferFromVault_balance hb₁ (.vault w.state.graiMint)
    rw [if_pos rfl] at hleft
    obtain ⟨b₂, hb₂⟩ := transferFromVault_succeeds hbacked₁ (transferFromVault_stands hb₁ hvault_b)
      (transferFromVault_stands hb₁ (initAta_stands_self hb)) (x := p) (by omega)
    rw [← ha.remaining] at hs
    have hbump : e.bump = ESCROW_BUMP := h.sound.escrow _ e he (by omega)
    obtain ⟨t, ht, hauth⟩ := h.wf.guarded.authority
    obtain ⟨c, hc', hco, hcm⟩ := ha.wallet
    obtain ⟨v, hv, -, hvm⟩ := hvault
    unfold Succeeds
    simp only [executeUnlock, loadGraiMint, loadMint, loadEscrow, loadOwned, loadCustody, loadTokenAccount, bind_ok, demand_ok,
      require_ok, checkedSub_ok, Prod.exists, Except.ok.injEq]
    exact ⟨_, t, ⟨t, ht, (), hauth, rfl⟩, e, ⟨e, he, (), hbump, rfl⟩, c, ⟨c, hc', (), hcm, (), hco, rfl⟩, v, ⟨v, hv, (), hvm, rfl⟩,
      b, hb, (), hlive, (), hpos, (), hle, _, ⟨hle, rfl⟩, x, p, hx, _, hs, _, ⟨hle.trans htotal, rfl⟩,
      s, e', hclamp, b₁, hb₁, b₂, hb₂, rfl⟩

/-- **Unlock.** After every run, with liquidation closed and the accounts a client derives, an unlock of `g` out of a lock
succeeds, and does what it has to do, if and only if `g` reaches `minUnlock` and the pending dividends fit in 64 bits.

The condition does not mention the lock: what matters is whether the penalty of the amount is at least one unit. So a lock below
`minUnlock` cannot be left by itself, neither in parts nor as a whole (`small_lock_stuck`). -/
theorem unlock_iff (g : Genesis) (hg : Minted g.bank) (is : List Instr) {a : Unlock} {e : Escrow}
    (ha : a.Canonical (g.after is)) (he : (g.after is).escrows a.account.key = some e)
    (hlive : (g.after is).state.liquidation = false) (hpos : 0 < a.graiAmount) (hle : a.graiAmount ≤ e.amount) :
    (∃ w' x p, step (g.after is) (.unlock a) = .ok w' ∧
        Unlocked (g.after is) w' a.account.key a.accountGraiAta e a.graiAmount x p) ↔
      minUnlock (g.after is).state.config.unlockPenaltyBps ≤ a.graiAmount ∧ (g.after is).PendingFits a.account.key := by
  have hstanding := g.after_standing hg is
  rw [← hstanding.unlock ha he hlive hpos hle]
  constructor
  · rintro ⟨w', -, -, h, -⟩
    exact ⟨w', h⟩
  · rintro ⟨w', h⟩
    obtain ⟨x, p, -, hu⟩ := executeUnlock_unlocked hstanding.wf he h
    exact ⟨w', x, p, h, hu⟩

theorem Sample.minted : Minted Sample.genesis.bank := by
  have hmints : ∀ m, m = Sample.usdc ∨ m = Sample.gold → Sample.bank.mints m ≠ none := by
    rintro m (rfl | rfl) <;> decide
  intro k a ha
  obtain ⟨n, m, -, hm, rfl⟩ : ∃ n m, k = .ata (.key n) m ∧ (m = Sample.usdc ∨ m = Sample.gold) ∧ a = ⟨m, .key n, 10 ^ 18⟩ := by
    change Sample.bank.accounts k = some a at ha
    unfold Sample.bank at ha
    dsimp only at ha
    split at ha
    · split_ifs at ha with hm
      exact ⟨_, _, rfl, hm.2.2, (Option.some.inj ha).symm⟩
    · cases ha
  exact hmints m hm

/-- wallet 2 deposits and locks `x` shares -/
def Sample.locked (x : ℕ) : List Instr :=
  [Sample.listing Sample.usdc false, Sample.deposit 2 1000 .default (List.replicate 3 .default), Sample.lock 2 x [Sample.usdc]]

/-- a lock of 1000 shares is left at once -/
theorem unlock_whole_lock : ∃ w' x p, step (Sample.genesis.after (Sample.locked 1000)) (Sample.unlock 2 1000 [Sample.usdc]) = .ok w' ∧
    Unlocked (Sample.genesis.after (Sample.locked 1000)) w' (Sample.user 2) (.ata (Sample.user 2) Sample.grai)
      ⟨1000, 0, 0, 0, 0, 255⟩ 1000 x p := by
  have hassets : (Sample.genesis.after (Sample.locked 1000)).state.assetMints = [Sample.usdc] := by decide +kernel
  have hfits : ((Sample.genesis.after (Sample.locked 1000)).assets Sample.usdc).all (fun asset =>
      decide ((Sample.genesis.after (Sample.locked 1000)).pending Sample.usdc asset (Sample.user 2) < 2 ^ 64)) = true := by
    decide +kernel
  refine (unlock_iff Sample.genesis Sample.minted (Sample.locked 1000)
    (a := ⟨Sample.wallet 2, .ata (Sample.user 2) Sample.grai, Sample.quads (Sample.user 2) [Sample.usdc], 1000⟩)
    ⟨?_, ?_, ?_⟩ (by decide +kernel) (by decide +kernel) (by decide) (by decide)).2 ⟨by decide +kernel, ?_⟩
  · exact ⟨⟨Sample.grai, Sample.user 2, 0⟩, by decide +kernel, by decide, by decide⟩
  · exact ⟨_, rfl⟩
  · rw [hassets]
    rfl
  · intro m hm asset ha
    rw [hassets, List.mem_singleton] at hm
    subst hm
    rw [ha] at hfits
    exact of_decide_eq_true hfits

/-- a lock of 50 shares cannot be left -/
theorem small_lock_stuck : (Sample.genesis.after (Sample.locked 50)).state.liquidation = false ∧
    (Sample.genesis.after (Sample.locked 50)).escrows (Sample.user 2) = some ⟨50, 0, 0, 0, 0, 255⟩ ∧
      step (Sample.genesis.after (Sample.locked 50)) (Sample.unlock 2 50 [Sample.usdc]) = .error .invalidAmount := by
  refine ⟨by decide +kernel, by decide +kernel, ?_⟩
  exact refusal_eq_some.1 (by decide +kernel)

end Grindurus.Grai
