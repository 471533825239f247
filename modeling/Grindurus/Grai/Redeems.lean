/-
Redeems are pro rata and fair to every order.

- `executeRedeem_pays`: what one redeem does to the vault of an asset, to the holder's account and to the shares.
- `redeem_fair`: along every run of redeems, by whomever, in whatever order and split, what a share may redeem of an asset
  does not fall, every redeem pays at least what it would have paid first, and all together pay at most what there was.

Each redeem divides what is beyond the reserve by the supply of shares and rounds down, so what it leaves to the others is at
least what they had. The argument is that of any pro rata payout with floors: the ratio of what is left to the shares that are
left does not fall.
-/
import Grindurus.Lib.ProRata
import Grindurus.Grai.Payments

namespace Grindurus.Grai

open Checked TokenBank ProRata Machine Function

/-- what redeems may take out of the vault of `m` -/
def World.redeemableOf (w : World) (m : Key) : ℕ := redeemableBalance (w.vaultOf m) (w.reserveOf m)

/-- what the holder of a redeem gets of `m` -/
def received (m : Key) (w : World) (i : Instr) (w' : World) : ℕ :=
  match i with
  | .redeem a => w'.bank.balance (.ata a.holder.key m) - w.bank.balance (.ata a.holder.key m)
  | _ => 0

/-! ## One vault after the other -/

variable {w w' : World} {b b' : Bank Key} {src dst k : Key} {x : ℕ}

theorem transferFromVault_frame (h : transferFromVault b src dst x = .ok b') (hs : k ≠ src) (hd : k ≠ dst) :
    b'.balance k = b.balance k := by
  unfold transferFromVault at h
  split_ifs at h
  · cases h
    rfl
  · exact Bank.transfer_frame (spl_ok.1 h) hs hd

theorem transferFromVault_paid (h : transferFromVault b src dst x = .ok b') (hne : src ≠ dst) :
    b'.balance src + x = b.balance src ∧ b'.balance dst = b.balance dst + x := by
  unfold transferFromVault at h
  split_ifs at h with h0
  · cases h
    exact ⟨by omega, by omega⟩
  · exact ⟨Bank.transfer_src (spl_ok.1 h) hne, Bank.transfer_dst (spl_ok.1 h) hne⟩

/-- what is sent goes between accounts of one mint -/
theorem transferFromVault_mint (h : transferFromVault b src dst x = .ok b') (hx : 0 < x) :
    ∃ s d, b.accounts src = some s ∧ b.accounts dst = some d ∧ s.mint = d.mint := by
  unfold transferFromVault at h
  rw [if_neg (by omega)] at h
  obtain ⟨s, d, hs, hd, -, hm, -⟩ := Bank.transfer_ok (spl_ok.1 h)
  exact ⟨s, d, hs, hd, hm⟩

theorem transferFromVault_shape (h : transferFromVault b src dst x = .ok b') : Bank.SameShape b b' := by
  unfold transferFromVault at h
  split_ifs at h
  · cases h
    exact .refl _
  · exact Bank.transfer_shape (spl_ok.1 h)

theorem previewLiquidateShare_ok {balance g s : ℕ} (h : previewLiquidateShare balance g s = .ok x) : x = share balance s g := by
  unfold previewLiquidateShare at h
  split_ifs at h with h0
  · cases h
    rcases h0 with rfl | rfl
    · simp [share]
    · simp [share]
  · simp only [bind_ok, checkedMul_ok, checkedDiv_ok, narrow_ok] at h
    obtain ⟨_, ⟨-, rfl⟩, _, ⟨-, rfl⟩, -, rfl⟩ := h
    rfl

/-- each listed vault pays its share to the holder's account for it, and no other account changes -/
theorem payShares_pays {assets : Key → Option AssetConfig} {g s : ℕ} {holder : Key} {mints : List Key} (hn : mints.Nodup)
    (h : payShares assets g s holder mints b = .ok b') :
    (∀ k, (∀ m ∈ mints, k ≠ .vault m ∧ k ≠ .ata holder m) → b'.balance k = b.balance k) ∧
      ∀ m ∈ mints, ∃ asset, assets m = some asset ∧ ∃ x,
        x = share (redeemableBalance (b.balance (.vault m)) asset.totalClaimable) s g ∧
        b'.balance (.vault m) + x = b.balance (.vault m) ∧
        b'.balance (.ata holder m) = b.balance (.ata holder m) + x ∧
        (0 < x → ∃ v t, b.accounts (.vault m) = some v ∧ b.accounts (.ata holder m) = some t ∧ v.mint = t.mint) := by
  induction mints generalizing b with
  | nil =>
    cases h
    exact ⟨fun _ _ => rfl, fun m hm => absurd hm List.not_mem_nil⟩
  | cons m mints ih =>
    simp only [payShares, payShare, bind_ok, demand_ok] at h
    obtain ⟨b₁, ⟨asset, ha, -, -, vault, hvault, x, hx, hb₁⟩, h⟩ := h
    obtain ⟨hm, hn⟩ := List.nodup_cons.1 hn
    obtain ⟨hframe, hpays⟩ := ih hn h
    have hx := previewLiquidateShare_ok hx
    rw [← loadCustody_ok hvault] at hx
    refine ⟨fun k hk => ?_, fun n hmem => ?_⟩
    · obtain ⟨hkv, hka⟩ := hk m List.mem_cons_self
      rw [hframe k fun n hn => hk n (List.mem_cons_of_mem m hn), transferFromVault_frame hb₁ hkv hka]
    · rcases List.mem_cons.1 hmem with rfl | hin
      · have hrest : ∀ k, (k = .vault n ∨ k = .ata holder n) → b'.balance k = b₁.balance k := by
          intro k hk
          refine hframe k fun j hj => ?_
          have hne : n ≠ j := by rintro rfl; exact hm hj
          rcases hk with rfl | rfl
          · simp [hne]
          · simp [hne]
        have hpaid := transferFromVault_paid hb₁ (by simp)
        refine ⟨asset, ha, x, hx, ?_, ?_, transferFromVault_mint hb₁⟩
        · rw [hrest _ (.inl rfl)]
          exact hpaid.1
        · rw [hrest _ (.inr rfl)]
          exact hpaid.2
      · obtain ⟨asset', ha', y, hy, hv, hata, hmint⟩ := hpays n hin
        have hne : n ≠ m := by rintro rfl; exact hm hin
        rw [transferFromVault_frame hb₁ (by simp [hne]) (by simp)] at hy hv
        rw [transferFromVault_frame hb₁ (by simp) (by simp [hne])] at hata
        refine ⟨asset', ha', y, hy, hv, hata, fun hpos => ?_⟩
        obtain ⟨v, t, hv', ht', hm'⟩ := hmint hpos
        obtain ⟨v₀, hv₀, hvm, -⟩ := (transferFromVault_shape hb₁).account _ v hv'
        obtain ⟨t₀, ht₀, htm, -⟩ := (transferFromVault_shape hb₁).account _ t ht'
        exact ⟨v₀, t₀, hv₀, ht₀, by rw [← hvm, hm', htm]⟩

/-! ## One redeem -/

/-- burning shares touches the wallet and the GRAI vault only -/
theorem burnShares_frame {a : Redeem} {wallet value : ℕ} (hw : w.WF) (h : burnShares w a wallet value = .ok w') :
    w'.supply + a.graiAmount = w.supply ∧ Bank.SameShape w.bank w'.bank ∧
      ∀ k, k ≠ .vault w.state.graiMint → w'.bank.balance k ≤ w.bank.balance k ∧
        (k ≠ a.holderGraiAta → w'.bank.balance k = w.bank.balance k) := by
  obtain ⟨_, _, ps, b, w₂, e', rfl, rfl, hle, -, hb, hburn, -, rfl⟩ := burnShares_burns hw h
  obtain ⟨b₂, hb₂, hw₂⟩ : ∃ b₂, (b₂ = b ∧ a.graiAmount - min a.graiAmount wallet = 0 ∨
      b.burn w.state.graiMint (.vault w.state.graiMint) .protocol (a.graiAmount - min a.graiAmount wallet) = .ok b₂) ∧
      w₂.bank = b₂ ∧ w₂.state.graiMint = w.state.graiMint := by
    rcases burnLocked_cases hburn with ⟨h0, rfl, -⟩ | ⟨s, b₂, -, -, hclamp, hb₂, rfl⟩
    · exact ⟨b, .inl ⟨rfl, h0⟩, rfl, rfl⟩
    · obtain ⟨-, -, -, hst⟩ := clampVote_ok hclamp
      rw [hst] at hb₂ ⊢
      exact ⟨b₂, .inr hb₂, rfl, rfl⟩
  obtain ⟨rfl, hgrai⟩ := hw₂
  have hwallet : b.supply w.state.graiMint + min a.graiAmount wallet = w.supply ∧ Bank.SameShape w.bank b ∧
      ∀ k, b.balance k ≤ w.bank.balance k ∧ (k ≠ a.holderGraiAta → b.balance k = w.bank.balance k) := by
    rcases burnWallet_cases hb with ⟨h0, rfl⟩ | hb
    · refine ⟨?_, .refl _, fun k => ⟨le_rfl, fun _ => rfl⟩⟩
      show w.bank.supply w.state.graiMint + _ = w.bank.supply w.state.graiMint
      omega
    · refine ⟨Bank.burn_supply hb, Bank.burn_shape hb, fun k => ⟨?_, fun hk => Bank.burn_frame hb hk⟩⟩
      rcases eq_or_ne k a.holderGraiAta with rfl | hk
      · have hsrc := Bank.burn_src hb
        dsimp only at hsrc
        omega
      · exact (Bank.burn_frame hb hk).le
  obtain ⟨hsupply, hshape, hframe⟩ := hwallet
  have hlocked : w₂.bank.supply w.state.graiMint + (a.graiAmount - min a.graiAmount wallet) = b.supply w.state.graiMint ∧
      Bank.SameShape b w₂.bank ∧ ∀ k, k ≠ .vault w.state.graiMint → w₂.bank.balance k = b.balance k := by
    rcases hb₂ with ⟨heq, h0⟩ | hb₂
    · rw [heq, h0]
      exact ⟨rfl, .refl _, fun _ _ => rfl⟩
    · exact ⟨Bank.burn_supply hb₂, Bank.burn_shape hb₂, fun k hk => Bank.burn_frame hb₂ hk⟩
  obtain ⟨hsupply₂, hshape₂, hframe₂⟩ := hlocked
  refine ⟨?_, hshape.trans hshape₂, fun k hk => ⟨?_, fun hne => ?_⟩⟩
  · show w₂.bank.supply w₂.state.graiMint + a.graiAmount = w.supply
    rw [hgrai]
    omega
  · show w₂.bank.balance k ≤ _
    rw [hframe₂ k hk]
    exact (hframe k).1
  · show w₂.bank.balance k = _
    rw [hframe₂ k hk]
    exact (hframe k).2 hne

theorem World.reserveOf_some {m : Key} {asset : AssetConfig} (ha : w.assets m = some asset) :
    w.reserveOf m = asset.totalClaimable := by
  simp [World.reserveOf, ha]

/-- a redeem burns `graiAmount` shares and pays the holder their share of what each listed vault may pay out -/
structure Pays (w : World) (a : Redeem) (w' : World) : Prop where
  pos : 0 < a.graiAmount
  supply : w'.supply + a.graiAmount = w.supply
  assets : w'.assets = w.assets
  vault : ∀ m, (w.assets m).isSome →
    w'.vaultOf m + share (w.redeemableOf m) w.supply a.graiAmount = w.vaultOf m
  gets : ∀ m, (w.assets m).isSome →
    received m w (.redeem a) w' = share (w.redeemableOf m) w.supply a.graiAmount

/-- one redeem, seen from one asset: the vault, the account of the holder, and the shares -/
theorem executeRedeem_pays {a : Redeem} (hw : w.WF) (h : executeRedeem w a = .ok w') : Pays w a w' := by
  have hassets := executeRedeem_assets hw h
  obtain ⟨wallet, _, w₁, b, hwallet, -, -, hg, -, hburn, hpay, rfl⟩ := executeRedeem_redeems h
  obtain ⟨hwf₁, hassets₁, hlayout, hle, -⟩ := burnShares_ok hw hburn
  obtain ⟨hsupply, hshape, hframe⟩ := burnShares_frame hw hburn
  obtain ⟨-, hpays⟩ := payShares_pays hwf₁.nodup hpay
  have hsweep : Sweeps w₁.state.graiMint w₁.assets w₁.bank b := payShares_ok hle hpay
  have hsource : ∀ m, Key.vault m ≠ a.holderGraiAta := fun m =>
    (loadOwned_ne hw.guarded hwallet (Key.custodyMint_vault m)).symm
  -- one vault, before and after
  have hone : ∀ m, (w.assets m).isSome → b.balance (.vault m) + share (w.redeemableOf m) w.supply a.graiAmount =
      w.vaultOf m ∧ b.balance (.ata a.holder.key m) - w.bank.balance (.ata a.holder.key m) =
      share (w.redeemableOf m) w.supply a.graiAmount := by
    intro m hm
    obtain ⟨asset, ha⟩ := Option.isSome_iff_exists.1 hm
    have hmem : m ∈ w₁.state.assetMints := (hwf₁.listed.2 m).2 (by simp [hassets₁, ha])
    obtain ⟨asset', ha', x, hx, hv, hata, hmint⟩ := hpays m hmem
    rw [hassets₁, ha] at ha'
    cases ha'
    have hvault : w₁.bank.balance (.vault m) = w.vaultOf m :=
      (hframe (.vault m) (by simp [hw.ne_grai ha])).2 (hsource m)
    have hshare : x = share (w.redeemableOf m) w.supply a.graiAmount := by
      rw [hx, hvault]
      simp only [World.redeemableOf, World.reserveOf_some ha]
    rw [← hshare]
    have hne : Key.ata a.holder.key m ≠ .vault w.state.graiMint := by simp
    refine ⟨by omega, ?_⟩
    rcases Nat.eq_zero_or_pos x with h0 | hpos
    · have hle := (hframe _ hne).1
      omega
    · -- the account is for `m`, so it is not the one the shares were burned from
      obtain ⟨v, t, hv', ht', hm'⟩ := hmint hpos
      obtain ⟨v₀, hv₀, hvm, -⟩ := hshape.account _ v hv'
      obtain ⟨t₀, ht₀, htm, -⟩ := hshape.account _ t ht'
      have hmintm : t₀.mint = m := by
        rw [← htm, ← hm', hvm]
        exact (hw.guarded.owned _ m (Key.custodyMint_vault m) _ hv₀).2
      have hdst : Key.ata a.holder.key m ≠ a.holderGraiAta := by
        intro heq
        simp only [loadOwned, loadTokenAccount, bind_ok, demand_ok, require_ok, Except.ok.injEq] at hwallet
        obtain ⟨s, hs, -, hsm, -⟩ := hwallet
        rw [← heq, ht₀] at hs
        cases hs
        exact hw.ne_grai ha (hmintm.symm.trans hsm)
      have heq := (hframe _ hne).2 hdst
      omega
  refine ⟨hg, ?_, hassets, fun m hm => (hone m hm).1, fun m hm => (hone m hm).2⟩
  show b.supply w₁.state.graiMint + a.graiAmount = w.supply
  rw [(hsweep hwf₁.guarded).2.1]
  exact hsupply

/-! ## Along a run -/

/-- a redeem, or whatever adds no shares and leaves the vaults and the reserves of listed assets as they are -/
def Calm (w : World) (i : Instr) : Prop :=
  (∃ a, i = .redeem a) ∨ ∀ w', step w i = .ok w' → w'.supply ≤ w.supply ∧
    ∀ m, (w.assets m).isSome → (w'.assets m).isSome ∧ w'.reserveOf m = w.reserveOf m ∧ w'.vaultOf m = w.vaultOf m

/-- from `w` to `w'` `paid m` of what holders may redeem of `m` was paid, and what is left is no less per share -/
structure Draws (paid : Key → ℕ) (w w' : World) : Prop where
  listed : ∀ m, (w.assets m).isSome → (w'.assets m).isSome
  dearer : ∀ m, (w.assets m).isSome → Dearer (w.redeemableOf m) w.supply (w'.redeemableOf m) w'.supply
  drawn : ∀ m, (w.assets m).isSome → paid m + w'.redeemableOf m = w.redeemableOf m

theorem Draws.refl (w : World) : Draws 0 w w := ⟨fun _ h => h, fun _ _ => .refl _ _, fun _ _ => Nat.zero_add _⟩

theorem Draws.trans {paid paid' : Key → ℕ} {w₁ w₂ w₃ : World} (h : Draws paid w₁ w₂) (h' : Draws paid' w₂ w₃) :
    Draws (paid + paid') w₁ w₃ := by
  refine ⟨fun m hm => h'.listed m (h.listed m hm), fun m hm => (h.dearer m hm).trans (h'.dearer m (h.listed m hm)),
    fun m hm => ?_⟩
  have h₁ := h.drawn m hm
  have h₂ := h'.drawn m (h.listed m hm)
  simp only [Pi.add_apply]
  omega

/-- which is a draw of the abstract pool -/
theorem Pays.draws {a : Redeem} (h : Pays w a w') : Draws (fun m => received m w (.redeem a) w') w w' := by
  have hsupply : w'.supply = w.supply - a.graiAmount := by
    have hs := h.supply
    omega
  have hone : ∀ m, (w.assets m).isSome →
      w'.redeemableOf m = w.redeemableOf m - share (w.redeemableOf m) w.supply a.graiAmount ∧
      share (w.redeemableOf m) w.supply a.graiAmount ≤ w.redeemableOf m := by
    intro m hm
    have hv := h.vault m hm
    have hreserve : w'.reserveOf m = w.reserveOf m := by
      unfold World.reserveOf
      rw [h.assets]
    have hle : share (w.redeemableOf m) w.supply a.graiAmount ≤ w.redeemableOf m := by
      refine share_le ?_
      have hs := h.supply
      omega
    refine ⟨?_, hle⟩
    simp only [World.redeemableOf, redeemableBalance, hreserve] at hv hle ⊢
    omega
  refine ⟨fun m hm => by rw [h.assets]; exact hm, fun m hm => ?_, fun m hm => ?_⟩
  · rw [(hone m hm).1, hsupply]
    exact .redeem _ _ _
  · rw [h.gets m hm, (hone m hm).1, Nat.add_sub_cancel' (hone m hm).2]

/-- one committed step of a calm run -/
theorem Calm.draws {i : Instr} (hw : w.WF) (hc : Calm w i) (h : step w i = .ok w') :
    Draws (fun m => received m w i w') w w' := by
  cases i with
  | redeem a => exact (executeRedeem_pays hw h).draws
  | _ =>
    rcases hc with ⟨a, ha⟩ | hc
    · cases ha
    · obtain ⟨hsupply, hassets⟩ := hc w' h
      have hone : ∀ m, (w.assets m).isSome → w'.redeemableOf m = w.redeemableOf m := by
        intro m hm
        obtain ⟨-, hreserve, hvault⟩ := hassets m hm
        unfold World.redeemableOf
        rw [hreserve, hvault]
      refine ⟨fun m hm => (hassets m hm).1, fun m hm => ⟨hsupply, ?_⟩, fun m hm => ?_⟩
      · rw [hone m hm]
        exact Nat.mul_le_mul_left _ hsupply
      · rw [hone m hm]
        exact Nat.zero_add _

/-- by induction: a run of redeems is a row of draws -/
theorem run_draws {is : List Instr} (hw : w.WF) (hc : Meets step Calm w is) :
    Draws (fun m => tally step (received m) w is) w (run step w is) := by
  induction is generalizing w with
  | nil => exact .refl w
  | cons i is ih =>
    simp only [run_cons, tally]
    cases h : step w i with
    | ok w' =>
      rw [exec_ok h]
      have hc' := hc.2
      rw [exec_ok h] at hc'
      exact (Calm.draws hw (hc.1 w' h) h).trans (ih (step_committed hw h).wf hc')
    | error e =>
      have he : exec step w i = w := by simp [exec, h]
      have hc' := hc.2
      rw [he] at hc' ⊢
      simp only [Nat.zero_add]
      exact ih hw hc'

/-- along the run `is` from `w` redeems are pro rata, and fair to every order -/
structure RedeemsFair (w : World) (is : List Instr) : Prop where
  price : ∀ pre i post m, is = pre ++ i :: post → (w.assets m).isSome →
    (run step w pre).redeemableOf m * (run step w (pre ++ [i])).supply ≤
      (run step w (pre ++ [i])).redeemableOf m * (run step w pre).supply
  receives : ∀ pre a post w' m, is = pre ++ .redeem a :: post → (w.assets m).isSome →
    step (run step w pre) (.redeem a) = .ok w' →
    w.redeemableOf m * a.graiAmount / w.supply ≤ received m (run step w pre) (.redeem a) w'
  total : ∀ m, (w.assets m).isSome → tally step (received m) w is ≤ w.redeemableOf m

/-- **Redeems.** From every reachable state, along every run of redeems, with nothing between them that adds shares or touches
the vaults and the reserves. Then what a number of shares may redeem of an asset does not fall from one redeem to the next,
whoever goes first; each pays at least what it would have paid at the beginning; and together they take no more than what was
there beyond the reserve. -/
theorem redeem_fair (g : Genesis) (is₀ is : List Instr) (hc : Meets step Calm (g.after is₀) is) :
    RedeemsFair (g.after is₀) is where
  price pre i post m his hm := by
    rw [his, meets_append] at hc
    obtain ⟨hpre, hi, -⟩ := hc
    have hlisted := (run_draws (g.after_wf is₀) hpre).listed m hm
    have hwf : (run step (g.after is₀) pre).WF := run_wf (g.after_wf is₀) pre
    rw [run_append]
    rcases exec_cases step (run step (g.after is₀) pre) i with ⟨w', h, he⟩ | he
    · rw [run_cons, he]
      exact ((Calm.draws hwf (hi w' h) h).dearer m hlisted).price
    · rw [run_cons, he]
      exact le_rfl
  receives pre a post w' m his hm h := by
    rw [his, meets_append] at hc
    have hdraws := run_draws (g.after_wf is₀) hc.1
    have hwf : (run step (g.after is₀) pre).WF := run_wf (g.after_wf is₀) pre
    have hpays := executeRedeem_pays hwf h
    rw [hpays.gets m (hdraws.listed m hm)]
    have hpos : 0 < (run step (g.after is₀) pre).supply := by
      have hs := hpays.supply
      have hg := hpays.pos
      omega
    exact (hdraws.dearer m hm).share_mono hpos a.graiAmount
  total m hm := by
    have hdrawn := (run_draws (g.after_wf is₀) hc).drawn m hm
    omega

/-- wallet 2 opens liquidation with 1000 units in the vault; it holds 800 of the shares, wallet 3 the rest -/
def openedForTwo : List Instr :=
  [Sample.listing Sample.usdc false, Sample.deposit 2 800 .default (List.replicate 3 .default),
    Sample.deposit 3 200 .default (List.replicate 3 .default),
    .vote ⟨Sample.wallet 2, .ata (Sample.user 2) Sample.grai, Sample.pairs (Sample.user 2) [Sample.usdc], 800, 10⟩,
    .grinders (Sample.user 1) ⟨.program, 10, 100⟩, .liquidate ⟨Sample.wallet 2, 111⟩,
    .token (Sample.wallet 4) (.transfer (.ata (Sample.user 4) Sample.usdc) (.vault Sample.usdc) 1000)]

/-- wallet 2 redeems in two parts, and wallet 3 in between -/
def redeemsOfTwo : List Instr :=
  let redeem n x := .redeem ⟨Sample.wallet n, .ata (Sample.user n) Sample.grai, Sample.quads (Sample.user n) [Sample.usdc], x, 86511⟩
  [redeem 2 301, redeem 3 200, redeem 2 499]

theorem redeem_fair_to_two :
    (Sample.genesis.after openedForTwo).redeemableOf Sample.usdc = 1000 ∧
      tally step (received Sample.usdc) (Sample.genesis.after openedForTwo) redeemsOfTwo = 1000 ∧
      RedeemsFair (Sample.genesis.after openedForTwo) redeemsOfTwo := by
  refine ⟨by decide +kernel, by decide +kernel, redeem_fair _ _ _ ⟨?_, ?_, ?_, trivial⟩⟩
  · exact fun _ _ => .inl ⟨_, rfl⟩
  · exact fun _ _ => .inl ⟨_, rfl⟩
  · exact fun _ _ => .inl ⟨_, rfl⟩

end Grindurus.Grai
