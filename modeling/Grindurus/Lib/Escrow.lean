/-
Escrows of one authority and a mint of another: what bank operations do to them.

- `Owned p mintOf b` (from the bank): what stands at an escrow is an account of `p` for the mint it is meant for.
- `Flows p mintOf q m δ ι b b'`: the escrows stay owned, and each gains `δ` at least; `m` stays a mint of `q`, its supply grows
  by `ι` at most, and it stays backed.
- One lemma for each operation. `apply_flows`: what a third party asks for moves nothing.
-/
import Grindurus.Lib.Circulation

namespace Grindurus.TokenBank.Bank

open Checked Function

variable {K : Type} [DecidableEq K]

structure Flows (p : K) (mintOf : K → Option K) (q m : K) (δ : K → ℤ) (ι : ℤ) (b b' : Bank K) : Prop where
  owned : Owned p mintOf b → Owned p mintOf b'
  balance : Owned p mintOf b → ∀ k j, mintOf k = some j → (b.balance k : ℤ) + δ k ≤ b'.balance k
  authority : Authority q m b → Authority q m b'
  supply : Authority q m b → (b'.supply m : ℤ) ≤ b.supply m + ι
  backed : Backed m b → Backed m b'

variable {p q m : K} {mintOf : K → Option K} {b b' b₁ b₂ b₃ : Bank K} {δ δ' : K → ℤ} {ι ι' : ℤ} {src dst auth j k : K} {x : ℕ}

namespace Flows

theorem refl (b : Bank K) : Flows p mintOf q m 0 0 b b := ⟨id, fun _ _ _ _ => by simp, id, fun _ => by simp, id⟩

theorem trans (h : Flows p mintOf q m δ ι b₁ b₂) (h' : Flows p mintOf q m δ' ι' b₂ b₃) :
    Flows p mintOf q m (δ + δ') (ι + ι') b₁ b₃ := by
  refine ⟨fun ho => h'.owned (h.owned ho), fun ho k j hk => ?_, fun ha => h'.authority (h.authority ha), fun ha => ?_,
    fun hb => h'.backed (h.backed hb)⟩
  · have h₁ := h.balance ho k j hk
    have h₂ := h'.balance (h.owned ho) k j hk
    simp only [Pi.add_apply]
    omega
  · have h₁ := h.supply ha
    have h₂ := h'.supply (h.authority ha)
    omega

/-- a move of nothing, and then another -/
theorem before (h : Flows p mintOf q m 0 0 b₁ b₂) (h' : Flows p mintOf q m δ ι b₂ b₃) : Flows p mintOf q m δ ι b₁ b₃ := by
  simpa using h.trans h'

theorem after (h : Flows p mintOf q m δ ι b₁ b₂) (h' : Flows p mintOf q m 0 0 b₂ b₃) : Flows p mintOf q m δ ι b₁ b₃ := by
  simpa using h.trans h'

theorem mono (h : Flows p mintOf q m δ ι b b') (hδ : ∀ k j, mintOf k = some j → δ' k ≤ δ k) (hι : ι ≤ ι') :
    Flows p mintOf q m δ' ι' b b' :=
  ⟨h.owned, fun ho k j hk => by
    have h₁ := h.balance ho k j hk
    have h₂ := hδ k j hk
    omega, h.authority, fun ha => (h.supply ha).trans (by omega), h.backed⟩

end Flows

/-- amounts move between accounts, and the supply stays -/
theorem transfer_flows (h : b.transfer src dst auth x = .ok b') :
    Flows p mintOf q m (Pi.single dst x - Pi.single src x) 0 b b' := by
  refine ⟨fun ho => ho.shape (transfer_shape h), fun _ k j _ => ?_, fun ha => ha.shape (transfer_shape h), fun _ => ?_,
    fun hb => hb.transfer h⟩
  · have hk := transfer_balance h k
    simp only [Pi.sub_apply, Pi.single_apply]
    split_ifs at hk ⊢ <;> omega
  · simp [transfer_supply h]

/-- what another than `p` transfers comes from no escrow -/
theorem transfer_in_flows (h : b.transfer src dst auth x = .ok b') (hp : auth ≠ p) :
    Flows p mintOf q m (Pi.single dst x) 0 b b' := by
  have hflow : Flows p mintOf q m (Pi.single dst x - Pi.single src x) 0 b b' := transfer_flows h
  refine ⟨hflow.owned, fun ho k j hk => ?_, hflow.authority, hflow.supply, hflow.backed⟩
  obtain ⟨s, hs, hauth⟩ := transfer_owner h
  have hne : k ≠ src := by
    rintro rfl
    exact hp (hauth.symm.trans (ho k j hk s hs).1)
  have hbal := transfer_balance h k
  rw [if_neg hne] at hbal
  simp only [Pi.single_apply]
  split_ifs at hbal ⊢ <;> omega

/-- what is burned leaves its account, and the supply if it is of `m` -/
theorem burn_flows (h : b.burn j src auth x = .ok b') :
    Flows p mintOf q m (-Pi.single src x) (if m = j then -x else 0) b b' := by
  refine ⟨fun ho => ho.shape (burn_shape h), fun _ k i _ => ?_, fun ha => ha.shape (burn_shape h), fun _ => ?_,
    fun hb => hb.burn h⟩
  · simp only [Pi.neg_apply, Pi.single_apply]
    split_ifs with hk
    · have hsrc := burn_src h
      rw [← hk] at hsrc
      omega
    · simp [burn_frame h hk]
  · split_ifs with hm
    · have hs := burn_supply h
      rw [← hm] at hs
      omega
    · simp [burn_supply_frame h hm]

theorem burn_out_flows (h : b.burn j src auth x = .ok b') (hp : auth ≠ p) :
    Flows p mintOf q m 0 (if m = j then -x else 0) b b' := by
  have hflow : Flows p mintOf q m (-Pi.single src x) (if m = j then -x else 0) b b' := burn_flows h
  refine ⟨hflow.owned, fun ho k i hk => ?_, hflow.authority, hflow.supply, hflow.backed⟩
  obtain ⟨s, hs, hauth⟩ := burn_owner h
  have hne : k ≠ src := by
    rintro rfl
    exact hp (hauth.symm.trans (ho k i hk s hs).1)
  simp [burn_frame h hne]

theorem mintTo_flows (h : b.mintTo j dst auth x = .ok b') :
    Flows p mintOf q m (Pi.single dst x) (if m = j then x else 0) b b' := by
  refine ⟨fun ho => ho.shape (mintTo_shape h), fun _ k i _ => ?_, fun ha => ha.shape (mintTo_shape h), fun _ => ?_,
    fun hb => hb.mintTo h⟩
  · simp only [Pi.single_apply]
    split_ifs with hk
    · rw [hk, mintTo_dst h]
      omega
    · simp [mintTo_frame h hk]
  · rw [mintTo_supply h]
    split_ifs <;> simp

/-- who is not the mint authority of `m` mints none of it -/
theorem mintTo_out_flows (h : b.mintTo j dst auth x = .ok b') (hq : auth ≠ q) : Flows p mintOf q m 0 0 b b' := by
  have hflow : Flows p mintOf q m (Pi.single dst x) (if m = j then x else 0) b b' := mintTo_flows h
  refine ⟨hflow.owned, fun _ k i _ => ?_, hflow.authority, fun ha => ?_, hflow.backed⟩
  · have hk := mintTo_mono h k
    simp
    omega
  · obtain ⟨t, ht, hauth⟩ := ha
    obtain ⟨d, t', -, ht', hauth', rfl⟩ := mintTo_ok h
    have hne : m ≠ j := by
      rintro rfl
      cases ht.symm.trans ht'
      exact hq (Option.some.inj (hauth'.symm.trans hauth))
    rw [putMint_supply, if_neg hne]
    simp

/-- an escrow may only be opened for `p` and its mint -/
theorem openAccount_flows {owner : K} (h : b.openAccount k j owner = .ok b') (hk : ∀ i, mintOf k = some i → j = i ∧ owner = p) :
    Flows p mintOf q m 0 0 b b' := by
  have hbal := openAccount_balance h
  have hsup := openAccount_supply h
  have hbacked : Backed m b → Backed m b' := fun hb => hb.openAccount h
  obtain ⟨-, -, -, rfl⟩ := openAccount_ok h
  refine ⟨fun ho i n hi a ha => ?_, fun _ i n _ => by simp [hbal], id, fun _ => by simp, hbacked⟩
  by_cases hik : i = k
  · subst hik
    rw [put_accounts, update_self] at ha
    cases ha
    obtain ⟨rfl, rfl⟩ := hk n hi
    exact ⟨rfl, rfl⟩
  · rw [put_accounts, update_of_ne hik] at ha
    exact ho i n hi a ha

/-- another authority than `q` hands over no mint of `q` -/
theorem setMintAuthority_flows {auth' : Option K} (h : b.setMintAuthority j auth auth' = .ok b') (hq : auth ≠ q) :
    Flows p mintOf q m 0 0 b b' := by
  have hbacked : Backed m b → Backed m b' := fun hb => hb.setMintAuthority h
  simp only [setMintAuthority, bind_ok, demand_ok, require_ok] at h
  obtain ⟨t, ht, -, hauth, h⟩ := h
  cases Except.ok.inj h
  refine ⟨id, fun _ _ _ _ => by simp, fun hm => ?_, fun _ => ?_, hbacked⟩
  · obtain ⟨t', ht', ha⟩ := hm
    have hne : m ≠ j := by
      rintro rfl
      cases ht.symm.trans ht'
      exact hq (Option.some.inj (hauth.symm.trans ha))
    refine ⟨t', ?_, ha⟩
    rw [putMint_mints, update_of_ne hne, ht']
  · rw [putMint_supply]
    split_ifs with hm
    · subst hm
      simp [Bank.supply, ht]
    · simp

/-- **Third parties.** Who is neither `p` nor `q`, and creates no account at an escrow, moves nothing. -/
theorem apply_flows {op : Op K} (h : b.apply auth op = .ok b') (hp : auth ≠ p) (hq : auth ≠ q)
    (hop : ∀ k, op.creates = some k → mintOf k = none) : Flows p mintOf q m 0 0 b b' := by
  have hcreates : ∀ k, op.creates = some k → ¬ ∃ j, mintOf k = some j := fun k hk ⟨j, hj⟩ => by simp [hop k hk] at hj
  have hrespects : Respects p (fun k => ∃ j, mintOf k = some j) b b' := apply_respects h hp hcreates
  have hrespects' : Respects q (fun k => ∃ j, mintOf k = some j) b b' := apply_respects h hq hcreates
  refine ⟨fun ho => ho.respects hrespects, fun ho k j hk => ?_, fun ha => ha.respects hrespects', fun ha => ?_,
    fun hb => hb.apply h⟩
  · have hle := hrespects.balance_le ho hk
    simp
    omega
  · have hle := hrespects'.supply_le ha
    simp
    omega

end Grindurus.TokenBank.Bank
