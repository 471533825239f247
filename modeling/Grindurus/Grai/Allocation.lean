/-
The allocation of `grai_state` (`programs/grai/src/lib.rs`, `state.rs`, and what Anchor does when an instruction ends).

- `GraiState.serialize`: the state in Borsh. `serialize_length`: it is as long as `GraiState.space` says. `GraiState.exit` writes
  it to the data of the account, which must be long enough.
- `World.Fitted`: the allocation holds the state and is paid for. `Grows n w w'`: the step from `w` to `w'` keeps it, and
  registers at most `n` keys.
- `step_grows`: every instruction registers at most four keys, and has made room for them.
- `process`: an instruction under the runtime, which bounds the length of an account. `state_allocated`: in every run, the
  allocation holds the state and the exit succeeds.

`grai_state` grows with the registries. Anchor writes an account back when the instruction ends, into the room that is there; an
account that has become too long for it makes the instruction fail at the end, and would make every later one fail. The program
makes room before it registers a key, and pays the rent of it.
-/
import Grindurus.Lib.Borsh
import Grindurus.Grai.Program

namespace Grindurus.Grai

open Checked Bytes Borsh TokenBank Machine Function

/-! ## The state in Borsh -/

/-- how the state is spelled: its addresses, the discriminator of its type, and the bump of its own address -/
structure Layout where
  pubkey : Key → Pubkey
  discriminator : Discriminator
  bump : UInt8

variable (l : Layout)

/-- a vector of keys -/
def Layout.keys (ks : List Key) : Except Borsh.Error (List UInt8) := vec (ks.map fun k => (l.pubkey k).toList)

def Config.fields (c : Config) : List (List UInt8) :=
  [uint 2 c.dividendCutBps, uint 2 c.treasuryCutBps, uint 2 c.revenueShareBps, uint 2 c.claimTipBps, uint 2 c.bribePremiumBps,
    uint 2 c.quorumBps, uint 2 c.unlockPenaltyBps, uint 2 c.poachFeeBps, uint 4 c.liquidationPeriod, uint 4 c.redeemPeriod,
    uint 2 c.mintPremiumBpsPerYear]

namespace GraiState

/-- the fields in front of the vectors -/
def fields (s : GraiState) : List (List UInt8) :=
  [(l.pubkey s.owner).toList, (l.pubkey s.pendingOwner).toList, (l.pubkey s.beneficiar).toList, (l.pubkey s.grinders).toList,
    uint 16 s.totalValue, uint 8 s.totalLocked, uint 8 s.totalVoted, bool s.liquidation, int 8 s.liquidationAt,
    int 8 s.mintPremiumAt, (l.pubkey s.graiMint).toList] ++ s.config.fields ++
    [uint 2 s.royaltyBps, uint 1 s.affiliateLevels] ++ s.affiliateShareBps.map (uint 2)

/-- the body of the account -/
def serialize (s : GraiState) : Except Borsh.Error (List UInt8) := do
  let assetMints ← l.keys s.assetMints
  let lockers ← l.keys s.lockers
  let voters ← l.keys s.voters
  let referrers ← l.keys s.referrers
  .ok ((s.fields l).flatten ++ assetMints ++ lockers ++ voters ++ referrers ++ uint 1 l.bump.toNat)

/-- the end of an instruction: the state goes back to the data of its account -/
def exit (s : GraiState) (data : List UInt8) : Except Borsh.Error (List UInt8) := do
  let body ← s.serialize l
  store data (l.discriminator.toList ++ body)

/-- the space for the state as it is -/
def size (s : GraiState) : ℕ := space s.assetMints.length s.lockers.length s.voters.length s.referrers.length

end GraiState

variable {l}

theorem Layout.keys_length {ks : List Key} {bytes : List UInt8} (h : l.keys ks = .ok bytes) :
    bytes.length = 4 + ks.length * 32 := by
  have hkey : ∀ e ∈ ks.map fun k => (l.pubkey k).toList, e.length = 32 := by simp
  rw [vec_length h hkey, List.length_map]

theorem Layout.keys_fits (l : Layout) {ks : List Key} (h : ks.length < 2 ^ 32) : Succeeds (l.keys ks) :=
  ⟨_, vec_fits (by rwa [List.length_map])⟩

namespace GraiState

variable {s s' : GraiState}

theorem fields_length (h : s.affiliateShareBps.length = 2) : (s.fields l).flatten.length + 1 = FIXED_LEN := by
  have hshares : (s.affiliateShareBps.map (uint 2)).flatten.length = 2 * 2 := by
    rw [flatten_length_const (n := 2) (by simp), List.length_map, h]
  simp only [fields, Config.fields, List.flatten_append, List.length_append, hshares]
  simp [FIXED_LEN]

/-- with its discriminator, the serialized state takes the space that is reckoned for it -/
theorem serialize_length {body : List UInt8} (hs : s.affiliateShareBps.length = 2) (h : s.serialize l = .ok body) :
    8 + body.length = s.size := by
  simp only [serialize, bind_ok, Except.ok.injEq] at h
  obtain ⟨assetMints, ha, lockers, hl, voters, hv, referrers, hr, rfl⟩ := h
  have hfixed := fields_length (l := l) hs
  have ha := Layout.keys_length ha
  have hl := Layout.keys_length hl
  have hv := Layout.keys_length hv
  have hr := Layout.keys_length hr
  simp only [List.length_append, uint_length, size, space]
  omega

theorem serialize_fits (h : s.size < 2 ^ 32) : Succeeds (s.serialize l) := by
  simp only [size, space] at h
  obtain ⟨assetMints, ha⟩ := l.keys_fits (show s.assetMints.length < 2 ^ 32 by omega)
  obtain ⟨lockers, hl⟩ := l.keys_fits (show s.lockers.length < 2 ^ 32 by omega)
  obtain ⟨voters, hv⟩ := l.keys_fits (show s.voters.length < 2 ^ 32 by omega)
  obtain ⟨referrers, hr⟩ := l.keys_fits (show s.referrers.length < 2 ^ 32 by omega)
  refine ⟨(s.fields l).flatten ++ assetMints ++ lockers ++ voters ++ referrers ++ uint 1 l.bump.toNat, ?_⟩
  simp only [serialize, bind_ok]
  exact ⟨_, ha, _, hl, _, hv, _, hr, rfl⟩

theorem size_le (ha : s'.assetMints.length ≤ s.assetMints.length) (hl : s'.lockers.length ≤ s.lockers.length)
    (hv : s'.voters.length ≤ s.voters.length) (hr : s'.referrers.length ≤ s.referrers.length) : s'.size ≤ s.size := by
  unfold size space
  omega

end GraiState

/-! ## Room for the state -/

variable {w w' w₁ w₂ : World} {m n : ℕ}

/-- the allocation holds the state, and its rent is paid -/
structure World.Fitted (w : World) : Prop where
  space : w.state.size ≤ w.stateSpace
  rent : rentMinimum w.stateSpace ≤ w.stateLamports

/-- a fitted state stays fitted, registers at most `n` keys, and makes no more room than for these -/
structure Grows (n : ℕ) (w w' : World) : Prop where
  fitted : w.Fitted → w'.Fitted
  size : w'.state.size ≤ w.state.size + 32 * n
  space : w'.stateSpace ≤ max w.stateSpace (w.state.size + 32 * n)

namespace Grows

/-- a step that registers nothing and leaves the account as long as it is -/
theorem keep (hsize : w'.state.size ≤ w.state.size) (hspace : w'.stateSpace = w.stateSpace)
    (hlamports : w'.stateLamports = w.stateLamports) : Grows n w w' := by
  refine ⟨fun h => ⟨?_, ?_⟩, Nat.le_add_right_of_le hsize, hspace.le.trans (le_max_left ..)⟩
  · rw [hspace]
    exact hsize.trans h.space
  · rw [hspace, hlamports]
    exact h.rent

theorem refl (w : World) : Grows n w w := .keep le_rfl rfl rfl

theorem trans (h : Grows m w w₁) (h' : Grows n w₁ w₂) : Grows (m + n) w w₂ := by
  have hm := h.size
  have hn := h'.size
  have hspace := h.space
  have hspace' := h'.space
  exact ⟨fun hw => h'.fitted (h.fitted hw), by omega, by omega⟩

theorem mono (h : Grows m w w') (hle : m ≤ n) : Grows n w w' := by
  have hm := h.size
  have hspace := h.space
  exact ⟨h.fitted, by omega, by omega⟩

/-- a reallocation to what the new state needs -/
theorem realloc {s : GraiState} {space : ℕ} (hspace : s.size = space) (hsize : space ≤ w.state.size + 32 * n) :
    Grows n w { reallocGraiState w space with state := s } :=
  ⟨fun _ => ⟨hspace.le, le_max_right ..⟩, hspace.le.trans hsize, hsize.trans (le_max_right ..)⟩

/-- a step that registers nothing, and then another -/
theorem before (h : Grows 0 w w₁) (h' : Grows n w₁ w₂) : Grows n w w₂ := by simpa using h.trans h'

theorem after (h : Grows n w w₁) (h' : Grows 0 w₁ w₂) : Grows n w w₂ := h.trans h'

theorem storeReferrer (h : Grows n w w') (key : Key) (book : Referrer) : Grows n w (w'.storeReferrer key book) :=
  h.after (.keep le_rfl rfl rfl)

theorem storeEscrow (h : Grows n w w') (account : Key) (escrow : Escrow) : Grows n w (w'.storeEscrow account escrow) :=
  h.after (.keep le_rfl rfl rfl)

end Grows

theorem removeFromList_length (ks : List Key) (k : Key) : (removeFromList ks k).length ≤ ks.length := by
  rw [removeFromList, (Registry.swapRemove_perm ks k).length_eq]
  exact List.length_erase_le

/-- a registry that a key leaves in one of two cases -/
theorem leave_length {c : Prop} [Decidable c] (ks : List Key) (k : Key) :
    (if c then removeFromList ks k else ks).length ≤ ks.length := by
  split_ifs
  · exact removeFromList_length ks k
  · exact le_rfl

/-! ## Stakes -/

variable {e e' : Escrow} {u : Key}

theorem pushLocker_grows (w : World) (e : Escrow) (owner : Key) : Grows 1 w (pushLocker w e owner).1 := by
  unfold pushLocker
  split_ifs
  · refine .realloc ?_ ?_
    · simp [GraiState.size]
    · simp only [GraiState.size, GraiState.space]
      omega
  · exact .refl w

theorem pushVoter_grows (w : World) (e : Escrow) (account : Key) : Grows 1 w (pushVoter w e account).1 := by
  unfold pushVoter
  split_ifs
  · refine .realloc ?_ ?_
    · simp [GraiState.size]
    · simp only [GraiState.size, GraiState.space]
      omega
  · exact .refl w

theorem pushLocker_assetMints (w : World) (e : Escrow) (owner : Key) :
    (pushLocker w e owner).1.state.assetMints = w.state.assetMints := by
  unfold pushLocker reallocGraiState
  split_ifs <;> rfl

theorem performLock_grows {x : ℕ} {source : Key} {owner : Signer} {remaining : List Key} (hn : w.state.assetMints.Nodup)
    (h : performLock w e x source owner remaining = .ok (w', e')) :
    Grows 1 w w' ∧ w'.state.assetMints = w.state.assetMints := by
  simp only [performLock, bind_ok, Except.ok.injEq, Prod.mk.injEq] at h
  obtain ⟨-, -, n, -, w₁, hs, _, -, b, -, rfl, -⟩ := h
  obtain ⟨ps, rfl, -⟩ := settleAllPairs_ok hn hs
  have hsettle : Grows 0 w { w with positions := ps } := .keep le_rfl rfl rfl
  exact ⟨(hsettle.before (pushLocker_grows _ e owner.key)).after (.keep le_rfl rfl rfl), pushLocker_assetMints _ e owner.key⟩

theorem executeLock_grows {a : Lock} (hw : w.WF) (h : executeLock w a = .ok w') : Grows 1 w w' := by
  obtain ⟨b, w₁, e₁, -, hlock, rfl⟩ := executeLock_locks h
  have hinit : Grows 0 w { w with bank := b } := .keep le_rfl rfl rfl
  have hlock := (performLock_grows (by exact hw.nodup) hlock).1
  exact (hinit.before hlock).storeEscrow a.locker.key e₁

theorem performVote_grows {x : ℕ} {account : Key} {remaining : List Key} {now : ℤ} (hn : w.state.assetMints.Nodup)
    (h : performVote w e x account remaining now = .ok (w', e')) : Grows 1 w w' := by
  simp only [performVote, bind_ok, Except.ok.injEq, Prod.mk.injEq] at h
  obtain ⟨-, -, n, -, -, -, w₁, hs, _, -, rfl, -⟩ := h
  obtain ⟨ps, rfl, -⟩ := settleAllPairs_ok hn hs
  have hsettle : Grows 0 w { w with positions := ps } := .keep le_rfl rfl rfl
  exact (hsettle.before (pushVoter_grows _ e account)).after (.keep le_rfl rfl rfl)

/-- a vote may lock first -/
theorem executeVote_grows {a : Vote} (hw : w.WF) (h : executeVote w a = .ok w') : Grows 2 w w' := by
  obtain ⟨b, w₁, e₁, w₂, e₂, -, hauto, hvote, rfl⟩ := executeVote_votes h
  have hinit : Grows 0 w { w with bank := b } := .keep le_rfl rfl rfl
  have hauto : Grows 1 w w₁ ∧ w₁.state.assetMints = w.state.assetMints := by
    rcases hauto with ⟨rfl, -⟩ | ⟨x, hlock⟩
    · exact ⟨.keep le_rfl rfl rfl, rfl⟩
    · obtain ⟨hgrows, hmints⟩ := performLock_grows (by exact hw.nodup) hlock
      exact ⟨hinit.before hgrows, hmints⟩
  obtain ⟨hgrows, hmints⟩ := hauto
  have hn : w₁.state.assetMints.Nodup := by
    rw [hmints]
    exact hw.nodup
  exact (hgrows.trans (performVote_grows hn hvote)).storeEscrow a.voter.key e₂

theorem clampVote_size {s s' : GraiState} (h : clampVote s e u = .ok (s', e')) : s'.size ≤ s.size := by
  unfold clampVote at h
  by_cases h0 : e.voted = 0 ∨ e.voted ≤ e.amount
  · rw [if_pos h0] at h
    cases h
    exact le_rfl
  · rw [if_neg h0] at h
    simp only [bind_ok, Except.ok.injEq, Prod.mk.injEq] at h
    obtain ⟨_, -, rfl, -⟩ := h
    exact GraiState.size_le le_rfl le_rfl (leave_length s.voters u) le_rfl

/-- a locker that may have left -/
theorem leaveLockers_size {c : Prop} [Decidable c] (s : GraiState) (u : Key) :
    ({ s with lockers := if c then removeFromList s.lockers u else s.lockers } : GraiState).size ≤ s.size :=
  GraiState.size_le le_rfl (leave_length s.lockers u) le_rfl le_rfl

theorem dropEmptied_size (s : GraiState) (e : Escrow) (voter : Key) : (dropEmptied s e voter).size ≤ s.size :=
  GraiState.size_le le_rfl (leave_length s.lockers voter) (leave_length s.voters voter) le_rfl

theorem executeUnlock_grows {a : Unlock} (hw : w.WF) (h : executeUnlock w a = .ok w') : Grows 0 w w' := by
  obtain ⟨e, b, x, penalty, ps, s, e', b₁, b₂, -, -, -, -, -, -, -, hclamp, -, -, rfl⟩ := executeUnlock_releases hw h
  have hclamped := clampVote_size hclamp
  exact .keep ((leaveLockers_size s a.account.key).trans (by exact hclamped)) rfl rfl

theorem executeBribe_grows {a : Bribe} (hw : w.WF) (h : executeBribe w a = .ok w') : Grows 0 w w' := by
  obtain ⟨_, e, _, asset, b, _, _, _, _, ps, w₂, e', b₁, w₃, -, -, -, -, -, hbuy, -, hpay, rfl⟩ := executeBribe_buys hw h
  obtain ⟨-, -, -, -, -, b₂, -, rfl⟩ := buyOut_ok hbuy
  obtain ⟨_, asset', b₃, b₄, -, -, -, -, rfl⟩ := payBribe_pays hpay
  exact .keep (dropEmptied_size _ e' a.voter) rfl rfl

/-! ## Books -/

/-- a new book may lengthen the registry -/
theorem Booked.grows (h : Booked n w w') : Grows n w w' := by
  induction h with
  | refl n w => exact .refl w
  | store key book _ ih => exact ih.storeReferrer key book
  | register key _ ih =>
    refine ih.trans ?_
    unfold registerReferrer
    split_ifs
    · exact .refl _
    · refine .realloc ?_ ?_
      · simp [GraiState.size]
      · simp only [GraiState.size, GraiState.space]
        omega

theorem ensureTreasuryNft_grows {book book' : Referrer} {locker nftAta : Key}
    (h : ensureTreasuryNft w book locker nftAta = .ok (w', book')) : Grows 0 w w' := by
  unfold ensureTreasuryNft at h
  split_ifs at h
  · cases h
    exact .refl _
  simp only [bind_ok] at h
  obtain ⟨_, -, h⟩ := h
  split_ifs at h
  · simp only [bind_ok, Except.ok.injEq, Prod.mk.injEq] at h
    obtain ⟨-, -, rfl, -⟩ := h
    exact .refl _
  · simp only [bind_ok, Except.ok.injEq, Prod.mk.injEq] at h
    obtain ⟨b₁, -, b₂, -, b₃, -, -, -, rfl, -⟩ := h
    exact .keep le_rfl rfl rfl

/-- the locker and its referrer may both be new -/
theorem mintReferrer_grows {locker referrer nftAta : Key} {value : ℕ} {remaining : List Key}
    (h : mintReferrer w locker referrer value remaining nftAta = .ok w') : Grows 2 w w' := by
  obtain ⟨w₁, book, w₂, book', hbooked, hnft, hcredited⟩ := mintReferrer_booked h
  exact (hbooked.grows.after (ensureTreasuryNft_grows hnft)).after hcredited.grows

theorem executePoach_grows {a : Poach} (h : executePoach w a = .ok w') : Grows 4 w w' := by
  obtain ⟨_, _, _, _, _, _, b, -, -, -, h⟩ := executePoach_slot h
  have hpaid : Grows 0 w { w with bank := b } := .keep le_rfl rfl rfl
  exact hpaid.before (rebindSlot_booked h).grows

/-! ## Deposits and claims -/

/-- a deposit may register two books and a locker -/
theorem bookDeposit_grows {a : Deposit} {supply decimals : ℕ} {price : PriceData} (hw : w.WF)
    (h : bookDeposit w a supply decimals price = .ok w') : Grows 3 w w' := by
  obtain ⟨value, graiOut, b, rest, w₁, n, -, hb, hmint, h⟩ := bookDeposit_moves h
  have hwf := (mintReferrer_quiet (w := { w with bank := b }) hw.mint hmint).wf (hw.bank (a.move_moves hb))
  have hmoved : Grows 0 w { w with bank := b } := .keep le_rfl rfl rfl
  have hbooked : Grows 2 w { w₁ with state := { w₁.state with totalValue := w₁.state.totalValue + value } } :=
    (hmoved.before (mintReferrer_grows hmint)).after (.keep le_rfl rfl rfl)
  obtain ⟨w₂, e₂, rfl, ⟨rfl, -⟩ | hlock⟩ := lockDeposit_cases h
  · exact (hbooked.storeEscrow a.depositor.key e₂).mono (by decide)
  · have hlocked := (performLock_grows (by exact hwf.nodup) hlock).1
    exact (hbooked.trans hlocked).storeEscrow a.depositor.key e₂

theorem payOut_grows {p : Payout} {asset : AssetConfig} {position : Position} {log : List TreasuryMsg}
    (h : payOut w p asset position = .ok (w', log)) : Grows 0 w w' := by
  obtain ⟨b, _, _, w₁, -, -, hdist, -, rfl⟩ := payOut_pays h
  obtain ⟨w₂, b₂, hcredit, -, rfl⟩ := distributeClaimTreasury_splits hdist
  have hpaid : Grows 0 w { w with bank := b } := .keep le_rfl rfl rfl
  exact (hpaid.before (creditClaim_booked hcredit).grows).after (.keep le_rfl rfl rfl)

theorem executeClaim_grows {a : Claim} {log : List TreasuryMsg} (h : executeClaim w a = .ok (w', log)) : Grows 0 w w' := by
  obtain ⟨_, _, _, b, _, position, -, -, -, ⟨rfl, -⟩ | ⟨_, _, -, hpay⟩⟩ := executeClaim_cases h
  · exact .keep le_rfl rfl rfl
  · have hsettled : Grows 0 w (World.storePosition { w with bank := b } a.holder a.assetMint position) := .keep le_rfl rfl rfl
    exact hsettled.before (payOut_grows hpay)

theorem claimAsset_grows {a : ClaimAll} {locked : ℕ} {mint : Key} {slots : ClaimSlots} {affiliate : List Key}
    {log : List TreasuryMsg} (h : claimAsset w a locked mint slots affiliate = .ok (w', log)) : Grows 0 w w' := by
  obtain ⟨_, _, position, -, -, -, ⟨rfl, -⟩ | ⟨_, _, -, hpay⟩⟩ := claimAsset_cases h
  · exact .keep le_rfl rfl rfl
  · have hsettled : Grows 0 w (w.storePosition a.holder mint position) := .keep le_rfl rfl rfl
    exact hsettled.before (payOut_grows hpay)

theorem claimAssets_grows {a : ClaimAll} {locked tail : ℕ} {mints remaining : List Key} {log : List TreasuryMsg}
    (h : claimAssets a locked tail mints remaining w = .ok (w', log)) : Grows 0 w w' :=
  claimAssets_induct Grows.refl Grows.before claimAsset_grows h

/-! ## Liquidation -/

theorem burnLocked_grows {x n : ℕ} (h : burnLocked w e x n u = .ok (w', e')) : Grows 0 w w' := by
  rcases burnLocked_cases h with ⟨-, rfl, -⟩ | ⟨s, b, -, -, hclamp, -, rfl⟩
  · exact .refl _
  · have hclamped := clampVote_size hclamp
    exact .keep ((leaveLockers_size s u).trans (by exact hclamped)) rfl rfl

theorem executeRedeem_grows {a : Redeem} (hw : w.WF) (h : executeRedeem w a = .ok w') : Grows 0 w w' := by
  obtain ⟨_, _, w₁, b₁, -, -, -, -, -, hburn, -, rfl⟩ := executeRedeem_redeems h
  obtain ⟨e, x, ps, b, w₂, e', -, -, -, -, -, hlocked, -, rfl⟩ := burnShares_burns hw hburn
  have hsettled : Grows 0 w { w with positions := ps, bank := b } := .keep le_rfl rfl rfl
  exact (hsettled.before (burnLocked_grows hlocked)).after (.keep le_rfl rfl rfl)

/-! ## Listing -/

theorem list_grows {a : SetFeed} {auth : Option Key} (h : list w a auth = .ok w') : Grows 1 w w' := by
  obtain ⟨asset, b₁, b₂, -, -, -, -, rfl⟩ := list_opens h
  have hroom : Grows 1 w { reallocGraiState w (GraiState.space (w.state.assetMints.length + 1) w.state.lockers.length
      w.state.voters.length w.state.referrers.length) with
      state := { w.state with assetMints := w.state.assetMints ++ [a.assetMint] } } := by
    refine .realloc ?_ ?_
    · simp [GraiState.size]
    · simp only [GraiState.size, GraiState.space]
      omega
  exact hroom.after (.keep le_rfl rfl rfl)

/-- the account gets as short as the state that is left -/
theorem delist_grows {a : SetFeed} {asset : AssetConfig} (h : delist w a asset = .ok w') : Grows 0 w w' := by
  obtain ⟨-, w₁, b, hstored, -, rfl⟩ := delist_removes h
  have hmoved : Grows 0 w w₁ := by
    rcases hstored with rfl | ⟨m, moved, i, -, rfl⟩
    · exact .refl _
    · exact .keep le_rfl rfl rfl
  have hsize : ({ w₁.state with assetMints := removeFromList w₁.state.assetMints a.assetMint } : GraiState).size ≤ w₁.state.size :=
    GraiState.size_le (removeFromList_length ..) le_rfl le_rfl le_rfl
  exact (hmoved.before (.realloc rfl hsize)).after (.keep le_rfl rfl rfl)

theorem executeSetFeed_grows {a : SetFeed} (h : executeSetFeed w a = .ok w') : Grows 1 w w' := by
  obtain ⟨-, t, -, h⟩ | ⟨-, asset, -, h | ⟨_, _, _, rfl⟩⟩ := executeSetFeed_cases h
  · exact list_grows h
  · exact (delist_grows h).mono (Nat.zero_le 1)
  · exact .keep le_rfl rfl rfl

/-! ## Every step -/

/-- an instruction registers what it opened room for -/
theorem step_grows {i : Instr} (hw : w.WF) (h : step w i = .ok w') : Grows 4 w w' := by
  cases i with
  | transferOwnership a | acceptOwnership a | setBeneficiar a | setRoyaltyBps a | setRevenueShareBps a | setGrinders a =>
    obtain ⟨_, _, _, _, _, _, _, rfl⟩ := step_governs rfl h
    exact .keep le_rfl rfl rfl
  | setConfig a =>
    obtain ⟨-, rfl⟩ := executeSetConfig_adjusts h
    exact .keep le_rfl rfl rfl
  | setBribeable a =>
    obtain ⟨_, -, rfl⟩ := executeSetBribeable_marks h
    exact .keep le_rfl rfl rfl
  | setFeed a => exact (executeSetFeed_grows h).mono (by decide)
  | deposit a =>
    obtain ⟨b, _, _, _, hwf, h⟩ := executeDeposit_books hw h
    have hinit : Grows 0 w { w with bank := b } := .keep le_rfl rfl rfl
    exact (hinit.before (bookDeposit_grows hwf h)).mono (by decide)
  | depositSol a =>
    obtain ⟨b, _, _, _, hwf, h⟩ := executeDepositSol_books hw h
    have hinit : Grows 0 w { w with bank := b } := .keep le_rfl rfl rfl
    exact (hinit.before (bookDeposit_grows hwf h)).mono (by decide)
  | distribute a =>
    obtain ⟨_, _, _, _, _, -, -, -, -, rfl⟩ := executeDistribute_pulls h
    exact .keep le_rfl rfl rfl
  | lock a => exact (executeLock_grows hw h).mono (by decide)
  | unlock a => exact (executeUnlock_grows hw h).mono (Nat.zero_le 4)
  | claim a =>
    simp only [step, bind_ok, Prod.exists, Except.ok.injEq] at h
    obtain ⟨_, _, h, rfl⟩ := h
    exact (executeClaim_grows h).mono (Nat.zero_le 4)
  | claimAll a =>
    simp only [step, bind_ok, Prod.exists, Except.ok.injEq] at h
    obtain ⟨_, _, h, rfl⟩ := h
    obtain ⟨_, h⟩ := executeClaimAll_walks h
    exact (claimAssets_grows h).mono (Nat.zero_le 4)
  | vote a => exact (executeVote_grows hw h).mono (by decide)
  | bribe a => exact (executeBribe_grows hw h).mono (Nat.zero_le 4)
  | poach a => exact executePoach_grows h
  | liquidate a =>
    obtain ⟨_, _, _, -, -, -, -, -, -, rfl⟩ := executeLiquidate_opens h
    exact .keep le_rfl rfl rfl
  | redeem a => exact (executeRedeem_grows hw h).mono (Nat.zero_le 4)
  | revive a =>
    obtain ⟨_, _, -, -, -, rfl⟩ := executeRevive_closes h
    exact .keep le_rfl rfl rfl
  | token s op =>
    simp only [step, bind_ok, Except.ok.injEq] at h
    obtain ⟨-, -, b, -, rfl⟩ := h
    exact .keep le_rfl rfl rfl
  | wrap k x =>
    simp only [step, bind_ok, Except.ok.injEq] at h
    obtain ⟨b, -, rfl⟩ := h
    exact .keep le_rfl rfl rfl
  | grinders k g =>
    cases h
    exact .keep le_rfl rfl rfl

theorem Genesis.fitted (g : Genesis) : g.world.Fitted := by
  obtain ⟨hassets, hlockers, hvoters, hreferrers⟩ := g.blank.lists
  refine ⟨?_, g.blank.rent.ge⟩
  rw [g.blank.space, GraiState.size, hassets, hlockers, hvoters, hreferrers]
  exact le_rfl

theorem Genesis.after_fitted (g : Genesis) (is : List Instr) : (g.after is).Fitted :=
  g.after_induct g.fitted (fun _ _ _ hw hf h => (step_grows hw h).fitted hf) is

/-! ## The runtime -/

/-- no account is longer -/
def MAX_PERMITTED_DATA_LENGTH : ℕ := 10 * 1024 * 1024

/-- no instruction makes an account longer by more -/
def MAX_PERMITTED_DATA_INCREASE : ℕ := 10 * 1024

theorem step_increase {i : Instr} (hw : w.WF) (hf : w.Fitted) (h : step w i = .ok w') :
    w'.stateSpace ≤ w.stateSpace + MAX_PERMITTED_DATA_INCREASE := by
  have hneeded := hf.space
  have hspace := (step_grows hw h).space
  unfold MAX_PERMITTED_DATA_INCREASE
  omega

inductive RuntimeError where
  | program (e : ErrorCode)
  | invalidRealloc

/-- the runtime takes the state account back, if it is not too long; that it grows too fast does not happen (`step_increase`) -/
def process (w : World) (i : Instr) : Except RuntimeError World :=
  match step w i with
  | .error e => .error (.program e)
  | .ok w' => if w'.stateSpace ≤ MAX_PERMITTED_DATA_LENGTH then .ok w' else .error .invalidRealloc

theorem process_ok {i : Instr} : process w i = .ok w' ↔ step w i = .ok w' ∧ w'.stateSpace ≤ MAX_PERMITTED_DATA_LENGTH := by
  unfold process
  cases step w i with
  | error e => simp
  | ok w₁ =>
    simp only [Except.ok.injEq]
    split_ifs with h
    · rw [Except.ok.injEq]
      exact ⟨fun hw => ⟨hw, hw ▸ h⟩, fun hw => hw.1⟩
    · simp only [false_iff, not_and]
      rintro rfl
      exact h

namespace Genesis

/-- the world that the instructions `is` lead to on chain -/
def processed (g : Genesis) (is : List Instr) : World := run process g.world is

/-- the runtime only refuses -/
theorem processed_reachable (g : Genesis) (is : List Instr) : ∃ js, g.processed is = g.after js := by
  refine run_invariant (P := fun w => ∃ js, w = g.after js) (fun w i w' hw h => ?_) g.world is ⟨[], rfl⟩
  obtain ⟨js, rfl⟩ := hw
  exact ⟨js ++ [i], (g.after_step (process_ok.1 h).1).symm⟩

theorem processed_space (g : Genesis) (is : List Instr) : (g.processed is).stateSpace ≤ MAX_PERMITTED_DATA_LENGTH := by
  refine run_invariant (P := fun w => w.stateSpace ≤ MAX_PERMITTED_DATA_LENGTH) (fun w i w' _ h => (process_ok.1 h).2) g.world is ?_
  rw [g.blank.space]
  decide

end Genesis

/-- the account holds the state and is paid for: whatever its data is, the exit goes through -/
structure World.Allocated (l : Layout) (w : World) : Prop where
  space : ∃ body, w.state.serialize l = .ok body ∧ 8 + body.length ≤ w.stateSpace
  rent : rentMinimum w.stateSpace ≤ w.stateLamports
  exit : ∀ data, data.length = w.stateSpace → Succeeds (w.state.exit l data)

/-- an allocation that fits is long enough for the bytes of the state -/
theorem World.Fitted.allocated (h : w.Fitted) (hs : w.state.affiliateShareBps.length = 2) (hsize : w.state.size < 2 ^ 32) :
    w.Allocated l := by
  obtain ⟨body, hbody⟩ := GraiState.serialize_fits (l := l) hsize
  have hlen := GraiState.serialize_length hs hbody
  have hspace := h.space
  refine ⟨⟨body, hbody, by omega⟩, h.rent, fun data hdata => ?_⟩
  have hfits : (l.discriminator.toList ++ body).length ≤ data.length := by
    rw [List.length_append, Vector.length_toList]
    omega
  refine ⟨l.discriminator.toList ++ body ++ data.drop (l.discriminator.toList ++ body).length, ?_⟩
  rw [GraiState.exit, hbody]
  exact store_fits hfits

/-- **The state never outgrows its account.** In every run, after every instruction, the allocation holds the serialized state
and its rent is paid, so that the exit serialization succeeds. The runtime bounds the length of an account, and a registration
beyond it is refused with the whole instruction. Nothing is assumed of the number of accounts. -/
theorem state_allocated (l : Layout) (g : Genesis) (is : List Instr) :
    (g.processed is).Allocated l ∧ ∀ i w', step (g.processed is) i = .ok w' → w'.Allocated l := by
  have hmax := g.processed_space is
  obtain ⟨js, hjs⟩ := g.processed_reachable is
  have hwf : (g.processed is).WF := hjs ▸ g.after_wf js
  have hfitted : (g.processed is).Fitted := hjs ▸ g.after_fitted js
  have hspace := hfitted.space
  unfold MAX_PERMITTED_DATA_LENGTH at hmax
  refine ⟨hfitted.allocated hwf.shares.length (by omega), fun i w' h => ?_⟩
  have hgrows := step_grows hwf h
  have hsize := hgrows.size
  exact (hgrows.fitted hfitted).allocated (step_committed hwf h).wf.shares.length (by omega)

/-- a listing, a deposit with two new books, and a lock -/
example : (Sample.genesis.processed [Sample.listing Sample.usdc false,
    Sample.deposit 2 1000 (Sample.user 3) [.referrer (Sample.user 2), .referrer (Sample.user 3)],
    Sample.lock 2 100 [Sample.usdc]]).stateSpace = GraiState.space 1 1 0 2 := by decide

end Grindurus.Grai
