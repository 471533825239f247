/-
What each instruction leaves alone in the state account.

- `GraiState.frame`: the roles, the parameters and the clock of liquidation. `Framed w w'`: they are the same.
- `Unbooked w w'`: besides, no referral book and not their registry changed.

What holders do is `Framed`, unless it opens or closes liquidation, and `Unbooked`, unless it is a deposit, a claim or a
poach.

The frame of an instruction is used twice: the timeline of liquidation needs that nobody but the two instructions moves the
flags, and the rules of the owner need that nobody but the setters moves the parameters. `Unbooked` does the same for the
referral books.
-/
import Grindurus.Grai.Program

namespace Grindurus.Grai

open Checked TokenBank Function

/-- the state account without its totals, its book of shares and its registries -/
def GraiState.frame (s : GraiState) : GraiState :=
  { s with totalValue := 0, totalLocked := 0, totalVoted := 0, assetMints := [], lockers := [], voters := [], referrers := [] }

/-- between `w` and `w'` the roles, the parameters and the clock of liquidation are the same -/
structure Framed (w w' : World) : Prop where
  state : w'.state.frame = w.state.frame

/-- besides, no referral book was touched -/
structure Unbooked (w w' : World) : Prop extends Framed w w' where
  books : w'.books = w.books
  referrers : w'.state.referrers = w.state.referrers

variable {w w' w₁ w₂ w₃ : World}

theorem Framed.refl (w : World) : Framed w w := ⟨rfl⟩

theorem Framed.trans (h : Framed w₁ w₂) (h' : Framed w₂ w₃) : Framed w₁ w₃ :=
  ⟨h'.state.trans h.state⟩

theorem Unbooked.refl (w : World) : Unbooked w w := ⟨.refl w, rfl, rfl⟩

theorem Unbooked.trans (h : Unbooked w₁ w₂) (h' : Unbooked w₂ w₃) : Unbooked w₁ w₃ :=
  ⟨h.toFramed.trans h'.toFramed, h'.books.trans h.books, h'.referrers.trans h.referrers⟩

/-! ## Stakes -/

theorem performLock_unbooked {x : ℕ} {e e' : Escrow} {source : Key} {owner : Signer} {remaining : List Key} (hw : w.WF)
    (h : performLock w e x source owner remaining = .ok (w', e')) : Unbooked w w' := by
  obtain ⟨-, -, -, _, _, _, _, -, -, rfl⟩ := performLock_ok hw.nodup h
  exact ⟨⟨rfl⟩, rfl, rfl⟩

theorem executeLock_unbooked {a : Lock} (hw : w.WF) (h : executeLock w a = .ok w') : Unbooked w w' := by
  obtain ⟨b, w₁, e₁, hb, hlock, rfl⟩ := executeLock_locks h
  have hlock := performLock_unbooked (hw.bank (initVault_moves w.state.graiMint hb)) hlock
  exact ⟨⟨hlock.state⟩, hlock.books, hlock.referrers⟩

theorem executeVote_unbooked {a : Vote} (hw : w.WF) (h : executeVote w a = .ok w') : Unbooked w w' := by
  obtain ⟨b, w₁, e₁, w₂, e₂, hb, hauto, hvote, rfl⟩ := executeVote_votes h
  have hb := hw.bank (initVault_moves w.state.graiMint hb)
  have hauto : w₁.state.assetMints.Nodup ∧ Unbooked w w₁ := by
    rcases hauto with ⟨rfl, -⟩ | ⟨x, hlock⟩
    · exact ⟨hw.nodup, ⟨rfl⟩, rfl, rfl⟩
    · have h₁ := performLock_unbooked hb hlock
      exact ⟨(performLock_step hb hlock).1.nodup, ⟨h₁.state⟩, h₁.books, h₁.referrers⟩
  obtain ⟨-, -, -, -, _, _, _, -, rfl⟩ := performVote_ok hauto.1 hvote
  exact hauto.2.trans ⟨⟨rfl⟩, rfl, rfl⟩

theorem executeUnlock_unbooked {a : Unlock} (hw : w.WF) (h : executeUnlock w a = .ok w') : Unbooked w w' := by
  obtain ⟨e, b, x, penalty, ps, s, e', b₁, b₂, -, -, -, -, -, -, -, hclamp, -, -, rfl⟩ := executeUnlock_releases hw h
  obtain ⟨-, -, -, hst⟩ := clampVote_ok hclamp
  rw [hst]
  exact ⟨⟨rfl⟩, rfl, rfl⟩

theorem executeBribe_unbooked {a : Bribe} (hw : w.WF) (h : executeBribe w a = .ok w') : Unbooked w w' := by
  obtain ⟨_, e, _, asset, b, _, _, _, _, ps, w₂, e', b₁, w₃, -, -, -, -, -, hbuy, -, hpay, rfl⟩ := executeBribe_buys hw h
  obtain ⟨-, -, -, -, -, b₂, -, rfl⟩ := buyOut_ok hbuy
  obtain ⟨_, asset', b₃, b₄, -, -, -, -, rfl⟩ := payBribe_pays hpay
  exact ⟨⟨rfl⟩, rfl, rfl⟩

/-! ## Yield -/

theorem executeDistribute_unbooked {a : Distribute} (h : executeDistribute w a = .ok w') : Unbooked w w' := by
  obtain ⟨_, _, _, _, _, -, -, -, -, rfl⟩ := executeDistribute_pulls h
  exact ⟨⟨rfl⟩, rfl, rfl⟩

/-! ## Redeem -/

theorem burnShares_unbooked {a : Redeem} {wallet value : ℕ} (hw : w.WF) (h : burnShares w a wallet value = .ok w') :
    Unbooked w w' := by
  obtain ⟨e, x, ps, b, w₁, e', -, -, hle, -, -, hburn, -, rfl⟩ := burnShares_burns hw h
  obtain ⟨-, -, _, _, _, -, -, -, rfl⟩ := burnLocked_ok (by omega) hburn
  exact ⟨⟨rfl⟩, rfl, rfl⟩

theorem executeRedeem_unbooked {a : Redeem} (hw : w.WF) (h : executeRedeem w a = .ok w') : Unbooked w w' := by
  obtain ⟨_, _, w₁, _, -, -, -, -, -, hburn, -, rfl⟩ := executeRedeem_redeems h
  have hburn := burnShares_unbooked hw hburn
  exact ⟨⟨hburn.state⟩, hburn.books, hburn.referrers⟩

/-! ## Listing -/

theorem list_unbooked {a : SetFeed} {auth : Option Key} (h : list w a auth = .ok w') : Unbooked w w' := by
  obtain ⟨_, _, _, -, -, -, -, rfl⟩ := list_opens h
  exact ⟨⟨rfl⟩, rfl, rfl⟩

theorem delist_unbooked {a : SetFeed} {asset : AssetConfig} (h : delist w a asset = .ok w') : Unbooked w w' := by
  obtain ⟨-, w₁, b, hstored, -, rfl⟩ := delist_removes h
  rcases hstored with rfl | ⟨m, moved, i, -, rfl⟩
  · exact ⟨⟨rfl⟩, rfl, rfl⟩
  · exact ⟨⟨rfl⟩, rfl, rfl⟩

theorem executeSetFeed_unbooked {a : SetFeed} (h : executeSetFeed w a = .ok w') : Unbooked w w' := by
  obtain ⟨-, t, -, h⟩ | ⟨-, asset, -, h | ⟨_, _, _, rfl⟩⟩ := executeSetFeed_cases h
  · exact list_unbooked h
  · exact delist_unbooked h
  · exact ⟨⟨rfl⟩, rfl, rfl⟩

/-! ## Books -/

theorem Quiet.framed (h : Quiet w w') : Framed w w' := by
  refine ⟨?_⟩
  rw [h.state]
  rfl

theorem payOut_framed {p : Payout} {asset : AssetConfig} {position : Position} {log : List TreasuryMsg}
    (h : payOut w p asset position = .ok (w', log)) : Framed w w' := by
  obtain ⟨_, _, _, w₁, -, -, hdist, -, rfl⟩ := payOut_pays h
  obtain ⟨w₂, _, _, hq, -, -, rfl⟩ := distributeClaimTreasury_ok hdist
  exact ⟨hq.framed.state⟩

theorem executeClaim_framed {a : Claim} {log : List TreasuryMsg} (h : executeClaim w a = .ok (w', log)) : Framed w w' := by
  obtain ⟨_, _, _, _, _, _, -, -, -, ⟨rfl, -⟩ | ⟨_, _, -, hpay⟩⟩ := executeClaim_cases h
  · exact ⟨rfl⟩
  · exact ⟨(payOut_framed hpay).state⟩

theorem claimAsset_framed {a : ClaimAll} {locked : ℕ} {m : Key} {slots : ClaimSlots} {affiliate : List Key}
    {log : List TreasuryMsg} (h : claimAsset w a locked m slots affiliate = .ok (w', log)) : Framed w w' := by
  obtain ⟨_, _, _, -, -, -, ⟨rfl, -⟩ | ⟨_, _, -, hpay⟩⟩ := claimAsset_cases h
  · exact ⟨rfl⟩
  · exact ⟨(payOut_framed hpay).state⟩

theorem claimAssets_framed {a : ClaimAll} {locked tail : ℕ} {mints remaining : List Key} {log : List TreasuryMsg}
    (h : claimAssets a locked tail mints remaining w = .ok (w', log)) : Framed w w' :=
  claimAssets_induct Framed.refl Framed.trans claimAsset_framed h

theorem executeClaimAll_framed {a : ClaimAll} {log : List TreasuryMsg} (h : executeClaimAll w a = .ok (w', log)) :
    Framed w w' := by
  obtain ⟨_, h⟩ := executeClaimAll_walks h
  exact claimAssets_framed h

theorem bookDeposit_framed {a : Deposit} {supply decimals : ℕ} {price : PriceData} (hw : w.WF)
    (h : bookDeposit w a supply decimals price = .ok w') : Framed w w' := by
  obtain ⟨_, _, b, _, w₁, _, -, hb, hmint, h⟩ := bookDeposit_moves h
  have hwf := hw.bank (a.move_moves hb)
  have hq := mintReferrer_quiet (w := { w with bank := b }) hw.mint hmint
  have hstate := hq.framed.state
  obtain ⟨w₂, e₂, rfl, ⟨rfl, -⟩ | hlock⟩ := lockDeposit_cases h
  · exact ⟨hstate⟩
  · have hnodup : w₁.state.assetMints.Nodup := (hq.wf hwf).nodup
    obtain ⟨-, -, -, _, _, _, _, -, -, rfl⟩ := performLock_ok (by exact hnodup) hlock
    exact ⟨hstate⟩

theorem executeDeposit_framed {a : Deposit} (hw : w.WF) (h : executeDeposit w a = .ok w') : Framed w w' := by
  obtain ⟨_, _, _, _, hwf, h⟩ := executeDeposit_books hw h
  exact ⟨(bookDeposit_framed hwf h).state⟩

theorem executeDepositSol_framed {a : DepositSol} (hw : w.WF) (h : executeDepositSol w a = .ok w') : Framed w w' := by
  obtain ⟨_, _, _, _, hwf, h⟩ := executeDepositSol_books hw h
  exact ⟨(bookDeposit_framed hwf h).state⟩

theorem executePoach_framed {a : Poach} (h : executePoach w a = .ok w') : Framed w w' := by
  obtain ⟨_, _, _, _, _, _, _, -, -, -, h⟩ := executePoach_slot h
  exact ⟨(rebindSlot_booked h).quiet.framed.state⟩

end Grindurus.Grai
