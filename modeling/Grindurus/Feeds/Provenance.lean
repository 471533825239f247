/-
Where a price comes from.

- `FeedMove w m i r`: what an instruction may do to the feed of one mint: open it, give it an oracle, give it a price, or nothing.
  `step_feed`: every committed instruction is such a move.
- `Sound`: a feed is bound to its mint, its price is positive, and it was not updated in the future.
- `Provenance`: a feed was opened by the owner of the time, its oracle appointed by the owner of the time, and its price set with
  one of the two, by the oracle of the time.
- `feed_provenance`: along every run every feed is sound and has its provenance, and the owner was handed the ownership down.

The custom feeds are prices that somebody sets, so what a price is worth depends on who could set it. The history of a run is
enough to say that: each price has an entry in it, signed by the oracle or the owner of that time. GRAI reads these accounts as
bytes, and `OraclePrices` joins the two programs.
-/
import Grindurus.Lib.Ownable
import Grindurus.Feeds.Program

namespace Grindurus.Feeds

open Borsh Checked Machine Ownable Function

/-! ## Instructions -/

def Instr.signer : Instr → Option Pubkey
  | .transferOwnership a => some a.owner
  | .acceptOwnership a => some a.pendingOwner
  | .initializeFeed a => some a.owner
  | .setOracle a => some a.owner
  | .setPrice a => some a.oracle
  | .tick _ => none

/-- whose feed is written -/
def Instr.mint : Instr → Option Pubkey
  | .initializeFeed a => some a.assetMint
  | .setOracle a => some a.assetMint
  | .setPrice a => some a.assetMint
  | _ => none

/-- the oracle the feed is given -/
def Instr.appointee : Instr → Option Pubkey
  | .initializeFeed a => some a.oracle
  | .setOracle a => some a.oracle
  | _ => none

/-- the price the feed is given -/
def Instr.quote : Instr → Option I128
  | .initializeFeed a => some a.price
  | .setPrice a => some a.price
  | _ => none

def Instr.Creates (m : Pubkey) (i : Instr) : Prop := ∃ a, i = .initializeFeed a ∧ a.assetMint = m

def Instr.Appoints (m : Pubkey) (i : Instr) : Prop := i.mint = some m ∧ i.appointee ≠ none

def Instr.Quotes (m : Pubkey) (i : Instr) : Prop := i.mint = some m ∧ i.quote ≠ none

/-! ## Moves of a feed -/

/-- the feed of `m` after the instruction -/
inductive FeedMove (w : World) (m : Pubkey) (i : Instr) : Option CustomPriceFeed → Prop where
  | keeps (hi : i.mint ≠ some m) : FeedMove w m i (w.feeds m)
  | opens (a : Initialize) (hi : i = .initializeFeed a) (hm : a.assetMint = m) (absent : w.feeds m = none)
      (owner : w.config.owner = a.owner) (price : 0 < a.price.toInt) (decimals : a.decimals ≤ 18)
      (oracle : a.oracle ≠ defaultPubkey) :
      FeedMove w m i (some ⟨a.oracle, m, a.description, a.price, a.decimals, w.now⟩)
  | appoints (a : SetOracle) (f : CustomPriceFeed) (hi : i = .setOracle a) (hm : a.assetMint = m) (present : w.feeds m = some f)
      (owner : w.config.owner = a.owner) (oracle : a.oracle ≠ defaultPubkey) : FeedMove w m i (some { f with oracle := a.oracle })
  | quotes (a : SetPrice) (f : CustomPriceFeed) (hi : i = .setPrice a) (hm : a.assetMint = m) (present : w.feeds m = some f)
      (oracle : f.oracle = a.oracle) (price : 0 < a.price.toInt) :
      FeedMove w m i (some { f with price := a.price, updatedAt := w.now })

variable {w w' : World} {i : Instr} {m : Pubkey} {f f' : CustomPriceFeed}

theorem storeFeed_self (w : World) (m : Pubkey) (f : CustomPriceFeed) : (w.storeFeed m f).feeds m = some f := update_self ..

theorem storeFeed_of_ne {n : Pubkey} (h : m ≠ n) : (w.storeFeed n f).feeds m = w.feeds m := update_of_ne h ..

/-- **Every step moves each feed in one of four ways.** -/
theorem step_feed (m : Pubkey) (h : step w i = .ok w') : FeedMove w m i (w'.feeds m) := by
  cases i with
  | transferOwnership a =>
    simp only [step, executeTransferOwnership, bind_ok, Except.ok.injEq] at h
    obtain ⟨-, -, -, -, rfl⟩ := h
    exact .keeps (by simp [Instr.mint])
  | acceptOwnership a =>
    simp only [step, executeAcceptOwnership, bind_ok, Except.ok.injEq] at h
    obtain ⟨-, -, -, -, rfl⟩ := h
    exact .keeps (by simp [Instr.mint])
  | initializeFeed a =>
    obtain ⟨habsent, howner, hprice, hdecimals, horacle, rfl⟩ := executeInitialize_opens h
    rcases eq_or_ne m a.assetMint with rfl | hm
    · rw [storeFeed_self]
      exact .opens a rfl rfl habsent howner hprice hdecimals horacle
    · rw [storeFeed_of_ne hm]
      exact .keeps (by simpa [Instr.mint] using Ne.symm hm)
  | setOracle a =>
    obtain ⟨f, hf, howner, horacle, rfl⟩ := executeSetOracle_appoints h
    rcases eq_or_ne m a.assetMint with rfl | hm
    · rw [storeFeed_self]
      exact .appoints a f rfl rfl hf howner horacle
    · rw [storeFeed_of_ne hm]
      exact .keeps (by simpa [Instr.mint] using Ne.symm hm)
  | setPrice a =>
    obtain ⟨f, hf, horacle, hprice, rfl⟩ := executeSetPrice_quotes h
    rcases eq_or_ne m a.assetMint with rfl | hm
    · rw [storeFeed_self]
      exact .quotes a f rfl rfl hf horacle hprice
    · rw [storeFeed_of_ne hm]
      exact .keeps (by simpa [Instr.mint] using Ne.symm hm)
  | tick now =>
    cases h
    exact .keeps (by simp [Instr.mint])

/-- the clock never goes back -/
theorem step_now (h : step w i = .ok w') : w.now ≤ w'.now := by
  cases i with
  | transferOwnership a =>
    simp only [step, executeTransferOwnership, bind_ok, Except.ok.injEq] at h
    obtain ⟨-, -, -, -, rfl⟩ := h
    exact Int64.le_refl _
  | acceptOwnership a =>
    simp only [step, executeAcceptOwnership, bind_ok, Except.ok.injEq] at h
    obtain ⟨-, -, -, -, rfl⟩ := h
    exact Int64.le_refl _
  | initializeFeed a =>
    obtain ⟨-, -, -, -, -, rfl⟩ := executeInitialize_opens h
    exact Int64.le_refl _
  | setOracle a =>
    obtain ⟨_, -, -, -, rfl⟩ := executeSetOracle_appoints h
    exact Int64.le_refl _
  | setPrice a =>
    obtain ⟨_, -, -, -, rfl⟩ := executeSetPrice_quotes h
    exact Int64.le_refl _
  | tick now =>
    cases h
    dsimp only
    split_ifs with hnow
    · exact hnow
    · exact Int64.le_refl _

/-! ## Sound feeds -/

structure CustomPriceFeed.Sound (f : CustomPriceFeed) (m : Pubkey) (now : Int64) : Prop where
  bound : f.assetMint = m
  price : 0 < f.price.toInt
  decimals : f.decimals ≤ 18
  oracle : f.oracle ≠ defaultPubkey
  updated : f.updatedAt ≤ now

def World.Sound (w : World) : Prop := ∀ m f, w.feeds m = some f → f.Sound m w.now

/-- what an instruction writes is checked before it is written -/
theorem step_sound (hw : w.Sound) (h : step w i = .ok w') : w'.Sound := by
  intro m f hf
  have hnow := step_now h
  have hmove := step_feed m h
  generalize hr : w'.feeds m = r at hmove
  rw [hf] at hr
  cases hmove with
  | keeps _ =>
    obtain ⟨hbound, hprice, hdecimals, horacle, hupdated⟩ := hw m f hr.symm
    exact ⟨hbound, hprice, hdecimals, horacle, Int64.le_trans hupdated hnow⟩
  | opens a _ _ _ _ hprice hdecimals horacle =>
    cases hr
    exact ⟨rfl, hprice, hdecimals, horacle, hnow⟩
  | appoints a g _ _ hpresent _ horacle =>
    cases hr
    obtain ⟨hbound, hprice, hdecimals, -, hupdated⟩ := hw m g hpresent
    exact ⟨hbound, hprice, hdecimals, horacle, Int64.le_trans hupdated hnow⟩
  | quotes a g _ _ hpresent _ hprice =>
    cases hr
    obtain ⟨hbound, -, hdecimals, horacle, -⟩ := hw m g hpresent
    exact ⟨hbound, hprice, hdecimals, horacle, hnow⟩

theorem Genesis.sound (g : Genesis) (is : List Instr) : (g.after is).Sound :=
  run_invariant (fun _ _ _ hw h => step_sound hw h) g.world is fun m f hf => by cases hf

/-! ## Provenance -/

/-- where the feed `f` of `m` comes from that stands after the run -/
structure Provenance (g : Genesis) (is : List Instr) (m : Pubkey) (f : CustomPriceFeed) : Prop where
  created : ∃ pre a t, Written step (Instr.Creates m) g.world is pre (.initializeFeed a) t ∧
    (g.after pre).config.owner = a.owner ∧ f.decimals = a.decimals ∧ f.description = a.description
  appointed : ∃ pre i t, Written step (Instr.Appoints m) g.world is pre i t ∧ i.appointee = some f.oracle ∧
    i.signer = some (g.after pre).config.owner
  quoted : ∃ pre i t, Written step (Instr.Quotes m) g.world is pre i t ∧ i.quote = some f.price ∧
    f.updatedAt = (g.after pre).now ∧
    (i.Creates m ∧ i.signer = some (g.after pre).config.owner ∨
      ∃ f₀, (g.after pre).feeds m = some f₀ ∧ i.signer = some f₀.oracle)

/-- the last write to a part of the feed of `m` -/
theorem last_feed_write {α : Type} {g : Genesis} {is : List Instr} (writes : Instr → Prop) (part : CustomPriceFeed → α)
    (hframe : ∀ w i r, ¬ writes i → FeedMove w m i r → r.map part = (w.feeds m).map part) (hf : (g.after is).feeds m = some f) :
    ∃ pre i t f', Written step writes g.world is pre i t ∧ FeedMove (g.after pre) m i (some f') ∧ part f' = part f := by
  have hlast := last_write (P := fun _ => True) (f := fun w : World => (w.feeds m).map part) (fun _ _ _ _ _ => trivial)
    (fun w i w' _ hi h => hframe w i _ hi (step_feed m h)) (s := g.world) trivial is
  rcases hlast with ⟨hnone, -⟩ | ⟨pre, i, t, hi, ht⟩
  · -- there was no feed at the start
    have hstart : g.world.feeds m = none := rfl
    have hend : (run step g.world is).feeds m = some f := hf
    simp [hstart, hend] at hnone
  · have hend : (run step g.world is).feeds m = some f := hf
    rw [hend, Option.map_some, Option.map_eq_some_iff] at ht
    obtain ⟨f', hf', hpart⟩ := ht
    have hmove := step_feed m hi.commits
    rw [hf'] at hmove
    exact ⟨pre, i, t, f', hi, hmove, hpart⟩

variable {g : Genesis} {is : List Instr}

/-- a feed that is there was opened at some point of the run, by the owner of that time -/
theorem feed_created (hf : (g.after is).feeds m = some f) :
    ∃ pre a t, Written step (Instr.Creates m) g.world is pre (.initializeFeed a) t ∧
      (g.after pre).config.owner = a.owner ∧ f.decimals = a.decimals ∧ f.description = a.description := by
  obtain ⟨pre, i, t, f', hi, hmove, hpart⟩ := last_feed_write (Instr.Creates m) (fun f => (f.decimals, f.description))
    (fun w i r hi hmove => by
      cases hmove with
      | keeps => rfl
      | opens a hinit hm => exact absurd ⟨a, hinit, hm⟩ hi
      | appoints a f _ _ hpresent => rw [hpresent]; rfl
      | quotes a f _ _ hpresent => rw [hpresent]; rfl) hf
  obtain ⟨a, rfl, hm⟩ := hi.kind
  generalize hr : some f' = r at hmove
  cases hmove with
  | keeps hother => exact absurd (congrArg some hm) hother
  | opens b hinit _ _ howner =>
    cases hinit
    cases hr
    simp only [Prod.mk.injEq] at hpart
    exact ⟨pre, a, t, hi, howner, hpart.1.symm, hpart.2.symm⟩
  | appoints b f hset => cases hset
  | quotes b f hset => cases hset

/-- the oracle of a feed was appointed at some point, by the owner of that time -/
theorem feed_appointed (hf : (g.after is).feeds m = some f) :
    ∃ pre i t, Written step (Instr.Appoints m) g.world is pre i t ∧ i.appointee = some f.oracle ∧
      i.signer = some (g.after pre).config.owner := by
  obtain ⟨pre, i, t, f', hi, hmove, hpart⟩ := last_feed_write (Instr.Appoints m) CustomPriceFeed.oracle
    (fun w i r hi hmove => by
      cases hmove with
      | keeps => rfl
      | opens a hinit hm => exact absurd (by rw [hinit]; exact ⟨congrArg some hm, nofun⟩) hi
      | appoints a f hset hm => exact absurd (by rw [hset]; exact ⟨congrArg some hm, nofun⟩) hi
      | quotes a f _ _ hpresent => rw [hpresent]; rfl) hf
  refine ⟨pre, i, t, hi, ?_⟩
  rw [← hpart]
  generalize hr : some f' = r at hmove
  cases hmove with
  | keeps hother => exact absurd hi.kind.1 hother
  | opens a hinit _ _ howner =>
    cases hr
    rw [hinit, howner]
    exact ⟨rfl, rfl⟩
  | appoints a f hset _ _ howner =>
    cases hr
    rw [hset, howner]
    exact ⟨rfl, rfl⟩
  | quotes a f hset => exact absurd (by rw [hset]; rfl) hi.kind.2

/-- and its price was set at some point, by the oracle of that time -/
theorem feed_quoted (hf : (g.after is).feeds m = some f) :
    ∃ pre i t, Written step (Instr.Quotes m) g.world is pre i t ∧ i.quote = some f.price ∧ f.updatedAt = (g.after pre).now ∧
      (i.Creates m ∧ i.signer = some (g.after pre).config.owner ∨
        ∃ f₀, (g.after pre).feeds m = some f₀ ∧ i.signer = some f₀.oracle) := by
  obtain ⟨pre, i, t, f', hi, hmove, hpart⟩ := last_feed_write (Instr.Quotes m) (fun f => (f.price, f.updatedAt))
    (fun w i r hi hmove => by
      cases hmove with
      | keeps => rfl
      | opens a hinit hm => exact absurd (by rw [hinit]; exact ⟨congrArg some hm, nofun⟩) hi
      | appoints a f _ _ hpresent => rw [hpresent]; rfl
      | quotes a f hset hm => exact absurd (by rw [hset]; exact ⟨congrArg some hm, nofun⟩) hi) hf
  simp only [Prod.mk.injEq] at hpart
  obtain ⟨hprice, htime⟩ := hpart
  refine ⟨pre, i, t, hi, ?_⟩
  rw [← hprice, ← htime]
  generalize hr : some f' = r at hmove
  cases hmove with
  | keeps hother => exact absurd hi.kind.1 hother
  | opens a hinit hm _ howner =>
    cases hr
    rw [hinit, howner]
    exact ⟨rfl, rfl, .inl ⟨⟨a, rfl, hm⟩, rfl⟩⟩
  | appoints a f hset => exact absurd (by rw [hset]; rfl) hi.kind.2
  | quotes a f hset _ hpresent horacle =>
    cases hr
    rw [hset]
    exact ⟨rfl, rfl, .inr ⟨f, hpresent, by rw [horacle]; rfl⟩⟩

theorem provenance (hf : (g.after is).feeds m = some f) : Provenance g is m f :=
  ⟨feed_created hf, feed_appointed hf, feed_quoted hf⟩

/-! ## The owner -/

def World.seats (w : World) : Seats Pubkey := ⟨w.config.owner, w.config.pendingOwner⟩

def Instr.move : Instr → Move Pubkey
  | .transferOwnership a => .propose a.owner a.newOwner
  | .acceptOwnership a => .accept a.pendingOwner
  | _ => .keep

/-- the owner changes only by an offer that is accepted -/
theorem step_follows : Follows step World.seats Instr.move (fun _ => True) defaultPubkey where
  keeps _ _ _ _ _ := trivial
  takes w i w' _ h := by
    cases i with
    | transferOwnership a =>
      simp only [step, executeTransferOwnership, requireOwner, bind_ok, require_ok, Except.ok.injEq] at h
      obtain ⟨-, howner, -, -, rfl⟩ := h
      exact ⟨howner.symm, rfl⟩
    | acceptOwnership a =>
      simp only [step, executeAcceptOwnership, bind_ok, require_ok, Except.ok.injEq] at h
      obtain ⟨-, hpending, -, hne, rfl⟩ := h
      exact ⟨hpending, hpending ▸ hne, rfl⟩
    | initializeFeed a =>
      obtain ⟨-, -, -, -, -, rfl⟩ := executeInitialize_opens h
      rfl
    | setOracle a =>
      obtain ⟨_, -, -, -, rfl⟩ := executeSetOracle_appoints h
      rfl
    | setPrice a =>
      obtain ⟨_, -, -, -, rfl⟩ := executeSetPrice_quotes h
      rfl
    | tick now =>
      cases h
      rfl

/-- **Provenance.** Whatever the run, every feed is sound; it was opened by the owner of the time, its oracle appointed by the
owner of the time, and its price set by the oracle of the time, or with the feed; and whoever owns initialized the program or
was handed the ownership down.

"Of the time" is made precise by the position of the instruction in the run: the owner or the oracle is the one of the state it was
committed in. -/
theorem feed_provenance (g : Genesis) (is : List Instr) :
    Inherits step World.seats Instr.move g.world is (g.after is).config.owner ∧
      ∀ m f, (g.after is).feeds m = some f → f.Sound m (g.after is).now ∧ Provenance g is m f := by
  refine ⟨owner_handover step_follows trivial rfl is, fun m f hf => ?_⟩
  exact ⟨g.sound is m f hf, provenance hf⟩

end Grindurus.Feeds
