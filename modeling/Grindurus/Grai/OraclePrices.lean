/-
GRAI over the price feed program: two programs that share an account.

- `Shown`: what the account of a feed may hold while the price feed program is in some state. Only that program writes there.
- `deposit_at_custom_price`: whatever the two programs did before, a deposit in an asset with a custom feed is booked at the price
  the feed holds, which the owner of the price feed program, or an oracle it appointed, set for that mint.
-/
import Grindurus.Feeds.Provenance
import Grindurus.Grai.PriceFeeds
import Grindurus.Grai.Previews

namespace Grindurus.Grai

open Checked Machine
open Feeds (CustomPriceFeed)
open Raw (Environment AccountInfo Clock CustomFeed)

/-- an account of the price feed program holds the data of a feed only at the address of that feed -/
def Shown (e : Environment) (feeds : Feeds.World) (info : AccountInfo) : Prop :=
  info.owner = .customPriceFeed → ∀ (f : CustomPriceFeed) (rest : List UInt8),
    info.data = f.serialize e.feedDiscriminator ++ rest → ∃ m, info.key = e.feedAddress m ∧ feeds.feeds m = some f

/-- what a deposit of `amount` is worth at the price of the feed -/
def customValue (f : CustomPriceFeed) (amount decimals : ℕ) : Except ErrorCode ℕ :=
  usdValue amount decimals ⟨f.price.toInt, f.decimals.toNat⟩

variable {w w' : World}

/-- the quote for a deposit read the feed of the listed asset -/
theorem executePreviewDeposit_reads {a : PreviewDeposit} {quote : DepositQuote} (h : executePreviewDeposit w a = .ok quote) :
    ∃ asset t price, w.assets a.assetMint = some asset ∧ asset.assetMint = a.assetMint ∧ w.bank.mints a.assetMint = some t ∧
      loadFeed asset a.priceFeed = .ok () ∧ fetchPriceFromFeed a.priceFeed asset = .ok price ∧
      usdValue a.amount t.decimals price = .ok quote.value := by
  simp only [executePreviewDeposit, loadMint, loadAssetAccount, fetchAssetPrice, bind_ok, demand_ok, require_ok] at h
  obtain ⟨_, -, t, ht, asset, ⟨_, hasset, -, hmint, hsame⟩, ⟨⟩, hfeed, -, -, -, -, price, ⟨-, -, hprice⟩, value, hvalue, -, -,
    h⟩ := h
  obtain rfl := Except.ok.inj hsame
  split_ifs at h
  simp only [bind_ok, Except.ok.injEq] at h
  obtain ⟨_, -, rfl⟩ := h
  exact ⟨_, t, price, hasset, hmint, ht, hfeed, hprice, hvalue⟩

/-- a custom price is that of the feed of the mint, in the state of the price feed program -/
theorem Shown.price {e : Environment} {feeds : Feeds.World} {info : AccountInfo} {asset : AssetConfig} {clock : Clock}
    {x : PriceData} (hshown : Shown e feeds info) (hsound : feeds.Sound) (howner : info.owner = .customPriceFeed)
    (h : fetchPriceFromFeed (e.feed info asset clock) asset = .ok x) :
    ∃ f, feeds.feeds (e.pubkey asset.assetMint) = some f ∧ x = ⟨f.price.toInt, f.decimals.toNat⟩ := by
  obtain ⟨-, price, haccepts, rfl⟩ := Raw.feed_accepts.1 h
  cases haccepts with
  | custom f _ hfeed =>
    obtain ⟨rest, hdata⟩ := hfeed.data
    obtain ⟨m, -, hm⟩ := hshown howner f rest hdata
    have hbound : m = e.pubkey asset.assetMint := (hsound m f hm).bound.symm.trans hfeed.mint
    exact ⟨f, hbound ▸ hm, rfl⟩
  | legacy feed x hlegacy => exact absurd howner (Raw.owner_cases hlegacy).1
  | pushed d u rest hreceiver => exact absurd howner (Raw.receiver_cases hreceiver).1
  | chainlink feed round hcustom => exact absurd howner hcustom

/-- **Deposits at a custom price.** Whatever the two programs did before: a deposit of an asset whose feed is an account of the
price feed program is booked at the price of the feed that program keeps for the mint, set by the oracle or the owner of the
time. -/
theorem deposit_at_custom_price (e : Environment) (g : Feeds.Genesis) (js : List Feeds.Instr) (info : AccountInfo)
    (hshown : Shown e (g.after js) info) (howner : info.owner = .customPriceFeed) (g' : Genesis) (is : List Instr)
    {i : Instr} {a : Deposit} (hi : i.asDeposit = some a) (clock : Clock)
    (hfeed : ∀ asset, (g'.after is).assets a.assetMint = some asset → a.priceFeed = e.feed info asset clock)
    (h : step (g'.after is) i = .ok w') :
    ∃ f t value, (g.after js).feeds (e.pubkey a.assetMint) = some f ∧ Feeds.Provenance g js (e.pubkey a.assetMint) f ∧
      (g'.after is).bank.mints a.assetMint = some t ∧ customValue f a.amount t.decimals = .ok value ∧
      w'.state.totalValue = (g'.after is).state.totalValue + value := by
  obtain ⟨quote, hquote, hdeposited⟩ := deposit_quoted (g'.after_wf is) hi h
  obtain ⟨asset, t, price, hasset, hmint, ht, -, hprice, hvalue⟩ := executePreviewDeposit_reads hquote
  dsimp only at hasset hmint ht hprice hvalue
  rw [hfeed asset hasset] at hprice
  obtain ⟨f, hf, rfl⟩ := hshown.price (g.sound js) howner hprice
  rw [hmint] at hf
  exact ⟨f, t, quote.value, hf, Feeds.provenance hf, ht, hvalue, hdeposited.value⟩

namespace Sample

/-- every custom feed is at the listed address -/
def oracle : Environment := { Raw.pyth with feedAddress := fun _ => .key 200 }

def oracleFeed : CustomPriceFeed := ⟨oracle.pubkey gold, oracle.pubkey usdc, Vector.replicate 32 0, 3, 0, 50⟩

def oracleAccount : AccountInfo := ⟨.key 200, .customPriceFeed, oracleFeed.serialize oracle.feedDiscriminator⟩

/-- the owner, 1, opens the feed at a price of 2; its oracle, 101, sets it to 3 -/
def oracleRun : List Feeds.Instr :=
  [.initializeFeed ⟨oracle.pubkey (user 1), oracle.pubkey usdc, 2, 0, Vector.replicate 32 0, oracle.pubkey gold⟩, .tick 50,
    .setPrice ⟨oracle.pubkey gold, oracle.pubkey usdc, 3⟩]

def oracleGenesis : Feeds.Genesis := ⟨oracle.pubkey (user 1), 0⟩

theorem oracle_shown : Shown oracle (oracleGenesis.after oracleRun) oracleAccount := by
  intro _ f rest hdata
  have hread := CustomPriceFeed.tryDeserialize_iff.2 ⟨rest, hdata⟩
  have hself : CustomPriceFeed.tryDeserialize oracle.feedDiscriminator oracleAccount.data = some oracleFeed :=
    CustomPriceFeed.tryDeserialize_iff.2 ⟨[], (List.append_nil _).symm⟩
  obtain rfl := Option.some.inj (hself.symm.trans hread)
  exact ⟨oracle.pubkey usdc, rfl, by decide +kernel⟩

def oracleAsset : AssetConfig := ⟨usdc, .key 200, false, false, 0, 0, 0, 0, 0⟩

def oracleDeposit : Deposit where
  depositor := wallet 2
  assetMint := usdc
  priceFeed := oracle.feed oracleAccount oracleAsset ⟨7, 60⟩
  depositorAta := .ata (user 2) usdc
  treasuryNftAta := .ata (user 2) (.treasuryNft (user 2))
  remaining := []
  amount := 5000000
  lock := false
  referrer := .default
  now := 60

end Sample

theorem deposit_at_custom_price_three : ∃ (w' : World) (f : CustomPriceFeed) (t : TokenBank.MintAccount Key) (value : ℕ),
    (Sample.oracleGenesis.after Sample.oracleRun).feeds (Sample.oracle.pubkey Sample.usdc) = some f ∧
      Feeds.Provenance Sample.oracleGenesis Sample.oracleRun (Sample.oracle.pubkey Sample.usdc) f ∧
      (Sample.genesis.after [Sample.listing Sample.usdc false]).bank.mints Sample.usdc = some t ∧
      customValue f 5000000 t.decimals = .ok value ∧
      w'.state.totalValue = (Sample.genesis.after [Sample.listing Sample.usdc false]).state.totalValue + value := by
  have hlisted : (Sample.genesis.after [Sample.listing Sample.usdc false]).assets Sample.usdc = some Sample.oracleAsset := by
    decide +kernel
  have hstep : step (Sample.genesis.after [Sample.listing Sample.usdc false]) (.deposit Sample.oracleDeposit) = .ok _ :=
    step_exec (by decide +kernel)
  refine ⟨_, deposit_at_custom_price Sample.oracle _ _ _ Sample.oracle_shown rfl _ _ rfl ⟨7, 60⟩ (fun asset hasset => ?_) hstep⟩
  obtain rfl := Option.some.inj (hlisted.symm.trans hasset)
  rfl

end Grindurus.Grai
