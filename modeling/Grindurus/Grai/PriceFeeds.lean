/-
Price feed accounts as bytes (`programs/grai/src/price_feed.rs`).

An account is read by the program that owns it: a custom feed, a Pyth price, legacy or pushed by the receiver, and anything else
as a Chainlink feed. `Environment` holds what is not in the repository: the derived addresses, the discriminators, and the
readers of the two SDKs, for legacy Pyth prices and for Chainlink.

- `Raw.fetchPriceFromFeed`: the read. `PythPriceUpdateV2.codec`: the layout of a pushed price.
- `Environment.feed`: what an instruction is given for such an account, and `fetchPriceFromFeed_raw`, `loadFeed_raw`: reading it
  is reading the bytes.
- `accepted_price_iff`: the prices that are accepted, program by program and byte by byte. `fetched_price_sound`: whatever is
  accepted is positive, from the listed account, and fresh, unless the feed is a custom one of the asset.

The four kinds of account differ in who owns them, in their layout, and in how old a price may be. Decimals and signs are
converted to one format, a positive price with decimals that fit a byte. Legacy Pyth prices are read by an SDK: `Environment` has
its reader as a parameter, and the one thing it is used for is that the age limit it is given is kept.
-/
import Grindurus.Feeds.Account
import Grindurus.Grai.Accounts

namespace Grindurus.Grai

open Borsh Checked
open Feeds (I128 CustomPriceFeed)

namespace Raw

def MAX_PRICE_STALENESS_SECS : ℤ := 3600

/-! ## Accounts -/

/-- the programs whose accounts are told apart -/
inductive ProgramId where
  | customPriceFeed
  | pythOracleMainnet
  | pythOracleDevnet
  | pythReceiver
  | pythReceiverUpgraded
  | other (n : ℕ)
  deriving DecidableEq

structure AccountInfo where
  key : Key
  owner : ProgramId
  data : List UInt8
  deriving DecidableEq

structure Clock where
  slot : UInt64
  unixTimestamp : Int64

structure PriceData extends Grai.PriceData where
  updatedAt : Int64
  updatedSlot : UInt64
  deriving DecidableEq

inductive FeedError where
  | chainlinkReadError
  | chainlinkRoundMissing
  | invalidChainlinkPrice
  | staleChainlinkPrice
  | invalidChainlinkFeed
  | invalidCustomPriceFeed
  | pythReadError
  | stalePythPrice
  | invalidPythPrice
  | invalidPythFeedId
  | panicked
  deriving DecidableEq

/-! ## The SDKs -/

/-- a legacy Pyth price -/
structure PythPrice where
  price : Int64
  expo : Int32
  publishTime : Int64

structure PythFeed where
  getPriceNoOlderThan : Int64 → ℤ → Option PythPrice

/-- a Chainlink round -/
structure Round where
  slot : UInt64
  timestamp : UInt32
  answer : I128

structure ChainlinkFeed where
  latestRoundData : Option Round
  decimals : UInt8

structure Environment where
  /-- the bytes of an address -/
  pubkey : Key → Pubkey
  /-- the address of the custom feed of a mint -/
  feedAddress : Pubkey → Key
  feedDiscriminator : Discriminator
  accountInfoToFeed : AccountInfo → Option PythFeed
  readFeedV2 : List UInt8 → ProgramId → Option ChainlinkFeed

/-- the legacy reader gives no price older than it is asked for -/
def Environment.Fresh (e : Environment) : Prop :=
  ∀ info feed now age price, e.accountInfoToFeed info = some feed → feed.getPriceNoOlderThan now age = some price →
    now.toInt - price.publishTime.toInt ≤ age

/-! ## Pushed prices -/

inductive PythVerificationLevel where
  | partially (numSignatures : UInt8)
  | full
  deriving DecidableEq

structure PythPriceFeedMessage where
  feedId : Vector UInt8 32
  price : Int64
  conf : UInt64
  exponent : Int32
  publishTime : Int64
  prevPublishTime : Int64
  emaPrice : Int64
  emaConf : UInt64
  deriving DecidableEq

structure PythPriceUpdateV2 where
  writeAuthority : Pubkey
  verificationLevel : PythVerificationLevel
  priceMessage : PythPriceFeedMessage
  postedSlot : UInt64
  deriving DecidableEq

namespace PythVerificationLevel

def encode : PythVerificationLevel → List UInt8
  | .partially numSignatures => u8 0 ++ u8 numSignatures
  | .full => u8 1

def read : Reader PythVerificationLevel := do
  let tag ← Reader.u8
  if tag = 0 then PythVerificationLevel.partially <$> Reader.u8
  else if tag = 1 then pure .full
  else failure

theorem codec : Codec read encode := by
  intro l level rest
  constructor
  · simp only [read, Reader.run_bind, Codec.u8 _ _ _]
    rintro ⟨tag, l', hl, h⟩
    split_ifs at h with h0 h1
    · simp only [Reader.run_map, Codec.u8 _ _ _] at h
      obtain ⟨n, hn, rfl⟩ := h
      rw [hl, hn, h0, encode, List.append_assoc]
    · simp only [Reader.run_pure] at h
      rw [hl, h1, ← h.1, h.2, encode]
    · cases h
  · rintro rfl
    cases level with
    | partially n =>
      rw [read, encode, List.append_assoc, Codec.u8.read_bind, if_pos rfl, Reader.run_map]
      exact ⟨n, Codec.u8.read n rest, rfl⟩
    | full =>
      rw [read, encode, Codec.u8.read_bind]
      rfl

end PythVerificationLevel

namespace PythPriceFeedMessage

def encode (m : PythPriceFeedMessage) : List UInt8 :=
  m.feedId.toList ++ i64 m.price ++ u64 m.conf ++ i32 m.exponent ++ i64 m.publishTime ++ i64 m.prevPublishTime ++
    i64 m.emaPrice ++ u64 m.emaConf

def read : Reader PythPriceFeedMessage := do
  let feedId ← Reader.bytes 32
  let price ← Reader.i64
  let conf ← Reader.u64
  let exponent ← Reader.i32
  let publishTime ← Reader.i64
  let prevPublishTime ← Reader.i64
  let emaPrice ← Reader.i64
  let emaConf ← Reader.u64
  pure ⟨feedId, price, conf, exponent, publishTime, prevPublishTime, emaPrice, emaConf⟩

theorem codec : Codec read encode := by
  intro l m rest
  constructor
  · simp only [read, Reader.run_bind, Reader.run_pure, Codec.bytes 32 _ _ _, Codec.i64 _ _ _, Codec.u64 _ _ _, Codec.i32 _ _ _]
    rintro ⟨feedId, _, hid, price, _, hprice, conf, _, hconf, exponent, _, hexponent, publishTime, _, hpublish, prev, _, hprev,
      emaPrice, _, hema, emaConf, _, hemaConf, hm, hrest⟩
    rw [hid, hprice, hconf, hexponent, hpublish, hprev, hema, hemaConf, hrest, ← hm]
    simp only [encode, List.append_assoc]
  · rintro rfl
    simp only [read, encode, List.append_assoc, (Codec.bytes 32).read_bind, Codec.i64.read_bind, Codec.u64.read_bind,
      Codec.i32.read_bind]
    rfl

end PythPriceFeedMessage

namespace PythPriceUpdateV2

def encode (u : PythPriceUpdateV2) : List UInt8 :=
  u.writeAuthority.toList ++ u.verificationLevel.encode ++ u.priceMessage.encode ++ u64 u.postedSlot

def read : Reader PythPriceUpdateV2 := do
  let writeAuthority ← Reader.bytes 32
  let verificationLevel ← PythVerificationLevel.read
  let priceMessage ← PythPriceFeedMessage.read
  let postedSlot ← Reader.u64
  pure ⟨writeAuthority, verificationLevel, priceMessage, postedSlot⟩

theorem codec : Codec read encode := by
  intro l u rest
  constructor
  · simp only [read, Reader.run_bind, Reader.run_pure, Codec.bytes 32 _ _ _, PythVerificationLevel.codec _ _ _,
      PythPriceFeedMessage.codec _ _ _, Codec.u64 _ _ _]
    rintro ⟨authority, _, hauthority, level, _, hlevel, message, _, hmessage, slot, _, hslot, hu, hrest⟩
    rw [hauthority, hlevel, hmessage, hslot, hrest, ← hu]
    simp only [encode, List.append_assoc]
  · rintro rfl
    simp only [read, encode, List.append_assoc, (Codec.bytes 32).read_bind, PythVerificationLevel.codec.read_bind,
      PythPriceFeedMessage.codec.read_bind, Codec.u64.read_bind]
    rfl

end PythPriceUpdateV2

/-! ## The reads -/

def isPythLegacyOwner (owner : ProgramId) : Bool := owner = .pythOracleMainnet ∨ owner = .pythOracleDevnet

def isPythReceiverOwner (owner : ProgramId) : Bool := owner = .pythReceiver ∨ owner = .pythReceiverUpgraded

/-- `i64::saturating_sub` -/
def saturatingSubI64 (a b : ℤ) : ℤ := max (-2 ^ 63) (min (a - b) (2 ^ 63 - 1))

/-- the type of the account is not looked at -/
def deserializePythPriceUpdateV2 (feed : AccountInfo) : Except FeedError PythPriceUpdateV2 := do
  require (8 < feed.data.length) .pythReadError
  let (update, _) ← demand .pythReadError (PythPriceUpdateV2.read.run (feed.data.drop 8))
  .ok update

/-- negating the least exponent panics -/
def pythPriceToChainlink (price : Int64) (exponent : Int32) (publishTime : Int64) (updatedSlot : UInt64) :
    Except FeedError PriceData := do
  require (0 < price.toInt) .invalidPythPrice
  require (exponent.toInt ≤ 0) .pythReadError
  require (exponent.toInt ≠ -2 ^ 31) .panicked
  require (-exponent.toInt < 2 ^ 8) .pythReadError
  .ok { price := price.toInt, decimals := (-exponent.toInt).toNat, updatedAt := publishTime, updatedSlot }

def fetchPythPushPriceFromAccount (feed : AccountInfo) (expectedPythFeedId : ℕ) (clock : Clock) : Except FeedError PriceData := do
  require (isPythReceiverOwner feed.owner = true) .pythReadError
  require (expectedPythFeedId ≠ 0) .invalidPythFeedId
  let update ← deserializePythPriceUpdateV2 feed
  require (update.verificationLevel = .full) .pythReadError
  let message := update.priceMessage
  require (Bytes.ofBe message.feedId.toList = expectedPythFeedId) .invalidPythFeedId
  require (saturatingSubI64 clock.unixTimestamp.toInt message.publishTime.toInt ≤ MAX_PRICE_STALENESS_SECS) .stalePythPrice
  pythPriceToChainlink message.price message.exponent message.publishTime update.postedSlot

/-- the id a listing keeps, as the number its bytes spell: that of a pushed price, and zero for anything else -/
def resolveStoredPythFeedId (feed : AccountInfo) : Except FeedError ℕ :=
  if isPythReceiverOwner feed.owner = false then .ok 0
  else do
    let update ← deserializePythPriceUpdateV2 feed
    require (update.verificationLevel = .full) .pythReadError
    let id := Bytes.ofBe update.priceMessage.feedId.toList
    require (id ≠ 0) .invalidPythFeedId
    .ok id

variable (e : Environment)

def fetchPythLegacyPriceFromAccount (feed : AccountInfo) (clock : Clock) : Except FeedError PriceData := do
  require (isPythLegacyOwner feed.owner = true) .pythReadError
  let priceFeed ← demand .pythReadError (e.accountInfoToFeed feed)
  let price ← demand .stalePythPrice (priceFeed.getPriceNoOlderThan clock.unixTimestamp MAX_PRICE_STALENESS_SECS)
  pythPriceToChainlink price.price price.expo price.publishTime clock.slot

def fetchChainlinkPriceFromFeed (chainlinkFeed : AccountInfo) (clock : Clock) : Except FeedError PriceData := do
  let feed ← demand .chainlinkReadError (e.readFeedV2 chainlinkFeed.data chainlinkFeed.owner)
  let round ← demand .chainlinkRoundMissing feed.latestRoundData
  require (0 < round.answer.toInt) .invalidChainlinkPrice
  let timestamp := Int64.ofInt round.timestamp.toNat
  require (saturatingSubI64 clock.unixTimestamp.toInt timestamp.toInt ≤ MAX_PRICE_STALENESS_SECS) .staleChainlinkPrice
  .ok { price := round.answer.toInt, decimals := feed.decimals.toNat, updatedAt := timestamp, updatedSlot := round.slot }

def deserializeCustomFeed (feed : AccountInfo) : Except FeedError CustomPriceFeed :=
  demand .invalidCustomPriceFeed (CustomPriceFeed.tryDeserialize e.feedDiscriminator feed.data)

def validateCustomFeedPda (feed : AccountInfo) (custom : CustomPriceFeed) : Except FeedError Unit :=
  require (feed.key = e.feedAddress custom.assetMint) .invalidCustomPriceFeed

def ensureFeedMatchesAssetMint (feed : AccountInfo) (assetMint : Key) : Except FeedError Unit :=
  if feed.owner ≠ .customPriceFeed then .ok ()
  else do
    let custom ← deserializeCustomFeed e feed
    validateCustomFeedPda e feed custom
    require (custom.assetMint = e.pubkey assetMint) .invalidCustomPriceFeed
    require (0 < custom.price.toInt) .invalidChainlinkPrice

def matchesAssetMint (feed : AccountInfo) (assetMint : Key) : Bool := (ensureFeedMatchesAssetMint e feed assetMint).toBool

/-- a custom price has no age -/
def fetchCustomPriceFromAccount (feed : AccountInfo) (expectedAssetMint : Key) (clock : Clock) : Except FeedError PriceData := do
  require (feed.owner = .customPriceFeed) .invalidCustomPriceFeed
  let custom ← deserializeCustomFeed e feed
  validateCustomFeedPda e feed custom
  require (custom.assetMint = e.pubkey expectedAssetMint) .invalidCustomPriceFeed
  require (0 < custom.price.toInt) .invalidChainlinkPrice
  .ok { price := custom.price.toInt, decimals := custom.decimals.toNat, updatedAt := custom.updatedAt, updatedSlot := clock.slot }

def fetchPriceFromFeed (priceFeed : AccountInfo) (asset : AssetConfig) (clock : Clock) : Except FeedError PriceData := do
  require (priceFeed.key = asset.priceFeed) .invalidChainlinkFeed
  if priceFeed.owner = .customPriceFeed then fetchCustomPriceFromAccount e priceFeed asset.assetMint clock
  else if isPythLegacyOwner priceFeed.owner then fetchPythLegacyPriceFromAccount e priceFeed clock
  else if isPythReceiverOwner priceFeed.owner then fetchPythPushPriceFromAccount priceFeed asset.pythFeedId clock
  else fetchChainlinkPriceFromFeed e priceFeed clock

/-- place in the list of the program's errors -/
def FeedError.number : FeedError → ℕ
  | .chainlinkReadError => 29
  | .chainlinkRoundMissing => 30
  | .invalidChainlinkPrice => 31
  | .staleChainlinkPrice => 32
  | .invalidChainlinkFeed => 33
  | .invalidCustomPriceFeed => 34
  | .pythReadError => 35
  | .stalePythPrice => 36
  | .invalidPythPrice => 37
  | .invalidPythFeedId => 49
  | .panicked => 0

def FeedError.code : FeedError → ErrorCode
  | .invalidChainlinkFeed => .invalidChainlinkFeed
  | error => .oracle error.number

/-! ## Reading the account is reading the bytes -/

variable {e : Environment} {info : AccountInfo} {asset : AssetConfig} {clock : Clock} {price : PriceData}

/-- what an instruction on `asset` is given when it is passed the account `info` -/
def Environment.feed (e : Environment) (info : AccountInfo) (asset : AssetConfig) (clock : Clock) : Feed where
  key := info.key
  matchesAssetMint := matchesAssetMint e info asset.assetMint
  price := ((fetchPriceFromFeed e info asset clock).map PriceData.toPriceData).mapError FeedError.number
  pythFeedId := (resolveStoredPythFeedId info).mapError FeedError.number

/-- only another address is no feed of the asset -/
theorem fetchPriceFromFeed_throws (hkey : info.key = asset.priceFeed) :
    Throws {error | error ≠ .invalidChainlinkFeed} (fetchPriceFromFeed e info asset clock) := by
  unfold fetchPriceFromFeed
  rw [require_bind hkey]
  split_ifs
  · simp [fetchCustomPriceFromAccount, deserializeCustomFeed, validateCustomFeedPda]
  · simp [fetchPythLegacyPriceFromAccount, pythPriceToChainlink]
  · simp [fetchPythPushPriceFromAccount, deserializePythPriceUpdateV2, pythPriceToChainlink]
  · simp [fetchChainlinkPriceFromFeed]

theorem fetchPriceFromFeed_raw (e : Environment) (info : AccountInfo) (asset : AssetConfig) (clock : Clock) :
    Grai.fetchPriceFromFeed (e.feed info asset clock) asset =
      ((fetchPriceFromFeed e info asset clock).map PriceData.toPriceData).mapError FeedError.code := by
  by_cases hkey : info.key = asset.priceFeed
  · simp only [Grai.fetchPriceFromFeed, Environment.feed, hkey, require, if_true]
    cases hraw : fetchPriceFromFeed e info asset clock with
    | ok price => rfl
    | error error =>
      cases error with
      | invalidChainlinkFeed => exact absurd rfl (fetchPriceFromFeed_throws hkey _ hraw)
      | _ => rfl
  · have hraw : fetchPriceFromFeed e info asset clock = .error .invalidChainlinkFeed := by
      simp [fetchPriceFromFeed, require, hkey, bind, Except.bind]
    rw [hraw]
    simp only [Grai.fetchPriceFromFeed, Environment.feed, require, hkey, if_false]
    rfl

/-! ## What is accepted -/

theorem saturatingSubI64_le_iff {a b : ℤ} :
    saturatingSubI64 a b ≤ MAX_PRICE_STALENESS_SECS ↔ a - b ≤ MAX_PRICE_STALENESS_SECS := by
  unfold saturatingSubI64 MAX_PRICE_STALENESS_SECS
  omega

/-- a Pyth price with at most 255 decimals -/
theorem pythPriceToChainlink_ok {x time : Int64} {exponent : Int32} {slot : UInt64} :
    pythPriceToChainlink x exponent time slot = .ok price ↔ 0 < x.toInt ∧ -2 ^ 8 < exponent.toInt ∧ exponent.toInt ≤ 0 ∧
      price = { price := x.toInt, decimals := (-exponent.toInt).toNat, updatedAt := time, updatedSlot := slot } := by
  simp only [pythPriceToChainlink, bind_ok, require_ok, Except.ok.injEq]
  constructor
  · rintro ⟨-, hx, -, hle, -, -, -, hlt, rfl⟩
    exact ⟨hx, by omega, hle, rfl⟩
  · rintro ⟨hx, hlt, hle, rfl⟩
    exact ⟨(), hx, (), hle, (), by omega, (), by omega, rfl⟩

/-- a pushed price that goes through: written for the id, verified in full, and of the last hour -/
structure PythPriceUpdateV2.Accepted (u : PythPriceUpdateV2) (pythFeedId : ℕ) (now : Int64) : Prop where
  level : u.verificationLevel = .full
  id : Bytes.ofBe u.priceMessage.feedId.toList = pythFeedId
  set : pythFeedId ≠ 0
  fresh : now.toInt - u.priceMessage.publishTime.toInt ≤ MAX_PRICE_STALENESS_SECS
  price : 0 < u.priceMessage.price.toInt
  exponent : -2 ^ 8 < u.priceMessage.exponent.toInt ∧ u.priceMessage.exponent.toInt ≤ 0

def PythPriceUpdateV2.data (u : PythPriceUpdateV2) : PriceData :=
  { price := u.priceMessage.price.toInt, decimals := (-u.priceMessage.exponent.toInt).toNat
    updatedAt := u.priceMessage.publishTime, updatedSlot := u.postedSlot }

/-- the account holds an update behind the discriminator, whatever that is -/
theorem deserializePythPriceUpdateV2_ok {u : PythPriceUpdateV2} :
    deserializePythPriceUpdateV2 info = .ok u ↔
      ∃ (d : Discriminator) (rest : List UInt8), info.data = d.toList ++ (u.encode ++ rest) := by
  simp only [deserializePythPriceUpdateV2, bind_ok, require_ok, demand_ok, Prod.exists, Except.ok.injEq,
    PythPriceUpdateV2.codec _ _ _]
  constructor
  · rintro ⟨-, hlen, _, rest, hrest, rfl⟩
    have htake : (info.data.take 8).length = 8 := by
      rw [List.length_take]
      omega
    exact ⟨⟨(info.data.take 8).toArray, by simpa using htake⟩, rest, by simp [← hrest]⟩
  · rintro ⟨d, rest, hdata⟩
    have hd : d.toList.length = 8 := Vector.length_toList
    refine ⟨(), ?_, u, rest, by rw [hdata, List.drop_left' hd], rfl⟩
    simp [hdata, PythPriceUpdateV2.encode]

/-- an account is accepted as a pushed price exactly if it is a receiver's and holds an update that goes through, behind a
discriminator and before anything; and it gives the price of that update -/
theorem push_price_iff {pythFeedId : ℕ} : fetchPythPushPriceFromAccount info pythFeedId clock = .ok price ↔
    isPythReceiverOwner info.owner = true ∧
      ∃ (d : Discriminator) (u : PythPriceUpdateV2) (rest : List UInt8), info.data = d.toList ++ (u.encode ++ rest) ∧
        u.Accepted pythFeedId clock.unixTimestamp ∧ price = u.data := by
  constructor
  · intro h
    simp only [fetchPythPushPriceFromAccount, bind_ok, require_ok, deserializePythPriceUpdateV2_ok] at h
    obtain ⟨-, howner, -, hset, u, ⟨d, rest, hdata⟩, -, hlevel, -, hid, -, hfresh, h⟩ := h
    obtain ⟨hprice, hexponent, hle, rfl⟩ := pythPriceToChainlink_ok.1 h
    exact ⟨howner, d, u, rest, hdata, ⟨hlevel, hid, hset, saturatingSubI64_le_iff.1 hfresh, hprice, hexponent, hle⟩, rfl⟩
  · rintro ⟨howner, d, u, rest, hdata, ⟨hlevel, hid, hset, hfresh, hprice, hexponent, hle⟩, rfl⟩
    simp only [fetchPythPushPriceFromAccount, bind_ok, require_ok, deserializePythPriceUpdateV2_ok]
    exact ⟨(), howner, (), hset, u, ⟨d, rest, hdata⟩, (), hlevel, (), hid, (), saturatingSubI64_le_iff.2 hfresh,
      pythPriceToChainlink_ok.2 ⟨hprice, hexponent, hle, rfl⟩⟩

/-- an account is accepted as a custom feed exactly if it is the price feed program's, at the address of the mint and with its
data, and the price is positive, however old -/
theorem custom_price_iff {mint : Key} : fetchCustomPriceFromAccount e info mint clock = .ok price ↔
    info.owner = .customPriceFeed ∧
      ∃ (f : CustomPriceFeed) (rest : List UInt8), info.data = f.serialize e.feedDiscriminator ++ rest ∧
        info.key = e.feedAddress f.assetMint ∧ f.assetMint = e.pubkey mint ∧ 0 < f.price.toInt ∧
        price =
          { price := f.price.toInt, decimals := f.decimals.toNat, updatedAt := f.updatedAt, updatedSlot := clock.slot } := by
  simp only [fetchCustomPriceFromAccount, deserializeCustomFeed, validateCustomFeedPda, bind_ok, require_ok, demand_ok,
    CustomPriceFeed.tryDeserialize_iff, Except.ok.injEq]
  constructor
  · rintro ⟨-, howner, f, ⟨rest, hdata⟩, -, hkey, -, hmint, -, hprice, rfl⟩
    exact ⟨howner, f, rest, hdata, hkey, hmint, hprice, rfl⟩
  · rintro ⟨howner, f, rest, hdata, hkey, hmint, hprice, rfl⟩
    exact ⟨(), howner, f, ⟨rest, hdata⟩, (), hkey, (), hmint, (), hprice, rfl⟩

def PythPrice.data (x : PythPrice) (slot : UInt64) : PriceData :=
  { price := x.price.toInt, decimals := (-x.expo.toInt).toNat, updatedAt := x.publishTime, updatedSlot := slot }

theorem legacy_price_iff : fetchPythLegacyPriceFromAccount e info clock = .ok price ↔ isPythLegacyOwner info.owner = true ∧
    ∃ feed x, e.accountInfoToFeed info = some feed ∧
      feed.getPriceNoOlderThan clock.unixTimestamp MAX_PRICE_STALENESS_SECS = some x ∧ 0 < x.price.toInt ∧
      -2 ^ 8 < x.expo.toInt ∧ x.expo.toInt ≤ 0 ∧ price = x.data clock.slot := by
  simp only [fetchPythLegacyPriceFromAccount, bind_ok, require_ok, demand_ok, pythPriceToChainlink_ok]
  constructor
  · rintro ⟨-, howner, feed, hfeed, x, hx, hprice⟩
    exact ⟨howner, feed, x, hfeed, hx, hprice⟩
  · rintro ⟨howner, feed, x, hfeed, hx, hprice⟩
    exact ⟨(), howner, feed, hfeed, x, hx, hprice⟩

/-- the time of a Chainlink round is widened -/
def Round.data (r : Round) (decimals : UInt8) : PriceData :=
  { price := r.answer.toInt, decimals := decimals.toNat, updatedAt := Int64.ofInt r.timestamp.toNat, updatedSlot := r.slot }

theorem chainlink_price_iff : fetchChainlinkPriceFromFeed e info clock = .ok price ↔
    ∃ feed round, e.readFeedV2 info.data info.owner = some feed ∧ feed.latestRoundData = some round ∧ 0 < round.answer.toInt ∧
      clock.unixTimestamp.toInt - (round.data feed.decimals).updatedAt.toInt ≤ MAX_PRICE_STALENESS_SECS ∧
      price = round.data feed.decimals := by
  simp only [fetchChainlinkPriceFromFeed, bind_ok, require_ok, demand_ok, Except.ok.injEq, saturatingSubI64_le_iff]
  constructor
  · rintro ⟨feed, hfeed, round, hround, -, hprice, -, hfresh, rfl⟩
    exact ⟨feed, round, hfeed, hround, hprice, hfresh, rfl⟩
  · rintro ⟨feed, round, hfeed, hround, hprice, hfresh, rfl⟩
    exact ⟨feed, hfeed, round, hround, (), hprice, (), hfresh, rfl⟩

/-- the feed of a mint, in an account of the price feed program -/
structure CustomFeed (e : Environment) (info : AccountInfo) (mint : Key) (f : CustomPriceFeed) : Prop where
  data : ∃ rest, info.data = f.serialize e.feedDiscriminator ++ rest
  address : info.key = e.feedAddress f.assetMint
  mint : f.assetMint = e.pubkey mint
  price : 0 < f.price.toInt

/-- what an account is accepted for, by the program that owns it -/
inductive Accepts (e : Environment) (info : AccountInfo) (asset : AssetConfig) (clock : Clock) : PriceData → Prop where
  | custom (f : CustomPriceFeed) (howner : info.owner = .customPriceFeed) (hfeed : CustomFeed e info asset.assetMint f) :
      Accepts e info asset clock
        { price := f.price.toInt, decimals := f.decimals.toNat, updatedAt := f.updatedAt, updatedSlot := clock.slot }
  | legacy (feed : PythFeed) (x : PythPrice) (howner : isPythLegacyOwner info.owner = true)
      (hfeed : e.accountInfoToFeed info = some feed)
      (hfresh : feed.getPriceNoOlderThan clock.unixTimestamp MAX_PRICE_STALENESS_SECS = some x) (hprice : 0 < x.price.toInt)
      (hexpo : -2 ^ 8 < x.expo.toInt ∧ x.expo.toInt ≤ 0) : Accepts e info asset clock (x.data clock.slot)
  | pushed (d : Discriminator) (u : PythPriceUpdateV2) (rest : List UInt8) (howner : isPythReceiverOwner info.owner = true)
      (hdata : info.data = d.toList ++ (u.encode ++ rest)) (hu : u.Accepted asset.pythFeedId clock.unixTimestamp) :
      Accepts e info asset clock u.data
  | chainlink (feed : ChainlinkFeed) (round : Round) (hcustom : info.owner ≠ .customPriceFeed)
      (hlegacy : isPythLegacyOwner info.owner = false) (hreceiver : isPythReceiverOwner info.owner = false)
      (hfeed : e.readFeedV2 info.data info.owner = some feed) (hround : feed.latestRoundData = some round)
      (hprice : 0 < round.answer.toInt)
      (hfresh : clock.unixTimestamp.toInt - (round.data feed.decimals).updatedAt.toInt ≤ MAX_PRICE_STALENESS_SECS) :
      Accepts e info asset clock (round.data feed.decimals)

theorem owner_cases {owner : ProgramId} (h : isPythLegacyOwner owner = true) :
    owner ≠ .customPriceFeed ∧ isPythReceiverOwner owner = false := by
  cases owner <;> simp_all [isPythLegacyOwner, isPythReceiverOwner]

theorem receiver_cases {owner : ProgramId} (h : isPythReceiverOwner owner = true) :
    owner ≠ .customPriceFeed ∧ isPythLegacyOwner owner = false := by
  cases owner <;> simp_all [isPythLegacyOwner, isPythReceiverOwner]

theorem fetchPriceFromFeed_iff : fetchPriceFromFeed e info asset clock = .ok price ↔
    info.key = asset.priceFeed ∧ Accepts e info asset clock price := by
  simp only [fetchPriceFromFeed, bind_ok, require_ok]
  constructor
  · rintro ⟨-, hkey, h⟩
    refine ⟨hkey, ?_⟩
    split_ifs at h with hcustom hlegacy hreceiver
    · obtain ⟨-, f, rest, hdata, haddress, hmint, hprice, rfl⟩ := custom_price_iff.1 h
      exact .custom f hcustom ⟨⟨rest, hdata⟩, haddress, hmint, hprice⟩
    · obtain ⟨-, feed, x, hfeed, hx, hprice, hlt, hle, rfl⟩ := legacy_price_iff.1 h
      exact .legacy feed x hlegacy hfeed hx hprice ⟨hlt, hle⟩
    · obtain ⟨-, d, u, rest, hdata, haccepted, rfl⟩ := push_price_iff.1 h
      exact .pushed d u rest hreceiver hdata haccepted
    · obtain ⟨feed, round, hfeed, hround, hprice, hfresh, rfl⟩ := chainlink_price_iff.1 h
      exact .chainlink feed round hcustom (by simpa using hlegacy) (by simpa using hreceiver) hfeed hround hprice hfresh
  · rintro ⟨hkey, h⟩
    refine ⟨(), hkey, ?_⟩
    cases h with
    | custom f howner hfeed =>
      obtain ⟨⟨rest, hdata⟩, haddress, hmint, hprice⟩ := hfeed
      rw [if_pos howner]
      exact custom_price_iff.2 ⟨howner, f, rest, hdata, haddress, hmint, hprice, rfl⟩
    | legacy feed x howner hfeed hx hprice hexpo =>
      rw [if_neg (owner_cases howner).1, if_pos howner]
      exact legacy_price_iff.2 ⟨howner, feed, x, hfeed, hx, hprice, hexpo.1, hexpo.2, rfl⟩
    | pushed d u rest howner hdata hu =>
      obtain ⟨hcustom, hlegacy⟩ := receiver_cases howner
      rw [if_neg hcustom, hlegacy, if_neg (by simp), if_pos howner]
      exact push_price_iff.2 ⟨howner, d, u, rest, hdata, hu, rfl⟩
    | chainlink feed round hcustom hlegacy hreceiver hfeed hround hprice hfresh =>
      rw [if_neg hcustom, hlegacy, if_neg (by simp), hreceiver, if_neg (by simp)]
      exact chainlink_price_iff.2 ⟨feed, round, hfeed, hround, hprice, hfresh, rfl⟩

theorem feed_accepts {x : Grai.PriceData} : Grai.fetchPriceFromFeed (e.feed info asset clock) asset = .ok x ↔
    info.key = asset.priceFeed ∧ ∃ price, Accepts e info asset clock price ∧ price.toPriceData = x := by
  rw [fetchPriceFromFeed_raw]
  constructor
  · intro h
    cases hraw : fetchPriceFromFeed e info asset clock with
    | error error =>
      rw [hraw] at h
      cases h
    | ok price =>
      rw [hraw] at h
      obtain ⟨hkey, haccepts⟩ := fetchPriceFromFeed_iff.1 hraw
      exact ⟨hkey, price, haccepts, Except.ok.inj h⟩
  · rintro ⟨hkey, price, haccepts, rfl⟩
    rw [fetchPriceFromFeed_iff.2 ⟨hkey, haccepts⟩]
    rfl

/-- the feed an instruction is given loads exactly if the account is the listed one, and no feed of another mint -/
theorem loadFeed_raw : Grai.loadFeed asset (e.feed info asset clock) = .ok () ↔
    info.key = asset.priceFeed ∧ (info.owner = .customPriceFeed → ∃ f, CustomFeed e info asset.assetMint f) := by
  have hmatches : matchesAssetMint e info asset.assetMint = true ↔
      (info.owner = .customPriceFeed → ∃ f, CustomFeed e info asset.assetMint f) := by
    unfold matchesAssetMint ensureFeedMatchesAssetMint
    by_cases howner : info.owner = .customPriceFeed
    · rw [if_neg (not_not.2 howner)]
      constructor
      · intro h _
        cases hread : (do
          let custom ← deserializeCustomFeed e info
          validateCustomFeedPda e info custom
          require (custom.assetMint = e.pubkey asset.assetMint) FeedError.invalidCustomPriceFeed
          require (0 < custom.price.toInt) FeedError.invalidChainlinkPrice) with
        | error error =>
          rw [hread] at h
          cases h
        | ok =>
          simp only [deserializeCustomFeed, validateCustomFeedPda, bind_ok, demand_ok, require_ok,
            CustomPriceFeed.tryDeserialize_iff] at hread
          obtain ⟨f, hdata, -, haddress, -, hmint, hprice⟩ := hread
          exact ⟨f, hdata, haddress, hmint, hprice⟩
      · intro h
        obtain ⟨f, hdata, haddress, hmint, hprice⟩ := h howner
        have hread : deserializeCustomFeed e info = .ok f := demand_ok.2 (CustomPriceFeed.tryDeserialize_iff.2 hdata)
        simp [hread, validateCustomFeedPda, require, haddress, hmint, hprice, bind, Except.bind, Except.toBool]
    · rw [if_pos howner]
      exact ⟨fun _ h => absurd h howner, fun _ => rfl⟩
  unfold Grai.loadFeed
  rw [bind_ok, ← hmatches]
  simp only [require_ok]
  constructor
  · rintro ⟨-, hkey, hfeed⟩
    exact ⟨hkey, hfeed⟩
  · rintro ⟨hkey, hfeed⟩
    exact ⟨(), hkey, hfeed⟩

/-- **Accepted accounts.** For an asset that lists it, an account loads as a feed, and gives a price, exactly if the program that
owns it wrote one that is accepted there: the feed of the mint, a Pyth price, or a Chainlink round; and that is the price it
gives. -/
theorem accepted_price_iff {x : Grai.PriceData} :
    (Grai.loadFeed asset (e.feed info asset clock) = .ok () ∧ Grai.fetchPriceFromFeed (e.feed info asset clock) asset = .ok x) ↔
      info.key = asset.priceFeed ∧ ∃ price, Accepts e info asset clock price ∧ price.toPriceData = x := by
  rw [loadFeed_raw, feed_accepts]
  constructor
  · rintro ⟨-, h⟩
    exact h
  · rintro ⟨hkey, price, haccepts, hx⟩
    refine ⟨⟨hkey, fun howner => ?_⟩, hkey, price, haccepts, hx⟩
    cases haccepts with
    | custom f _ hfeed => exact ⟨f, hfeed⟩
    | legacy feed x hlegacy => exact absurd howner (owner_cases hlegacy).1
    | pushed d u rest hreceiver => exact absurd howner (receiver_cases hreceiver).1
    | chainlink feed round hcustom => exact absurd howner hcustom

/-- what stands behind a price that is accepted for `asset` -/
structure Sourced (e : Environment) (info : AccountInfo) (asset : AssetConfig) (now : Int64) (price : PriceData) : Prop where
  listed : info.key = asset.priceFeed
  positive : 0 < price.price
  decimals : price.decimals < 2 ^ 8
  custom : info.owner = .customPriceFeed → ∃ f, CustomFeed e info asset.assetMint f ∧ price.price = f.price.toInt ∧
    price.decimals = f.decimals.toNat ∧ price.updatedAt = f.updatedAt
  fresh : info.owner ≠ .customPriceFeed → now.toInt - price.updatedAt.toInt ≤ MAX_PRICE_STALENESS_SECS

/-- **Accepted prices.** A price is accepted only from the listed account, and only if it is positive; it is of the last hour,
unless it is that of the custom feed of the asset. The one assumption is on the reader of the Pyth SDK, a parameter: a price that
it returns under an age limit is not older than the limit. -/
theorem fetched_price_sound (he : e.Fresh) (h : fetchPriceFromFeed e info asset clock = .ok price) :
    Sourced e info asset clock.unixTimestamp price := by
  obtain ⟨hkey, haccepts⟩ := fetchPriceFromFeed_iff.1 h
  cases haccepts with
  | custom f howner hfeed =>
    exact ⟨hkey, hfeed.price, f.decimals.toNat_lt, fun _ => ⟨f, hfeed, rfl, rfl, rfl⟩, fun hne => absurd howner hne⟩
  | legacy feed x howner hfeed hfresh hprice hexpo =>
    refine ⟨hkey, hprice, ?_, fun heq => absurd heq (owner_cases howner).1, fun _ => he info feed _ _ x hfeed hfresh⟩
    show (-x.expo.toInt).toNat < 2 ^ 8
    omega
  | pushed d u rest howner hdata hu =>
    refine ⟨hkey, hu.price, ?_, fun heq => absurd heq (receiver_cases howner).1, fun _ => hu.fresh⟩
    have hexponent := hu.exponent
    show (-u.priceMessage.exponent.toInt).toNat < 2 ^ 8
    omega
  | chainlink feed round hcustom _ _ _ _ hprice hfresh =>
    exact ⟨hkey, hprice, feed.decimals.toNat_lt, fun heq => absurd heq hcustom, fun _ => hfresh⟩

/-- 149 dollars, a minute and a half ago -/
def legacyPrice : PythPrice := ⟨14900000, -5, 70⟩

/-- as the legacy SDK reads a price: none whose time is further than `age` from the clock's -/
def legacyFeed : PythFeed where
  getPriceNoOlderThan now age :=
    if |now.toInt - legacyPrice.publishTime.toInt| ≤ age then some legacyPrice else none

/-- addresses are spelled by their numbers; of the legacy accounts one holds a price, and there is no Chainlink round -/
def pyth : Environment where
  pubkey
    | .key n => ⟨(Bytes.beBytes 32 n).toArray, by simp⟩
    | _ => Feeds.defaultPubkey
  feedAddress mint := .key (2 ^ 256 + Bytes.ofBe mint.toList)
  feedDiscriminator := Vector.replicate 8 7
  accountInfoToFeed info := if info.key = .key 201 then some legacyFeed else none
  readFeedV2 _ _ := none

theorem pyth_fresh : pyth.Fresh := by
  intro info feed now age price hfeed hprice
  simp only [pyth, Option.ite_none_right_eq_some, Option.some.injEq] at hfeed
  obtain ⟨-, rfl⟩ := hfeed
  simp only [legacyFeed, Option.ite_none_right_eq_some, Option.some.injEq] at hprice
  obtain ⟨hage, rfl⟩ := hprice
  exact (le_abs_self _).trans hage

/-- 150 dollars, a minute ago -/
def pushedPrice : PythPriceUpdateV2 where
  writeAuthority := Feeds.defaultPubkey
  verificationLevel := .full
  priceMessage := ⟨Vector.replicate 32 1, 150000000, 1000, -6, 100, 99, 150000000, 1000⟩
  postedSlot := 5

def pushedAsset : AssetConfig :=
  ⟨.key 100, .key 200, false, false, 0, 0, 0, 0, Bytes.ofBe (List.replicate 32 1)⟩

/-- the same asset, listed with the legacy account -/
def legacyAsset : AssetConfig := { pushedAsset with priceFeed := .key 201 }

theorem fetched_price_sound_pyth :
    let pushed : AccountInfo := ⟨.key 200, .pythReceiver, List.replicate 8 0 ++ pushedPrice.encode⟩
    let legacy : AccountInfo := ⟨.key 201, .pythOracleMainnet, []⟩
    (fetchPriceFromFeed pyth pushed pushedAsset ⟨7, 160⟩ = .ok pushedPrice.data ∧
      Sourced pyth pushed pushedAsset 160 pushedPrice.data) ∧
    fetchPriceFromFeed pyth legacy legacyAsset ⟨7, 160⟩ = .ok (legacyPrice.data 7) ∧
      Sourced pyth legacy legacyAsset 160 (legacyPrice.data 7) := by
  intro pushed legacy
  have hpushed : fetchPriceFromFeed pyth pushed pushedAsset ⟨7, 160⟩ = .ok pushedPrice.data := by decide +kernel
  have hlegacy : fetchPriceFromFeed pyth legacy legacyAsset ⟨7, 160⟩ = .ok (legacyPrice.data 7) := by decide +kernel
  exact ⟨⟨hpushed, fetched_price_sound pyth_fresh hpushed⟩, hlegacy, fetched_price_sound pyth_fresh hlegacy⟩

end Raw

end Grindurus.Grai
