/-
The accounts `lz_receive_types` lists are the ones `lz_receive` asks for.

- `keeps_of_derive`, `finds_of_derive`: an address that is found passes the checks on its seeds.
- `receiveSale_fits`, `receiveGrant_fits`, `receiveOft_fits`: the checks on the row and on the receiver pass.
- `discovery`: the list passes every constraint and every check on a row, and that on the associated account unless its owner gave
  it away. `discovery_given_away`: then a sale message is refused for the account of an admin it does not concern.
-/
import Grindurus.Grs.Buyouts
import Grindurus.Grs.Standing
import Grindurus.Grs.LzReceiveTypes

namespace Grindurus.Grs

open Checked Bytes TokenBank Machine Function

/-! ## Addresses -/

variable {p : Place} {s : Site} {seeds : List (List UInt8)} {program k : Pubkey} {bump : ℕ}

/-- what is found is created from the bump it is found with -/
theorem search_create {n : ℕ} (h : p.search seeds program n = some (k, bump)) :
    p.createProgramAddress (seeds ++ [[UInt8.ofNat bump]]) program = some k := by
  induction n with
  | zero => cases h
  | succ n ih =>
    unfold Place.search at h
    split at h
    · rename_i hcreate
      cases h
      exact hcreate
    · exact ih h

/-- an address that is found is a created one, or none was -/
theorem address_created (seeds : List (List UInt8)) (program : Pubkey) :
    p.address seeds program = .default ∨ ∃ seeds', p.createProgramAddress seeds' program = some (p.address seeds program) := by
  unfold Place.address
  cases hfind : p.find seeds program with
  | none => exact .inl rfl
  | some found => exact .inr ⟨_, search_create hfind⟩

theorem derive_ok (h : p.derive seeds program = .ok k) : ∃ bump, p.find seeds program = some (k, bump) := by
  simp only [Place.derive, bind_ok, demand_ok, Prod.exists, Except.ok.injEq] at h
  obtain ⟨_, bump, hfind, rfl⟩ := h
  exact ⟨bump, hfind⟩

theorem address_of_derive (h : p.derive seeds program = .ok k) : p.address seeds program = k := by
  obtain ⟨bump, hfind⟩ := derive_ok h
  simp [Place.address, hfind]

theorem keeps_of_derive (h : s.derive seeds s.program = .ok k) : s.keeps seeds k = true := by
  obtain ⟨bump, hfind⟩ := derive_ok h
  simp [Site.keeps, hfind, search_create hfind]

theorem finds_of_derive (h : s.derive seeds s.program = .ok k) : s.finds seeds k = true := by
  obtain ⟨bump, hfind⟩ := derive_ok h
  simp [Site.finds, hfind]

/-! ## What is not a check on an account -/

/-- the errors of the checks on the accounts of the list -/
def OFTError.checksAccount : OFTError → Bool
  | .unknownSale | .invalidTokenDest | .invalidVestingId | .invalidRemainingAccounts => true
  | .constraintToken _ | .constraintSeeds _ => true
  | _ => false

def Fits : Set OFTError := {e | e.checksAccount = false}

@[simp] theorem mem_fits {e : OFTError} : e ∈ Fits ↔ e.checksAccount = false := Iff.rfl

attribute [simp] OFTError.checksAccount

variable {d : Deployment} {w w' : World} {b b' : Bank Pubkey} {x : ℕ}

theorem spl_fits {α : Type} {r : Except (TokenError Pubkey) α} : Throws Fits (spl r) := by simp

theorem decodeGrant_fits {message : List UInt8} : Throws Fits (decodeGrant message) :=
  decodeGrant_throws.mono (by simp [Set.insert_subset_iff])

theorem schedule_fits {start cliff duration : ℕ} : Throws Fits (schedule w start cliff duration) := schedule_throws.mono (by simp)

theorem createAccount_fits : Throws Fits (createAccount w k) := createAccount_throws.mono (by simp)

theorem inbound_fits {peer : PeerConfig} {now : ℤ} : Throws Fits (peer.inbound now x) :=
  inbound_throws.mono (by simp [Set.insert_subset_iff])

theorem creditEscrow_fits {a : LzReceive} : Throws Fits (creditEscrow d w a k x) := by
  unfold creditEscrow
  cases w.store.oftType <;> simp

theorem debitSaleEscrow_fits : Throws Fits (debitSaleEscrow d w x) := by
  unfold debitSaleEscrow
  split_ifs
  · simp
  · cases w.store.oftType <;> simp

theorem resizeLot_fits {a : LzReceive} {previous : Option ℕ} : Throws Fits (resizeLot d w a previous x) :=
  resizeLot_throws rfl (fun _ _ => creditEscrow_fits) fun _ _ _ _ => debitSaleEscrow_fits

/-! ## The checks on the rows -/

/-- the account of the sale of the message passes, whether its row is there or not -/
theorem receiveSale_fits {a : LzReceive} {message : List UInt8} {m : SaleMsg} (hm : decodeSale message = .ok m)
    (hsale : a.sale = d.sale m.id) (hf : w.Filed) : Throws Fits (receiveSale d w a message) := by
  obtain ⟨-, hpos, -⟩ := decodeSale_ok hm
  have hpeek : Throws Fits (peekSaleAccount d w a.sale m.id) := by
    unfold peekSaleAccount
    refine .bind (by simp [hpos]) fun _ _ => .bind (by simp [hsale]) fun _ _ => ?_
    cases hrow : w.sales m.id with
    | none => exact throws_ok _
    | some row => simp [hf m.id row hrow]
  have hupsert : Throws Fits (upsertSaleAccount d w a.sale m) := by
    unfold upsertSaleAccount initSaleAccount
    refine .bind (by simp [hpos]) fun _ _ => .bind (by simp [hsale]) fun _ _ => .bind ?_ fun _ _ => throws_ok _
    cases hrow : w.sales m.id with
    | none => exact createAccount_fits
    | some row => simp [hf m.id row hrow]
  unfold receiveSale
  rw [hm]
  refine .bind (by simp) fun _ _ => .bind (throws_ok _) fun m' hm' => ?_
  cases hm'
  refine .bind (by simp) fun _ _ => .bind (by simp) fun _ _ => .bind (by simp) fun _ _ => .bind hpeek fun previous _ => ?_
  split_ifs
  · exact throws_ok _
  · exact .bind hupsert fun _ _ => resizeLot_fits

theorem ensureVestEscrow_fits {vestEscrow : Pubkey} (h : vestEscrow = d.vestEscrow) :
    Throws Fits (ensureVestEscrow d w vestEscrow) := by
  unfold ensureVestEscrow
  refine .bind (by simp [h]) fun _ _ => ?_
  cases w.bank.accounts d.vestEscrow with
  | none => exact .bind createAccount_fits fun _ _ => .bind spl_fits fun _ _ => throws_ok _
  | some t => exact throws_ok _

/-- the account of the next award passes, and nothing stands there -/
theorem receiveGrant_fits {a : LzReceive} {message : List UInt8} (hcount : w.config.vestingCount + 1 < 2 ^ 64)
    (hrow : a.sale = d.vest (w.config.vestingCount + 1)) (hescrow : a.vestEscrow = d.vestEscrow) (hd : w.Dense) :
    Throws Fits (receiveGrant d w a message) := by
  have hnone : w.vestings (w.config.vestingCount + 1) = none := hd _ (Nat.lt_succ_self _)
  unfold receiveGrant
  refine .bind (by simp) fun _ _ => .bind decodeGrant_fits fun m _ => .bind (by simp) fun _ _ => .bind (by simp) fun _ _ => ?_
  refine .bind (by simp) fun _ _ => .bind (by simp) fun _ _ => .bind (by simp) fun _ _ => .bind (by simp) fun _ _ => ?_
  refine .bind (by simp) fun _ _ => .bind (throws_checkedAdd.2 (.inl hcount)) fun id hid => ?_
  obtain ⟨-, rfl⟩ := checkedAdd_ok.1 hid
  refine .bind ?_ fun w₁ _ => ?_
  · unfold initGrantVesting
    refine .bind (by simp) fun _ _ => .bind (by simp [hrow]) fun _ _ => .bind (by simp [hnone]) fun _ _ => ?_
    exact .bind schedule_fits fun _ _ => .bind createAccount_fits fun _ _ => throws_ok _
  · split_ifs
    · exact .bind (ensureVestEscrow_fits hescrow) fun _ _ => creditEscrow_fits
    · exact throws_ok _

/-- the receiver of a credit is the one the message names -/
theorem receiveOft_fits {a : LzReceive} {srcEid : ℕ} {peer : PeerConfig} {message : List UInt8}
    (h : sendTo message = .ok a.toAddress) : Throws Fits (receiveOft d w a srcEid peer message) := by
  rw [receiveOft_eq]
  rw [h]
  refine .bind (throws_ok _) fun dest hdest => ?_
  cases hdest
  refine .bind (by simp) fun _ _ => .bind (by simp [amountSd]) fun _ _ => .bind (by simp [OFTStore.sd2ld]) fun _ _ => ?_
  exact .bind inbound_fits fun _ _ => creditEscrow_fits

/-! ## The list -/

/-- the account at the address of an associated one is for another mint or has another owner -/
def GivenAway (b : Bank Pubkey) (k mint owner : Pubkey) : Prop := ∃ t, b.accounts k = some t ∧ ¬ (t.mint = mint ∧ t.owner = owner)

/-- every check on an account passes but that on the account of the receiver, if it is given away -/
def Passing (k : Pubkey) (p : Prop) : Set OFTError := {e | e.checksAccount = true → e = .constraintToken k ∧ p}

theorem fits_passing {k : Pubkey} {q : Prop} : Fits ⊆ Passing k q := by
  intro e he hc
  rw [mem_fits.1 he] at hc
  cases hc

theorem initTokenAccount_passing {q : Prop} (h : ∀ t, b.accounts k = some t → ¬ (t.mint = mint ∧ t.owner = owner) → q) :
    Throws (Passing k q) (initTokenAccount b k mint owner) := by
  unfold initTokenAccount
  cases ht : b.accounts k with
  | none => exact spl_fits.mono fits_passing
  | some t =>
    refine .bind (throws_require.2 ?_) fun _ _ => throws_ok _
    by_cases hown : t.mint = mint ∧ t.owner = owner
    · exact .inl hown
    · exact .inr fun _ => ⟨rfl, h t ht hown⟩

/-- an account that can only stand as it should passes -/
theorem initTokenAccount_fits (h : ∀ t, b.accounts k = some t → t.mint = mint ∧ t.owner = owner) :
    Throws Fits (initTokenAccount b k mint owner) := by
  unfold initTokenAccount
  cases ht : b.accounts k with
  | none => exact spl_fits
  | some t => exact .bind (by simp [h t ht]) fun _ _ => throws_ok _

theorem loadOwned_fits (h : ∀ t, b.accounts k = some t → t.mint = mint ∧ t.owner = owner) :
    Throws Fits (loadOwned b k mint owner) := by
  unfold loadOwned loadToken loadTokenAccount
  cases ht : b.accounts k with
  | none => simp [demand]
  | some t => simp [demand, h t ht]

theorem loadMintAuthority_fits {a : Option Pubkey} : Throws Fits (loadMintAuthority w a) :=
  loadMintAuthority_throws.mono (by simp [Set.insert_subset_iff])

variable {a : LzReceive} {params : LzReceiveParams}

/-- what the chosen accounts have to be for a message -/
structure Matches (d : Deployment) (w : World) (a : LzReceive) (message : List UInt8) : Prop where
  vestEscrow : a.vestEscrow = d.vestEscrow
  sale : isSale message = true → ∃ m, decodeSale message = .ok m ∧ a.sale = d.sale m.id
  grant : isSale message = false → isGrant message = true →
    w.config.vestingCount + 1 < 2 ^ 64 ∧ a.sale = d.vest (w.config.vestingCount + 1)
  credit : isSale message = false → isGrant message = false → sendTo message = .ok a.toAddress

/-- the chosen accounts pass, on a world whose own accounts stand as they should -/
theorem LzReceive.apply_passing (h : Matches d w a params.message) (he : w.Escrowed d) (hv : w.Vaulted d) (hf : w.Filed)
    (hd : w.Dense) :
    Throws (Passing (d.ata a.toAddress w.store.tokenMint)
      (GivenAway w.bank (d.ata a.toAddress w.store.tokenMint) w.store.tokenMint a.toAddress)) (a.apply d w params) := by
  unfold LzReceive.apply
  refine .bind (Throws.mono (by simp) fits_passing) fun peer _ => .bind (Throws.mono (by simp) fits_passing) fun _ _ => ?_
  refine .bind (Throws.mono (initTokenAccount_fits fun t ht => ?_) fits_passing) fun b₁ hb₁ => ?_
  · exact (he _ _ (custody_sale _) t ht).symm
  refine .bind (Throws.mono (loadOwned_fits fun t ht => ?_) fits_passing) fun _ _ => ?_
  · have hvault : d.vault w.store.tokenMint d.tokenEscrow = some w.store.tokenMint := if_pos rfl
    exact (initSale_guards hb₁ hv _ _ hvault t ht).symm
  refine .bind (initTokenAccount_passing fun t ht hown => ?_) fun b₂ _ => ?_
  · have hne : d.ata a.toAddress w.store.tokenMint ≠ d.saleEscrow := (not_derived (ata_not_derived d _ _)).2.2.2.1
    rw [initTokenAccount_frame hb₁ hne] at ht
    exact ⟨t, ht, hown⟩
  -- what is left is no check on the account of the receiver
  refine Throws.mono (.bind loadMintAuthority_fits fun _ _ => .bind (by simp) fun _ _ => ?_) fits_passing
  split_ifs with hsale hgrant
  · obtain ⟨m, hm, hrow⟩ := h.sale hsale
    exact receiveSale_fits hm hrow hf
  · obtain ⟨hcount, hrow⟩ := h.grant (by simpa using hsale) hgrant
    exact receiveGrant_fits hcount hrow h.vestEscrow hd
  · exact receiveOft_fits (h.credit (by simpa using hsale) (by simpa using hgrant))

variable {remaining : List Pubkey} {message : List UInt8} {grsConfig saleRegistry row : Pubkey} {l : List LzAccount}

theorem discoverRow_sale (h : discoverRow s w remaining message grsConfig saleRegistry = .ok row) (hsale : isSale message = true) :
    ∃ m, decodeSale message = .ok m ∧ row = s.deployment.sale m.id := by
  simp only [discoverRow, if_pos hsale, bind_ok] at h
  obtain ⟨m, hm, hrow⟩ := h
  exact ⟨m, hm, (address_of_derive hrow).symm⟩

theorem discoverRow_grant (h : discoverRow s w remaining message grsConfig saleRegistry = .ok row)
    (hsale : isSale message = false) (hgrant : isGrant message = true) :
    w.config.vestingCount + 1 < 2 ^ 64 ∧ row = s.deployment.vest (w.config.vestingCount + 1) := by
  simp only [discoverRow, hsale, Bool.false_eq_true, if_false, if_pos hgrant, bind_ok, checkedAdd_ok] at h
  obtain ⟨-, -, -, -, id, ⟨hid, rfl⟩, hrow⟩ := h
  exact ⟨hid, (address_of_derive hrow).symm⟩

variable {params : Inbound}

/-- the mint authority that is listed is the one of the mint, if it has one -/
theorem mintAuthority_given {mint : MintAccount Pubkey} {m : Pubkey} (h : loadMint b m = .ok mint) (program : Pubkey) :
    (if mint.mintAuthority.getD program = program then none
      else some (⟨mint.mintAuthority.getD program, false, false⟩ : LzAccount)).all
        (fun k => (b.mints m).any (·.mintAuthority = some k.pubkey)) = true := by
  have hmint : b.mints m = some mint := demand_ok.1 h
  rw [hmint]
  split_ifs with hp
  · rfl
  · cases ha : mint.mintAuthority with
    | none => simp [ha] at hp
    | some k => simp [ha]

/-- the list passes the constraints, and holds the row the message is about and the receiver it names -/
theorem lzReceiveTypes_ok (h : lzReceiveTypes s w remaining params = .ok l) :
    ∃ a, LzReceiveAccounts.ofList s.program l = .ok a ∧ a.validate s w params.srcEid = .ok () ∧
      a.tokenDest.pubkey = s.deployment.ata a.toAddress.pubkey w.store.tokenMint ∧
      Matches s.deployment w a.chosen params.message := by
  simp only [lzReceiveTypes, bind_ok, require_ok, Except.ok.injEq] at h
  obtain ⟨-, hstore, mint, hmint, peer, hpeer, config, hconfig, registry, hregistry, saleEscrow, hsaleEscrow, vestEscrow,
    hvestEscrow, row, hrow, receiver, hreceiver, dest, hdest, event, hevent, compose, hcompose, rfl⟩ := h
  refine ⟨_, rfl, ?_, (address_of_derive hdest).symm, ?_⟩
  · obtain ⟨bump, hfind⟩ := derive_ok hdest
    have hauth := mintAuthority_given hmint s.program
    have hpeer := keeps_of_derive hpeer
    have hconfig := keeps_of_derive hconfig
    have hregistry := keeps_of_derive hregistry
    have hescrow := finds_of_derive hsaleEscrow
    have hevent := finds_of_derive hevent
    simp only [Place.peerSeeds, Place.ownSeeds, Place.ataSeeds] at hpeer hconfig hregistry hescrow hfind
    simp [LzReceiveAccounts.validate, bind_ok, require_ok, hstore, hpeer, hconfig, hregistry, hescrow, hevent, hfind, hauth]
  · exact
    { vestEscrow := (address_of_derive hvestEscrow).symm
      sale := fun hsale => discoverRow_sale hrow hsale
      grant := fun hsale hgrant => discoverRow_grant hrow hsale hgrant
      credit := fun hsale hgrant => by simpa [hsale, hgrant, LzReceiveAccounts.chosen] using hreceiver }

/-- **Discovery**: the accounts that are listed for an inbound message, passed as they are, satisfy the constraints of `lz_receive`
by position; the receiver's associated account is among them, and a check that still refuses is the one on what stands there, when
its owner gave it away -/
theorem discovery (s : Site) (g : Genesis s.deployment) (is : List Instr) (remaining : List Pubkey) (params : Inbound)
    {l : List LzAccount} (h : lzReceiveTypes s (g.after is) remaining params = .ok l) :
    ∃ a, LzReceiveAccounts.ofList s.program l = .ok a ∧ a.validate s (g.after is) params.srcEid = .ok () ∧
      a.tokenDest.pubkey = s.deployment.ata a.toAddress.pubkey (g.after is).store.tokenMint ∧
      Throws (Passing a.tokenDest.pubkey
          (GivenAway (g.after is).bank a.tokenDest.pubkey (g.after is).store.tokenMint a.toAddress.pubkey))
        (a.chosen.apply s.deployment (g.after is) params.toLzReceiveParams) := by
  obtain ⟨a, hlist, hvalid, hdest, hmatch⟩ := lzReceiveTypes_ok h
  refine ⟨a, hlist, hvalid, hdest, ?_⟩
  have hescrowed : (g.after is).Escrowed s.deployment := (g.stocked.run is).escrowed
  rw [hdest]
  exact LzReceive.apply_passing hmatch hescrowed (g.vaulted is) (g.filed is) (g.dense is)

namespace Sample

def spokeEscrow : Pubkey := .ofNat 0x4e8d311ae4d3dbdcfda85aa6eb2cde000e87f0bce7ac119533ea75ab216572de

def spokeStore : Pubkey := .ofNat 0x37c527e229dda14c7bb7553d29986a4e6e2cb9eb99ccc94f1cc7651ec47fe7cb

/-- the program, the one of the token, the one of associated accounts and the endpoint -/
def grs : Pubkey := .ofNat 0x988e13a9a86f4546fea2b5c1893c642b3baa82394ab03cfad66600e439ed42a0

def splToken : Pubkey := .ofNat 0x6ddf6e1d765a193d9cbe146ceeb79ac1cb485ed5f5b37913a8cf5857eff00a9

def associated : Pubkey := .ofNat 0x8c97258f4e2489f1bb3d1029148e0d830b5a1399daff1084048e7bd8dbe9f859

def endpoint : Pubkey := .ofNat 0x5aad76da514b6e1dcf11037e904dac3d375f525c9fbafcb19507b78907d8c18b

/-- the addresses of the store, of its first lot and of the account of its admin, with their seeds and bumps -/
def created : List (Pubkey × List (List UInt8) × Pubkey) :=
  [(grs, [OFT_SEED, spokeEscrow.bytes, [254]], spokeStore),
    (grs, [PEER_SEED, spokeStore.bytes, beBytes 4 30101, [254]],
      .ofNat 0x64cc9b877d49897685992afd002b6c31c88d9bb7d7943d5e17ec5c85d9a19e07),
    (grs, [GrsConfig.SEED, spokeStore.bytes, [255]],
      .ofNat 0xb24cc1ee3a5d22d4faeec6d2f3ad58c1be91fb5db6b4ccdd6c728f5f8cc98603),
    (grs, [SaleRegistry.SEED, spokeStore.bytes, [253]],
      .ofNat 0x18e0442f1e0f4280cfdb348b698df01c272d1a86229d5edb45a5186c772d93c1),
    (grs, [SaleRegistry.ESCROW_SEED, spokeStore.bytes, [254]],
      .ofNat 0x7ed59f23e50673238b5d20c47e3b02dcdd6480057ed6cb33710624e2bd3a82e0),
    (grs, [Vesting.ESCROW_SEED, spokeStore.bytes, [254]],
      .ofNat 0x5162771a38c5baef3ee7166ef9ce7e4b67f6d33c8f193a6cec3dd885ec52f65a),
    (grs, [SaleAccount.SEED, spokeStore.bytes, leBytes 1, [255]],
      .ofNat 0x9f88d857d4d516c74a357dca724eeecf3de282c4046ee09f8002ef2822ec159d),
    (grs, [EVENT_SEED, [254]],
      .ofNat 0x13b412f6add4520878ae8f5215acff8adcba3f3c685f8626c18eb8d9ace219c1),
    (associated, [admin.bytes, splToken.bytes, token.bytes, [255]],
      .ofNat 0x40f24d1cfa853de262bad4de2aa27a8dc526bd2e4aa3ce06ac38a9639f960e00)]

/-- the accounts of the first message of the home store -/
def cleared (endpoint receiver : Pubkey) : List LzAccount :=
  [⟨endpoint, false, false⟩, ⟨receiver, false, false⟩,
    ⟨.ofNat 0xb35d2de9660d0109e2862ee1053e764b35e150266e0d26aab493ef588e3ca40b, false, false⟩,
    ⟨.ofNat 0x92e8ffa870761000b272e8ba33b364333e9b71a310a38f5319ab9d0a4c2564f0, false, true⟩,
    ⟨.ofNat 0xdf6c70dbfbd4ede41008c9791b3a240135fd899a6acb1c51ef4e704dfc69cfdc, false, true⟩,
    ⟨.ofNat 0x1c5eae5faa88478e8729bc45057eb95154f0f7ec4a3ec80503c62b8b7cdd97cc, false, true⟩,
    ⟨.ofNat 0xd1dd86ac361b6252c406c281f3912ab13b924126c011b587278e8af0b08ef09b, false, false⟩, ⟨endpoint, false, false⟩]

def place : Place where
  program := grs
  tokenEscrow := spokeEscrow
  tokenProgram := splToken
  associatedTokenId := associated
  endpointProgram := endpoint
  createProgramAddress seeds program := (created.find? fun (program', seeds', _) => program' = program ∧ seeds' = seeds).map (·.2.2)
  getAccountsForClear endpoint receiver _ _ _ := cleared endpoint receiver
  getAccountsForSendCompose _ _ _ _ _ _ := []

def spoke : Site where
  toPlace := place
  transferFee := none
  withholdsNothing := Token2022.free_of_none
  distinct := by decide +kernel
  ata_fresh owner mint := by
    have hcreated : ∀ e ∈ created, e.1 = associated → e.2.2 ∉ place.fixed := by decide +kernel
    rcases address_created (p := place) (place.ataSeeds owner mint) associated with h | ⟨seeds, h⟩
    · exact h ▸ by decide +kernel
    · obtain ⟨e, he, haddress⟩ := Option.map_eq_some_iff.1 h
      have hprogram := List.find?_some he
      simp only [decide_eq_true_eq] at hprogram
      exact haddress ▸ hcreated e (List.mem_of_find?_eq_some he) hprogram.1

/-- the store of a spoke, the home store its peer -/
def branch : Genesis spoke.deployment where
  bank := ⟨fun m => if m = token then some ⟨9, 0, some admin⟩ else none, fun _ => none⟩
  lamports _ := 0
  now := 0
  args := ⟨admin, token, true, .native, 6, 30101, .ofNat 7⟩
  world := _
  signed := by decide +kernel
  fresh _ _ := rfl
  initialized := rfl

/-- a lot of 1000 GRS for 10 lamports -/
def arrival : Inbound := ⟨⟨30101, .ofNat 7, encodeSale 1 .default 10 1000 admin⟩, 1, .ofNat 8⟩

/-- the admin opens his associated account, then gives it to another -/
def handover : List Instr :=
  [.token admin (.openAccount (spoke.deployment.ata admin token) token admin),
    .token admin (.setOwner (spoke.deployment.ata admin token) (.ofNat 51))]

end Sample

theorem discovery_arrival : ∃ l a, lzReceiveTypes Sample.spoke Sample.branch.world [] Sample.arrival = .ok l ∧
    LzReceiveAccounts.ofList Sample.spoke.program l = .ok a ∧ a.validate Sample.spoke Sample.branch.world 30101 = .ok () ∧
      Throws Fits (a.chosen.apply Sample.spoke.deployment Sample.branch.world Sample.arrival.toLzReceiveParams) := by
  obtain ⟨l, hl⟩ : Succeeds (lzReceiveTypes Sample.spoke Sample.branch.world [] Sample.arrival) :=
    succeeds_toBool.2 (by decide +kernel)
  obtain ⟨a, hlist, hvalid, hdest, hpasses⟩ := discovery Sample.spoke Sample.branch [] [] Sample.arrival hl
  refine ⟨l, a, hl, hlist, hvalid, fun e he => ?_⟩
  -- nothing stands at an associated account yet
  have hnone : Sample.branch.world.bank.accounts a.tokenDest.pubkey = none := by
    have hne : a.tokenDest.pubkey ≠ Sample.spoke.deployment.tokenEscrow := by
      rw [hdest]
      exact (not_derived (ata_not_derived _ _ _)).2.2.1
    exact update_of_ne hne ..
  by_contra hchecks
  obtain ⟨-, t, ht, -⟩ := hpasses e he (by simpa using hchecks)
  cases hnone.symm.trans ht

/-- a lot cannot be delivered to a spoke whose admin gave his associated account away -/
theorem discovery_given_away : ¬ ∀ is remaining params l a,
    lzReceiveTypes Sample.spoke (Sample.branch.after is) remaining params = .ok l →
    LzReceiveAccounts.ofList Sample.spoke.program l = .ok a →
    Throws Fits (a.chosen.apply Sample.spoke.deployment (Sample.branch.after is) params.toLzReceiveParams) := by
  intro h
  have hrefused : ((lzReceiveTypes Sample.spoke (Sample.branch.after Sample.handover) [] Sample.arrival).toOption.any fun l =>
      (LzReceiveAccounts.ofList Sample.spoke.program l).toOption.any fun a =>
        refusal (a.chosen.apply Sample.spoke.deployment (Sample.branch.after Sample.handover) Sample.arrival.toLzReceiveParams) =
          some (.constraintToken (Sample.spoke.deployment.ata Sample.admin Sample.token))) = true := by decide +kernel
  obtain ⟨l, hl, hrefused⟩ := (Option.any_eq_true _ _).1 hrefused
  obtain ⟨a, ha, hrefused⟩ := (Option.any_eq_true _ _).1 hrefused
  have hfits := h _ _ _ l a (toOption_eq_some.1 hl) (toOption_eq_some.1 ha) _ (refusal_eq_some.1 (of_decide_eq_true hrefused))
  cases hfits

end Grindurus.Grs
