/-
Lamports sent to an address before its account is created.

GRAI creates its accounts with `create_account_absorb_prefund` (`programs/grai/src/state.rs`), which takes an address that holds
lamports as it is. GRS creates sales, the vestings of grants and, for a grant, the vest escrow with the System Program's
`create_account`, which refuses such an address.

- `created`: the addresses a request creates by hand. `step_created`: it succeeds only if none of them holds lamports.
- `prefunds_block`: so a request that zero balances let through succeeds exactly if none of them does.
- `createAccountAbsorbPrefund_ok`: what GRAI does succeeds for any balance.
-/
import Grindurus.Lib.System
import Grindurus.Grs.Effects

namespace Grindurus.Grs

open Checked TokenBank Machine Function

variable (d : Deployment)

/-! ## What a request creates -/

/-- the addresses of the accounts a request creates by hand -/
def created (w : World) : Instr → List Pubkey
  | .setSale a => if a.id = 0 ∨ a.id = w.saleCount + 1 then [d.sale (w.saleCount + 1)] else []
  | .lzReceive _ params =>
    if isSale params.message = true then
      match decodeSale params.message with
      | .ok m => if w.sales m.id = none then [d.sale m.id] else []
      | .error _ => []
    else if isGrant params.message = true then
      match decodeGrant params.message with
      | .ok m =>
        d.vest (w.config.vestingCount + 1) ::
          if 0 < m.amountLd ∧ w.bank.accounts d.vestEscrow = none then [d.vestEscrow] else []
      | .error _ => []
    else []
  | _ => []

/-- the same world with no lamports at `ks` -/
def World.drained (w : World) (ks : List Pubkey) : World := { w with lamports := fun k => if k ∈ ks then 0 else w.lamports k }

variable {d} {w w' : World} {k : Pubkey}

theorem drained_eq {ks : List Pubkey} (h : ∀ k ∈ ks, w.lamports k = 0) : w.drained ks = w := by
  have hlamports : (fun k => if k ∈ ks then 0 else w.lamports k) = w.lamports := by
    funext k
    split_ifs with hk
    · exact (h k hk).symm
    · rfl
  rw [World.drained, hlamports]

/-! ## What a request that succeeds has created -/

theorem createAccount_ok {u : Unit} (h : createAccount w k = .ok u) : w.lamports k = 0 := require_ok.1 h

theorem SetSale.apply_created {a : SetSale} (h : a.apply d w = .ok w') : ∀ k ∈ created d w (.setSale a), w.lamports k = 0 := by
  intro k hk
  simp only [created] at hk
  split_ifs at hk with hnew
  · simp only [SetSale.apply, SetSale.append, bind_ok, checkedAdd_ok] at h
    obtain ⟨-, -, b, -, source, -, -, -, next, ⟨-, rfl⟩, h⟩ := h
    rw [if_pos hnew] at h
    simp only [bind_ok] at h
    obtain ⟨-, -, -, -, -, -, -, -, -, -, -, -, _, hcreated, -⟩ := h
    rw [List.mem_singleton.1 hk]
    exact createAccount_ok hcreated
  · cases hk

theorem receiveSale_created {a : LzReceive} {message : List UInt8} {m : SaleMsg} (h : receiveSale d w a message = .ok w')
    (hm : decodeSale message = .ok m) (hnone : w.sales m.id = none) : w.lamports (d.sale m.id) = 0 := by
  simp only [receiveSale, hm, bind_ok, Except.ok.injEq] at h
  obtain ⟨-, -, _, rfl, -, -, -, -, -, -, previous, hpeek, h⟩ := h
  obtain ⟨-, rfl⟩ := peekSaleAccount_ok hpeek
  rw [hnone] at h
  simp only [Option.map_none, reduceCtorEq, false_and, if_false, bind_ok, upsertSaleAccount, initSaleAccount, hnone] at h
  obtain ⟨-, ⟨-, -, -, -, _, hcreated, -⟩, -⟩ := h
  exact createAccount_ok hcreated

theorem initGrantVesting_created {vesting : Pubkey} {id : ℕ} {m : GrantMsg} (h : initGrantVesting d w vesting id m = .ok w') :
    w.lamports (d.vest id) = 0 ∧ w'.bank = w.bank ∧ w'.lamports = w.lamports := by
  simp only [initGrantVesting, bind_ok, Except.ok.injEq] at h
  obtain ⟨-, -, -, -, -, -, s, -, _, hcreated, rfl⟩ := h
  exact ⟨createAccount_ok hcreated, rfl, rfl⟩

theorem ensureVestEscrow_created {vestEscrow : Pubkey} (h : ensureVestEscrow d w vestEscrow = .ok w')
    (hnone : w.bank.accounts d.vestEscrow = none) : w.lamports d.vestEscrow = 0 := by
  simp only [ensureVestEscrow, hnone, bind_ok] at h
  obtain ⟨-, -, _, hcreated, -⟩ := h
  exact createAccount_ok hcreated

theorem receiveGrant_created {a : LzReceive} {message : List UInt8} {m : GrantMsg} (h : receiveGrant d w a message = .ok w')
    (hm : decodeGrant message = .ok m) : w.lamports (d.vest (w.config.vestingCount + 1)) = 0 ∧
      (0 < m.amountLd → w.bank.accounts d.vestEscrow = none → w.lamports d.vestEscrow = 0) := by
  simp only [receiveGrant, hm, bind_ok, checkedAdd_ok, Except.ok.injEq] at h
  obtain ⟨-, -, _, rfl, -, -, -, -, -, -, -, -, -, -, -, -, -, -, _, ⟨-, rfl⟩, w₁, hw₁, h⟩ := h
  obtain ⟨hvest, hbank, hlamports⟩ := initGrantVesting_created hw₁
  refine ⟨hvest, fun hx hnone => ?_⟩
  rw [if_pos hx, bind_ok] at h
  obtain ⟨w₂, hw₂, -⟩ := h
  have hescrow := ensureVestEscrow_created hw₂ (by rw [← hnone, ← hbank])
  rwa [← hlamports]

/-- the addresses a message creates, by its kind -/
theorem LzReceive.apply_created {a : LzReceive} {params : LzReceiveParams} (h : a.apply d w params = .ok w') :
    ∀ k ∈ created d w (.lzReceive a params), w.lamports k = 0 := by
  intro k hk
  simp only [created] at hk
  rcases LzReceive.apply_ok h with ⟨b, hb, hsale, h⟩ | ⟨b, hb, hsale, hgrant, h⟩ | ⟨b, peer, -, hsale, hgrant, -⟩
  · rw [if_pos hsale] at hk
    obtain ⟨m, hm, -⟩ := receiveSale_ok h
    simp only [hm] at hk
    split_ifs at hk with hnone
    · have hsaleAt := receiveSale_created h hm hnone
      rw [List.mem_singleton.1 hk]
      exact hsaleAt
    · cases hk
  · rw [if_neg (by simp [hsale]), if_pos hgrant] at hk
    obtain ⟨m, id, s, hm, -⟩ := receiveGrant_ok h
    obtain ⟨hvest, hescrow⟩ := receiveGrant_created h hm
    simp only [hm, List.mem_cons] at hk
    rcases hk with rfl | hk
    · exact hvest
    · split_ifs at hk with hboth
      · rw [List.mem_singleton.1 hk]
        exact hescrow hboth.1 (hb.vestEscrow.trans hboth.2)
      · cases hk
  · simp [hsale, hgrant] at hk

/-- a request succeeds only if what it creates by hand holds no lamports -/
theorem step_created {i : Instr} (h : step d w i = .ok w') : ∀ k ∈ created d w i, w.lamports k = 0 := by
  obtain ⟨posted, he⟩ := step_ok.1 h
  obtain ⟨-, he⟩ := exec_ok he
  cases i with
  | setSale a => exact SetSale.apply_created (silent_ok he).1
  | lzReceive a params => exact LzReceive.apply_created (silent_ok he).1
  | _ => exact fun k hk => by cases hk

/-- **Prefunds.** In every state and for every request: one that zero balances would not let through is refused either way, and
one that they would succeeds as it would with them exactly if no address it creates by hand holds lamports. The state with zero
balances differs from the given one at those addresses only. So the equivalence compares the same request with and without the
gift, in whatever state the store is. -/
theorem prefunds_block (g : Genesis d) (is : List Instr) (i : Instr) :
    (¬ Succeeds (step d ((g.after is).drained (created d (g.after is) i)) i) → ¬ Succeeds (step d (g.after is) i)) ∧
    (Succeeds (step d ((g.after is).drained (created d (g.after is) i)) i) →
      ((Succeeds (step d (g.after is) i) ↔ Succeeds (step d ((g.after is).drained (created d (g.after is) i)) i)) ↔
        ∀ k ∈ created d (g.after is) i, (g.after is).lamports k = 0)) := by
  refine ⟨fun hnot hok => hnot ?_, fun hzero => ⟨fun heq => ?_, fun hnone => ?_⟩⟩
  · obtain ⟨w', h⟩ := hok
    rw [drained_eq (step_created h)]
    exact ⟨w', h⟩
  · obtain ⟨w', h⟩ := heq.2 hzero
    exact step_created h
  · rw [drained_eq hnone]

/-- 890880 lamports, the least a transfer may leave at an empty address, keep the first sale from being listed -/
theorem prefund_blocks_sale : ¬ ∀ is i, Succeeds (step Sample.deployment (Sample.home.after is) i) ↔
    Succeeds (step Sample.deployment
      ((Sample.home.after is).drained (created Sample.deployment (Sample.home.after is) i)) i) := by
  intro h
  have hzero : Succeeds (step Sample.deployment ((Sample.home.after
      [.mintGenesis ⟨Sample.admin, Sample.treasury⟩, .fund (Sample.deployment.sale 1) 890880]).drained
        (created Sample.deployment (Sample.home.after
          [.mintGenesis ⟨Sample.admin, Sample.treasury⟩, .fund (Sample.deployment.sale 1) 890880]) (Sample.listing 1 1000)))
      (Sample.listing 1 1000)) := ⟨_, step_exec (by decide +kernel)⟩
  obtain ⟨w', hw⟩ := (h _ _).2 hzero
  have hfunded := step_created hw (Sample.deployment.sale 1) (by decide +kernel)
  exact absurd hfunded (by decide +kernel)

/-! ## How GRAI creates its accounts -/

/-- `create_account_absorb_prefund`: an empty address of the System Program is topped up to the rent, allocated and assigned -/
def createAccountAbsorbPrefund (system : Pubkey) (l : System.Ledger Pubkey) (account payer owner : Pubkey) (rent space : ℕ) :
    Except (System.Error Pubkey) (System.Ledger Pubkey) := do
  require ((l account).space = 0 ∧ ((l account).owner = system ∨ (l account).lamports = 0)) (.accountAlreadyInUse account)
  require (payer ≠ account) (.accountAlreadyInUse account)
  let current := (l account).lamports
  if current = 0 then System.create system l payer account rent space owner
  else do
    let required := max rent 1 - current
    let l ← (if 0 < required then System.transfer l payer account required else .ok l)
    let l ← System.allocate system l account space
    System.assign system l account owner

/-- **Absorbing.** Whatever the address holds, the account is opened there, with the rent. -/
theorem createAccountAbsorbPrefund_ok {system account payer owner : Pubkey} {l : System.Ledger Pubkey} {rent space : ℕ}
    (he : System.Empty system l account) (hne : payer ≠ account) (hpay : max rent 1 ≤ (l payer).lamports) :
    ∃ l', createAccountAbsorbPrefund system l account payer owner rent space = .ok l' ∧
      (l' account).owner = owner ∧ (l' account).space = space ∧ rent ≤ (l' account).lamports := by
  have hguard : (l account).space = 0 ∧ ((l account).owner = system ∨ (l account).lamports = 0) := ⟨he.1, .inl he.2⟩
  unfold createAccountAbsorbPrefund
  rw [require_bind hguard, require_bind hne]
  dsimp only
  split_ifs with hzero hrequired
  · obtain ⟨l', hl'⟩ := (System.create_iff (n := space) (o := owner) he hne (by omega : rent ≤ _)).2 hzero
    have hat := System.create_at hne hl'
    exact ⟨l', hl', by rw [hat], by rw [hat], by rw [hat]⟩
  · obtain ⟨l₁, l₂, l₃, h₁, h₂, h₃, hl₃⟩ := System.topUp_ok (n := space) (o := owner) he hne
      (show max rent 1 - (l account).lamports ≤ (l payer).lamports by omega)
    refine ⟨l₃, ?_, by rw [hl₃], by rw [hl₃], by rw [hl₃]; dsimp only; omega⟩
    simp only [bind_ok]
    exact ⟨l₁, h₁, l₂, h₂, h₃⟩
  · obtain ⟨l₂, l₃, h₂, h₃, hl₃⟩ := System.open_ok (n := space) (o := owner) he
    refine ⟨l₃, ?_, by rw [hl₃], by rw [hl₃], by rw [hl₃]; dsimp only; omega⟩
    simp only [bind_ok]
    exact ⟨l, rfl, l₂, h₂, h₃⟩

/-- the same address, created as GRS does: only if it holds nothing -/
theorem createAccount_system {system payer owner : Pubkey} {l : System.Ledger Pubkey} {rent space : ℕ}
    (he : System.Empty system l k) (hk : (l k).lamports = w.lamports k) (hne : payer ≠ k) (hpay : rent ≤ (l payer).lamports) :
    Succeeds (createAccount w k) ↔ Succeeds (System.create system l payer k rent space owner) := by
  rw [System.create_iff he hne hpay, hk]
  exact ⟨fun ⟨_, h⟩ => createAccount_ok h, fun h => ⟨(), require_ok.2 h⟩⟩

end Grindurus.Grs
