/-
The program as a machine (`programs/grs/src/lib.rs`).

- `Genesis`: a successful `init`. `Instr`: everything that can happen after it: the instructions of the program, and what
  holders, the clock and anyone with lamports do.
- `exec` commits an instruction, with the message it hands to the endpoint, or fails. `step` forgets the message.
- `Genesis.after`: the world after a run.
-/
import Grindurus.Lib.Machine
import Grindurus.Grs.Config
import Grindurus.Grs.Receive

namespace Grindurus.Grs

open Checked TokenBank Machine Function

variable (d : Deployment)

/-! ## Instructions -/

inductive Instr where
  | mintGenesis (a : MintGenesis)
  | setSale (a : SetSale)
  | buy (a : Buy)
  | publishSale (a : PublishSale)
  | send (a : Send)
  | bridge (a : Send)
  | lzReceive (a : LzReceive) (params : LzReceiveParams)
  | vest (a : Vest)
  | release (a : Release)
  | withdrawFee (a : WithdrawFee)
  | setPeerConfig (a : SetPeerConfig)
  | setOftConfig (a : SetOFTConfig)
  | transferOwnership (a : TransferOwnership)
  | acceptOwnership (a : AcceptOwnership)
  | setPause (a : SetPause)
  /-- a holder uses the token program directly -/
  | token (signer : Pubkey) (op : Bank.Op Pubkey)
  /-- lamports are sent to an address -/
  | fund (k : Pubkey) (x : ℕ)
  /-- time passes -/
  | tick (seconds : ℕ)

/-- who signs -/
def Instr.signer : Instr → Option Pubkey
  | .mintGenesis a => some a.admin
  | .setSale a => some a.admin
  | .buy a => some a.buyer
  | .publishSale a => some a.admin
  | .send a => some a.signer
  | .bridge a => some a.signer
  | .lzReceive a _ => some a.payer
  | .vest a => some a.funder
  | .release a => some a.payer
  | .withdrawFee a => some a.admin
  | .setPeerConfig a => some a.admin
  | .setOftConfig a => some a.admin
  | .transferOwnership a => some a.admin
  | .acceptOwnership a => some a.pendingOwner
  | .setPause a => some a.signer
  | .token signer _ => some signer
  | .fund _ _ => none
  | .tick _ => none

/-- a holder creates no account at an address of the program -/
def permitted (op : Bank.Op Pubkey) : Bool := op.creates.all fun k => k ∉ d.derived

/-- the addresses of the program sign for nobody outside it -/
def checkSigner : Option Pubkey → Except OFTError Unit
  | some k => require (k ∉ d.derived) (.missingSignature k)
  | none => .ok ()

def silent (x : Except OFTError World) : Except OFTError (World × Option Outbound) := do
  let w ← x
  .ok (w, none)

def posting (x : Except OFTError (World × Outbound)) : Except OFTError (World × Option Outbound) := do
  let (w, o) ← x
  .ok (w, some o)

def perform (w : World) : Instr → Except OFTError (World × Option Outbound)
  | .mintGenesis a => silent (a.apply d w)
  | .setSale a => silent (a.apply d w)
  | .buy a => silent (a.apply d w)
  | .publishSale a => posting (a.apply d w)
  | .send a => posting (a.apply d w)
  | .bridge a => posting ((bridge a).apply d w)
  | .lzReceive a params => silent (a.apply d w params)
  | .vest a => silent (a.apply d w)
  | .release a => silent (a.apply d w)
  | .withdrawFee a => silent (a.apply d w)
  | .setPeerConfig a => silent (a.apply w)
  | .setOftConfig a => silent (a.apply w)
  | .transferOwnership a => silent (a.apply w)
  | .acceptOwnership a => silent (a.apply w)
  | .setPause a => silent (a.apply w)
  | .token signer op => silent do
    require (permitted d op = true) (.constraintSeeds signer)
    let bank ← spl (w.bank.apply signer op)
    .ok { w with bank }
  | .fund k x => silent (.ok { w with lamports := update w.lamports k (w.lamports k + x) })
  | .tick seconds => silent (.ok { w with now := w.now + seconds })

def exec (w : World) (i : Instr) : Except OFTError (World × Option Outbound) := do
  checkSigner d i.signer
  perform d w i

def step (w : World) (i : Instr) : Except OFTError World := do
  let (w, _) ← exec d w i
  .ok w

/-! ## Runs -/

/-- the store before its first instruction: initialized, and nothing stands at its addresses yet -/
structure Genesis where
  bank : Bank Pubkey
  lamports : Pubkey → ℕ
  now : ℤ
  args : Init
  world : World
  signed : args.payer ∉ d.derived
  fresh : ∀ k ∈ d.derived, bank.accounts k = none
  initialized : args.apply d bank lamports now = .ok world

/-- the world after a run of instructions, the refused ones rolled back -/
def Genesis.after {d : Deployment} (g : Genesis d) (is : List Instr) : World := run (step d) g.world is

variable {d} {w w' : World}

theorem step_ok {i : Instr} : step d w i = .ok w' ↔ ∃ posted, exec d w i = .ok (w', posted) := by
  simp only [step, bind_ok, Prod.exists, Except.ok.injEq]
  constructor
  · rintro ⟨_, posted, h, rfl⟩
    exact ⟨posted, h⟩
  · rintro ⟨posted, h⟩
    exact ⟨w', posted, h, rfl⟩

theorem exec_ok {i : Instr} {posted : Option Outbound} (h : exec d w i = .ok (w', posted)) :
    (∀ k, i.signer = some k → k ∉ d.derived) ∧ perform d w i = .ok (w', posted) := by
  simp only [exec, bind_ok] at h
  obtain ⟨_, hs, h⟩ := h
  refine ⟨fun k hk => ?_, h⟩
  rw [hk] at hs
  exact require_ok.1 hs

theorem silent_ok {x : Except OFTError World} {posted : Option Outbound} (h : silent x = .ok (w', posted)) :
    x = .ok w' ∧ posted = none := by
  simp only [silent, bind_ok, Except.ok.injEq, Prod.mk.injEq] at h
  obtain ⟨_, hx, rfl, rfl⟩ := h
  exact ⟨hx, rfl⟩

theorem posting_ok {x : Except OFTError (World × Outbound)} {posted : Option Outbound}
    (h : posting x = .ok (w', posted)) : ∃ o, x = .ok (w', o) ∧ posted = some o := by
  simp only [posting, bind_ok, Prod.exists, Except.ok.injEq, Prod.mk.injEq] at h
  obtain ⟨_, o, hx, rfl, rfl⟩ := h
  exact ⟨o, hx, rfl⟩

/-! ## A store to run -/

namespace Sample

def admin : Pubkey := .ofNat 50

def token : Pubkey := .ofNat 100

/-- the token account of the admin -/
def treasury : Pubkey := .ofNat 60

/-- an associated token account is told by its first byte -/
def deployment : Deployment where
  program := .ofNat 1
  oftStore := .ofNat 2
  grsConfig := .ofNat 3
  tokenEscrow := .ofNat 4
  saleEscrow := .ofNat 5
  vestEscrow := .ofNat 6
  peer n := .ofNat (2 ^ 64 + n)
  sale n := .ofNat (2 ^ 65 + n)
  vest n := .ofNat (2 ^ 66 + n)
  ata owner _ := ⟨1 :: owner.bytes.tail, by simp⟩
  transferFee := none
  distinct := by decide +kernel
  ata_fresh owner mint h := by
    have hfirst : ∀ k ∈ [Pubkey.ofNat 2, .ofNat 3, .ofNat 4, .ofNat 5, .ofNat 6], k.bytes.head? = some 0 := by decide +kernel
    simpa using hfirst _ h
  withholdsNothing := Token2022.free_of_none

def bank : Bank Pubkey where
  mints m := if m = token then some ⟨9, 0, some admin⟩ else none
  accounts k := if k = treasury then some ⟨token, admin, 0⟩ else none

def home : Genesis deployment where
  bank
  lamports _ := 0
  now := 0
  args := ⟨admin, token, false, .native, 6, 0, .default⟩
  world := _
  signed := by decide +kernel
  fresh := by decide +kernel
  initialized := rfl

/-- the admin lists `x` GRS for as much of an asset -/
def listing (id x : ℕ) : Instr :=
  .setSale ⟨admin, deployment.sale id, treasury, 0, .default, x, x, admin⟩

end Sample

end Grindurus.Grs
