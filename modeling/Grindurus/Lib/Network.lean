/-
Nodes that act on their own and exchange letters through a network that may delay, reorder and lose them.

- `Protocol`: what a node does on its own, which may post a letter, and what it does with a letter it is handed.
- `Net`: the state of every node, and all mail ever posted. A piece of mail is handed over at most once, in any order.
- `step`: one event, an `act` of a node or the delivery of a piece of mail. A refused event leaves the net as it was.
- `load`: what the mail not yet handed over carries. `total`: what the nodes hold and the mail carries.
- `Conserves`, `Conserves.run`: a quantity no node creates, in acting or in taking a letter, grows on no run of the net.
- `Spills`, `Spills.run`: one that some actions create grows by no more than they do.
- `run_letter`: mail keeps its place in the log. `deliver_letter`, `run_cleared`: it is delivered as it was posted, and once.
-/
import Grindurus.Lib.Machine

namespace Grindurus.Network

open Machine Function

variable {N S I P A ε : Type}

/-- `act` and `receive` are transactions of a single node; `dest` is the node a letter is for -/
structure Protocol (N S I P A ε : Type) where
  act : N → S → I → Except ε (S × Option P)
  dest : P → N
  receive : N → S → P → A → Except ε S

structure Mail (P : Type) where
  letter : P
  cleared : Bool
  deriving DecidableEq, Repr

structure Net (N S P : Type) where
  nodes : Finset N
  node : N → S
  mail : List (Mail P)

inductive Event (N I A : Type) where
  | act (n : N) (i : I)
  | deliver (k : ℕ) (a : A)

/-- why the net refuses an event; a node's own refusal is passed on -/
inductive Refusal (ε : Type) where
  | nowhere
  | notInFlight
  | node (e : ε)
  deriving DecidableEq, Repr

variable [DecidableEq N]

def step (pr : Protocol N S I P A ε) (net : Net N S P) : Event N I A → Except (Refusal ε) (Net N S P)
  | .act n i =>
    if n ∉ net.nodes then .error .nowhere
    else
      match pr.act n (net.node n) i with
      | .error e => .error (.node e)
      | .ok (s, posted) =>
        .ok { net with node := update net.node n s, mail := net.mail ++ posted.toList.map fun p => ⟨p, false⟩ }
  | .deliver k a =>
    match net.mail[k]? with
    | some ⟨p, false⟩ =>
      if pr.dest p ∉ net.nodes then .error .nowhere
      else
        match pr.receive (pr.dest p) (net.node (pr.dest p)) p a with
        | .error e => .error (.node e)
        | .ok s => .ok { net with node := update net.node (pr.dest p) s, mail := net.mail.set k ⟨p, true⟩ }
    | _ => .error .notInFlight

/-! ## What a step does -/

variable {pr : Protocol N S I P A ε} {net net' : Net N S P}

theorem step_act {n : N} {i : I} (h : step pr net (.act n i) = .ok net') :
    n ∈ net.nodes ∧ ∃ s posted, pr.act n (net.node n) i = .ok (s, posted) ∧
      net' = { net with node := update net.node n s, mail := net.mail ++ posted.toList.map fun p => ⟨p, false⟩ } := by
  simp only [step] at h
  split_ifs at h with hn
  split at h
  · cases h
  · rename_i s posted hact
    exact ⟨hn, s, posted, hact, (Except.ok.inj h).symm⟩

theorem step_deliver {k : ℕ} {a : A} (h : step pr net (.deliver k a) = .ok net') :
    ∃ p s, net.mail[k]? = some ⟨p, false⟩ ∧ pr.dest p ∈ net.nodes ∧
      pr.receive (pr.dest p) (net.node (pr.dest p)) p a = .ok s ∧
      net' = { net with node := update net.node (pr.dest p) s, mail := net.mail.set k ⟨p, true⟩ } := by
  simp only [step] at h
  split at h
  · rename_i p hp
    split_ifs at h with hn
    split at h
    · cases h
    · rename_i s hs
      exact ⟨p, s, hp, hn, hs, (Except.ok.inj h).symm⟩
  · cases h

/-- a node is as it was, or it acted or took a letter -/
theorem step_node {ev : Event N I A} (h : step pr net ev = .ok net') (n : N) :
    net'.node n = net.node n ∨ n ∈ net.nodes ∧
      ((∃ i posted, pr.act n (net.node n) i = .ok (net'.node n, posted)) ∨
        ∃ p a, pr.dest p = n ∧ pr.receive n (net.node n) p a = .ok (net'.node n)) := by
  cases ev with
  | act j i =>
    obtain ⟨hj, s, posted, hact, rfl⟩ := step_act h
    by_cases hn : n = j
    · subst hn
      exact .inr ⟨hj, .inl ⟨i, posted, by simpa using hact⟩⟩
    · exact .inl (update_of_ne hn ..)
  | deliver k a =>
    obtain ⟨p, s, -, hj, hrec, rfl⟩ := step_deliver h
    by_cases hn : n = pr.dest p
    · subst hn
      exact .inr ⟨hj, .inr ⟨p, a, rfl, by simpa using hrec⟩⟩
    · exact .inl (update_of_ne hn ..)

theorem step_nodes {ev : Event N I A} (h : step pr net ev = .ok net') : net'.nodes = net.nodes := by
  cases ev with
  | act n i =>
    obtain ⟨-, s, posted, -, rfl⟩ := step_act h
    rfl
  | deliver k a =>
    obtain ⟨p, s, -, -, -, rfl⟩ := step_deliver h
    rfl

/-- a delivery the node refuses is refused with its reason -/
theorem step_deliver_error {k : ℕ} {a : A} {e : ε} (h : step pr net (.deliver k a) = .error (.node e)) :
    ∃ p, net.mail[k]? = some ⟨p, false⟩ ∧ pr.dest p ∈ net.nodes ∧
      pr.receive (pr.dest p) (net.node (pr.dest p)) p a = .error e := by
  simp only [step] at h
  split at h
  · rename_i p hp
    split_ifs at h with hn
    · split at h
      · rename_i e' he
        cases h
        exact ⟨p, hp, hn, he⟩
      · cases h
    · cases h
  · cases h

/-! ## What the net holds -/

/-- what a piece of mail still carries -/
def Mail.load (ω : P → ℕ) (m : Mail P) : ℕ := if m.cleared then 0 else ω m.letter

def load (ω : P → ℕ) (mail : List (Mail P)) : ℕ := (mail.map (Mail.load ω)).sum

def Net.total (μ : N → S → ℕ) (ω : P → ℕ) (net : Net N S P) : ℕ := ∑ n ∈ net.nodes, μ n (net.node n) + load ω net.mail

variable {ω : P → ℕ} {mail : List (Mail P)}

theorem load_post (posted : Option P) :
    load ω (mail ++ posted.toList.map fun p => ⟨p, false⟩) = load ω mail + posted.elim 0 ω := by
  cases posted <;> simp [load, Mail.load]

theorem load_clear {k : ℕ} {p : P} (h : mail[k]? = some ⟨p, false⟩) :
    load ω (mail.set k ⟨p, true⟩) + ω p = load ω mail := by
  induction mail generalizing k with
  | nil => cases h
  | cons m mail ih =>
    cases k with
    | zero =>
      cases h
      simp [load, Mail.load, Nat.add_comm]
    | succ k =>
      have hrest := ih (k := k) h
      simp only [load, List.set_cons_succ, List.map_cons, List.sum_cons] at hrest ⊢
      omega

/-- what is in flight is part of the load -/
theorem le_load {k : ℕ} {p : P} (h : mail[k]? = some ⟨p, false⟩) : ω p ≤ load ω mail := by
  rw [← load_clear h]
  exact Nat.le_add_left ..

theorem sum_update (nodes : Finset N) (f : N → S) (μ : N → S → ℕ) {n : N} (hn : n ∈ nodes) (s : S) :
    ∑ j ∈ nodes, μ j (update f n s j) + μ n (f n) = ∑ j ∈ nodes, μ j (f j) + μ n s := by
  have herase : ∑ j ∈ nodes.erase n, μ j (update f n s j) = ∑ j ∈ nodes.erase n, μ j (f j) :=
    Finset.sum_congr rfl fun j hj => by rw [update_of_ne (Finset.ne_of_mem_erase hj)]
  rw [← Finset.add_sum_erase _ _ hn, ← Finset.add_sum_erase nodes (fun j => μ j (f j)) hn, update_self, herase]
  ring

omit [DecidableEq N] in
/-- a node and a letter on its way hold no more than the net does -/
theorem Net.le_total (μ : N → S → ℕ) {k : ℕ} {p : P} {n : N} (hn : n ∈ net.nodes) (hp : net.mail[k]? = some ⟨p, false⟩) :
    μ n (net.node n) + ω p ≤ net.total μ ω :=
  Nat.add_le_add (Finset.single_le_sum (f := fun j => μ j (net.node j)) (fun _ _ => Nat.zero_le _) hn) (le_load hp)

/-! ## Conservation -/

/-- no node creates any of the quantity: what it posts it gives up, and what it takes in a letter carried -/
structure Conserves (pr : Protocol N S I P A ε) (J : N → S → Prop) (μ : N → S → ℕ) (ω : P → ℕ) : Prop where
  act : ∀ {n s i s' posted}, J n s → pr.act n s i = .ok (s', posted) → J n s' ∧ μ n s' + posted.elim 0 ω ≤ μ n s
  receive : ∀ {n s p a s'}, J n s → pr.receive n s p a = .ok s' → J n s' ∧ μ n s' ≤ μ n s + ω p

/-- every node is in order, and the net holds at most `c` -/
structure Bounded (J : N → S → Prop) (μ : N → S → ℕ) (ω : P → ℕ) (c : ℕ) (net : Net N S P) : Prop where
  nodes : ∀ n ∈ net.nodes, J n (net.node n)
  total : net.total μ ω ≤ c

variable {J : N → S → Prop} {μ : N → S → ℕ} {c : ℕ}

theorem Bounded.node (h : Bounded J μ ω c net) {n : N} {s : S} (hs : J n s) :
    ∀ j ∈ net.nodes, J j (update net.node n s j) := by
  intro j hj
  by_cases hjn : j = n
  · subst hjn
    rwa [update_self]
  · rw [update_of_ne hjn]
    exact h.nodes j hj

/-- what leaves a node is in flight until it arrives, so the bound on the sum stands -/
theorem Conserves.step (h : Conserves pr J μ ω) {ev : Event N I A} (hb : Bounded J μ ω c net)
    (hs : step pr net ev = .ok net') : Bounded J μ ω c net' := by
  have htotal := hb.total
  cases ev with
  | act n i =>
    obtain ⟨hn, s, posted, hact, rfl⟩ := step_act hs
    obtain ⟨hJ, hle⟩ := h.act (hb.nodes n hn) hact
    refine ⟨hb.node hJ, ?_⟩
    have hsum := sum_update net.nodes net.node μ hn s
    unfold Net.total at htotal ⊢
    rw [load_post]
    dsimp only
    omega
  | deliver k a =>
    obtain ⟨p, s, hp, hn, hrec, rfl⟩ := step_deliver hs
    obtain ⟨hJ, hle⟩ := h.receive (hb.nodes _ hn) hrec
    refine ⟨hb.node hJ, ?_⟩
    have hsum := sum_update net.nodes net.node μ hn s
    have hload : load ω (net.mail.set k ⟨p, true⟩) + ω p = load ω net.mail := load_clear hp
    unfold Net.total at htotal ⊢
    dsimp only
    omega

/-- **Conservation.** What no node creates does not grow, whatever the nodes do and however the mail is delivered. -/
theorem Conserves.run (h : Conserves pr J μ ω) (hb : Bounded J μ ω c net) (evs : List (Event N I A)) :
    Bounded J μ ω c (Machine.run (Network.step pr) net evs) :=
  run_invariant (fun _ _ _ hb hs => h.step hb hs) net evs hb

/-! ## Spills -/

/-- no node creates more of the quantity than `cost` allows for what it does -/
structure Spills (pr : Protocol N S I P A ε) (J : N → S → Prop) (μ : N → S → ℕ) (ω : P → ℕ) (cost : S → I → ℕ) : Prop where
  act : ∀ {n s i s' posted}, J n s → pr.act n s i = .ok (s', posted) → J n s' ∧ μ n s' + posted.elim 0 ω ≤ μ n s + cost s i
  receive : ∀ {n s p a s'}, J n s → pr.receive n s p a = .ok s' → J n s' ∧ μ n s' ≤ μ n s + ω p

/-- what an event may create -/
def spilled (cost : S → I → ℕ) (net : Net N S P) (ev : Event N I A) (_ : Net N S P) : ℕ :=
  match ev with
  | .act n i => cost (net.node n) i
  | .deliver _ _ => 0

variable {cost : S → I → ℕ}

/-- where a step may spill, the bound is raised by what is spilled -/
theorem Spills.step (h : Spills pr J μ ω cost) {ev : Event N I A} (hb : Bounded J μ ω c net)
    (hs : step pr net ev = .ok net') : Bounded J μ ω (c + spilled cost net ev net') net' := by
  have htotal := hb.total
  cases ev with
  | act n i =>
    obtain ⟨hn, s, posted, hact, rfl⟩ := step_act hs
    obtain ⟨hJ, hle⟩ := h.act (hb.nodes n hn) hact
    refine ⟨hb.node hJ, ?_⟩
    have hsum := sum_update net.nodes net.node μ hn s
    unfold Net.total spilled at *
    rw [load_post]
    dsimp only
    omega
  | deliver k a =>
    obtain ⟨p, s, hp, hn, hrec, rfl⟩ := step_deliver hs
    obtain ⟨hJ, hle⟩ := h.receive (hb.nodes _ hn) hrec
    refine ⟨hb.node hJ, ?_⟩
    have hsum := sum_update net.nodes net.node μ hn s
    have hload : load ω (net.mail.set k ⟨p, true⟩) + ω p = load ω net.mail := load_clear hp
    unfold Net.total spilled at *
    dsimp only
    omega

/-- what the net holds grows by no more than its run spills -/
theorem Spills.run (h : Spills pr J μ ω cost) (hb : Bounded J μ ω c net) (evs : List (Event N I A)) :
    Bounded J μ ω (c + tally (Network.step pr) (spilled cost) net evs) (Machine.run (Network.step pr) net evs) := by
  refine run_bounded (P := fun net k => Bounded J μ ω k net) (fun net ev net' c hb hs => ?_) net evs c hb
  exact h.step hb hs

theorem run_nodes (net : Net N S P) (evs : List (Event N I A)) : (Machine.run (Network.step pr) net evs).nodes = net.nodes :=
  run_invariant (P := fun net' => net'.nodes = net.nodes) (fun _ _ _ hn hs => (step_nodes hs).trans hn) net evs rfl

/-! ## The log -/

/-- all that was ever posted, delivered or not -/
def Net.letters (net : Net N S P) : List P := net.mail.map Mail.letter

omit [DecidableEq N] in
theorem letters_act {net : Net N S P} {node : N → S} {posted : Option P} :
    Net.letters { net with node := node, mail := net.mail ++ posted.toList.map fun p => ⟨p, false⟩ } =
      net.letters ++ posted.toList := by
  cases posted <;> simp [Net.letters]

omit [DecidableEq N] in
/-- a delivery takes nothing out of the log -/
theorem letters_deliver {net : Net N S P} {node : N → S} {k : ℕ} {p : P} (h : net.mail[k]? = some ⟨p, false⟩) :
    Net.letters { net with node := node, mail := net.mail.set k ⟨p, true⟩ } = net.letters := by
  have hletter : net.letters[k]? = some p := by simp [Net.letters, h]
  obtain ⟨hk, rfl⟩ := List.getElem?_eq_some_iff.1 hletter
  exact (List.map_set ..).trans (List.set_getElem_self hk)

/-- the log only grows -/
theorem step_letters {ev : Event N I A} (h : step pr net ev = .ok net') : net.letters <+: net'.letters := by
  cases ev with
  | act n i =>
    obtain ⟨-, s, posted, -, rfl⟩ := step_act h
    rw [letters_act]
    exact List.prefix_append ..
  | deliver k a =>
    obtain ⟨p, s, hp, -, -, rfl⟩ := step_deliver h
    rw [letters_deliver hp]

theorem run_letters (net : Net N S P) (evs : List (Event N I A)) :
    net.letters <+: (Machine.run (step pr) net evs).letters :=
  run_invariant (P := fun net' => net.letters <+: net'.letters) (fun _ _ _ hl hs => hl.trans (step_letters hs)) net evs
    (List.prefix_refl _)

/-- mail keeps its place -/
theorem run_letter {net : Net N S P} {k : ℕ} {p : P} (hp : net.letters[k]? = some p) (evs : List (Event N I A)) :
    (Machine.run (step pr) net evs).letters[k]? = some p := by
  obtain ⟨more, hmore⟩ : net.letters <+: (Machine.run (step pr) net evs).letters := run_letters net evs
  rw [← hmore, List.getElem?_append_left (List.getElem?_eq_some_iff.1 hp).1, hp]

/-! ## Mail handed over -/

/-- what was handed over is not handed over again -/
theorem step_cleared {net net' : Net N S P} {ev : Event N I A} {k : ℕ} {p : P} (hk : net.mail[k]? = some ⟨p, true⟩)
    (h : step pr net ev = .ok net') : net'.mail[k]? = some ⟨p, true⟩ := by
  cases ev with
  | act n i =>
    obtain ⟨-, s, posted, -, rfl⟩ := step_act h
    exact (List.getElem?_append_left (List.getElem?_eq_some_iff.1 hk).1).trans hk
  | deliver j a =>
    obtain ⟨q, s, hj, -, -, rfl⟩ := step_deliver h
    have hne : j ≠ k := by
      rintro rfl
      cases hk.symm.trans hj
    exact (List.getElem?_set_ne hne).trans hk

theorem run_cleared {net : Net N S P} {k : ℕ} {p : P} (hk : net.mail[k]? = some ⟨p, true⟩) (evs : List (Event N I A)) (a : A) :
    step pr (Machine.run (step pr) net evs) (.deliver k a) = .error .notInFlight := by
  have hkept : (Machine.run (step pr) net evs).mail[k]? = some ⟨p, true⟩ :=
    run_invariant (P := fun net' => net'.mail[k]? = some ⟨p, true⟩) (fun _ _ _ hk hs => step_cleared hk hs) net evs hk
  simp [step, hkept]

/-- mail is delivered as it was posted, whatever happened in between -/
theorem deliver_letter {net net' : Net N S P} {k : ℕ} {p : P} (hp : net.letters[k]? = some p) (evs : List (Event N I A)) {a : A}
    (h : step pr (Machine.run (step pr) net evs) (.deliver k a) = .ok net') :
    pr.dest p ∈ net.nodes ∧
      pr.receive (pr.dest p) ((Machine.run (step pr) net evs).node (pr.dest p)) p a = .ok (net'.node (pr.dest p)) ∧
      net'.mail[k]? = some ⟨p, true⟩ := by
  obtain ⟨q, s, hq, hdest, hrec, rfl⟩ := step_deliver h
  have hlater : (Machine.run (step pr) net evs).letters[k]? = some p := run_letter hp evs
  rw [Net.letters, List.getElem?_map, hq, Option.map_some, Option.some.injEq] at hlater
  subst hlater
  rw [run_nodes] at hdest
  exact ⟨hdest, by simpa using hrec, List.getElem?_set_self (List.getElem?_eq_some_iff.1 hq).1⟩

end Grindurus.Network
