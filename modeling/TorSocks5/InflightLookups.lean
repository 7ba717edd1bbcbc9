/-
**Lookups in flight, one for each name and network.**

Callers that ask for the same name in the same generation of the network share a cell: one of them
runs the search, and the others wait for its result.  The registry knows the cells only weakly, so a
cell lives as long as a caller holds it; a caller whose search is cancelled leaves it to a waiter.
-/

import TorSocks5.Machine
import TorSocks5.Table

set_option autoImplicit false

namespace Inflight

/-! ### The registry -/

/-- A hostname and a generation of the network. -/
abbrev Key (H : Type) := H × ℕ

/-- `InflightDohRegistry`; a cell is known by its address. -/
structure Registry (H : Type) where
  entries : Table (Key H) ℕ
  sweepQueue : List (Key H)
  queuedKeys : Finset (Key H)

def sweepInterval : ℕ := 64

def sweepBudget : ℕ := 128

variable {H : Type} [DecidableEq H]

namespace Registry

def queueKey (r : Registry H) (k : Key H) : Registry H :=
  if k ∈ r.queuedKeys then r
  else { r with sweepQueue := r.sweepQueue ++ [k], queuedKeys := insert k r.queuedKeys }

def clearIfEmpty (r : Registry H) : Registry H := if r.entries.len = 0 then ⟨∅, [], ∅⟩ else r

/-- One round of the sweep; `alive` are the cells that somebody holds. -/
def visit (alive : ℕ → Bool) (r : Registry H) : Registry H :=
  match r.sweepQueue with
  | [] => r
  | k :: queue =>
    let r := { r with sweepQueue := queue, queuedKeys := r.queuedKeys.erase k }
    match r.entries.get k with
    | none => r
    | some x => if alive x then r.queueKey k else { r with entries := r.entries.remove k }

/-- `sweep_inflight_dead_entries`. -/
def sweep (alive : ℕ → Bool) (r : Registry H) : Registry H :=
  (visit alive)^[min sweepBudget r.sweepQueue.length] r

/-- `remove_finished_inflight_entry`. -/
def removeFinished (r : Registry H) (k : Key H) (x : ℕ) : Registry H :=
  if r.entries.get k = some x then clearIfEmpty { r with entries := r.entries.remove k } else r

theorem entries_queueKey (r : Registry H) (k : Key H) : (r.queueKey k).entries = r.entries := by
  unfold queueKey
  split <;> rfl

theorem get_visit (alive : ℕ → Bool) (r : Registry H) (k : Key H) :
    (visit alive r).entries.get k = r.entries.get k ∨
      (visit alive r).entries.get k = none ∧ ∀ x, r.entries.get k = some x → alive x = false := by
  unfold visit
  split
  · exact .inl rfl
  · next k' queue _ =>
    simp only
    split
    · exact .inl rfl
    · next x hx =>
      split_ifs with halive
      · exact .inl (by rw [entries_queueKey])
      · by_cases hk : k = k'
        · subst hk
          refine .inr ⟨Table.get_remove_self _ _, fun y hy => ?_⟩
          cases hx.symm.trans hy
          simpa using halive
        · exact .inl (Table.get_remove_of_ne _ hk)

/-- A sweep removes entries of dead cells only. -/
theorem get_sweep (alive : ℕ → Bool) (r : Registry H) (k : Key H) :
    (sweep alive r).entries.get k = r.entries.get k ∨
      (sweep alive r).entries.get k = none ∧ ∀ x, r.entries.get k = some x → alive x = false := by
  unfold sweep
  generalize min sweepBudget r.sweepQueue.length = n
  induction n with
  | zero => exact .inl rfl
  | succ n ih =>
    rw [Function.iterate_succ_apply']
    rcases get_visit alive ((visit alive)^[n] r) k with h | ⟨h, hdead⟩
    · rw [h]
      exact ih
    · refine .inr ⟨h, fun x hx => ?_⟩
      rcases ih with heq | ⟨-, hall⟩
      · exact hdead x (heq.trans hx)
      · exact hall x hx

theorem get_removeFinished (r : Registry H) (k k' : Key H) (x : ℕ) :
    (r.removeFinished k x).entries.get k' =
      if k' = k ∧ r.entries.get k = some x then none else r.entries.get k' := by
  unfold removeFinished
  by_cases hx : r.entries.get k = some x
  · have hclear : ∀ r : Registry H, (clearIfEmpty r).entries.get k' = r.entries.get k' := by
      intro r
      unfold clearIfEmpty
      split_ifs with hlen
      · have hnone : r.entries.get k' = none := by
          by_contra hne
          obtain ⟨y, hy⟩ := Option.ne_none_iff_exists'.mp hne
          have hmem := Table.mem_entries (b := ⟨k', y⟩).mpr hy
          simp [List.eq_nil_of_length_eq_zero hlen] at hmem
        exact hnone.symm
      · rfl
    rw [if_pos hx, hclear, Table.get_remove]
    simp [hx]
  · simp [hx]

end Registry

/-! ### Callers -/

/-- The result of a search, and the key that the search was made for. -/
structure Answer (H R : Type) where
  search : Key H
  result : R

/-- Where `coalesced_doh_lookup_observed` is. -/
inductive Caller (H R : Type)
  /-- The generation has been read. -/
  | captured (key : Key H)
  /-- Waiting in `get_or_init`. -/
  | joined (key : Key H) (cell : ℕ)
  /-- In `doh_wave_search`, as the initializer of the cell. -/
  | running (key : Key H) (cell : ℕ)
  /-- `get_or_init` has returned. -/
  | returned (key : Key H) (cell : ℕ) (answer : Answer H R)
  | done (key : Key H) (answer : Answer H R)

variable {ι R : Type} [DecidableEq ι]

namespace Caller

def key : Caller H R → Key H
  | captured k | joined k _ | running k _ | returned k _ _ | done k _ => k

/-- The cell that the caller holds. -/
def cell : Caller H R → Option ℕ
  | captured _ | done _ _ => none
  | joined _ x | running _ x | returned _ x _ => some x

def runs (x : ℕ) : Caller H R → Bool
  | running _ y => x = y
  | _ => false

end Caller

structure State (ι H R : Type) where
  generation : ℕ
  registry : Registry H
  sweepCounter : ℕ
  nextCell : ℕ
  /-- The values of the cells. -/
  value : ℕ → Option (Answer H R)
  callers : Table ι (Caller H R)

/-- `Weak::upgrade` succeeds. -/
def State.alive (s : State ι H R) (x : ℕ) : Bool := s.callers.entries.any fun b => b.2.cell = some x

inductive Action (ι H R : Type)
  | call (c : ι) (host : H)
  /-- Join a cell of the registry, or put a new one there. -/
  | enter (c : ι)
  /-- Become the initializer of a cell that has none. -/
  | start (c : ι)
  | finish (c : ι) (result : R)
  /-- Be woken by the value of the cell. -/
  | receive (c : ι)
  | remove (c : ι)
  /-- Cancelled at an await. -/
  | cancel (c : ι)
  | flush

/-- The registry in which a new cell is put. -/
def State.swept (s : State ι H R) : Registry H :=
  if s.sweepCounter % sweepInterval = sweepInterval - 1 then s.registry.sweep s.alive
  else s.registry

def State.set (s : State ι H R) (c : ι) (p : Caller H R) : State ι H R :=
  { s with callers := s.callers.insert c p }

def enter (s : State ι H R) (c : ι) (k : Key H) : State ι H R :=
  match s.registry.entries.get k with
  | some x => if s.alive x then s.set c (.joined k x) else fresh
  | none => fresh
where
  fresh : State ι H R :=
    { s with
      registry := { s.swept with entries := s.swept.entries.insert k s.nextCell }.queueKey k
      sweepCounter := s.sweepCounter + 1
      nextCell := s.nextCell + 1
      callers := s.callers.insert c (.joined k s.nextCell) }

def step (s : State ι H R) : Action ι H R → Option (State ι H R)
  | .call c host =>
    if s.callers.get c = none then some (s.set c (.captured (host, s.generation))) else none
  | .enter c =>
    match s.callers.get c with
    | some (.captured k) => some (enter s c k)
    | _ => none
  | .start c =>
    match s.callers.get c with
    | some (.joined k x) =>
      if s.value x = none ∧ s.callers.entries.all fun b => !b.2.runs x then
        some (s.set c (.running k x))
      else none
    | _ => none
  | .finish c result =>
    match s.callers.get c with
    | some (.running k x) =>
      some { s.set c (.returned k x ⟨k, result⟩) with
        value := Function.update s.value x (some ⟨k, result⟩) }
    | _ => none
  | .receive c =>
    match s.callers.get c with
    | some (.joined k x) => (s.value x).map fun a => s.set c (.returned k x a)
    | _ => none
  | .remove c =>
    match s.callers.get c with
    | some (.returned k x a) =>
      some { s.set c (.done k a) with registry := s.registry.removeFinished k x }
    | _ => none
  | .cancel c =>
    match s.callers.get c with
    | some (.joined _ _) | some (.running _ _) =>
      some { s with callers := s.callers.remove c }
    | _ => none
  | .flush => some { s with generation := s.generation + 1 }

def machine (ι H R : Type) [DecidableEq ι] [DecidableEq H] :
    Machine (State ι H R) (Action ι H R) := ⟨step⟩

def init (generation : ℕ) : State ι H R := ⟨generation, ⟨∅, [], ∅⟩, 0, 0, fun _ => none, ∅⟩

/-! ### The invariant -/

/-- What holds of every reachable state. -/
structure Inv (s : State ι H R) : Prop where
  cell_lt : ∀ c p x, s.callers.get c = some p → p.cell = some x → x < s.nextCell
  entry_lt : ∀ k x, s.registry.entries.get k = some x → x < s.nextCell
  /-- A cell that is held and has no value is in the registry. -/
  listed : ∀ c p x, s.callers.get c = some p → p.cell = some x → s.value x = none →
    s.registry.entries.get p.key = some x
  /-- The callers of a cell in the registry have its key. -/
  keyed : ∀ k x c p, s.registry.entries.get k = some x → s.callers.get c = some p →
    p.cell = some x → p.key = k
  fresh : ∀ x, s.nextCell ≤ x → s.value x = none
  unset : ∀ c k x, s.callers.get c = some (.running k x) → s.value x = none
  single : ∀ c d k l x, s.callers.get c = some (.running k x) →
    s.callers.get d = some (.running l x) → c = d
  /-- The value of a cell comes from a search for the key of its callers. -/
  origin : ∀ c p x a, s.callers.get c = some p → p.cell = some x → s.value x = some a →
    a.search = p.key
  returned : ∀ c k x a, s.callers.get c = some (.returned k x a) → s.value x = some a
  done : ∀ c k a, s.callers.get c = some (.done k a) → a.search = k

omit [DecidableEq H] in
theorem alive_iff {s : State ι H R} {x : ℕ} :
    s.alive x = true ↔ ∃ c p, s.callers.get c = some p ∧ p.cell = some x := by
  simp only [State.alive, List.any_eq_true, decide_eq_true_eq]
  constructor
  · rintro ⟨b, hb, hx⟩
    exact ⟨b.1, b.2, Table.mem_entries.mp hb, hx⟩
  · rintro ⟨c, p, hp, hx⟩
    exact ⟨⟨c, p⟩, Table.mem_entries.mpr hp, hx⟩

theorem inv_init (generation : ℕ) : Inv (init generation : State ι H R) := by
  constructor <;> simp [init]

section Steps

variable {s t : State ι H R} {c : ι} {k : Key H} {x : ℕ}

theorem Inv.join (h : Inv s) (hx : s.registry.entries.get k = some x)
    (halive : s.alive x = true) : Inv (s.set c (.joined k x)) := by
  obtain ⟨d, p, hd, hp⟩ := alive_iff.mp halive
  have hkey := h.keyed k x d p hx hd hp
  obtain ⟨h₁, h₂, h₃, h₄, h₅, h₆, h₇, h₈, h₉, h₁₀⟩ := h
  constructor <;> simp only [State.set, Table.get_insert] <;> grind [Caller.cell, Caller.key]

omit [DecidableEq ι] in
theorem get_swept (s : State ι H R) (k : Key H) :
    s.swept.entries.get k = s.registry.entries.get k ∨
      s.swept.entries.get k = none ∧
        ∀ x, s.registry.entries.get k = some x → s.alive x = false := by
  unfold State.swept
  split
  · exact Registry.get_sweep s.alive s.registry k
  · exact .inl rfl

/-- A new cell: what is listed and alive stays listed, as nothing alive was listed for the key. -/
theorem Inv.fresh_cell (h : Inv s)
    (hdead : ∀ x, s.registry.entries.get k = some x → s.alive x = false) :
    Inv (enter.fresh s c k) := by
  have hswept := get_swept s
  have halive : ∀ d p x, s.callers.get d = some p → p.cell = some x → s.alive x = true :=
    fun d p x hd hp => alive_iff.mpr ⟨d, p, hd, hp⟩
  obtain ⟨h₁, h₂, h₃, h₄, h₅, h₆, h₇, h₈, h₉, h₁₀⟩ := h
  constructor <;> simp only [enter.fresh, Registry.entries_queueKey, Table.get_insert] <;>
    grind [Caller.cell, Caller.key]

theorem Inv.enter (h : Inv s) : Inv (enter s c k) := by
  unfold Inflight.enter
  split
  · next x hx =>
    split_ifs with halive
    · exact h.join hx halive
    · refine h.fresh_cell fun y hy => ?_
      cases hx.symm.trans hy
      simpa using halive
  · next hnone => exact h.fresh_cell fun y hy => by simp [hnone] at hy

/-- **The invariant holds after every step.** -/
theorem inv_step (h : Inv s) {a : Action ι H R} (hstep : step s a = some t) : Inv t := by
  cases a with
  | call c host =>
    simp only [step] at hstep
    split_ifs at hstep
    cases hstep
    constructor <;> simp only [State.set, Table.get_insert] <;>
      grind -ring -linarith [cases Inv, Caller.cell, Caller.key]
  | enter c =>
    simp only [step] at hstep
    split at hstep <;> cases hstep
    exact h.enter
  | start c =>
    simp only [step] at hstep
    split at hstep <;> try cases hstep
    next k x hc =>
    split_ifs at hstep with hfree
    cases hstep
    have hnobody : ∀ d l, s.callers.get d ≠ some (.running l x) := fun d l hd => by
      have := List.all_eq_true.mp hfree.2 ⟨d, _⟩ (Table.mem_entries.mpr hd)
      simp [Caller.runs] at this
    constructor <;> simp only [State.set, Table.get_insert] <;>
      grind -ring -linarith [cases Inv, Caller.cell, Caller.key]
  | finish c result =>
    simp only [step] at hstep
    split at hstep <;> cases hstep
    next k x hc =>
    have hlt := h.cell_lt c _ x hc rfl
    have hlisted : s.registry.entries.get k = some x := h.listed c _ x hc rfl (h.unset c k x hc)
    have hkeys := fun d p => h.keyed k x d p hlisted
    constructor <;> simp only [State.set, Table.get_insert, Function.update_apply] <;>
      grind -ring -linarith [cases Inv, Caller.cell, Caller.key]
  | receive c =>
    simp only [step] at hstep
    split at hstep <;> try cases hstep
    next k x hc =>
    obtain ⟨a, ha, rfl⟩ := Option.map_eq_some_iff.mp hstep
    constructor <;> simp only [State.set, Table.get_insert] <;>
      grind -ring -linarith [cases Inv, Caller.cell, Caller.key]
  | remove c =>
    simp only [step] at hstep
    split at hstep <;> cases hstep
    next k x a hc =>
    have hvalue := h.returned c k x a hc
    have horigin : a.search = k := h.origin c _ x a hc rfl hvalue
    constructor <;> simp only [State.set, Table.get_insert, Registry.get_removeFinished] <;>
      grind -ring -linarith [cases Inv, Caller.cell, Caller.key]
  | cancel c =>
    simp only [step] at hstep
    split at hstep <;> cases hstep
    all_goals constructor <;> simp only [Table.get_remove] <;> grind -ring -linarith [cases Inv]
  | flush =>
    cases hstep
    exact { h with }

theorem inv_of_run {ok : State ι H R → Action ι H R → Prop} {generation : ℕ}
    {as : List (Action ι H R)} (h : (machine ι H R).Run ok (init generation) as s) : Inv s :=
  h.invariant (fun _ _ _ hs _ hstep => inv_step hs hstep) (inv_init generation)

/-- A cell keeps its value. -/
theorem value_step (h : Inv s) {a : Action ι H R} (hstep : step s a = some t) {v : Answer H R}
    (hv : s.value x = some v) : t.value x = some v := by
  cases a with
  | finish c result =>
    simp only [step] at hstep
    split at hstep <;> cases hstep
    next k y hc =>
    have hne : x ≠ y := by
      rintro rfl
      simp [h.unset c k x hc] at hv
    simpa [hne] using hv
  | enter c =>
    simp only [step] at hstep
    split at hstep <;> cases hstep
    unfold Inflight.enter
    split
    · split_ifs <;> exact hv
    · exact hv
  | receive c =>
    simp only [step] at hstep
    split at hstep <;> try cases hstep
    obtain ⟨a, -, rfl⟩ := Option.map_eq_some_iff.mp hstep
    exact hv
  | _ =>
    simp only [step] at hstep
    repeat' split at hstep
    all_goals
      cases hstep
      try exact hv

theorem value_of_run {bs : List (Action ι H R)} (h : Inv s)
    (hrun : (machine ι H R).Run Machine.anyStep s bs t) {v : Answer H R} (hv : s.value x = some v) :
    t.value x = some v :=
  (hrun.invariant (I := fun t => Inv t ∧ t.value x = some v)
    (fun _ _ _ hs _ hstep => ⟨inv_step hs.1 hstep, value_step hs.1 hstep hs.2⟩) ⟨h, hv⟩).2

/-- A caller that has finished removes the entry of its own cell only. -/
theorem get_of_remove {v : Answer H R} (hc : s.callers.get c = some (.returned k x v))
    (hstep : step s (.remove c) = some t) {l : Key H} {y : ℕ} (hy : y ≠ x)
    (hl : s.registry.entries.get l = some y) : t.registry.entries.get l = some y := by
  simp only [step, hc] at hstep
  cases hstep
  rw [Registry.get_removeFinished, if_neg, hl]
  rintro ⟨rfl, hx⟩
  exact hy (Option.some.inj (hl.symm.trans hx))

/-! ### Waiting for a result -/

/-- The steps of the callers of a cell; the caller `c` is not cancelled. -/
def OnCell (c : ι) (x : ℕ) (s : State ι H R) (a : Action ι H R) : Prop :=
  ∃ d p, s.callers.get d = some p ∧ p.cell = some x ∧
    (a = .start d ∨ (∃ result, a = .finish d result) ∨ a = .receive d ∨ a = .cancel d ∧ d ≠ c)

/-- How many steps a caller of a cell has before it. -/
def weight (x : ℕ) : Caller H R → ℕ
  | .joined _ y => if y = x then 2 else 0
  | .running _ y => if y = x then 1 else 0
  | _ => 0

omit [DecidableEq H] in
theorem sum_set_lt {p q : Caller H R} (hp : s.callers.get c = some p)
    (hlt : weight x q < weight x p) :
    (s.callers.insert c q).sum (weight x) < s.callers.sum (weight x) := by
  rw [Table.sum_insert]
  have := Table.sum_remove hp (weight x)
  omega

/-- A caller of the cell has gone on, or another one than `c` has gone. -/
theorem onCell_step {a : Action ι H R} (ha : OnCell c x s a) (hstep : step s a = some t) :
    ∃ d p, s.callers.get d = some p ∧
      ((∃ q, t.callers = s.callers.insert d q ∧ weight x q < weight x p ∧
        (q = .running p.key x ∨ ∃ v, q = .returned p.key x v)) ∨
      (d ≠ c ∧ t.callers = s.callers.remove d ∧ 0 < weight x p)) := by
  obtain ⟨d, p, hd, hcell, ha⟩ := ha
  refine ⟨d, p, hd, ?_⟩
  rcases ha with rfl | ⟨result, rfl⟩ | rfl | ⟨rfl, hne⟩ <;> simp only [step, hd] at hstep <;>
    cases p <;> simp only [Caller.cell, Option.some.injEq, reduceCtorEq] at hcell hstep <;>
    subst hcell
  · split_ifs at hstep
    cases hstep
    exact .inl ⟨_, rfl, by simp [weight], .inl rfl⟩
  · cases hstep
    exact .inl ⟨_, rfl, by simp [weight], .inr ⟨_, rfl⟩⟩
  · obtain ⟨v, -, rfl⟩ := Option.map_eq_some_iff.mp hstep
    exact .inl ⟨_, rfl, by simp [weight], .inr ⟨v, rfl⟩⟩
  all_goals
    cases hstep
    exact .inr ⟨hne, rfl, by simp [weight]⟩

/-- As long as a caller waits for the cell, one of its callers can go on. -/
theorem exists_onCell [Nonempty R] (hc : s.callers.get c = some (.joined k x) ∨
    s.callers.get c = some (.running k x)) :
    ∃ a t, OnCell c x s a ∧ (machine ι H R).step s a = some t := by
  obtain ⟨result⟩ := ‹Nonempty R›
  have hfinish : ∀ d l, s.callers.get d = some (.running l x) →
      ∃ a t, OnCell c x s a ∧ (machine ι H R).step s a = some t := fun d l hd =>
    ⟨.finish d result, _, ⟨d, _, hd, rfl, .inr (.inl ⟨result, rfl⟩)⟩, by
      simp only [machine, step, hd]; rfl⟩
  rcases hc with hjoined | hrunning
  · cases hvalue : s.value x with
    | some v =>
      exact ⟨.receive c, _, ⟨c, _, hjoined, rfl, .inr (.inr (.inl rfl))⟩, by
        simp only [machine, step, hjoined, hvalue]; rfl⟩
    | none =>
      by_cases hfree : (s.callers.entries.all fun b => !b.2.runs x) = true
      · exact ⟨.start c, _, ⟨c, _, hjoined, rfl, .inl rfl⟩, by
          simp only [machine, step, hjoined, hvalue, hfree, and_self, if_true]; rfl⟩
      · simp only [List.all_eq_true, not_forall] at hfree
        obtain ⟨⟨d, p⟩, hb, hruns⟩ := hfree
        cases p with
        | running l y =>
          obtain rfl : x = y := by simpa [Caller.runs] using hruns
          exact hfinish d l (Table.mem_entries.mp hb)
        | _ => simp [Caller.runs] at hruns
  · exact hfinish c k hrunning

/-- **The result is inevitable**: whoever of the callers of the cell goes on, and whoever of the
others is cancelled, the caller gets the value of the cell. -/
theorem result_inevitable [Nonempty R] (h : Inv s)
    (hc : s.callers.get c = some (.joined k x) ∨ s.callers.get c = some (.running k x)) :
    (machine ι H R).Inevitable (OnCell c x)
      (fun t => ∃ v, t.callers.get c = some (.returned k x v) ∧ t.value x = some v) s := by
  refine Machine.Inevitable.of_measure (I := fun s => Inv s ∧ ((s.callers.get c =
    some (.joined k x) ∨ s.callers.get c = some (.running k x)) ∨
      ∃ v, s.callers.get c = some (.returned k x v)))
    (fun s => s.callers.sum (weight x)) ?_ ⟨h, .inl hc⟩
  rintro s ⟨hs, hc⟩
  by_cases hdone : ∃ v, s.callers.get c = some (.returned k x v)
  · obtain ⟨v, hv⟩ := hdone
    exact .inl ⟨v, hv, hs.returned c k x v hv⟩
  have hwaits := hc.resolve_right hdone
  refine .inr ⟨exists_onCell hwaits, fun a t ha hstep => ?_⟩
  obtain ⟨d, p, hd, ⟨q, ht, hlt, hq⟩ | ⟨hne, ht, hpos⟩⟩ := onCell_step ha hstep
  · refine ⟨⟨inv_step hs hstep, ?_⟩, by rw [ht]; exact sum_set_lt hd hlt⟩
    rw [ht, Table.get_insert]
    split_ifs with hcd
    · subst hcd
      have hkey : p.key = k := by rcases hwaits with h | h <;> cases hd.symm.trans h <;> rfl
      rw [hkey] at hq
      rcases hq with rfl | ⟨v, rfl⟩
      · exact .inl (.inr rfl)
      · exact .inr ⟨v, rfl⟩
    · exact hc
  · refine ⟨⟨inv_step hs hstep, ?_⟩, ?_⟩
    · rw [ht, Table.get_remove_of_ne _ hne.symm]
      exact hc
    · have := Table.sum_remove hd (weight x)
      rw [ht]
      omega

end Steps

/-- Two callers share a cell, and the one that runs the search is cancelled. -/
def takeover : List (Action Bool Unit Unit) :=
  [.call true (), .enter true, .call false (), .enter false, .start true, .cancel true]

end Inflight
