/-
**The progress of a bootstrap, as the user sees it.**

While the Tor client bootstraps, several of its tasks report progress, in any order and at the same
time.  The callback shows a percentage only if the engine is not on yet, by a flag, and if no higher
percentage has come by, by an atomic maximum.  Each of the two checks is one atomic step, and the
write of the status is a third one; the engine writes the status *On* and sets the flag after it.
-/

import Mathlib
import TorSocks5.EngineSlot

set_option autoImplicit false

namespace Bootstrap

open Engine (EngineStatus)

/-! ### The callbacks and the engine -/

/-- The events; a progress is given by the percentage it is rounded to. -/
inductive Event
  | progress (pct : ℕ)
  | ready
  | blocked
  | failed
  deriving DecidableEq

/-- Where an invocation of the callback is. -/
inductive Pc
  | away
  /-- The flag was not set. -/
  | checked (pct : ℕ)
  /-- No higher percentage had come by. -/
  | passed (pct : ℕ)
  deriving DecidableEq

/-- Where the engine is: before the write of the status, before the flag, after it. -/
inductive Phase
  | booting
  | announced
  | ready
  deriving DecidableEq

/-- The statuses are listed from the newest on. -/
structure State (ι : Type*) where
  reachedReady : Bool
  lastProgress : ℕ
  failedEmitted : Bool
  statuses : List EngineStatus
  phase : Phase
  calls : ι → Pc

/-- The callback is made after `nativeStart` has announced the engine. -/
def State.start {ι : Type*} : State ι := ⟨false, 0, false, [.starting 0], .booting, fun _ => .away⟩

/-- The steps of the callbacks and of the engine. -/
inductive Action (ι : Type*)
  /-- An invocation, up to the check of the flag. -/
  | call (i : ι) (event : Event)
  | fetchMax (i : ι)
  | setStatus (i : ι)
  | setOn (addr : List Char)
  | storeReady

section Steps

variable {ι : Type*} [DecidableEq ι]

def State.goto (s : State ι) (i : ι) (pc : Pc) : State ι :=
  { s with calls := Function.update s.calls i pc }

def step (s : State ι) : Action ι → Option (State ι)
  | .call i event =>
    match s.calls i, event with
    | .away, .progress pct => some (if s.reachedReady then s else s.goto i (.checked pct))
    | .away, .ready => some s
    | .away, .blocked => some s
    | .away, .failed => some { s with failedEmitted := true }
    | _, _ => none
  | .fetchMax i =>
    match s.calls i with
    | .checked pct =>
      let previous := s.lastProgress
      some ({ s with lastProgress := max previous pct }.goto i
        (if pct < previous then .away else .passed pct))
    | _ => none
  | .setStatus i =>
    match s.calls i with
    | .passed pct => some ({ s with statuses := .starting pct :: s.statuses }.goto i .away)
    | _ => none
  | .setOn addr =>
    match s.phase with
    | .booting => some { s with statuses := .on addr :: s.statuses, phase := .announced }
    | _ => none
  | .storeReady =>
    match s.phase with
    | .announced => some { s with reachedReady := true, phase := .ready }
    | _ => none

def bootstrap : Machine (State ι) (Action ι) := ⟨step⟩

/-! ### What a step can be -/

inductive Step (s : State ι) : Action ι → State ι → Prop
  /-- The callback has nothing to show. -/
  | skip {i : ι} {event : Event} {b : Bool} :
      Step s (.call i event) { s with failedEmitted := b }
  | check {i : ι} {pct : ℕ} : s.calls i = .away → s.reachedReady = false →
      Step s (.call i (.progress pct)) (s.goto i (.checked pct))
  | drop {i : ι} {pct : ℕ} : s.calls i = .checked pct → pct < s.lastProgress →
      Step s (.fetchMax i) (s.goto i .away)
  | pass {i : ι} {pct : ℕ} : s.calls i = .checked pct → s.lastProgress ≤ pct →
      Step s (.fetchMax i) ({ s with lastProgress := pct }.goto i (.passed pct))
  | write {i : ι} {pct : ℕ} : s.calls i = .passed pct →
      Step s (.setStatus i) ({ s with statuses := .starting pct :: s.statuses }.goto i .away)
  | setOn {addr : List Char} : s.phase = .booting →
      Step s (.setOn addr) { s with statuses := .on addr :: s.statuses, phase := .announced }
  | storeReady : s.phase = .announced →
      Step s .storeReady { s with reachedReady := true, phase := .ready }

variable {s t : State ι} {i : ι} {pct : ℕ}

theorem step_cases {a : Action ι} (h : step s a = some t) : Step s a t := by
  cases a with simp only [step] at h
  | call i event =>
    split at h
    · next hcall =>
      split_ifs at h with hready <;> cases h
      · exact .skip (b := s.failedEmitted)
      · exact .check hcall (Bool.eq_false_iff.2 hready)
    all_goals cases h
    iterate 2 exact .skip (b := s.failedEmitted)
    exact .skip
  | fetchMax i =>
    split at h <;> [skip; cases h]
    next pct hcall =>
      by_cases hlt : pct < s.lastProgress
      · rw [if_pos hlt, max_eq_left hlt.le] at h
        exact Option.some.inj h ▸ .drop hcall hlt
      · rw [if_neg hlt, max_eq_right (not_lt.1 hlt)] at h
        exact Option.some.inj h ▸ .pass hcall (not_lt.1 hlt)
  | _ => grind [Step]

/-! ### Going forward -/

/-- A status that may come after another one. -/
def follows : EngineStatus → EngineStatus → Bool
  | .starting pct, .starting old => old ≤ pct
  | .starting _, .on _ => false
  | _, _ => true

/-- **The statuses never go backwards**: percentages do not decrease, and nothing starts again after
the engine is on. -/
def Forward (statuses : List EngineStatus) : Prop :=
  statuses.Pairwise fun new old => follows new old = true

instance (statuses : List EngineStatus) : Decidable (Forward statuses) :=
  inferInstanceAs (Decidable (statuses.Pairwise _))

/-- The user has seen something later than a percentage. -/
def State.Overtaken (s : State ι) (pct : ℕ) : Prop :=
  (∃ addr, .on addr ∈ s.statuses) ∨ ∃ later, .starting later ∈ s.statuses ∧ pct < later

/-- A callback writes before it is overtaken. -/
def InTime (s : State ι) : Action ι → Prop
  | .setStatus i => ∀ pct, s.calls i = .passed pct → ¬ s.Overtaken pct
  | _ => True

omit [DecidableEq ι] in
theorem not_overtaken_iff :
    ¬ s.Overtaken pct ↔ ∀ old ∈ s.statuses, follows (.starting pct) old = true := by
  constructor
  · intro hnot old hold
    cases old with
    | starting later => exact decide_eq_true (not_lt.1 fun hlt => hnot (.inr ⟨later, hold, hlt⟩))
    | on addr => exact absurd (.inl ⟨addr, hold⟩) hnot
    | _ => rfl
  · rintro hall (⟨addr, haddr⟩ | ⟨later, hlater, hlt⟩)
    · cases hall _ haddr
    · exact hlt.not_ge (of_decide_eq_true (hall _ hlater))

theorem forward_cons {new : EngineStatus} {statuses : List EngineStatus} :
    Forward (new :: statuses) ↔
      (∀ old ∈ statuses, follows new old = true) ∧ Forward statuses := List.pairwise_cons

theorem forward_step {a : Action ι} (hstep : Step s a t) :
    Forward t.statuses ↔ Forward s.statuses ∧ InTime s a := by
  cases hstep with
  | @write i pct hcall =>
    have hin : InTime s (.setStatus i) ↔ ¬ s.Overtaken pct := by simp [InTime, hcall]
    rw [hin, not_overtaken_iff, and_comm]
    exact forward_cons
  | @setOn addr _ =>
    change Forward (.on addr :: s.statuses) ↔ _
    simp [forward_cons, InTime, follows]
  | _ => simp [InTime, State.goto]

/-- The callback of a later stage comes first; the older one is dropped. -/
def droppedRun : List (Action Bool) :=
  [.call false (.progress 80), .fetchMax false, .call true (.progress 15), .setStatus false,
    .fetchMax true, .setOn "127.0.0.1:1080".toList, .storeReady, .call true (.progress 100)]

/-- Of two overlapping callbacks, the one with the lower percentage makes both checks before the
other one begins, and writes after it. -/
def overlappingRun : List (Action Bool) :=
  [.call false (.progress 50), .fetchMax false, .call true (.progress 80), .fetchMax true,
    .setStatus true, .setStatus false]

/-- A callback makes both checks before the engine is on, and writes after it. -/
def endingRun : List (Action Bool) :=
  [.call false (.progress 50), .fetchMax false, .setOn "127.0.0.1:1080".toList, .storeReady,
    .setStatus false]

end Steps

end Bootstrap
