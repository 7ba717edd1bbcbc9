/-
**The engine slot of the Android library.**

The library runs at most one engine, in a thread of its own.  Its handle is in a global slot behind
a mutex.  `nativeStart` holds the mutex from its check of the slot to the moment the handle of the
new thread is stored.  `nativeStop` takes the handle out of the slot, waits for the thread without
the mutex, and then either empties the slot, after it has joined the thread, or puts the handle
back; a drop guard puts it back also if the wait panics.  The calls come from any threads, and the
engine thread may finish or hang at any moment.
-/

import Mathlib
import TorSocks5.Custody

set_option autoImplicit false

namespace Engine

/-! ### The slot, the status and the threads -/

/-- Who has written an error. -/
inductive Writer
  | start
  | stop
  | engine
  deriving DecidableEq

inductive EngineStatus
  | off
  | starting (pct : ℕ)
  | on (addr : List Char)
  | stopping
  | error (writer : Writer) (message : List Char)
  deriving DecidableEq

/-- The statuses an engine reports on its way, and those it ends with. -/
def EngineStatus.isProgress : EngineStatus → Bool
  | starting _ | on _ => true
  | _ => false

def EngineStatus.isFinal : EngineStatus → Bool
  | off | error .engine _ => true
  | _ => false

/-- The slot; a handle is named by the generation of its thread. -/
inductive EngineSlot
  | idle
  | running (h : ℕ)
  | stopping (handle : Option ℕ)
  deriving DecidableEq

/-- An engine thread: its final status is published, the channel has its message, the sending end is
dropped, the thread is finished. -/
structure Thread where
  published : Bool
  done : Bool
  dropped : Bool
  finished : Bool
  deriving DecidableEq

inductive StopHandoff
  | idle
  | inProgress
  | checkout (h : ℕ)

def beginEngineStop : EngineSlot → EngineSlot × StopHandoff
  | .stopping none => (.stopping none, .inProgress)
  | .idle => (.idle, .idle)
  | .running h => (.stopping none, .checkout h)
  | .stopping (some h) => (.stopping none, .checkout h)

/-- The slot for a new engine, given which threads are finished. -/
def acquireEngineSlotForStart (finished : ℕ → Bool) : EngineSlot → Except (List Char) EngineSlot
  | .idle => .ok .idle
  | .running h =>
    if finished h then .ok .idle
    else .error "torsocks5 engine already running; call nativeStop first".toList
  | .stopping _ => .error "torsocks5 engine is still stopping; call nativeStop again or wait".toList

/-! ### The calls -/

/-- Where a call is.  A call that has not looked at the slot yet is nowhere. -/
inductive Pc
  | away
  /-- `nativeStart` has the mutex and may proceed. -/
  | acquired
  | starting
  | spawned (h : ℕ)
  | spawnFailed
  /-- It has panicked and dropped the mutex, and has yet to write the status. -/
  | panicked
  /-- `nativeStop` found nothing to stop. -/
  | sawIdle
  | checkedOut (h : ℕ)
  | waiting (h : ℕ)
  /-- The wait ended with the message of the thread, or without it. -/
  | joining (h : ℕ) (normally : Bool)
  | joined (normally : Bool)
  /-- The slot is idle, and the mutex is held for the status. -/
  | cleared (normally : Bool)
  /-- The drop guard is at work, after a timeout or a panic. -/
  | parking (h : ℕ) (timedOut : Bool)
  | forced (h : ℕ) (timedOut : Bool)
  | parked
  deriving DecidableEq

/-- How a wait ends. -/
inductive WaitOutcome
  | completed
  | disconnected
  | timedOut
  | panicked
  deriving DecidableEq

structure State (ι : Type*) where
  slot : EngineSlot
  mutex : Option ι
  status : EngineStatus
  calls : ι → Pc
  threads : ℕ → Option Thread
  generation : ℕ

namespace State

variable {ι : Type*}

def start : State ι := ⟨.idle, none, .off, fun _ => .away, fun _ => none, 0⟩

def finished (s : State ι) (h : ℕ) : Bool := (s.threads h).any Thread.finished

/-- A thread has been spawned and is not finished. -/
def Alive (s : State ι) (h : ℕ) : Prop := ∃ t, s.threads h = some t ∧ t.finished = false

variable [DecidableEq ι]

/-- A call goes on to some point. -/
def goto (s : State ι) (c : ι) (pc : Pc) :
    State ι := { s with calls := Function.update s.calls c pc }

/-- A thread changes. -/
def setThread (s : State ι) (h : ℕ) (t : Thread) : State ι :=
  { s with threads := Function.update s.threads h (some t) }

end State

/-! ### The steps -/

/-- The steps of `nativeStart`. -/
inductive StartAction
  | enter
  /-- One of the preparations fails. -/
  | fail
  | setStatus
  | spawn (succeeds : Bool)
  | rollBack (message : List Char)
  | store
  | panic
  | panicStatus (message : List Char)

/-- The steps of `nativeStop`. -/
inductive StopAction
  | begin
  | setStatus
  | wait (outcome : WaitOutcome)
  | join
  | clear
  | park
  | forced

/-- The steps of an engine thread. -/
inductive ThreadAction
  /-- It reports progress, or that it is on. -/
  | report (status : EngineStatus)
  | publishFinalStatus (status : EngineStatus)
  | sendDone
  /-- The thread function returns, or unwinds. -/
  | dropSender
  | finish

inductive Action (ι : Type*)
  | start (c : ι) (a : StartAction)
  | stop (c : ι) (a : StopAction)
  | thread (h : ℕ) (a : ThreadAction)

section Steps

variable {ι : Type*} [DecidableEq ι]

def startStep (s : State ι) (c : ι) : StartAction → Option (State ι)
  | .enter =>
    match s.calls c, s.mutex with
    | .away, none =>
      match acquireEngineSlotForStart s.finished s.slot with
      | .ok slot => some ({ s with slot := slot, mutex := some c }.goto c .acquired)
      | .error _ => some s
    | _, _ => none
  | .fail =>
    match s.calls c with
    | .acquired => some ({ s with mutex := none }.goto c .away)
    | _ => none
  | .setStatus =>
    match s.calls c with
    | .acquired => some ({ s with status := .starting 0 }.goto c .starting)
    | _ => none
  | .spawn succeeds =>
    match s.calls c with
    | .starting =>
      -- the generation is bumped before the spawn
      let generation := s.generation + 1
      if succeeds then
        some (({ s with generation := generation }.setThread generation
          ⟨false, false, false, false⟩).goto c (.spawned generation))
      else some ({ s with generation := generation }.goto c .spawnFailed)
    | _ => none
  | .rollBack message =>
    match s.calls c with
    | .spawnFailed =>
      some ({ s with mutex := none, status := .error .start message }.goto c .away)
    | _ => none
  | .store =>
    match s.calls c with
    | .spawned h => some ({ s with slot := .running h, mutex := none }.goto c .away)
    | _ => none
  | .panic =>
    match s.calls c with
    | .acquired => some ({ s with mutex := none }.goto c .panicked)
    | .starting => some ({ s with mutex := none }.goto c .panicked)
    | _ => none
  | .panicStatus message =>
    match s.calls c with
    | .panicked => some ({ s with status := .error .start message }.goto c .away)
    | _ => none

def timeoutMessage : List Char := "nativeStop timed out waiting for the engine thread".toList

def abnormalMessage : List Char := "engine thread terminated abnormally".toList

def stopStep (s : State ι) (c : ι) : StopAction → Option (State ι)
  | .begin =>
    match s.calls c, s.mutex with
    | .away, none =>
      let (slot, handoff) := beginEngineStop s.slot
      match handoff with
      | .idle => some ({ s with slot := slot }.goto c .sawIdle)
      | .inProgress => some s
      | .checkout h => some ({ s with slot := slot }.goto c (.checkedOut h))
    | _, _ => none
  | .setStatus =>
    match s.calls c with
    | .sawIdle => some ({ s with status := .off }.goto c .away)
    | .checkedOut h => some ({ s with status := .stopping }.goto c (.waiting h))
    | .parked => some ({ s with status := .error .stop timeoutMessage }.goto c .away)
    | .cleared normally =>
      let status := if normally then .off else .error .stop abnormalMessage
      some ({ s with mutex := none, status := status }.goto c .away)
    | _ => none
  | .wait outcome =>
    match s.calls c, outcome with
    | .waiting h, .completed =>
      if (s.threads h).any Thread.done then some (s.goto c (.joining h true)) else none
    | .waiting h, .disconnected =>
      if (s.threads h).any fun t => !t.done && t.dropped then some (s.goto c (.joining h false))
      else none
    | .waiting h, .timedOut => some (s.goto c (.parking h true))
    | .waiting h, .panicked => some (s.goto c (.parking h false))
    | _, _ => none
  | .join =>
    match s.calls c with
    | .joining h normally => if s.finished h then some (s.goto c (.joined normally)) else none
    | _ => none
  | .clear =>
    match s.calls c, s.mutex with
    | .joined normally, none =>
      some ({ s with slot := .idle, mutex := some c }.goto c (.cleared normally))
    | _, _ => none
  | .park =>
    match s.calls c, s.mutex with
    | .parking h timedOut, none =>
      if s.slot = .stopping none then
        some ({ s with slot := .stopping (some h) }.goto c (if timedOut then .parked else .away))
      else some ({ s with mutex := some c }.goto c (.forced h timedOut))
    | _, _ => none
  | .forced =>
    match s.calls c with
    | .forced h timedOut =>
      if s.finished h then
        some ({ s with mutex := none }.goto c (if timedOut then .parked else .away))
      else none
    | _ => none

def threadStep (s : State ι) (h : ℕ) (a : ThreadAction) : Option (State ι) :=
  match s.threads h with
  | none => none
  | some t =>
    match a with
    | .report status =>
      if !t.finished && !t.published && status.isProgress then some { s with status := status }
      else none
    | .publishFinalStatus status =>
      if !t.finished && !t.published && status.isFinal then
        -- a newer engine would own the status
        some { s.setThread h { t with published := true } with
          status := if s.generation = h then status else s.status }
      else none
    | .sendDone =>
      if t.published && !t.dropped then some (s.setThread h { t with done := true }) else none
    | .dropSender =>
      if !t.dropped then some (s.setThread h { t with dropped := true }) else none
    | .finish => if t.dropped then some (s.setThread h { t with finished := true }) else none

def step (s : State ι) : Action ι → Option (State ι)
  | .start c a => startStep s c a
  | .stop c a => stopStep s c a
  | .thread h a => threadStep s h a

def engine : Machine (State ι) (Action ι) := ⟨step⟩

/-! ### What a step can be -/

/-- The steps with their conditions and effects. -/
inductive Step (s : State ι) : Action ι → State ι → Prop
  /-- The call returns at once. -/
  | refused {a : Action ι} : Step s a s
  | enter {c : ι} : s.calls c = .away → s.mutex = none →
      (s.slot = .idle ∨ ∃ h, s.slot = .running h ∧ s.finished h = true) →
      Step s (.start c .enter) ({ s with slot := .idle, mutex := some c }.goto c .acquired)
  | fail {c : ι} : s.calls c = .acquired →
      Step s (.start c .fail) ({ s with mutex := none }.goto c .away)
  | setStarting {c : ι} : s.calls c = .acquired →
      Step s (.start c .setStatus) ({ s with status := .starting 0 }.goto c .starting)
  | spawn {c : ι} : s.calls c = .starting →
      Step s (.start c (.spawn true)) (({ s with generation := s.generation + 1 }.setThread
        (s.generation + 1) ⟨false, false, false, false⟩).goto c (.spawned (s.generation + 1)))
  | spawnFails {c : ι} : s.calls c = .starting →
      Step s (.start c (.spawn false))
        ({ s with generation := s.generation + 1 }.goto c .spawnFailed)
  | rollBack {c : ι} {message : List Char} : s.calls c = .spawnFailed →
      Step s (.start c (.rollBack message))
        ({ s with mutex := none, status := .error .start message }.goto c .away)
  | store {c : ι} {h : ℕ} : s.calls c = .spawned h →
      Step s (.start c .store) ({ s with slot := .running h, mutex := none }.goto c .away)
  | panic {c : ι} : s.calls c = .acquired ∨ s.calls c = .starting →
      Step s (.start c .panic) ({ s with mutex := none }.goto c .panicked)
  | panicStatus {c : ι} {message : List Char} : s.calls c = .panicked →
      Step s (.start c (.panicStatus message))
        ({ s with status := .error .start message }.goto c .away)
  | beginIdle {c : ι} : s.calls c = .away → s.mutex = none → s.slot = .idle →
      Step s (.stop c .begin) (s.goto c .sawIdle)
  | checkOut {c : ι} {h : ℕ} : s.calls c = .away → s.mutex = none →
      s.slot = .running h ∨ s.slot = .stopping (some h) →
      Step s (.stop c .begin) ({ s with slot := .stopping none }.goto c (.checkedOut h))
  | setOff {c : ι} : s.calls c = .sawIdle →
      Step s (.stop c .setStatus) ({ s with status := .off }.goto c .away)
  | setStopping {c : ι} {h : ℕ} : s.calls c = .checkedOut h →
      Step s (.stop c .setStatus) ({ s with status := .stopping }.goto c (.waiting h))
  | setTimeout {c : ι} : s.calls c = .parked →
      Step s (.stop c .setStatus) ({ s with status := .error .stop timeoutMessage }.goto c .away)
  | setCleared {c : ι} {normally : Bool} : s.calls c = .cleared normally →
      Step s (.stop c .setStatus) ({ s with
        mutex := none
        status := if normally then .off else .error .stop abnormalMessage }.goto c .away)
  | waitEnds {c : ι} {outcome : WaitOutcome} {h : ℕ} {normally : Bool} : s.calls c = .waiting h →
      Step s (.stop c (.wait outcome)) (s.goto c (.joining h normally))
  | waitStops {c : ι} {outcome : WaitOutcome} {h : ℕ} {timedOut : Bool} : s.calls c = .waiting h →
      Step s (.stop c (.wait outcome)) (s.goto c (.parking h timedOut))
  | join {c : ι} {h : ℕ} {normally : Bool} : s.calls c = .joining h normally →
      s.finished h = true → Step s (.stop c .join) (s.goto c (.joined normally))
  | clear {c : ι} {normally : Bool} : s.calls c = .joined normally → s.mutex = none →
      Step s (.stop c .clear) ({ s with slot := .idle, mutex := some c }.goto c (.cleared normally))
  | park {c : ι} {h : ℕ} {timedOut : Bool} : s.calls c = .parking h timedOut → s.mutex = none →
      s.slot = .stopping none → Step s (.stop c .park)
        ({ s with slot := .stopping (some h) }.goto c (if timedOut then .parked else .away))
  | parkForced {c : ι} {h : ℕ} {timedOut : Bool} : s.calls c = .parking h timedOut →
      s.slot ≠ .stopping none →
      Step s (.stop c .park) ({ s with mutex := some c }.goto c (.forced h timedOut))
  | forced {c : ι} {h : ℕ} {timedOut : Bool} : s.calls c = .forced h timedOut →
      Step s (.stop c .forced)
        ({ s with mutex := none }.goto c (if timedOut then .parked else .away))
  | report {h : ℕ} {t : Thread} {status : EngineStatus} : s.threads h = some t →
      t.finished = false → t.published = false → status.isProgress = true →
      Step s (.thread h (.report status)) { s with status := status }
  | publish {h : ℕ} {t : Thread} {status : EngineStatus} : s.threads h = some t →
      t.finished = false → t.published = false → status.isFinal = true →
      Step s (.thread h (.publishFinalStatus status))
        { s.setThread h { t with published := true } with
          status := if s.generation = h then status else s.status }
  | sendDone {h : ℕ} {t : Thread} : s.threads h = some t →
      Step s (.thread h .sendDone) (s.setThread h { t with done := true })
  | dropSender {h : ℕ} {t : Thread} : s.threads h = some t →
      Step s (.thread h .dropSender) (s.setThread h { t with dropped := true })
  | finish {h : ℕ} {t : Thread} : s.threads h = some t → t.dropped = true →
      Step s (.thread h .finish) (s.setThread h { t with finished := true })

variable {s t : State ι} {c : ι}

theorem startStep_cases {a : StartAction} (h : startStep s c a = some t) :
    Step s (.start c a) t := by
  cases a with simp only [startStep] at h
  | enter =>
    split at h <;> [skip; cases h]
    next hcall hmutex =>
      cases hs : s.slot with simp only [hs, acquireEngineSlotForStart] at h
      | idle =>
        cases h
        exact .enter hcall hmutex (.inl hs)
      | running k =>
        cases hfinished : s.finished k <;> rw [hfinished] at h <;> cases h
        · exact .refused
        · exact .enter hcall hmutex (.inr ⟨k, hs, hfinished⟩)
      | stopping _ =>
        cases h
        exact .refused
  | _ => grind [Step]

theorem stopStep_cases {a : StopAction} (h : stopStep s c a = some t) : Step s (.stop c a) t := by
  cases a with simp only [stopStep] at h
  | begin =>
    split at h
    · next hcall hmutex =>
      cases hs : s.slot with simp only [hs, beginEngineStop] at h
      | idle =>
        cases h
        rw [← hs]
        exact .beginIdle hcall hmutex hs
      | running k =>
        cases h
        exact .checkOut hcall hmutex (.inl hs)
      | stopping handle =>
        cases handle <;> cases h
        · exact .refused
        · exact .checkOut hcall hmutex (.inr hs)
    · cases h
  | _ => grind [Step]

variable {h : ℕ} {a : Action ι}
theorem threadStep_cases {a : ThreadAction} (hstep : threadStep s h a = some t) :
    Step s (.thread h a) t := by
  cases a <;> simp only [threadStep] at hstep <;> grind [Step]

theorem step_cases (h : step s a = some t) : Step s a t := by
  cases a with
  | start c a => exact startStep_cases h
  | stop c a => exact stopStep_cases h
  | thread k a => exact threadStep_cases h

/-! ### The custody of the thread -/

def EngineSlot.custody : EngineSlot → Custody.Slot ℕ
  | .idle => .empty
  | .running h => .held h
  | .stopping (some h) => .held h
  | .stopping none => .out

/-- What a call is at. -/
def Pc.role : Pc → Custody.Role ℕ
  | .away | .panicked | .sawIdle | .parked | .forced _ _ => .bystander
  | .acquired | .starting | .spawnFailed => .maker
  | .spawned h => .made h
  | .checkedOut h | .waiting h | .joining h _ | .parking h _ => .owner h
  | .joined _ => .disposed
  | .cleared _ => .clearing

/-- What the protocol sees of a state. -/
def State.custody (s : State ι) : Custody.State ι ℕ where
  slot := s.slot.custody
  lock := s.mutex
  role c := (s.calls c).role
  live := {h | s.Alive h}

omit [DecidableEq ι] in
@[grind =] theorem calls_setThread (s : State ι) (h : ℕ) (t : Thread) :
    (s.setThread h t).calls = s.calls := rfl

@[grind =] theorem calls_goto (s : State ι) (c : ι) (pc : Pc) (c' : ι) :
    (s.goto c pc).calls c' = if c' = c then pc else s.calls c' := by
  simp [State.goto, Function.update_apply]

theorem custody_goto (s : State ι) (c : ι) (pc : Pc) :
    (s.goto c pc).custody = { s.custody with role := s.custody.become c pc.role } := by
  have hrole : (fun c' => ((s.goto c pc).calls c').role) = s.custody.become c pc.role := by
    funext c'
    rw [Custody.become_apply, calls_goto, apply_ite Pc.role]
    rfl
  rw [← hrole]
  rfl

theorem custody_goto_of_role {pc : Pc} (hrole : pc.role = (s.calls c).role) :
    (s.goto c pc).custody = s.custody := by
  have hsame : s.custody.become c (s.calls c).role = s.custody.role :=
    Function.update_eq_self c s.custody.role
  rw [custody_goto, hrole, hsame]

omit [DecidableEq ι] in
theorem not_alive_of_finished (hfinished : s.finished h = true) : ¬ s.Alive h := by
  rintro ⟨t, ht, halive⟩
  simp [State.finished, ht, halive] at hfinished

omit [DecidableEq ι] in
theorem alive_setThread {k : ℕ} {t t' : Thread} (ht : s.threads h = some t)
    (hkeep : t'.finished = false → t.finished = false) (hk : (s.setThread h t').Alive k) :
    s.Alive k := by
  obtain ⟨t'', ht'', halive⟩ := hk
  rcases eq_or_ne k h with rfl | hkh
  · simp only [State.setThread, Function.update_self, Option.some.injEq] at ht''
    exact ⟨t, ht, hkeep (ht'' ▸ halive)⟩
  · simp only [State.setThread, Function.update_of_ne hkh] at ht''
    exact ⟨t'', ht'', halive⟩

omit [DecidableEq ι] in
theorem live_setThread {t : Thread} (halive : t.finished = false) :
    (s.setThread h t).custody.live = insert h s.custody.live := by
  ext k
  rcases eq_or_ne k h with rfl | hkh
  · simp [State.custody, State.Alive, State.setThread, halive]
  · simp [State.custody, State.Alive, State.setThread, hkh]

theorem move_setThread {t t' : Thread} (ht : s.threads h = some t)
    (hkeep : t'.finished = false → t.finished = false) :
    Custody.Move s.custody (s.setThread h t').custody :=
  .die fun _ hk => alive_setThread ht hkeep hk

theorem EngineSlot.eq_of_custody_out {slot : EngineSlot} (hslot : slot.custody = .out) :
    slot = .stopping none := by
  rcases slot with _ | _ | ⟨_ | _⟩ <;> first | rfl | cases hslot

/-- The protocol is kept, and the defensive branch of the drop guard is not taken. -/
structure Owned (s : State ι) : Prop where
  kept : Custody.Kept s.custody
  notForced : ∀ c h timedOut, s.calls c ≠ .forced h timedOut

omit [DecidableEq ι] in
theorem Owned.slot_of_owner (hs : Owned s) (hcall : (s.calls c).role = .owner h) :
    s.slot = .stopping none := by
  refine EngineSlot.eq_of_custody_out (hs.kept.out c ?_)
  simp [State.custody, hcall, Custody.Role.out]

/-- **Every step is a move of the protocol.** -/
theorem move_of_step (hs : Owned s) (hstep : Step s a t) : Custody.Move s.custody t.custody := by
  cases hstep with
  | refused | report => exact .stay
  | enter hcall hmutex hslot =>
    rw [custody_goto]
    refine .enter (congrArg Pc.role hcall) hmutex ?_
    rcases hslot with hslot | ⟨h, hslot, hfinished⟩
    · exact .inl (congrArg EngineSlot.custody hslot)
    · exact .inr ⟨h, congrArg EngineSlot.custody hslot, not_alive_of_finished hfinished⟩
  | fail hcall | rollBack hcall =>
    rw [custody_goto]
    exact .leave (.inl (congrArg Pc.role hcall))
  | setStarting hcall | spawnFails hcall | panicStatus hcall | beginIdle hcall | setOff hcall
  | setStopping hcall | setTimeout hcall | waitEnds hcall | waitStops hcall =>
    rw [custody_goto_of_role (by simp [hcall, Pc.role])]
    exact .stay
  | @spawn c hcall =>
    rw [custody_goto]
    have hmaker : s.custody.role c = .maker := congrArg Pc.role hcall
    have hmove := Custody.Move.make (s.generation + 1) hmaker
    rw [← live_setThread (t := ⟨false, false, false, false⟩) rfl] at hmove
    exact hmove
  | store hcall =>
    rw [custody_goto]
    exact .store (congrArg Pc.role hcall)
  | panic hcall =>
    rw [custody_goto]
    refine .leave (.inl ?_)
    rcases hcall with hcall | hcall <;> exact congrArg Pc.role hcall
  | checkOut hcall hmutex hslot =>
    rw [custody_goto]
    refine .checkOut (congrArg Pc.role hcall) hmutex ?_
    rcases hslot with hslot | hslot <;> simp [State.custody, hslot, EngineSlot.custody]
  | setCleared hcall =>
    rw [custody_goto]
    exact .leave (.inr (congrArg Pc.role hcall))
  | join hcall hfinished =>
    rw [custody_goto]
    exact .dispose (congrArg Pc.role hcall) (not_alive_of_finished hfinished)
  | clear hcall hmutex =>
    rw [custody_goto]
    exact .clear (congrArg Pc.role hcall) hmutex
  | park hcall hmutex =>
    have hrole (timedOut : Bool) : (if timedOut then Pc.parked else .away).role = .bystander := by
      cases timedOut <;> rfl
    rw [custody_goto, hrole]
    exact .giveBack (congrArg Pc.role hcall) hmutex
  | parkForced hcall hslot => exact absurd (hs.slot_of_owner (by rw [hcall]; rfl)) hslot
  | forced hcall => exact absurd hcall (hs.notForced _ _ _)
  | publish ht halive => exact move_setThread ht fun _ => halive
  | sendDone ht | dropSender ht => exact move_setThread ht id
  | finish ht => exact move_setThread ht (by simp)

theorem notForced_step (hs : Owned s) (hstep : Step s a t) (c : ι) (h : ℕ)
    (timedOut : Bool) : t.calls c ≠ .forced h timedOut := by
  have hnot := hs.notForced c h timedOut
  cases hstep with
  | parkForced hcall hslot => exact absurd (hs.slot_of_owner (by rw [hcall]; rfl)) hslot
  | _ => grind

theorem owned_step (hs : Owned s) (hstep : Step s a t) : Owned t :=
  ⟨Custody.kept_move hs.kept (move_of_step hs hstep), notForced_step hs hstep⟩

omit [DecidableEq ι] in
theorem owned_start : Owned (State.start : State ι) := by
  refine ⟨⟨?_, ?_, ?_, ?_, ?_, ?_⟩, ?_⟩
  all_goals simp [State.start, State.custody, State.Alive, Pc.role, EngineSlot.custody,
    Custody.Role.out, Custody.Role.locks, Lock.Held]

theorem owned_of_run {as : List (Action ι)} (hrun : engine.Run Machine.anyStep State.start as s) :
    Owned s :=
  hrun.invariant (I := Owned) (fun _ _ _ hs _ hstep => owned_step hs (step_cases hstep)) owned_start

/-! ### One engine at a time -/

/-- The handle in the slot. -/
def EngineSlot.handle : EngineSlot → Option ℕ
  | .idle => none
  | .running h => some h
  | .stopping handle => handle

/-- The handle a call of `nativeStop` holds. -/
def Pc.handle : Pc → Option ℕ
  | .checkedOut h | .waiting h | .joining h _ | .parking h _ | .forced h _ => some h
  | _ => none

theorem EngineSlot.handle_of_custody {slot : EngineSlot} (hslot : slot.custody = .held h) :
    slot.handle = some h := by
  rcases slot with _ | _ | ⟨_ | _⟩ <;> cases hslot <;> rfl

omit [DecidableEq ι] in
theorem Owned.handle_iff (hs : Owned s) :
    (s.calls c).handle = some h ↔ s.custody.role c = .owner h := by
  have hnot := hs.notForced c
  simp only [State.custody]
  cases hcall : s.calls c with
  | forced k timedOut => exact absurd hcall (hnot k timedOut)
  | _ => simp [Pc.handle, Pc.role]

omit [DecidableEq ι] in
/-- Where the handle of a live thread is while the mutex is free. -/
theorem Owned.place (hs : Owned s) (hfree : s.mutex = none) (halive : s.Alive h) :
    (s.slot.handle = some h ∧ ∀ c, (s.calls c).handle = none) ∨
      (s.slot = .stopping none ∧ ∃ c, (s.calls c).handle = some h ∧
        ∀ c', (s.calls c').handle ≠ none → c' = c) := by
  rcases hs.kept.place hfree (h := h) halive with ⟨hslot, hnone⟩ | ⟨hslot, c, hc, honly⟩
  · refine .inl ⟨EngineSlot.handle_of_custody hslot, fun c => ?_⟩
    exact Option.eq_none_iff_forall_ne_some.2 fun k hk => hnone c k (hs.handle_iff.1 hk)
  · refine .inr ⟨EngineSlot.eq_of_custody_out hslot, c, hs.handle_iff.2 hc, fun c' hc' => ?_⟩
    obtain ⟨k, hk⟩ := Option.ne_none_iff_exists'.1 hc'
    exact honly c' k (hs.handle_iff.1 hk)

/-- A `nativeStop` that finds a handle in the slot goes on to wait for its thread. -/
theorem exec_stop (hfree : s.mutex = none) (hslot : s.slot.handle = some h)
    (hcall : s.calls c = .away) :
    ∃ t, engine.exec s [.stop c .begin, .stop c .setStatus] = some t ∧ t.calls c = .waiting h := by
  have hbegin : beginEngineStop s.slot = (.stopping none, .checkout h) := by
    generalize s.slot = slot at hslot
    rcases slot with _ | _ | ⟨_ | _⟩ <;> cases hslot <;> rfl
  simp [Machine.exec, engine, step, stopStep, hcall, hfree, hbegin, State.goto]

theorem Owned.exec_park {outcome : WaitOutcome} (hs : Owned s) (hfree : s.mutex = none)
    (hcall : s.calls c = .waiting h) (houtcome : outcome = .timedOut ∨ outcome = .panicked) :
    ∃ t, engine.exec s [.stop c (.wait outcome), .stop c .park] = some t ∧
      t.slot.handle = some h := by
  have hslot := hs.slot_of_owner (c := c) (by rw [hcall]; rfl)
  rcases houtcome with rfl | rfl <;>
    simp [Machine.exec, engine, step, stopStep, hcall, hfree, hslot, State.goto, EngineSlot.handle]

/-- **One engine at a time.**  Whatever the calls and the engine threads do: at most one engine
thread is alive; while the mutex is free, none is if the slot is idle, and the handle of a live one
is in the slot or with exactly one `nativeStop`; a `nativeStop` can wait for the handle it finds in
the slot, and a wait that times out or panics brings the handle back; and a thread is spawned only
when none is alive. -/
theorem one_engine {as : List (Action ι)} (hrun : engine.Run Machine.anyStep State.start as s) :
    (∀ h h', s.Alive h → s.Alive h' → h = h') ∧
      (s.mutex = none → s.slot = .idle → ∀ h, ¬ s.Alive h) ∧
      (s.mutex = none → ∀ h, s.Alive h →
        (s.slot.handle = some h ∧ ∀ c, (s.calls c).handle = none) ∨
          (s.slot = .stopping none ∧ ∃ c, (s.calls c).handle = some h ∧
            ∀ c', (s.calls c').handle ≠ none → c' = c)) ∧
      (s.mutex = none → ∀ c h, s.slot.handle = some h → s.calls c = .away →
        ∃ t, engine.exec s [.stop c .begin, .stop c .setStatus] = some t ∧
          t.calls c = .waiting h) ∧
      (s.mutex = none → ∀ c h outcome, s.calls c = .waiting h →
        outcome = .timedOut ∨ outcome = .panicked →
        ∃ t, engine.exec s [.stop c (.wait outcome), .stop c .park] = some t ∧
          t.slot.handle = some h) ∧
      (∀ c succeeds t, engine.step s (.start c (.spawn succeeds)) = some t →
        ∀ h, ¬ s.Alive h) := by
  have hs := owned_of_run hrun
  refine ⟨?_, ?_, ?_, ?_, ?_, ?_⟩
  · intro h h' halive halive'
    exact hs.kept.eq_of_live halive halive'
  · intro hfree hidle h halive
    rcases hs.place hfree halive with ⟨hslot, -⟩ | ⟨hslot, -⟩
    · simp [hidle, EngineSlot.handle] at hslot
    · simp [hidle] at hslot
  · intro hfree h halive
    exact hs.place hfree halive
  · intro hfree c h hslot hcall
    exact exec_stop hfree hslot hcall
  · intro hfree c h outcome hcall houtcome
    exact hs.exec_park hfree hcall houtcome
  · intro c succeeds t hstep h halive
    have hcall : s.calls c = .starting := by
      simp only [engine, step, startStep] at hstep
      split at hstep
      · next hcall => exact hcall
      · cases hstep
    refine hs.kept.not_live_of_maker (i := c) ?_ halive
    simp [State.custody, hcall, Pc.role]

/-- An engine is started; a `nativeStop` panics while it waits, and another one finds the handle. -/
def sampleRun : List (Action Bool) :=
  [.start false .enter, .start false .setStatus, .start false (.spawn true), .start false .store,
    .stop true .begin, .stop true .setStatus, .stop true (.wait .panicked), .stop true .park]

theorem one_engine_sampleRun :
    (engine.after State.start sampleRun).Alive 1 ∧
      (engine.after State.start sampleRun).slot = .stopping (some 1) ∧
      ∀ h, (engine.after State.start sampleRun).Alive h → h = 1 := by
  have halive : (engine.after State.start sampleRun).Alive 1 :=
    ⟨⟨false, false, false, false⟩, by decide +kernel, rfl⟩
  have hrun : engine.Run Machine.anyStep State.start sampleRun
      (engine.after State.start sampleRun) :=
    Machine.Run.of_exec (Machine.exec_eq_after (by decide +kernel))
  refine ⟨halive, by decide +kernel, ?_⟩
  intro h hh
  exact (one_engine hrun).1 h 1 hh halive

end Steps

end Engine
