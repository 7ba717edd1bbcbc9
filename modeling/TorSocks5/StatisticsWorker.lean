/-
**The statistics worker and its producers.**

Producers put events into a bounded queue without ever waiting; one worker takes them out and saves
them in batches.  A shutdown has to lose nothing that a producer was told is accepted.  For this, a
producer registers in an *admission word* before it sends and leaves it after it has counted what it
sent; the highest bit of the word says that nobody may register any more.  The worker, once told to
stop, sets the bit, waits until the word is the bit and nothing else, and only then closes the
queue.
-/

import Mathlib
import TorSocks5.Machine
import TorSocks5.StatisticsStore

set_option autoImplicit false

namespace Statistics

/-! ### The admission word -/

def ingressCapacity : ℕ := 4096

/-- The bit that closes admission. -/
def admissionStop : ℕ := 2 ^ 63

theorem and_stop {word : ℕ} (h : word < 2 ^ 64) :
    word &&& admissionStop = if admissionStop ≤ word then admissionStop else 0 := by
  unfold admissionStop
  rw [Nat.and_two_pow, Nat.testBit_eq_decide_div_mod_eq]
  split
  · next hle =>
    rw [show word / 2 ^ 63 % 2 = 1 by omega]
    rfl
  · next hlt =>
    rw [show word / 2 ^ 63 % 2 = 0 by omega]
    rfl

theorem or_stop {word : ℕ} (h : word < 2 ^ 64) :
    word ||| admissionStop = if admissionStop ≤ word then word else word + admissionStop := by
  have hor : ∀ {low}, low < 2 ^ 63 → 2 ^ 63 + low = 2 ^ 63 ||| low := fun hlow => by
    simpa only [Nat.mul_one] using Nat.two_pow_add_eq_or_of_lt hlow 1
  unfold admissionStop
  split
  · next hle =>
    -- the bit is already there
    obtain ⟨low, rfl⟩ := Nat.exists_eq_add_of_le hle
    rw [hor (by omega), Nat.or_comm, ← Nat.or_assoc, Nat.or_self]
  · next hlt => rw [Nat.or_comm, ← hor (by omega), Nat.add_comm]

/-! ### Parties -/

/-- What travels through the queue. -/
inductive Command
  | record (event : Event)
  | refresh
  | page
  | wake
  deriving DecidableEq

/-- The events among some commands. -/
def records (commands : List Command) : List Event :=
  commands.filterMap fun command =>
    match command with
    | .record event => some event
    | _ => none

@[simp] theorem records_nil : records [] = [] := rfl

theorem records_append (cs ds : List Command) : records (cs ++ ds) = records cs ++ records ds :=
  List.filterMap_append ..

@[simp] theorem records_cons_record (event : Event) (cs : List Command) :
    records (.record event :: cs) = event :: records cs := rfl

inductive RecordOutcome
  | accepted
  | droppedFull
  | closed
  deriving DecidableEq

/-- Where a call of `record_at` stands. -/
inductive Producer
  | idle
  /-- The flag was not set; the event is made. -/
  | started (event : Event)
  /-- The word was loaded; the next is the exchange. -/
  | trying (event : Event) (value : ℕ)
  | registered (event : Event)
  /-- The event is in the queue and not yet counted. -/
  | sent (event : Event)
  /-- The queue was full, which is not yet counted. -/
  | full (event : Event)
  /-- All is counted and the registration is still held. -/
  | leaving (event : Event) (outcome : RecordOutcome)
  deriving DecidableEq

/-- Where the worker stands. -/
inductive Worker
  | starting
  | checking
  | stopping
  | waiting
  | closing
  | receiving
  | collecting (batch : List Event)
  | saving (batch : List Event)
  | serving (command : Command)
  | finishing
  | ended
  deriving DecidableEq

/-- The events that the worker has taken and not yet saved. -/
def Worker.batch : Worker → List Event
  | .collecting batch => batch
  | .saving batch => batch
  | _ => []

/-- The counters of the process. -/
structure Counters where
  accepted : ℕ
  dropped : ℕ
  saved : ℕ
  expired : ℕ
  unsaved : ℕ

/-- Adding to a counter, up to the largest signed integer. -/
def addCounter (counter amount : ℕ) : ℕ := min (counter + amount) i64Max

/-- The shared state.  The last six lists are the history of the events. -/
structure Session (ι : Type) where
  producers : ι → Producer
  admission : ℕ
  stopping : Bool
  queue : List Command
  closed : Bool
  /-- Every sender is gone. -/
  detached : Bool
  worker : Worker
  next : Option Command
  db : Database
  store : Store
  counters : Counters
  lastError : Option String
  put : List Event
  returned : List Event
  taken : List Event
  savedEvents : List Event
  expiredEvents : List Event
  unsavedEvents : List Event

/-- The session as the worker enters its loop, over any database, store and restored totals. -/
def Session.start (ι : Type) (db : Database) (store : Store) (counters : Counters)
    (lastError : Option String) : Session ι where
  producers := fun _ => .idle
  admission := 0
  stopping := false
  queue := []
  closed := false
  detached := false
  worker := .starting
  next := none
  db := db
  store := store
  counters := counters
  lastError := lastError
  put := []
  returned := []
  taken := []
  savedEvents := []
  expiredEvents := []
  unsavedEvents := []

/-- What the worker meets in a step: the clock, the database and the environment of a refresh. -/
structure Environment where
  now : ℤ
  failure : Option String
  outcome : RefreshOutcome

/-- The steps of the parties. -/
inductive Action (ι : Type)
  /-- The startup is reported; nobody may be listening any more. -/
  | ready (listening : Bool)
  | record (i : ι) (event : Event)
  /-- A load of the word, or an exchange, which may fail for no reason. -/
  | enter (i : ι) (spurious : Bool)
  | send (i : ι)
  | count (i : ι)
  | leave (i : ι)
  | stopBit
  | stopFlag
  | command (command : Command)
  | detach
  | work (environment : Environment)

variable {ι N : Type}

/-! ### The worker -/

/-- The telemetry that the store reads. -/
def Session.status (s : Session ι) : Status :=
  ⟨s.counters.accepted, s.counters.dropped, s.counters.unsaved, s.lastError⟩

/-- A command is taken up. -/
def takeUp (s : Session ι) : Command → Session ι
  | .record event => { s with worker := .collecting [event], taken := s.taken ++ [event] }
  | command => { s with worker := .serving command }

/-- The classes of a batch by its outcome: saved, expired and not saved. -/
def splitBatch (names : Names N) (events : List Event) (outcome : BatchOutcome) :
    List Event × List Event × List Event :=
  match outcome.error with
  | none => (events.filter (counted names outcome.store.highwater),
      events.filter (outdated names outcome.store.highwater),
      events.filter fun e => !valid names e)
  | some _ => ([], [], events)

/-- The diagnostic after a batch. -/
def batchDiagnostic (s : Session ι) (outcome : BatchOutcome) : Option String :=
  match outcome.error with
  | none =>
    if outcome.unsaved ≠ 0 then some "discarded invalid live statistics receipts" else s.lastError
  | some error => if s.store.fault.isSome then s.lastError else some error

/-- The batch is given to the store. -/
def saveUp (names : Names N) (s : Session ι) (events : List Event) (environment : Environment) :
    Session ι :=
  let outcome := batch names s.db s.store events environment.now s.status environment.failure
  let split := splitBatch names events outcome
  { s with
    worker := .checking
    db := outcome.db
    store := outcome.store
    counters := { s.counters with
      saved := addCounter s.counters.saved outcome.saved
      expired := addCounter s.counters.expired outcome.expired
      unsaved := addCounter s.counters.unsaved outcome.unsaved }
    lastError := batchDiagnostic s outcome
    savedEvents := s.savedEvents ++ split.1
    expiredEvents := s.expiredEvents ++ split.2.1
    unsavedEvents := s.unsavedEvents ++ split.2.2 }

/-- The totals are written, if they can be. -/
def writeHealth (s : Session ι) : Session ι :=
  match persistHealth s.db s.status with
  | .ok db => { s with db := db }
  | .error error => { s with lastError := some error }

/-- A command other than an event is served. -/
def serveUp (s : Session ι) (command : Command) (environment : Environment) : Session ι :=
  match command with
  | .refresh =>
    match refresh s.db s.store environment.now s.status false environment.outcome with
    | (.ok _, db, store) => { s with worker := .checking, db := db, store := store }
    | (.error error, db, store) =>
      writeHealth { s with
        worker := .checking, db := db, store := store, lastError := some error }
  | .page =>
    match environment.failure with
    | none => { s with worker := .checking }
    | some error => { s with worker := .checking, lastError := some error }
  | _ => { s with worker := .checking }

/-- The final refresh, and the totals. -/
def finishUp (s : Session ι) (environment : Environment) : Session ι :=
  match refresh s.db s.store environment.now s.status true environment.outcome with
  | (.ok _, db, store) => writeHealth { s with worker := .ended, db := db, store := store }
  | (.error error, db, store) =>
    writeHealth { s with worker := .ended, db := db, store := store, lastError := some error }

/-- The next command of a batch that is being collected. -/
def collectUp (s : Session ι) (events : List Event) : Session ι :=
  if events.length < batchCapacity then
    match s.queue with
    | [] => { s with worker := .saving events }
    | .record event :: queue =>
      { s with
        worker := .collecting (events ++ [event]), queue := queue, taken := s.taken ++ [event] }
    | command :: queue =>
      { s with worker := .saving events, queue := queue, next := some command }
  else { s with worker := .saving events }

/-- The worker receives: first what it has put aside, then from the queue; it blocks while the queue
is empty and a sender may come. -/
def receiveUp (s : Session ι) : Option (Session ι) :=
  match s.next, s.queue with
  | some command, _ => some (takeUp { s with next := none } command)
  | none, command :: queue => some (takeUp { s with next := none, queue := queue } command)
  | none, [] => if s.closed || s.detached then some { s with worker := .finishing } else none

/-- One step of the worker. -/
def workStep (names : Names N) (s : Session ι) (environment : Environment) :
    Option (Session ι) :=
  match s.worker with
  | .starting => none
  | .checking => some { s with worker := if s.stopping then .stopping else .receiving }
  | .stopping => some { s with admission := s.admission ||| admissionStop, worker := .waiting }
  | .waiting => if s.admission = admissionStop then some { s with worker := .closing } else some s
  | .closing => some { s with closed := true, worker := .receiving }
  | .receiving => receiveUp s
  | .collecting events => some (collectUp s events)
  | .saving events => some (saveUp names s events environment)
  | .serving command => some (serveUp s command environment)
  | .finishing => some (finishUp s environment)
  | .ended => none

/-! ### The producers -/

variable [DecidableEq ι]

/-- The state with one producer moved on. -/
def Session.setProducer (s : Session ι) (i : ι) (producer : Producer) : Session ι :=
  { s with producers := Function.update s.producers i producer }

/-- The registration: nobody comes in once the bit is set, and the count never reaches it. -/
def enterStep (s : Session ι) (i : ι) (spurious : Bool) : Option (Session ι) :=
  match s.producers i with
  | .started event => some (s.setProducer i (.trying event s.admission))
  | .trying event value =>
    if value &&& admissionStop ≠ 0 then some (s.setProducer i .idle)
    else if 2 ^ 64 ≤ value + 1 ∨ (value + 1) &&& admissionStop ≠ 0 then
      some (s.setProducer i .idle)
    else if s.admission = value ∧ spurious = false then
      some { s.setProducer i (.registered event) with admission := value + 1 }
    else some (s.setProducer i (.trying event s.admission))
  | _ => none

def sendStep (s : Session ι) (i : ι) : Option (Session ι) :=
  match s.producers i with
  | .registered event =>
    if s.closed then some (s.setProducer i (.leaving event .closed))
    else if s.queue.length < ingressCapacity then
      some { s.setProducer i (.sent event) with
        queue := s.queue ++ [.record event], put := s.put ++ [event] }
    else some (s.setProducer i (.full event))
  | _ => none

def countStep (s : Session ι) (i : ι) : Option (Session ι) :=
  match s.producers i with
  | .sent event =>
    some { s.setProducer i (.leaving event .accepted) with
      counters := { s.counters with accepted := addCounter s.counters.accepted 1 } }
  | .full event =>
    some { s.setProducer i (.leaving event .droppedFull) with
      counters := { s.counters with dropped := addCounter s.counters.dropped 1 } }
  | _ => none

/-- The registration is given back, by a subtraction that would wrap, and the call returns. -/
def leaveStep (s : Session ι) (i : ι) : Option (Session ι) :=
  match s.producers i with
  | .leaving event outcome =>
    some { s.setProducer i .idle with
      admission := (s.admission + 2 ^ 64 - 1) % 2 ^ 64
      returned := if outcome = .accepted then s.returned ++ [event] else s.returned }
  | _ => none

variable [Fintype ι]

def sessionStep (names : Names N) (s : Session ι) : Action ι → Option (Session ι)
  | .ready listening =>
    if s.worker = .starting then
      some { s with worker := .checking, stopping := s.stopping || !listening }
    else none
  | .record i event =>
    if s.detached = false ∧ s.producers i = .idle then
      if s.stopping then some s else some (s.setProducer i (.started event))
    else none
  | .enter i spurious => enterStep s i spurious
  | .send i => sendStep s i
  | .count i => countStep s i
  | .leave i => leaveStep s i
  | .stopBit =>
    if s.detached then none else some { s with admission := s.admission ||| admissionStop }
  | .stopFlag => if s.detached then none else some { s with stopping := true }
  | .command command =>
    if s.detached ∨ records [command] ≠ [] then none
    else if s.closed = false ∧ s.queue.length < ingressCapacity then
      some { s with queue := s.queue ++ [command] }
    else some s
  | .detach => if ∀ i, s.producers i = .idle then some { s with detached := true } else none
  | .work environment => workStep names s environment

def session (ι N : Type) [DecidableEq ι] [Fintype ι] (names : Names N) :
    Machine (Session ι) (Action ι) := ⟨sessionStep names⟩

/-! ### What a step can be -/

omit [DecidableEq ι] [Fintype ι]

/-- The commands that the worker has not taken up, in the order in which it will. -/
def Session.pending (s : Session ι) : List Command := s.next.toList ++ s.queue

/-- A step of the worker. -/
inductive WorkMove (names : Names N) (s : Session ι) : Session ι → Prop
  | checked : s.worker = .checking →
      WorkMove names s { s with worker := if s.stopping then .stopping else .receiving }
  | barred : s.worker = .stopping →
      WorkMove names s { s with admission := s.admission ||| admissionStop, worker := .waiting }
  | waited : s.worker = .waiting → s.admission = admissionStop →
      WorkMove names s { s with worker := .closing }
  | stayed : s.worker = .waiting → WorkMove names s s
  | closed : s.worker = .closing → WorkMove names s { s with closed := true, worker := .receiving }
  /-- An event begins a batch. -/
  | tookEvent {event : Event} {queue : List Command} :
      s.worker = .receiving → s.pending = .record event :: queue →
      WorkMove names s { s with
        next := none, queue := queue, worker := .collecting [event], taken := s.taken ++ [event] }
  | tookCommand {command : Command} {queue : List Command} :
      s.worker = .receiving → records [command] = [] → s.pending = command :: queue →
      WorkMove names s { s with next := none, queue := queue, worker := .serving command }
  /-- Nothing is left, and nobody will send. -/
  | ranOut : s.worker = .receiving → s.pending = [] → s.closed = true ∨ s.detached = true →
      WorkMove names s { s with worker := .finishing }
  | collected {events : List Event} {event : Event} {queue : List Command} :
      s.worker = .collecting events → s.queue = .record event :: queue →
      WorkMove names s { s with
        worker := .collecting (events ++ [event]), queue := queue, taken := s.taken ++ [event] }
  /-- A command that is not an event ends the batch and is put aside. -/
  | putAside {events : List Event} {command : Command} {queue : List Command} :
      s.worker = .collecting events → records [command] = [] → s.queue = command :: queue →
      WorkMove names s { s with worker := .saving events, queue := queue, next := some command }
  | gathered {events : List Event} : s.worker = .collecting events →
      WorkMove names s { s with worker := .saving events }
  | saved {events : List Event} {environment : Environment} : s.worker = .saving events →
      WorkMove names s (saveUp names s events environment)
  | served {command : Command} {db : Database} {store : Store} {lastError : Option String} :
      s.worker = .serving command →
      WorkMove names s { s with
        worker := .checking, db := db, store := store, lastError := lastError }
  | finished {db : Database} {store : Store} {lastError : Option String} : s.worker = .finishing →
      WorkMove names s { s with worker := .ended, db := db, store := store, lastError := lastError }

theorem writeHealth_eq (s : Session ι) : ∃ db lastError,
    writeHealth s = { s with db := db, lastError := lastError } := by
  unfold writeHealth
  split
  · exact ⟨_, s.lastError, rfl⟩
  · exact ⟨s.db, _, rfl⟩

theorem serveUp_eq (s : Session ι) (command : Command) (environment : Environment) :
    ∃ db store lastError, serveUp s command environment =
      { s with worker := .checking, db := db, store := store, lastError := lastError } := by
  unfold serveUp
  split
  · split
    · exact ⟨_, _, _, rfl⟩
    · next error db store _ =>
      obtain ⟨db', lastError, heq⟩ := writeHealth_eq { s with
        worker := .checking, db := db, store := store, lastError := some error }
      exact ⟨db', store, lastError, heq⟩
  · split <;> exact ⟨_, _, _, rfl⟩
  · exact ⟨_, _, _, rfl⟩

theorem finishUp_eq (s : Session ι) (environment : Environment) :
    ∃ db store lastError, finishUp s environment =
      { s with worker := .ended, db := db, store := store, lastError := lastError } := by
  unfold finishUp
  split
  all_goals
    obtain ⟨db', lastError, heq⟩ := writeHealth_eq _
    exact ⟨db', _, lastError, heq⟩

theorem takeUp_move {names : Names N} {s : Session ι} {command : Command} {queue : List Command}
    (hworker : s.worker = .receiving) (hpending : s.pending = command :: queue) :
    WorkMove names s (takeUp { s with next := none, queue := queue } command) := by
  cases command with
  | record event => exact .tookEvent hworker hpending
  | _ => exact .tookCommand hworker rfl hpending

theorem receiveUp_move {names : Names N} {s t : Session ι} (hworker : s.worker = .receiving)
    (h : receiveUp s = some t) : WorkMove names s t := by
  grind [receiveUp, WorkMove, Session.pending, takeUp_move]

theorem collectUp_move {names : Names N} {s : Session ι} {events : List Event}
    (hworker : s.worker = .collecting events) : WorkMove names s (collectUp s events) := by
  unfold collectUp
  split
  · split
    · exact .gathered hworker
    · next event queue hqueue => exact .collected hworker hqueue
    · next command queue hne hqueue =>
      refine .putAside hworker ?_ hqueue
      cases command with
      | record event => exact absurd rfl (hne event)
      | _ => rfl
  · exact .gathered hworker

theorem workStep_move {names : Names N} {s t : Session ι} {environment : Environment}
    (h : workStep names s environment = some t) : WorkMove names s t := by
  cases hworker : s.worker with simp only [workStep, hworker] at h
  | receiving => exact receiveUp_move hworker h
  | collecting events =>
    cases h
    exact collectUp_move hworker
  | serving command =>
    cases h
    obtain ⟨db, store, lastError, heq⟩ := serveUp_eq s command environment
    exact heq ▸ .served hworker
  | finishing =>
    cases h
    obtain ⟨db, store, lastError, heq⟩ := finishUp_eq s environment
    exact heq ▸ .finished hworker
  | _ => grind [WorkMove]

/-- A step of a producer. -/
inductive CallMove [DecidableEq ι] (s : Session ι) (i : ι) : Session ι → Prop
  | begun {event : Event} : s.detached = false → s.producers i = .idle →
      CallMove s i (s.setProducer i (.started event))
  | loaded {event : Event} : s.producers i = .started event →
      CallMove s i (s.setProducer i (.trying event s.admission))
  | turnedAway {event : Event} {value : ℕ} : s.producers i = .trying event value →
      CallMove s i (s.setProducer i .idle)
  | retried {event : Event} {value : ℕ} : s.producers i = .trying event value →
      CallMove s i (s.setProducer i (.trying event s.admission))
  | entered {event : Event} : s.producers i = .trying event s.admission →
      s.admission &&& admissionStop = 0 → s.admission + 1 < 2 ^ 64 →
      (s.admission + 1) &&& admissionStop = 0 →
      CallMove s i { s.setProducer i (.registered event) with admission := s.admission + 1 }
  | refused {event : Event} : s.producers i = .registered event →
      CallMove s i (s.setProducer i (.leaving event .closed))
  | sent {event : Event} : s.producers i = .registered event → s.closed = false →
      CallMove s i { s.setProducer i (.sent event) with
        queue := s.queue ++ [.record event], put := s.put ++ [event] }
  | full {event : Event} : s.producers i = .registered event →
      CallMove s i (s.setProducer i (.full event))
  | counted {event : Event} : s.producers i = .sent event →
      CallMove s i { s.setProducer i (.leaving event .accepted) with
        counters := { s.counters with accepted := addCounter s.counters.accepted 1 } }
  | dropped {event : Event} : s.producers i = .full event →
      CallMove s i { s.setProducer i (.leaving event .droppedFull) with
        counters := { s.counters with dropped := addCounter s.counters.dropped 1 } }
  | left {event : Event} {outcome : RecordOutcome} : s.producers i = .leaving event outcome →
      CallMove s i { s.setProducer i .idle with
        admission := (s.admission + 2 ^ 64 - 1) % 2 ^ 64
        returned := if outcome = .accepted then s.returned ++ [event] else s.returned }

/-- A step of any party. -/
inductive Step [DecidableEq ι] (names : Names N) (s : Session ι) : Session ι → Prop
  | call {i : ι} {t : Session ι} : CallMove s i t → Step names s t
  | work {t : Session ι} : WorkMove names s t → Step names s t
  | same : Step names s s
  | ready {listening : Bool} : s.worker = .starting →
      Step names s { s with worker := .checking, stopping := s.stopping || !listening }
  | stopBit : Step names s { s with admission := s.admission ||| admissionStop }
  | stopFlag : Step names s { s with stopping := true }
  | commanded {command : Command} : s.detached = false → s.closed = false →
      records [command] = [] → Step names s { s with queue := s.queue ++ [command] }
  | detached : (∀ i, s.producers i = .idle) → Step names s { s with detached := true }

section Cases

variable [DecidableEq ι] {names : Names N} {s t : Session ι} {i : ι}

theorem enterStep_move {spurious : Bool} (h : enterStep s i spurious = some t) :
    CallMove s i t := by
  grind [enterStep, CallMove]

theorem sendStep_move (h : sendStep s i = some t) : CallMove s i t := by
  grind [sendStep, CallMove]

theorem countStep_move (h : countStep s i = some t) : CallMove s i t := by
  grind [countStep, CallMove]

theorem leaveStep_move (h : leaveStep s i = some t) : CallMove s i t := by
  grind [leaveStep, CallMove]

/-- **Every step is one of `Step`.** -/
theorem step_cases [Fintype ι] {a : Action ι} (h : sessionStep names s a = some t) :
    Step names s t := by
  cases a with simp only [sessionStep] at h
  | record i event =>
    split_ifs at h with hidle <;> cases h
    · exact .same
    · exact .call (.begun hidle.1 hidle.2)
  | enter i spurious => exact .call (enterStep_move h)
  | send i => exact .call (sendStep_move h)
  | count i => exact .call (countStep_move h)
  | leave i => exact .call (leaveStep_move h)
  | work environment => exact .work (workStep_move h)
  | _ => grind [Step]

end Cases

end Statistics
