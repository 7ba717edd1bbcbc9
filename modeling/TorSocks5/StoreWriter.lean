/-
**The single writer of the bridge health store, and the command-line transactions beside it.**

`apps/socks5-proxy/src/bridges/bridge_store_writer.rs` has one actor task own every publish of the
health store.  Callers send it mutations over a channel; it acknowledges a mutation as soon as it
is applied to the snapshot in memory, and publishes the snapshot on the blocking pool, one publish
at a time.  Other processes change the same file by a whole read-modify-write of their own, under
the same advisory lock.
-/

import TorSocks5.Machine

set_option autoImplicit false

namespace StoreWriter

/-! ### Data -/

/-- A mutation closure: the store it leaves behind, or `none` when it panics. -/
abbrev Mutation (σ : Type) := σ → Option σ

/-- What the actor can be sent. -/
inductive Op (σ : Type)
  | mutate (id : ℕ) (apply : Mutation σ)
  | close (reply : ℕ)

/-- How a job on the blocking pool ends. -/
inductive Outcome
  | ok
  | err
  | panic
  deriving DecidableEq

/-- The result a publish job sends over the completion channel. -/
inductive Published
  | ok
  | err
  deriving DecidableEq

/-- The two kinds of holder of the lock on the store's path. -/
inductive Holder
  | actor
  | cli (n : ℕ)
  deriving DecidableEq

/-- `INITIAL_BACKOFF`, in nanoseconds. -/
def initialBackoff : ℕ := 1000000000

/-- `MAX_BACKOFF`, in nanoseconds. -/
def maxBackoff : ℕ := 30000000000

/-- The capacity of the operation channel. -/
def channelCapacity : ℕ := 64

/-- The range of the `u32` counters. -/
def u32Range : ℕ := 2 ^ 32

/-- Backoff bookkeeping for the retained, unpublished snapshot. -/
structure RetryState where
  dirty : Bool
  failedAttempts : ℕ
  retryAt : Option ℕ
  backoff : ℕ
  deriving DecidableEq

namespace RetryState

/-- `RetryState::new`. -/
def new (initial : ℕ) : RetryState :=
  { dirty := false, failedAttempts := 0, retryAt := none, backoff := initial }

/-- Bookkeeping after a publish succeeded. -/
def recordSuccess (_ : RetryState) : RetryState :=
  { dirty := false, failedAttempts := 0, retryAt := none, backoff := initialBackoff }

/-- Bookkeeping after a publish failed: the snapshot stays dirty and a retry is armed. -/
def recordFailure (r : RetryState) (now : ℕ) : RetryState :=
  { dirty := true
    failedAttempts := (r.failedAttempts + 1) % u32Range
    retryAt := some (now + r.backoff)
    backoff := min (r.backoff * 2) maxBackoff }

@[simp] theorem recordSuccess_dirty (r : RetryState) : r.recordSuccess.dirty = false := rfl

@[simp] theorem recordFailure_dirty (r : RetryState) (now : ℕ) :
    (r.recordFailure now).dirty = true := rfl

end RetryState

/-- A mutation of the store's history: one the actor acknowledged, or one a command-line
transaction saved. -/
inductive Entry (σ : Type)
  | writer (id : ℕ) (m : Mutation σ)
  | cli (n : ℕ) (m : Mutation σ)

/-- The mutation of an entry. -/
def Entry.mutation {σ : Type} : Entry σ → Mutation σ
  | writer _ m => m
  | cli _ m => m

/-- **A serial history**: the mutations one after the other, none of them panicking. -/
def replay {σ : Type} (s : σ) (es : List (Entry σ)) : Option σ :=
  es.foldlM (fun s e => e.mutation s) s

theorem replay_append {σ : Type} (s : σ) (es es' : List (Entry σ)) :
    replay s (es ++ es') = (replay s es).bind fun u => replay u es' :=
  List.foldlM_append

theorem replay_concat {σ : Type} {s u : σ} {es : List (Entry σ)} (h : replay s es = some u)
    (e : Entry σ) : replay s (es ++ [e]) = e.mutation u := by
  rw [replay_append, h]
  exact bind_pure _

/-- What the parties outside see, in the order in which they see it. -/
inductive Event (σ : Type)
  | applied (id : ℕ) (m : Mutation σ)
  | refused (id : ℕ)
  | cliSaved (n : ℕ) (m : Mutation σ)
  | cliFailed (n : ℕ)
  | closed (reply : ℕ) (ok : Bool)
  | closeDropped (reply : ℕ)

/-- Where the actor stands. -/
inductive Phase (σ : Type)
  /-- Waiting in the `select!`. -/
  | select
  /-- The clean-load job waits for the lock. -/
  | acquiring (id : ℕ) (m : Mutation σ)
  /-- The clean-load job has the lock and reads the file. -/
  | loading (id : ℕ) (m : Mutation σ)
  /-- The mutation job runs on a private copy of the snapshot. -/
  | mutating (id : ℕ) (m : Mutation σ)
  /-- Closing: waiting for the publish in flight. -/
  | draining
  /-- Closing: the final flush of this snapshot is running. -/
  | flushing (snapshot : σ)
  /-- The task has ended. -/
  | stopped

/-- The actor receives from the completion channel in the `select!` and in the drain loop. -/
def Phase.awaitsCompletion {σ : Type} : Phase σ → Bool
  | select => true
  | draining => true
  | _ => false

/-- A publish job: the snapshot it saves, and how many of the pending mutations are in it. -/
structure Job (σ : Type) where
  snapshot : σ
  covers : ℕ

/-- Where an inline command-line transaction stands. -/
inductive CliPhase (σ : Type)
  | idle
  | waiting (m : Mutation σ)
  | locked (m : Mutation σ)
  | loaded (m : Mutation σ) (store : σ)
  | applied (m : Mutation σ) (store : σ)
  | saved
  | finished

/-- The whole system. -/
structure State (σ : Type) where
  phase : Phase σ
  retry : RetryState
  store : Option σ
  publishing : Bool
  mutationsSincePublish : ℕ
  closeReplies : List ℕ
  rx : List (Op σ)
  senders : Bool
  doneRx : List Published
  job : Option (Job σ)
  file : σ
  lock : Option Holder
  clis : ℕ → CliPhase σ
  now : ℕ
  nextOp : ℕ
  log : List (Event σ)
  serial : List (Entry σ)
  pending : List (Entry σ)

/-- The state `StoreWriter::spawn` starts in, on a file that holds `file`. -/
def init {σ : Type} (initial : ℕ) (file : σ) : State σ where
  phase := .select
  retry := RetryState.new initial
  store := none
  publishing := false
  mutationsSincePublish := 0
  closeReplies := []
  rx := []
  senders := true
  doneRx := []
  job := none
  file := file
  lock := none
  clis := fun _ => .idle
  now := 0
  nextOp := 0
  log := []
  serial := []
  pending := []

/-! ### The functions the branches of the loop share -/

section Functions

variable {σ : Type}

/-- Dropping a lock handle: the lock is released if `h` holds it. -/
def dropLock (h : Holder) (lock : Option Holder) : Option Holder :=
  if lock = some h then none else lock

/-- `absorb_publish_result`: on success the snapshot is dropped, and the lock with it, only when
no mutation was absorbed while the save ran; on failure the snapshot is retained. -/
def absorbPublishResult (res : Published) (s : State σ) : State σ :=
  match res with
  | .ok =>
    if s.mutationsSincePublish = 0 then
      { s with
        retry := s.retry.recordSuccess
        store := none
        lock := dropLock .actor s.lock
        mutationsSincePublish := 0 }
    else
      { s with
        retry := { s.retry.recordSuccess with dirty := true }
        mutationsSincePublish := 0 }
  | .err =>
    { s with retry := s.retry.recordFailure s.now, mutationsSincePublish := 0 }

/-- A backoff retry is still pending. -/
def backoffPending (s : State σ) : Bool :=
  match s.retry.retryAt with
  | some t => s.now < t
  | none => false

/-- Handing a snapshot to a publish job. -/
def startPublish (snapshot : σ) (s : State σ) : State σ :=
  { s with
    job := some { snapshot := snapshot, covers := s.pending.length }
    publishing := true
    mutationsSincePublish := 0 }

/-- `try_start_publish`: start one publish, unless one is in flight, nothing is dirty or a backoff
retry is pending. -/
def tryStartPublish (s : State σ) : State σ :=
  match s.store with
  | none => s
  | some snapshot =>
    if s.publishing || !s.retry.dirty || backoffPending s then s else startPublish snapshot s

/-- The handler of the completion channel, the same in the `select!` and in the drain loop. -/
def complete (res : Published) (s : State σ) : State σ :=
  tryStartPublish (absorbPublishResult res { s with publishing := false })

/-- What the sender of an operation sees when the receiver is dropped before taking it. -/
def Op.dropped : Op σ → Event σ
  | .mutate id _ => .refused id
  | .close r => .closeDropped r

/-- The end of the task: the close requests are answered, the receiver and the lock go with the
actor's variables. -/
def stop (ok : Bool) (s : State σ) : State σ :=
  { s with
    phase := .stopped
    store := none
    lock := dropLock .actor s.lock
    log := s.log ++ s.closeReplies.map (fun r => .closed r ok) ++ s.rx.map Op.dropped
    closeReplies := []
    rx := [] }

/-- The clean load failed: its lock guard dies inside the job and the operation is refused. -/
def loadFailed (id : ℕ) (s : State σ) : State σ :=
  { s with
    phase := .select
    lock := dropLock .actor s.lock
    log := s.log ++ [.refused id] }

/-- The mutation job ended well: the new snapshot is swapped in and the operation acknowledged,
before any publish. -/
def mutated (id : ℕ) (m : Mutation σ) (owned : σ) (s : State σ) : State σ :=
  tryStartPublish
    { s with
      phase := .select
      store := some owned
      log := s.log ++ [.applied id m]
      retry := { s.retry with dirty := true }
      mutationsSincePublish := (s.mutationsSincePublish + 1) % u32Range
      pending := s.pending ++ [.writer id m] }

/-- The store published on shutdown: everything acknowledged is in the file. -/
def flushed (snapshot : σ) (s : State σ) : State σ :=
  { s with
    file := snapshot
    serial := s.serial ++ s.pending
    pending := []
    retry := s.retry.recordSuccess }

/-- The mutation closure panicked: only the job's private copy is gone, the snapshot and the
bookkeeping stay as they were. -/
def mutationPanicked (id : ℕ) (s : State σ) : State σ :=
  { s with phase := .select, log := s.log ++ [.refused id] }

/-- The publish job saved its snapshot and reports in. -/
def published (j : Job σ) (s : State σ) : State σ :=
  { s with
    job := none
    file := j.snapshot
    doneRx := s.doneRx ++ [.ok]
    serial := s.serial ++ s.pending.take j.covers
    pending := s.pending.drop j.covers }

/-- Moving a command-line transaction on. -/
def setCli (n : ℕ) (p : CliPhase σ) (s : State σ) : State σ :=
  { s with clis := Function.update s.clis n p }

/-- A command-line transaction gives up; its lock guard, if it has one, is dropped. -/
def cliFailed (n : ℕ) (s : State σ) : State σ :=
  setCli n .finished
    { s with lock := dropLock (.cli n) s.lock, log := s.log ++ [.cliFailed n] }

/-- A command-line transaction saved its store. -/
def cliSaved (n : ℕ) (m : Mutation σ) (st : σ) (s : State σ) : State σ :=
  setCli n .saved
    { s with
      file := st
      serial := s.serial ++ [.cli n m]
      log := s.log ++ [.cliSaved n m] }

end Functions

/-! ### One step -/

/-- The steps of the callers, and of time. -/
inductive CallerAction (σ : Type)
  /-- `StoreWriter::apply` sends a mutation. -/
  | apply (m : Mutation σ)
  /-- `StoreWriter::close` sends a close request. -/
  | close (reply : ℕ)
  /-- The last sender is dropped. -/
  | hangup
  /-- Time passes. -/
  | tick (d : ℕ)

/-- The steps of the actor's task and of the jobs it awaits in place. -/
inductive ActorAction
  /-- The `rx.recv()` branch. -/
  | recv
  /-- The clean-load job takes the lock, or fails to. -/
  | acquire (ok : Bool)
  /-- The clean-load job ends. -/
  | load (out : Outcome)
  /-- The mutation job ends. -/
  | mutate
  /-- The next message of the completion channel. -/
  | complete
  /-- The retry branch. -/
  | retry
  /-- Closing, with no publish in flight: the final flush is decided. -/
  | drained
  /-- The final flush ends. -/
  | flush (out : Outcome)

/-- The steps of an inline command-line transaction. -/
inductive CliAction (σ : Type)
  | start (m : Mutation σ)
  | acquire (ok : Bool)
  | load (ok : Bool)
  | apply
  | save (ok : Bool)
  | finish

/-- The steps of the system; `publish` is the end of the publish job in flight. -/
inductive Action (σ : Type)
  | caller (a : CallerAction σ)
  | actor (a : ActorAction)
  | publish (out : Outcome)
  | cli (n : ℕ) (a : CliAction σ)

section Step

variable {σ : Type}

/-- A step of a caller.  Once the task has ended its receiver is gone and a send fails at once;
until then a send waits for room in the channel. -/
def stepCaller (s : State σ) : CallerAction σ → Option (State σ)
  | .apply m =>
    match s.phase with
    | .stopped =>
      some { s with nextOp := s.nextOp + 1, log := s.log ++ [.refused s.nextOp] }
    | _ =>
      if s.senders && decide (s.rx.length < channelCapacity) then
        some { s with nextOp := s.nextOp + 1, rx := s.rx ++ [.mutate s.nextOp m] }
      else none
  | .close r =>
    match s.phase with
    | .stopped => none
    | _ =>
      if s.senders && decide (s.rx.length < channelCapacity) then
        some { s with rx := s.rx ++ [.close r] }
      else none
  | .hangup => some { s with senders := false }
  | .tick d => some { s with now := s.now + d }

/-- A step of the actor's task. -/
def stepActor (s : State σ) : ActorAction → Option (State σ)
  | .recv =>
    match s.phase, s.rx with
    | .select, [] => if s.senders then none else some { s with phase := .draining }
    | .select, .mutate id m :: rx =>
      -- a clean snapshot is re-read under the lock first
      match s.store with
      | none => some { s with rx := rx, phase := .acquiring id m }
      | some _ => some { s with rx := rx, phase := .mutating id m }
    | .select, .close r :: rx =>
      some { s with rx := rx, closeReplies := s.closeReplies ++ [r], phase := .draining }
    | _, _ => none
  | .acquire ok =>
    match s.phase with
    | .acquiring id m =>
      if ok then
        if s.lock = none then
          some { s with lock := some .actor, phase := .loading id m }
        else none
      else some (loadFailed id s)
    | _ => none
  | .load out =>
    match s.phase with
    | .loading id m =>
      match out with
      | .ok => some { s with store := some s.file, phase := .mutating id m }
      | _ => some (loadFailed id s)
    | _ => none
  | .mutate =>
    match s.phase, s.store with
    | .mutating id m, some st =>
      match m st with
      | some owned => some (mutated id m owned s)
      | none => some (mutationPanicked id s)
    | _, _ => none
  | .complete =>
    match s.doneRx with
    | [] => none
    | res :: rest =>
      if s.publishing && s.phase.awaitsCompletion then
        some (complete res { s with doneRx := rest })
      else none
  | .retry =>
    match s.phase with
    | .select =>
      if s.retry.dirty && s.retry.retryAt.isSome && !s.publishing && !backoffPending s then
        some (tryStartPublish s)
      else none
    | _ => none
  | .drained =>
    match s.phase with
    | .draining =>
      if s.publishing then none
      else if s.retry.dirty then
        match s.store with
        | some snapshot => some { s with phase := .flushing snapshot }
        | none => some (stop true s)
      else some (stop true s)
    | _ => none
  | .flush out =>
    match s.phase with
    | .flushing snapshot =>
      match out with
      | .ok => some (stop true (flushed snapshot s))
      | _ => some (stop false { s with retry := s.retry.recordFailure s.now })
    | _ => none

/-- The end of the publish job.  A job whose publisher panics sends nothing. -/
def stepPublish (s : State σ) (out : Outcome) : Option (State σ) :=
  match s.job with
  | none => none
  | some j =>
    match out with
    | .ok => some (published j s)
    | .err => some { s with job := none, doneRx := s.doneRx ++ [.err] }
    | .panic => some { s with job := none }

/-- A step of the command-line transaction `n`. -/
def stepCli (s : State σ) (n : ℕ) : CliAction σ → Option (State σ)
  | .start m =>
    match s.clis n with
    | .idle => some (setCli n (.waiting m) s)
    | _ => none
  | .acquire ok =>
    match s.clis n with
    | .waiting m =>
      if ok then
        if s.lock = none then
          some (setCli n (.locked m) { s with lock := some (.cli n) })
        else none
      else some (cliFailed n s)
    | _ => none
  | .load ok =>
    match s.clis n with
    | .locked m =>
      if ok then some (setCli n (.loaded m s.file) s) else some (cliFailed n s)
    | _ => none
  | .apply =>
    match s.clis n with
    | .loaded m st =>
      match m st with
      | some st' => some (setCli n (.applied m st') s)
      | none => some (cliFailed n s)
    | _ => none
  | .save ok =>
    match s.clis n with
    | .applied m st =>
      if ok then some (cliSaved n m st s)
      else
        some (setCli n .saved { s with log := s.log ++ [.cliFailed n] })
    | _ => none
  | .finish =>
    match s.clis n with
    | .saved =>
      some (setCli n .finished { s with lock := dropLock (.cli n) s.lock })
    | _ => none

/-- One step of the system. -/
def step (s : State σ) : Action σ → Option (State σ)
  | .caller a => stepCaller s a
  | .actor a => stepActor s a
  | .publish out => stepPublish s out
  | .cli n a => stepCli s n a

/-- The writer and the command-line transactions as a machine. -/
def machine (σ : Type) : Machine (State σ) (Action σ) where
  step := step

@[simp] theorem machine_step (s : State σ) (a : Action σ) : (machine σ).step s a = step s a := rfl

end Step

/-! ### What a step can do

The cases of the step functions as relations, each with the guards it was taken under.  Every
invariant of the system is proved from these, without unfolding the step functions again. -/

section Cases

variable {σ : Type}

/-- The cases of a caller's step. -/
inductive CallerStep (s : State σ) : State σ → Prop
  | refused (hp : s.phase = .stopped) :
      CallerStep s { s with nextOp := s.nextOp + 1, log := s.log ++ [.refused s.nextOp] }
  | sent (m : Mutation σ) (hp : s.phase ≠ .stopped) :
      CallerStep s { s with nextOp := s.nextOp + 1, rx := s.rx ++ [.mutate s.nextOp m] }
  | closeSent (r : ℕ) (hp : s.phase ≠ .stopped) :
      CallerStep s { s with rx := s.rx ++ [.close r] }
  | hangup : CallerStep s { s with senders := false }
  | tick (d : ℕ) : CallerStep s { s with now := s.now + d }

theorem callerStep_of_step {s t : State σ} {a : CallerAction σ} (h : stepCaller s a = some t) :
    CallerStep s t := by
  cases a <;> simp only [stepCaller] at h <;> grind [CallerStep]

/-- The cases of a step of the actor's task. -/
inductive ActorStep (s : State σ) : ActorAction → State σ → Prop
  | recvHangup (hp : s.phase = .select) (hrx : s.rx = []) (hs : s.senders = false) :
      ActorStep s .recv { s with phase := .draining }
  | recvLoad {id : ℕ} {m : Mutation σ} {rx : List (Op σ)} (hp : s.phase = .select)
      (hrx : s.rx = .mutate id m :: rx) (hst : s.store = none) :
      ActorStep s .recv { s with rx := rx, phase := .acquiring id m }
  | recvMutate {id : ℕ} {m : Mutation σ} {rx : List (Op σ)} {st : σ}
      (hp : s.phase = .select) (hrx : s.rx = .mutate id m :: rx)
      (hst : s.store = some st) :
      ActorStep s .recv { s with rx := rx, phase := .mutating id m }
  | recvClose {r : ℕ} {rx : List (Op σ)} (hp : s.phase = .select)
      (hrx : s.rx = .close r :: rx) :
      ActorStep s .recv
        { s with rx := rx, closeReplies := s.closeReplies ++ [r], phase := .draining }
  | acquired {id : ℕ} {m : Mutation σ} (hp : s.phase = .acquiring id m)
      (hl : s.lock = none) :
      ActorStep s (.acquire true)
        { s with lock := some .actor, phase := .loading id m }
  | acquireFailed {id : ℕ} {m : Mutation σ} (hp : s.phase = .acquiring id m) :
      ActorStep s (.acquire false) (loadFailed id s)
  | loaded {id : ℕ} {m : Mutation σ} (hp : s.phase = .loading id m) :
      ActorStep s (.load .ok)
        { s with store := some s.file, phase := .mutating id m }
  | loadFailed {id : ℕ} {m : Mutation σ} {out : Outcome} (hp : s.phase = .loading id m)
      (hout : out ≠ .ok) :
      ActorStep s (.load out) (StoreWriter.loadFailed id s)
  | mutated {id : ℕ} {m : Mutation σ} {st owned : σ} (hp : s.phase = .mutating id m)
      (hst : s.store = some st) (hm : m st = some owned) :
      ActorStep s .mutate (StoreWriter.mutated id m owned s)
  | panicked {id : ℕ} {m : Mutation σ} {st : σ} (hp : s.phase = .mutating id m)
      (hst : s.store = some st) (hm : m st = none) :
      ActorStep s .mutate (mutationPanicked id s)
  | completed {res : Published} {rest : List Published} (hd : s.doneRx = res :: rest)
      (hpub : s.publishing = true) (hp : s.phase.awaitsCompletion = true) :
      ActorStep s .complete (complete res { s with doneRx := rest })
  | retried (hp : s.phase = .select) (hpub : s.publishing = false)
      (hdirty : s.retry.dirty = true) (hat : s.retry.retryAt.isSome = true)
      (hdue : backoffPending s = false) : ActorStep s .retry (tryStartPublish s)
  | flushStarted {st : σ} (hp : s.phase = .draining) (hpub : s.publishing = false)
      (hd : s.retry.dirty = true) (hst : s.store = some st) :
      ActorStep s .drained { s with phase := .flushing st }
  | stopped (hp : s.phase = .draining) (hpub : s.publishing = false)
      (hd : s.retry.dirty = true → s.store = none) :
      ActorStep s .drained (stop true s)
  | flushed {st : σ} (hp : s.phase = .flushing st) :
      ActorStep s (.flush .ok) (stop true (StoreWriter.flushed st s))
  | flushFailed {st : σ} {out : Outcome} (hp : s.phase = .flushing st)
      (hout : out ≠ .ok) :
      ActorStep s (.flush out)
        (stop false { s with retry := s.retry.recordFailure s.now })

theorem actorStep_of_step {s t : State σ} {a : ActorAction} (h : stepActor s a = some t) :
    ActorStep s a t := by
  cases a <;> simp only [stepActor] at h <;> grind [ActorStep]

/-- The cases of the end of a publish job. -/
inductive PublishStep (s : State σ) : Outcome → State σ → Prop
  | ok {j : Job σ} (hj : s.job = some j) : PublishStep s .ok (published j s)
  | err {j : Job σ} (hj : s.job = some j) :
      PublishStep s .err { s with job := none, doneRx := s.doneRx ++ [.err] }
  | panic {j : Job σ} (hj : s.job = some j) : PublishStep s .panic { s with job := none }

theorem publishStep_of_step {s t : State σ} {out : Outcome} (h : stepPublish s out = some t) :
    PublishStep s out t := by
  cases out <;> simp only [stepPublish] at h <;> grind [PublishStep]

/-- The cases of a step of the command-line transaction `n`. -/
inductive CliStep (s : State σ) (n : ℕ) : State σ → Prop
  | started (m : Mutation σ) (hc : s.clis n = .idle) :
      CliStep s n (setCli n (.waiting m) s)
  | acquired {m : Mutation σ} (hc : s.clis n = .waiting m) (hl : s.lock = none) :
      CliStep s n (setCli n (.locked m) { s with lock := some (.cli n) })
  | failed (hc : s.clis n ≠ .idle ∧ s.clis n ≠ .finished) :
      CliStep s n (cliFailed n s)
  | loaded {m : Mutation σ} (hc : s.clis n = .locked m) :
      CliStep s n (setCli n (.loaded m s.file) s)
  | applied {m : Mutation σ} {st st' : σ} (hc : s.clis n = .loaded m st)
      (hm : m st = some st') : CliStep s n (setCli n (.applied m st') s)
  | saved {m : Mutation σ} {st : σ} (hc : s.clis n = .applied m st) :
      CliStep s n (cliSaved n m st s)
  | saveFailed {m : Mutation σ} {st : σ} (hc : s.clis n = .applied m st) :
      CliStep s n (setCli n .saved { s with log := s.log ++ [.cliFailed n] })
  | finished (hc : s.clis n = .saved) :
      CliStep s n (setCli n .finished { s with lock := dropLock (.cli n) s.lock })

theorem cliStep_of_step {s t : State σ} {n : ℕ} {a : CliAction σ} (h : stepCli s n a = some t) :
    CliStep s n t := by
  cases a <;> simp only [stepCli] at h <;> grind [CliStep]

/-- `try_start_publish` leaves the state alone or starts a publish, the latter only when none is
in flight, the snapshot is dirty and no backoff is pending. -/
theorem tryStartPublish_cases (s : State σ) :
    tryStartPublish s = s ∨ ∃ st, s.store = some st ∧ s.publishing = false ∧
      s.retry.dirty = true ∧ backoffPending s = false ∧ tryStartPublish s = startPublish st s := by
  grind [tryStartPublish]

end Cases

theorem step_preserves {σ : Type} {I : State σ → Prop} {s t : State σ} {a : Action σ}
    (hcaller : CallerStep s t → I t) (hactor : ∀ b, a = .actor b → ActorStep s b t → I t)
    (hpublish : ∀ out, a = .publish out → PublishStep s out t → I t)
    (hcli : ∀ n, CliStep s n t → I t) (h : step s a = some t) : I t := by
  cases a with
  | caller a => exact hcaller (callerStep_of_step h)
  | actor b => exact hactor b rfl (actorStep_of_step h)
  | publish out => exact hpublish out rfl (publishStep_of_step h)
  | cli n a => exact hcli n (cliStep_of_step h)

end StoreWriter
