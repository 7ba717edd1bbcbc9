/-
**Draining the candidate pool: probes, the config promotion and the confirm transaction.**

A drain takes a batch from the candidate pool under the pool lock and probes it one bridge at a
time; nothing is saved.  It then releases the lock, promotes the verified candidates into the
bridges file under the config lock, and at last confirms: under the pool lock it loads the pool
afresh, removes the dead candidates, and the promoted ones if their promotion succeeded, moves the
deferred ones to the back and saves.  A refresh merges fetched candidates into the pool in one
transaction, and may rewrite the bridges file to migrate its sources.
-/

import TorSocks5.CandidatePool
import TorSocks5.Machine

set_option autoImplicit false

namespace DrainPool

variable {B K : Type*} [DecidableEq K]

/-! ### The probe loop -/

/-- The outcome of a probe. -/
inductive Outcome
  | reachable (latency : ℕ)
  | unreachable
  | unmeasured
  deriving DecidableEq

/-- The parameters of a drain. -/
structure Plan where
  /-- How many bridges are wanted. -/
  target : ℕ
  /-- The transport the config prefers. -/
  preferred : Option String
  /-- Whether there is a channel check. -/
  checker : Bool
  deriving DecidableEq

/-- `MAX_DRAIN_ATTEMPTS`. -/
def maxDrainAttempts : ℕ := 12

/-- The number of probes of a drain. -/
def Plan.maxAttempts (plan : Plan) : ℕ := min (plan.target * 50) maxDrainAttempts

/-- The lists a drain fills. -/
structure Report (B : Type*) where
  /-- The batch that was taken. -/
  batch : List B
  promoted : List B
  channelOk : List B
  dead : List B
  deferred : List B
  reachable : List (B × ℕ)
  attempts : ℕ

/-- The report before the first probe. -/
def Report.start (batch : List B) : Report B := ⟨batch, [], [], [], [], [], 0⟩

/-- `admits_candidate`; `check` is what the channel check says within the time that is left. -/
def admitsCandidate (latency : Option ℕ) (checker check : Bool) : Bool :=
  match latency with
  | none => false
  | some _ => if checker then check else true

/-- What becomes of a bridge whose probe came to a result. -/
def judge (plan : Plan) (r : Report B) (b : B) (latency : Option ℕ) (check : Bool) : Report B :=
  if admitsCandidate latency plan.checker check then
    { r with
      promoted := r.promoted ++ [b]
      reachable := r.reachable ++ (latency.map fun l => (b, l)).toList
      channelOk := if latency.isSome && plan.checker then r.channelOk ++ [b] else r.channelOk }
  else if latency.isSome then { r with deferred := r.deferred ++ [b] }
  else { r with dead := r.dead ++ [b] }

/-- Whether the loop passes over the rest of the batch. -/
def Report.full (plan : Plan) (r : Report B) (late : Bool) : Bool :=
  decide (plan.target ≤ r.promoted.length) || decide (plan.maxAttempts ≤ r.attempts) || late

/-- One round of the probe loop.  `late` says that the deadline has passed when the round starts,
`probe` is the outcome of the probe, `none` if it does not come before the deadline. -/
def attempt (plan : Plan) (r : Report B) (b : B) (late : Bool) (probe : Option Outcome)
    (check : Bool) : Report B :=
  if r.full plan late then r
  else
    let r := { r with attempts := r.attempts + 1 }
    match probe with
    | some (.reachable latency) => judge plan r b (some latency) check
    | some .unreachable => judge plan r b none check
    | some .unmeasured => { r with deferred := r.deferred ++ [b] }
    | none => { r with deferred := r.deferred ++ [b] }

/-- The identities probed `Unreachable`, after the round: a round that passes over its bridge makes
no probe. -/
def noteProbe (f : BridgeFormat B K) (plan : Plan) (r : Report B) (b : B) (late : Bool)
    (probe : Option Outcome) (unreachable : List K) : List K :=
  if r.full plan late = false ∧ probe = some .unreachable then f.key b :: unreachable
  else unreachable

/-- The candidates that the confirm removes. -/
def Report.discard (r : Report B) (promotion : Bool) : List B :=
  r.dead ++ if promotion then r.promoted else []

/-- The mutation of the confirm transaction. -/
def Report.confirm {f : BridgeFormat B K} (r : Report B) (promotion : Bool)
    (fresh : CandidatePool f) : CandidatePool f :=
  ((fresh.removeAll (r.discard promotion)).1.rotateToBack r.deferred).1

/-! ### The bridges file -/

/-- The lines of the bridges file with the promoted bridges added, each line once. -/
def promoteLines (f : BridgeFormat B K) (lines : List (List Char)) (promoted : List B) :
    List (List Char) :=
  promoted.foldl (fun lines b =>
    if lines.contains (f.display b) then lines else lines ++ [f.display b]) lines

/-! ### The parties -/

/-- The outcome of an atomic write.  An error may come after the new file is in place. -/
inductive Write
  | done
  | failed
  | reported
  deriving DecidableEq

/-- Whether the new file is in place. -/
def Write.lands : Write → Bool
  | .failed => false
  | _ => true

/-- Whether the write returns `Ok`. -/
def Write.ok : Write → Bool
  | .done => true
  | _ => false

/-- A drain or a refresh. -/
inductive Party
  | drain (i : ℕ)
  | refresh (i : ℕ)
  deriving DecidableEq

/-- The files, their locks, and the identities some probe has found unreachable. -/
structure Files (K : Type*) where
  /-- The lines of the pool file; a missing file has none. -/
  pool : List (List Char)
  /-- The bridge lines of the bridges file. -/
  config : List (List Char)
  /-- The holder of the pool lock. -/
  poolLock : Option Party
  /-- The holder of the config lock. -/
  configLock : Option Party
  /-- Every identity that a drain has probed `Unreachable`. -/
  unreachable : List K

/-- The end of a party: the locks it holds are free. -/
def Files.release (d : Files K) (p : Party) : Files K :=
  { d with
    poolLock := if d.poolLock = some p then none else d.poolLock
    configLock := if d.configLock = some p then none else d.configLock }

/-- Where a drain stands. -/
inductive DrainPhase (f : BridgeFormat B K)
  | idle
  /-- The config is read; the drain waits for the pool lock. -/
  | acquiring (plan : Plan)
  /-- The pool lock is held. -/
  | loading (plan : Plan)
  /-- The batch is being probed, under the pool lock. -/
  | walking (plan : Plan) (todo : List B) (r : Report B)
  /-- The pool lock is released. -/
  | walked (r : Report B)
  /-- The config lock is held for the promotion. -/
  | promoting (r : Report B)
  /-- The config is reloaded, still under the lock. -/
  | rewriting (r : Report B) (lines : List (List Char))
  /-- The outcome of the promotion is known. -/
  | decided (r : Report B) (promotion : Bool)
  /-- The pool lock is held for the confirm. -/
  | confirming (r : Report B) (promotion : Bool)
  /-- The pool is loaded afresh and changed, still under the lock. -/
  | shedding (r : Report B) (promotion : Bool) (fresh : CandidatePool f)
  /-- Returned or dead. -/
  | finished

/-- What a drain does next. -/
inductive DrainAction
  /-- The call, with the config it reads. -/
  | start (plan : Plan)
  | lockPool
  /-- The pool is loaded and the batch taken and shuffled. -/
  | load (seed : Option UInt64)
  | probe (late : Bool) (outcome : Option Outcome) (check : Bool)
  | unlockPool
  /-- There is nothing to promote. -/
  | skipPromotion
  | lockConfig
  | loadConfig
  /-- The promotion fails before it writes. -/
  | promotionFailed
  | writeConfig (w : Write)
  | lockConfirm
  | loadConfirm
  | savePool (w : Write)
  /-- The drain returns, with or without an error, or dies. -/
  | stop
  deriving DecidableEq

/-- The successor of the files and of a drain. -/
def stepDrain {f : BridgeFormat B K} (i : ℕ) (d : Files K) (p : DrainPhase f) :
    DrainAction → Option (Files K × DrainPhase f)
  | .start plan =>
    match p with
    | .idle =>
      some (d, if plan.target = 0 then .finished else .acquiring plan)
    | _ => none
  | .lockPool =>
    match p, d.poolLock with
    | .acquiring plan, none =>
      some ({ d with poolLock := some (.drain i) }, .loading plan)
    | _, _ => none
  | .load seed =>
    match p with
    | .loading plan =>
      let pool : CandidatePool f := CandidatePool.load d.pool
      if pool.isEmpty then some (d.release (.drain i), .finished)
      else
        let batchSize := min plan.maxAttempts pool.len
        let batch := shuffle seed (pool.takeTransport batchSize plan.preferred).1
        some (d, .walking plan batch (Report.start batch))
    | _ => none
  | .probe late outcome check =>
    match p with
    | .walking plan (b :: todo) r =>
      some ({ d with unreachable := noteProbe f plan r b late outcome d.unreachable },
        .walking plan todo (attempt plan r b late outcome check))
    | _ => none
  | .unlockPool =>
    match p with
    | .walking _ [] r => some (d.release (.drain i), .walked r)
    | _ => none
  | .skipPromotion =>
    match p with
    | .walked r =>
      if r.promoted.isEmpty then some (d, .decided r true) else none
    | _ => none
  | .lockConfig =>
    match p, d.configLock with
    | .walked r, none =>
      some ({ d with configLock := some (.drain i) }, .promoting r)
    | _, _ => none
  | .loadConfig =>
    match p with
    | .promoting r => some (d, .rewriting r d.config)
    | _ => none
  | .promotionFailed =>
    match p with
    | .walked r => some (d, .decided r false)
    | .promoting r =>
      some (d.release (.drain i), .decided r false)
    | _ => none
  | .writeConfig w =>
    match p with
    | .rewriting r lines =>
      let latest := promoteLines f lines r.promoted
      -- The file is only written if a line was added.
      if 0 < latest.length - lines.length then
        some ({ d with config := if w.lands then latest else d.config }.release
          (.drain i), .decided r w.ok)
      else some (d.release (.drain i), .decided r true)
    | _ => none
  | .lockConfirm =>
    match p, d.poolLock with
    | .decided r promotion, none =>
      if (r.discard promotion).isEmpty && r.deferred.isEmpty then none
      else some ({ d with poolLock := some (.drain i) }, .confirming r promotion)
    | _, _ => none
  | .loadConfirm =>
    match p with
    | .confirming r promotion =>
      some (d, .shedding r promotion
        (r.confirm promotion (CandidatePool.load d.pool)))
    | _ => none
  | .savePool w =>
    match p with
    | .shedding _ _ fresh =>
      some ({ d with pool := if w.lands then fresh.save else d.pool }.release (.drain i),
        .finished)
    | _ => none
  | .stop => some (d.release (.drain i), .finished)

/-- What a refresh has fetched, and how it is to be merged. -/
structure Fetch (B K : Type*) where
  fetched : List B
  /-- The identities of the working bridges. -/
  exclude : Finset K
  /-- Some source has moved. -/
  migration : Bool
  /-- The transport the config prefers. -/
  preferred : Option String
  /-- Some source has moved or is retired: the config is to be rewritten. -/
  configStale : Bool

/-- The pool after the transaction of a refresh. -/
def Fetch.apply {f : BridgeFormat B K} (m : Fetch B K) (pool : CandidatePool f) : CandidatePool f :=
  let merged := (pool.merge m.fetched m.exclude).1
  if m.migration then merged.prioritize m.fetched m.preferred else merged

/-- Where a refresh stands. -/
inductive RefreshPhase (f : BridgeFormat B K)
  | idle
  /-- The pool lock is held. -/
  | loading (m : Fetch B K)
  /-- The pool is loaded and merged, still under the lock. -/
  | saving (m : Fetch B K) (pool : CandidatePool f)
  /-- The pool is saved, and the config is to be rewritten. -/
  | saved
  /-- The config lock is held. -/
  | migrating
  /-- The config is reloaded, still under the lock. -/
  | rewriting (lines : List (List Char))
  | finished

/-- What a refresh does next. -/
inductive RefreshAction (B K : Type*)
  | lockPool (m : Fetch B K)
  | load
  | savePool (w : Write)
  | lockConfig
  | loadConfig
  | writeConfig (w : Write)
  | stop

/-- The successor of the files and of a refresh. -/
def stepRefresh {f : BridgeFormat B K} (i : ℕ) (d : Files K) (p : RefreshPhase f) :
    RefreshAction B K → Option (Files K × RefreshPhase f)
  | .lockPool m =>
    match p, d.poolLock with
    | .idle, none =>
      if m.fetched.isEmpty then none
      else some ({ d with poolLock := some (.refresh i) }, .loading m)
    | _, _ => none
  | .load =>
    match p with
    | .loading m => some (d, .saving m (m.apply (CandidatePool.load d.pool)))
    | _ => none
  | .savePool w =>
    match p with
    | .saving m pool =>
      some ({ d with pool := if w.lands then pool.save else d.pool }.release (.refresh i),
        if w.ok && m.configStale then .saved else .finished)
    | _ => none
  | .lockConfig =>
    match p, d.configLock with
    | .saved, none =>
      some ({ d with configLock := some (.refresh i) }, .migrating)
    | _, _ => none
  | .loadConfig =>
    match p with
    | .migrating => some (d, .rewriting d.config)
    | _ => none
  | .writeConfig w =>
    match p with
    | .rewriting lines =>
      -- Only the sources change; the bridge lines are written back as they were read.
      some ({ d with config := if w.lands then lines else d.config }.release (.refresh i),
        .finished)
    | _ => none
  | .stop => some (d.release (.refresh i), .finished)

/-! ### The machine -/

/-- The files and the parties. -/
structure State (f : BridgeFormat B K) where
  files : Files K
  drains : ℕ → DrainPhase f
  refreshes : ℕ → RefreshPhase f

/-- The files as they are found, before any party has started. -/
def init (f : BridgeFormat B K) (pool config : List (List Char)) : State f where
  files := ⟨pool, config, none, none, []⟩
  drains := fun _ => .idle
  refreshes := fun _ => .idle

/-- The atomic steps. -/
inductive Action (B K : Type*)
  | drain (i : ℕ) (a : DrainAction)
  | refresh (i : ℕ) (a : RefreshAction B K)
  /-- Somebody else writes the bridges file. -/
  | edit (lines : List (List Char))

/-- The successor of a state. -/
def step {f : BridgeFormat B K} (s : State f) : Action B K → Option (State f)
  | .drain i a => (stepDrain i s.files (s.drains i) a).map fun r =>
    { s with files := r.1, drains := Function.update s.drains i r.2 }
  | .refresh i a => (stepRefresh i s.files (s.refreshes i) a).map fun r =>
    { s with files := r.1, refreshes := Function.update s.refreshes i r.2 }
  | .edit lines => some { s with files := { s.files with config := lines } }

/-- The drains and refreshes of one pool and config. -/
def machine (f : BridgeFormat B K) : Machine (State f) (Action B K) := ⟨step⟩

/-- Nobody else removes lines from the bridges file. -/
def KeepsLines {f : BridgeFormat B K} (s : State f) (a : Action B K) : Prop :=
  ∀ lines, a = .edit lines → ∀ line ∈ s.files.config, line ∈ lines

end DrainPool
