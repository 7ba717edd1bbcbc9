/-
**The DNS stores under concurrent publishes, flushes, merges and saves.**

The live cache sits behind a mutex and beside a counter, the network generation.  A publish captures
the generation when its lookup starts, stamps its answer, takes the mutex, compares the generation
and inserts; a flush takes the flush gate, then the mutex, collects what is worth keeping, bumps the
generation, clears the cache, gives the mutex back and merges what it kept into the fallback store,
one entry at a time, before it gives the gate back.  A save holds the gate while it reads the live
cache and then the fallback store.  Imported hints and loaded files are merged with neither.
-/

import TorSocks5.Locked
import TorSocks5.DnsAnswers

set_option autoImplicit false

namespace Dns

variable {Host Addr : Type*}

/-! ### Tasks and states -/

/-- What a read of the cache or a publish has told its caller. -/
structure Observation (Host Addr : Type*) where
  host : Host
  addrs : List Addr
  identity : CacheIdentity
  deriving DecidableEq

/-- An insert into the live cache. -/
structure Issue (Host Addr : Type*) where
  /-- The publish. -/
  task : ℕ
  host : Host
  /-- The answer as it was inserted. -/
  answer : CachedAnswer Addr
  deriving DecidableEq

/-- Where a call stands. -/
inductive Task (Host Addr : Type*)
  /-- Not called yet. -/
  | idle
  /-- A lookup has captured the network generation. -/
  | looking (gen : ℕ)
  /-- `remember_doh_answer_if_generation_observed` has computed the expiry of its answer. -/
  | expiring (host : Host) (addrs : List Addr) (expiresAt gen : ℕ)
  /-- The answer is stamped; the publish waits for the cache mutex. -/
  | publishing (host : Host) (answer : CachedAnswer Addr) (gen : ℕ)
  /-- The publish holds the mutex and is to compare the generation. -/
  | comparing (host : Host) (answer : CachedAnswer Addr) (gen : ℕ)
  /-- `remember_doh_failure_if_generation` waits for the cache mutex. -/
  | failing (host : Host) (gen : ℕ)
  /-- It holds the mutex and is to compare the generation. -/
  | failComparing (host : Host) (gen : ℕ)
  /-- The generation is current; the entry of the host is to be looked at. -/
  | failCurrent (host : Host) (gen : ℕ)
  /-- There is no fresh positive answer. -/
  | failAllowed (host : Host) (gen : ℕ)
  /-- The expiry of the failure is computed. -/
  | failExpiring (host : Host) (expiresAt gen : ℕ)
  /-- The publish of an answer or of a failure holds the mutex and is to insert. -/
  | inserting (failure : Bool) (host : Host) (answer : CachedAnswer Addr) (gen : ℕ)
  /-- The publish of an answer has returned. -/
  | answered (identity : Option CacheIdentity)
  /-- The publish of a failure has returned. -/
  | failed (stored : Bool)
  /-- `invalidate_if_current` has found its generation to be current, outside the mutex. -/
  | invalidating (host : Host) (observed : Observation Host Addr) (triedAddrs : List Addr)
  /-- `invalidate_if_current` has returned. -/
  | invalidated (removed : Bool)
  /-- `flush_dns_cache` holds the gate. -/
  | flushGated
  /-- It holds the mutex too and has collected what it preserves. -/
  | flushing (kept : List (Host × PersistedAnswer Addr))
  /-- It has bumped the generation; the cache is not cleared yet. -/
  | bumped (kept : List (Host × PersistedAnswer Addr))
  /-- The cache is cleared and the mutex given back; what is left is to be merged. -/
  | merging (kept : List (Host × PersistedAnswer Addr))
  /-- `seed_disk_fallback` or `load_persisted_dns_cache` has these entries to merge. -/
  | seeding (entries : List (Host × PersistedAnswer Addr))
  /-- A flush, an import or a load has returned. -/
  | finished
  /-- `capture_persist_snapshots_with_generation` holds the gate. -/
  | saveGated
  /-- It has read the monotonic clock. -/
  | saveTimed (nowInstant : ℕ)
  /-- It has read the live cache. -/
  | saveLive (live : List (PersistSnapshot Host Addr))
  /-- It has read the wall clock. -/
  | saveWall (live : List (PersistSnapshot Host Addr)) (now : ℕ)
  /-- It has returned its two snapshots. -/
  | saved (live disk : List (PersistSnapshot Host Addr))
  deriving DecidableEq

/-- The clocks, the stores with their locks, and the tasks. -/
structure State (Host Addr : Type*) where
  /-- The monotonic clock. -/
  mono : ℕ
  /-- The wall clock. -/
  wall : ℕ
  /-- `DNS_NETWORK_GENERATION`. -/
  generation : ℕ
  /-- `NEXT_CACHE_VERSION`. -/
  nextVersion : ℕ
  /-- The task that holds the mutex of the live cache. -/
  cacheLock : Option ℕ
  /-- The task that holds the flush gate. -/
  gate : Option ℕ
  /-- `doh_cache`. -/
  live : Table Host (CachedAnswer Addr)
  /-- `disk_fallback_store`. -/
  fallback : Table Host (PersistedAnswer Addr)
  /-- The calls. -/
  tasks : ℕ → Task Host Addr
  /-- Every insert into the live cache, in order. -/
  issued : List (Issue Host Addr)
  /-- Every identity that has been handed out. -/
  observed : List (Observation Host Addr)

/-- The stores when the process starts. -/
def init : State Host Addr where
  mono := 0
  wall := 0
  generation := 0
  nextVersion := 1
  cacheLock := none
  gate := none
  live := ∅
  fallback := ∅
  tasks := fun _ => .idle
  issued := []
  observed := []

/-- The number of values of a `u64`. -/
def counterSize : ℕ := 2 ^ 64

/-- The atomic steps. -/
inductive Action (Host Addr : Type*)
  /-- Time passes: the monotonic clock does not go back, the wall clock may be set. -/
  | tick (mono wall : ℕ)
  /-- The next iteration over the live cache meets its bindings in another order. -/
  | rehashLive (live : Table Host (CachedAnswer Addr))
  /-- The same for the fallback store. -/
  | rehashFallback (fallback : Table Host (PersistedAnswer Addr))
  /-- A lookup captures the network generation. -/
  | begin (i : ℕ)
  /-- It publishes an answer: the lifetime is clamped and the expiry computed. -/
  | answer (i : ℕ) (host : Host) (addrs : List Addr) (validFor : ℕ)
  /-- It publishes a failure. -/
  | fail (i : ℕ) (host : Host)
  /-- A publish takes the cache mutex. -/
  | lock (i : ℕ)
  /-- It compares the generation. -/
  | compare (i : ℕ)
  /-- A failure looks for a fresh positive answer. -/
  | look (i : ℕ)
  /-- A failure computes its expiry. -/
  | expire (i : ℕ)
  /-- The wall-clock stamp is read. -/
  | stamp (i : ℕ)
  /-- `insert_capped`, after which the publish drops the mutex and returns. -/
  | insert (i : ℕ)
  /-- `cached_doh_answer_observed`. -/
  | readCached (host : Host)
  /-- `stale_fallback_answer_observed`. -/
  | readStale (host : Host)
  /-- `invalidate_if_current` is called with what its caller observed. -/
  | invalidate (i : ℕ) (host : Host) (observed : Observation Host Addr) (triedAddrs : List Addr)
  /-- Its section under the mutex. -/
  | remove (i : ℕ)
  /-- `flush_dns_cache` takes the gate. -/
  | flush (i : ℕ)
  /-- It takes the mutex. -/
  | flushLock (i : ℕ)
  /-- It bumps the generation. -/
  | bump (i : ℕ)
  /-- It clears the live cache and drops the mutex. -/
  | clear (i : ℕ)
  /-- `seed_disk_fallback` or `load_persisted_dns_cache` is called. -/
  | seed (i : ℕ) (entries : List (Host × PersistedAnswer Addr))
  /-- One entry is merged into the fallback store. -/
  | merge (i : ℕ)
  /-- With nothing left to merge the call returns; a flush drops the gate. -/
  | finish (i : ℕ)
  /-- A save takes the gate. -/
  | save (i : ℕ)
  /-- It reads the monotonic clock. -/
  | readInstant (i : ℕ)
  /-- It reads the live cache. -/
  | readLive (i : ℕ)
  /-- It reads the wall clock. -/
  | readWall (i : ℕ)
  /-- It reads the fallback store, drops the gate and returns. -/
  | readFallback (i : ℕ)

/-- The host that a read of the live cache asks for. -/
def Action.asks : Action Host Addr → Option Host
  | .readCached host => some host
  | .readStale host => some host
  | _ => none

/-- The task that moves under an action. -/
def Action.mover : Action Host Addr → Option ℕ
  | .begin i | .answer i _ _ _ | .fail i _ | .lock i | .compare i
  | .look i | .expire i | .stamp i | .insert i
  | .invalidate i _ _ _ | .remove i | .flush i | .flushLock i
  | .bump i | .clear i | .seed i _ | .merge i | .finish i
  | .save i | .readInstant i | .readLive i | .readWall i
  | .readFallback i => some i
  | _ => none

/-- The task `i` goes on to `p`. -/
def State.move (s : State Host Addr) (i : ℕ) (p : Task Host Addr) : State Host Addr :=
  { s with tasks := Function.update s.tasks i p }

@[simp] theorem State.move_self (s : State Host Addr) (i : ℕ) (p : Task Host Addr) :
    (s.move i p).tasks i = p := Function.update_self ..

variable {i : ℕ} {s t e : State Host Addr} {a : Action Host Addr} {p : Task Host Addr}
@[simp] theorem State.move_of_ne (s : State Host Addr) {j : ℕ} (h : j ≠ i)
    (p : Task Host Addr) : (s.move i p).tasks j = s.tasks j := Function.update_of_ne h ..

@[simp] theorem State.move_mono (s : State Host Addr) (i : ℕ) (p : Task Host Addr) :
    (s.move i p).mono = s.mono := rfl

@[simp] theorem State.move_wall (s : State Host Addr) (i : ℕ) (p : Task Host Addr) :
    (s.move i p).wall = s.wall := rfl

@[simp] theorem State.move_generation (s : State Host Addr) (i : ℕ) (p : Task Host Addr) :
    (s.move i p).generation = s.generation := rfl

@[simp] theorem State.move_nextVersion (s : State Host Addr) (i : ℕ) (p : Task Host Addr) :
    (s.move i p).nextVersion = s.nextVersion := rfl

@[simp] theorem State.move_cacheLock (s : State Host Addr) (i : ℕ) (p : Task Host Addr) :
    (s.move i p).cacheLock = s.cacheLock := rfl

@[simp] theorem State.move_gate (s : State Host Addr) (i : ℕ) (p : Task Host Addr) :
    (s.move i p).gate = s.gate := rfl

@[simp] theorem State.move_live (s : State Host Addr) (i : ℕ) (p : Task Host Addr) :
    (s.move i p).live = s.live := rfl

@[simp] theorem State.move_fallback (s : State Host Addr) (i : ℕ) (p : Task Host Addr) :
    (s.move i p).fallback = s.fallback := rfl

@[simp] theorem State.move_issued (s : State Host Addr) (i : ℕ) (p : Task Host Addr) :
    (s.move i p).issued = s.issued := rfl

/-- What a read hands to its caller is noted. -/
def State.observe (s : State Host Addr) (host : Host) :
    Option (List Addr × CacheIdentity) → State Host Addr
  | some (addrs, identity) => { s with observed := s.observed ++ [⟨host, addrs, identity⟩] }
  | none => s

/-- The answer as `insert_capped` stores it. -/
def State.issue (s : State Host Addr) (answer : CachedAnswer Addr) : CachedAnswer Addr :=
  { answer with generation := s.generation, version := s.nextVersion }

variable [DecidableEq Host]

/-- `insert_capped` by the task `i`. -/
def State.inserted (s : State Host Addr) (i : ℕ) (host : Host) (answer : CachedAnswer Addr) :
    State Host Addr :=
  { s with
    nextVersion := (s.nextVersion + 1) % counterSize
    cacheLock := none
    live := insertCapped s.live host (s.issue answer) s.mono
    issued := s.issued ++ [⟨i, host, s.issue answer⟩] }

/-- What an insert returns: the publish of an answer hands out the identity of its entry. -/
def State.returned (s : State Host Addr) (i : ℕ) (failure : Bool) (host : Host)
    (answer : CachedAnswer Addr) : State Host Addr :=
  if failure then s.move i (.failed true)
  else (s.observe host (some (answer.addrs, cacheIdentity answer))).move i
    (.answered (some (cacheIdentity answer)))

variable [DecidableEq Addr]

/-- The successor of a state. -/
def step (s : State Host Addr) : Action Host Addr → Option (State Host Addr)
  | .tick mono wall =>
    if s.mono ≤ mono then some { s with mono := mono, wall := wall } else none
  | .rehashLive live =>
    if s.live.entries.Perm live.entries then some { s with live := live } else none
  | .rehashFallback fallback =>
    if s.fallback.entries.Perm fallback.entries then some { s with fallback := fallback }
    else none
  | .begin i =>
    match s.tasks i with
    | .idle => some (s.move i (.looking s.generation))
    | _ => none
  | .answer i host addrs validFor =>
    match s.tasks i with
    | .looking gen =>
      some (s.move i (.expiring host addrs (s.mono + clampTtl validFor) gen))
    | _ => none
  | .fail i host =>
    match s.tasks i with
    | .looking gen => some (s.move i (.failing host gen))
    | _ => none
  | .lock i =>
    match s.tasks i, s.cacheLock with
    | .publishing host answer gen, none =>
      some ({ s with cacheLock := some i }.move i (.comparing host answer gen))
    | .failing host gen, none =>
      some ({ s with cacheLock := some i }.move i (.failComparing host gen))
    | _, _ => none
  | .compare i =>
    match s.tasks i with
    | .comparing host answer gen =>
      some (if s.generation ≠ gen then
          { s with cacheLock := none }.move i (.answered none)
        else s.move i (.inserting false host answer gen))
    | .failComparing host gen =>
      some (if s.generation ≠ gen then { s with cacheLock := none }.move i (.failed false)
        else s.move i (.failCurrent host gen))
    | _ => none
  | .look i =>
    match s.tasks i with
    | .failCurrent host gen =>
      some (if freshPositive s.live host gen s.mono then
          { s with cacheLock := none }.move i (.failed false)
        else s.move i (.failAllowed host gen))
    | _ => none
  | .expire i =>
    match s.tasks i with
    | .failAllowed host gen =>
      some (s.move i (.failExpiring host (s.mono + dnsNegativeTtl) gen))
    | _ => none
  | .stamp i =>
    match s.tasks i with
    | .expiring host addrs expiresAt gen =>
      some (s.move i (.publishing host ⟨addrs, expiresAt, s.wall, 0, 0⟩ gen))
    | .failExpiring host expiresAt gen =>
      some (s.move i (.inserting true host ⟨[], expiresAt, s.wall, 0, 0⟩ gen))
    | _ => none
  | .insert i =>
    match s.tasks i with
    | .inserting failure host answer _ =>
      some ((s.inserted i host answer).returned i failure host (s.issue answer))
    | _ => none
  | .readCached host =>
    match s.cacheLock with
    | none => some (s.observe host (cachedDohAnswerObserved s.live host s.mono))
    | some _ => none
  | .readStale host =>
    match s.cacheLock with
    | none => some (s.observe host (staleFallbackAnswerObserved s.live host s.mono))
    | some _ => none
  | .invalidate i host observed triedAddrs =>
    match s.tasks i with
    | .idle =>
      -- A caller can only pass on an identity that it was given.
      if observed ∈ s.observed then
        some (s.move i (if s.generation ≠ observed.identity.generation then
          .invalidated false else .invalidating host observed triedAddrs))
      else none
    | _ => none
  | .remove i =>
    match s.tasks i, s.cacheLock with
    | .invalidating host observed triedAddrs, none =>
      some (if (s.live.get host).any fun entry =>
            observedIsCurrent entry observed.identity triedAddrs then
          { s with live := s.live.remove host }.move i (.invalidated true)
        else s.move i (.invalidated false))
    | _, _ => none
  | .flush i =>
    match s.tasks i, s.gate with
    | .idle, none => some ({ s with gate := some i }.move i .flushGated)
    | _, _ => none
  | .flushLock i =>
    match s.tasks i, s.cacheLock with
    | .flushGated, none =>
      some ({ s with cacheLock := some i }.move i (.flushing (preserved s.live s.mono)))
    | _, _ => none
  | .bump i =>
    match s.tasks i with
    | .flushing kept =>
      some ({ s with generation := (s.generation + 1) % counterSize }.move i
        (.bumped kept))
    | _ => none
  | .clear i =>
    match s.tasks i with
    | .bumped kept =>
      some ({ s with live := ∅, cacheLock := none }.move i (.merging kept))
    | _ => none
  | .seed i entries =>
    match s.tasks i with
    | .idle => some (s.move i (.seeding entries))
    | _ => none
  | .merge i =>
    match s.tasks i with
    | .merging ((host, entry) :: kept) =>
      some ({ s with fallback := mergeDiskFallbackEntry s.fallback host entry }.move i
        (.merging kept))
    | .seeding ((host, entry) :: entries) =>
      some ({ s with fallback := mergeDiskFallbackEntry s.fallback host entry }.move i
        (.seeding entries))
    | _ => none
  | .finish i =>
    match s.tasks i with
    | .merging [] => some ({ s with gate := none }.move i .finished)
    | .seeding [] => some (s.move i .finished)
    | _ => none
  | .save i =>
    match s.tasks i, s.gate with
    | .idle, none => some ({ s with gate := some i }.move i .saveGated)
    | _, _ => none
  | .readInstant i =>
    match s.tasks i with
    | .saveGated => some (s.move i (.saveTimed s.mono))
    | _ => none
  | .readLive i =>
    match s.tasks i, s.cacheLock with
    | .saveTimed nowInstant, none =>
      some (s.move i (.saveLive (liveSnapshot s.live nowInstant)))
    | _, _ => none
  | .readWall i =>
    match s.tasks i with
    | .saveLive live => some (s.move i (.saveWall live s.wall))
    | _ => none
  | .readFallback i =>
    match s.tasks i with
    | .saveWall live now =>
      some ({ s with gate := none }.move i (.saved live (diskSnapshot s.fallback live now)))
    | _ => none

/-- The stores as a machine. -/
def machine : Machine (State Host Addr) (Action Host Addr) := ⟨step⟩

/-! ### What a step can do -/

/-- `Move s a i p e`: under `a` the task `i` goes on to `p`, and the state around the tasks becomes
that of `e`. -/
inductive Move (s : State Host Addr) :
    Action Host Addr → ℕ → Task Host Addr → State Host Addr → Prop
  | begun {i : ℕ} : s.tasks i = .idle →
      Move s (.begin i) i (.looking s.generation) s
  | answered {i gen : ℕ} (host : Host) (addrs : List Addr) (validFor : ℕ) :
      s.tasks i = .looking gen →
      Move s (.answer i host addrs validFor) i
        (.expiring host addrs (s.mono + clampTtl validFor) gen) s
  | failed {i gen : ℕ} (host : Host) : s.tasks i = .looking gen →
      Move s (.fail i host) i (.failing host gen) s
  | answerLocked {i gen : ℕ} {host : Host} {answer : CachedAnswer Addr} :
      s.tasks i = .publishing host answer gen → s.cacheLock = none →
      Move s (.lock i) i (.comparing host answer gen) { s with cacheLock := some i }
  | failLocked {i gen : ℕ} {host : Host} : s.tasks i = .failing host gen →
      s.cacheLock = none →
      Move s (.lock i) i (.failComparing host gen) { s with cacheLock := some i }
  | answerStale {i gen : ℕ} {host : Host} {answer : CachedAnswer Addr} :
      s.tasks i = .comparing host answer gen → s.generation ≠ gen →
      Move s (.compare i) i (.answered none) { s with cacheLock := none }
  | answerCurrent {i gen : ℕ} {host : Host} {answer : CachedAnswer Addr} :
      s.tasks i = .comparing host answer gen → s.generation = gen →
      Move s (.compare i) i (.inserting false host answer gen) s
  | failStale {i gen : ℕ} {host : Host} : s.tasks i = .failComparing host gen →
      s.generation ≠ gen →
      Move s (.compare i) i (.failed false) { s with cacheLock := none }
  | failCurrent {i gen : ℕ} {host : Host} : s.tasks i = .failComparing host gen →
      s.generation = gen → Move s (.compare i) i (.failCurrent host gen) s
  | refused {i gen : ℕ} {host : Host} : s.tasks i = .failCurrent host gen →
      freshPositive s.live host gen s.mono = true →
      Move s (.look i) i (.failed false) { s with cacheLock := none }
  | allowed {i gen : ℕ} {host : Host} : s.tasks i = .failCurrent host gen →
      freshPositive s.live host gen s.mono = false →
      Move s (.look i) i (.failAllowed host gen) s
  | expired {i gen : ℕ} {host : Host} : s.tasks i = .failAllowed host gen →
      Move s (.expire i) i (.failExpiring host (s.mono + dnsNegativeTtl) gen) s
  | stamped {i gen expiresAt : ℕ} {host : Host} {addrs : List Addr} :
      s.tasks i = .expiring host addrs expiresAt gen →
      Move s (.stamp i) i (.publishing host ⟨addrs, expiresAt, s.wall, 0, 0⟩ gen) s
  | failStamped {i gen expiresAt : ℕ} {host : Host} :
      s.tasks i = .failExpiring host expiresAt gen →
      Move s (.stamp i) i (.inserting true host ⟨[], expiresAt, s.wall, 0, 0⟩ gen) s
  | failInserted {i gen : ℕ} {host : Host} {answer : CachedAnswer Addr} :
      s.tasks i = .inserting true host answer gen →
      Move s (.insert i) i (.failed true) (s.inserted i host answer)
  | inserted {i gen : ℕ} {host : Host} {answer : CachedAnswer Addr} :
      s.tasks i = .inserting false host answer gen →
      Move s (.insert i) i (.answered (some (cacheIdentity (s.issue answer))))
        ((s.inserted i host answer).observe host
          (some ((s.issue answer).addrs, cacheIdentity (s.issue answer))))
  | outdated {i : ℕ} {host : Host} {observed : Observation Host Addr} {triedAddrs : List Addr} :
      s.tasks i = .idle → observed ∈ s.observed →
      s.generation ≠ observed.identity.generation →
      Move s (.invalidate i host observed triedAddrs) i (.invalidated false) s
  | invalidating {i : ℕ} {host : Host} {observed : Observation Host Addr}
      {triedAddrs : List Addr} : s.tasks i = .idle → observed ∈ s.observed →
      s.generation = observed.identity.generation →
      Move s (.invalidate i host observed triedAddrs) i
        (.invalidating host observed triedAddrs) s
  | removed {i : ℕ} {host : Host} {observed : Observation Host Addr} {triedAddrs : List Addr}
      {entry : CachedAnswer Addr} : s.tasks i = .invalidating host observed triedAddrs →
      s.cacheLock = none → s.live.get host = some entry →
      observedIsCurrent entry observed.identity triedAddrs = true →
      Move s (.remove i) i (.invalidated true) { s with live := s.live.remove host }
  | notRemoved {i : ℕ} {host : Host} {observed : Observation Host Addr} {triedAddrs : List Addr} :
      s.tasks i = .invalidating host observed triedAddrs → s.cacheLock = none →
      Move s (.remove i) i (.invalidated false) s
  | flushGated {i : ℕ} : s.tasks i = .idle → s.gate = none →
      Move s (.flush i) i .flushGated { s with gate := some i }
  | flushLocked {i : ℕ} : s.tasks i = .flushGated → s.cacheLock = none →
      Move s (.flushLock i) i (.flushing (preserved s.live s.mono))
        { s with cacheLock := some i }
  | bumped {i : ℕ} {kept : List (Host × PersistedAnswer Addr)} :
      s.tasks i = .flushing kept →
      Move s (.bump i) i (.bumped kept)
        { s with generation := (s.generation + 1) % counterSize }
  | cleared {i : ℕ} {kept : List (Host × PersistedAnswer Addr)} :
      s.tasks i = .bumped kept →
      Move s (.clear i) i (.merging kept) { s with live := ∅, cacheLock := none }
  | seeded {i : ℕ} (entries : List (Host × PersistedAnswer Addr)) : s.tasks i = .idle →
      Move s (.seed i entries) i (.seeding entries) s
  | flushMerged {i : ℕ} {host : Host} {entry : PersistedAnswer Addr}
      {kept : List (Host × PersistedAnswer Addr)} :
      s.tasks i = .merging ((host, entry) :: kept) →
      Move s (.merge i) i (.merging kept)
        { s with fallback := mergeDiskFallbackEntry s.fallback host entry }
  | seedMerged {i : ℕ} {host : Host} {entry : PersistedAnswer Addr}
      {entries : List (Host × PersistedAnswer Addr)} :
      s.tasks i = .seeding ((host, entry) :: entries) →
      Move s (.merge i) i (.seeding entries)
        { s with fallback := mergeDiskFallbackEntry s.fallback host entry }
  | flushFinished {i : ℕ} : s.tasks i = .merging [] →
      Move s (.finish i) i .finished { s with gate := none }
  | seedFinished {i : ℕ} : s.tasks i = .seeding [] →
      Move s (.finish i) i .finished s
  | saveGated {i : ℕ} : s.tasks i = .idle → s.gate = none →
      Move s (.save i) i .saveGated { s with gate := some i }
  | instantRead {i : ℕ} : s.tasks i = .saveGated →
      Move s (.readInstant i) i (.saveTimed s.mono) s
  | liveRead {i nowInstant : ℕ} : s.tasks i = .saveTimed nowInstant → s.cacheLock = none →
      Move s (.readLive i) i (.saveLive (liveSnapshot s.live nowInstant)) s
  | wallRead {i : ℕ} {live : List (PersistSnapshot Host Addr)} : s.tasks i = .saveLive live →
      Move s (.readWall i) i (.saveWall live s.wall) s
  | fallbackRead {i now : ℕ} {live : List (PersistSnapshot Host Addr)} :
      s.tasks i = .saveWall live now →
      Move s (.readFallback i) i (.saved live (diskSnapshot s.fallback live now))
        { s with gate := none }

/-- The steps: a task moves, a clock moves, a map is iterated in another order, or a read hands out
an identity. -/
inductive Step (s : State Host Addr) : Action Host Addr → State Host Addr → Prop
  | moved {a : Action Host Addr} {i : ℕ} {p : Task Host Addr} {e : State Host Addr} :
      Move s a i p e → Step s a (e.move i p)
  | ticked {mono : ℕ} (wall : ℕ) : s.mono ≤ mono →
      Step s (.tick mono wall) { s with mono := mono, wall := wall }
  | rehashedLive {live : Table Host (CachedAnswer Addr)} : s.live.entries.Perm live.entries →
      Step s (.rehashLive live) { s with live := live }
  | rehashedFallback {fallback : Table Host (PersistedAnswer Addr)} :
      s.fallback.entries.Perm fallback.entries →
      Step s (.rehashFallback fallback) { s with fallback := fallback }
  | missed {a : Action Host Addr} {host : Host} : a.asks = some host → Step s a s
  | found {a : Action Host Addr} {host : Host} {entry : CachedAnswer Addr} :
      a.asks = some host → s.cacheLock = none → s.live.get host = some entry →
      Step s a (s.observe host (some (entry.addrs, cacheIdentity entry)))

omit [DecidableEq Addr] in
theorem cachedDohAnswerObserved_cases (cache : Table Host (CachedAnswer Addr)) (host : Host)
    (now : ℕ) : cachedDohAnswerObserved cache host now = none ∨
      ∃ entry, cache.get host = some entry ∧
        cachedDohAnswerObserved cache host now = some (entry.addrs, cacheIdentity entry) := by
  unfold cachedDohAnswerObserved
  cases cache.get host with
  | none => exact .inl rfl
  | some entry =>
    simp only [Option.bind_some]
    split_ifs
    exacts [.inl rfl, .inr ⟨entry, rfl, rfl⟩]

omit [DecidableEq Addr] in
theorem staleFallbackAnswerObserved_cases (cache : Table Host (CachedAnswer Addr)) (host : Host)
    (now : ℕ) : staleFallbackAnswerObserved cache host now = none ∨
      ∃ entry, cache.get host = some entry ∧
        staleFallbackAnswerObserved cache host now = some (entry.addrs, cacheIdentity entry) := by
  unfold staleFallbackAnswerObserved
  cases cache.get host with
  | none => exact .inl rfl
  | some entry =>
    simp only [Option.bind_some]
    split_ifs
    exacts [.inl rfl, .inl rfl, .inr ⟨entry, rfl, rfl⟩]

theorem step_cases (h : step s a = some t) : Step s a t := by
  cases a with simp only [step] at h
  | readCached host =>
    split at h <;> cases h
    rcases cachedDohAnswerObserved_cases s.live host s.mono with hobs | ⟨entry, hg, hobs⟩ <;>
      rw [hobs]
    exacts [.missed rfl, .found rfl ‹_› hg]
  | readStale host =>
    split at h <;> cases h
    rcases staleFallbackAnswerObserved_cases s.live host s.mono with hobs | ⟨entry, hg, hobs⟩ <;>
      rw [hobs]
    exacts [.missed rfl, .found rfl ‹_› hg]
  | insert i =>
    split at h <;> cases h
    rename_i failure host answer gen htask
    cases failure
    exacts [.moved (.inserted htask), .moved (.failInserted htask)]
  | remove i =>
    split at h <;> cases h
    split
    · rename_i hany
      obtain ⟨entry, hg, hcur⟩ := (Option.any_eq_true _ _).1 hany
      exact .moved (.removed ‹_› ‹_› hg hcur)
    · exact .moved (.notRemoved ‹_› ‹_›)
  | _ => grind -ring -linarith [Step, Move]

/-! ### The two locks -/

omit [DecidableEq Host] [DecidableEq Addr]

/-- The points at which a task holds the cache mutex. -/
def Task.holdsCache : Task Host Addr → Bool
  | .comparing .. | .failComparing .. | .failCurrent .. | .failAllowed ..
  | .failExpiring .. | .inserting .. | .flushing _ | .bumped _ => true
  | _ => false

/-- The points at which a task holds the flush gate. -/
def Task.holdsGate : Task Host Addr → Bool
  | .flushGated | .flushing _ | .bumped _ | .merging _
  | .saveGated | .saveTimed _ | .saveLive _ | .saveWall .. => true
  | _ => false

/-- The mutex and the gate are with the tasks that are at points where they hold them. -/
structure Locks (s : State Host Addr) : Prop where
  cache : Lock.Held s.cacheLock fun i => (s.tasks i).holdsCache
  gate : Lock.Held s.gate fun i => (s.tasks i).holdsGate

theorem locks_init : Locks (init : State Host Addr) := by
  constructor <;> intro i <;> simp [init, Task.holdsCache, Task.holdsGate]

@[simp] theorem State.observe_tasks (s : State Host Addr) (host : Host)
    (r : Option (List Addr × CacheIdentity)) : (s.observe host r).tasks = s.tasks := by
  cases r <;> rfl

@[simp] theorem State.observe_cacheLock (s : State Host Addr) (host : Host)
    (r : Option (List Addr × CacheIdentity)) : (s.observe host r).cacheLock = s.cacheLock := by
  cases r <;> rfl

@[simp] theorem State.observe_gate (s : State Host Addr) (host : Host)
    (r : Option (List Addr × CacheIdentity)) : (s.observe host r).gate = s.gate := by
  cases r <;> rfl

variable [DecidableEq Host] [DecidableEq Addr]

theorem Move.tasks_eq (h : Move s a i p e) : e.tasks = s.tasks := by
  cases h <;> rfl

theorem Move.mover (h : Move s a i p e) : a.mover = some i := by
  cases h <;> rfl

/-- A task that no action of a run moves is where it was. -/
theorem tasks_eq_of_run {ok : State Host Addr → Action Host Addr → Prop}
    {as : List (Action Host Addr)} {j : ℕ} (h : machine.Run ok s as t)
    (hj : ∀ a ∈ as, a.mover ≠ some j) : t.tasks j = s.tasks j := by
  induction h with
  | refl => rfl
  | @tail s t as a _ _ hstep ih =>
    rw [← ih fun b hb => hj b (List.mem_append_left _ hb)]
    have hcases : Step s a t := step_cases hstep
    cases hcases with
    | @moved _ i p e hm =>
      have hne : j ≠ i := fun h => hj a (by simp) (h ▸ hm.mover)
      rw [State.move_of_ne e hne, hm.tasks_eq]
    | _ => rfl

theorem Move.passCache (h : Move s a i p e) :
    Lock.Pass i (s.tasks i).holdsCache p.holdsCache s.cacheLock e.cacheLock := by
  cases h
  case answerLocked htask hfree | failLocked htask hfree | flushLocked htask hfree =>
    rw [htask, hfree]
    exact .take
  case answerStale | failStale | refused | failInserted | inserted | cleared =>
    rw [‹s.tasks i = _›]
    exact .drop _
  all_goals
    rw [‹s.tasks i = _›]
    exact .keep _ _

theorem Move.passGate (h : Move s a i p e) :
    Lock.Pass i (s.tasks i).holdsGate p.holdsGate s.gate e.gate := by
  cases h
  case flushGated htask hfree | saveGated htask hfree =>
    rw [htask, hfree]
    exact .take
  case flushFinished | fallbackRead =>
    rw [‹s.tasks i = _›]
    exact .drop _
  all_goals
    rw [‹s.tasks i = _›]
    exact .keep _ _

theorem locks_step (hs : Locks s) (h : Step s a t) : Locks t := by
  cases h with
  | @moved _ i p e hm =>
    have hheld (holds : Task Host Addr → Bool) : (fun j => holds ((e.move i p).tasks j)) =
        Function.update (fun j => holds (s.tasks j)) i (holds p) := by
      rw [← hm.tasks_eq]
      exact Function.comp_update holds e.tasks i p
    constructor
    · rw [hheld Task.holdsCache]
      exact hs.cache.update hm.passCache
    · rw [hheld Task.holdsGate]
      exact hs.gate.update hm.passGate
  | _ => exact ⟨hs.cache, hs.gate⟩

theorem locks_of_run {ok : State Host Addr → Action Host Addr → Prop} {as : List (Action Host Addr)}
    (h : machine.Run ok init as s) : Locks s :=
  h.invariant (fun _ _ _ hs _ hstep => locks_step hs (step_cases hstep)) locks_init

end Dns
