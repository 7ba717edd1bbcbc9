/-
**The query statistics store: a ledger of seconds in a database.**

The store counts questions by domain, type, class and second, for the seconds of a window that ends
at the *high-water mark*: the latest clock reading or receipt that it has processed.  Every batch of
events and every advance of the clock deletes what has left the window in the same transaction that
moves the mark.  A refresh sums the ledger up by domain and writes the popular questions under a new
generation, which stays readable as long as it is leased; no more than two generations may be leased
at a time.
-/

import TorSocks5.Tally

set_option autoImplicit false

namespace Statistics

/-! ### Events -/

def batchCapacity : ℕ := 256

def windowSeconds : ℤ := 2592000

/-- The largest signed integer of the database. -/
def i64Max : ℕ := 2 ^ 63 - 1

abbrev Domain := List UInt8

/-- One question that was received. -/
structure Event where
  domain : Domain
  rrType : UInt16
  dnsClass : UInt16
  second : ℤ
  deriving DecidableEq

/-- The functions of the name library. -/
structure Names (N : Type) where
  fromAscii : Domain → Option N
  normalizedName : N → Domain

variable {N : Type}

/-- The spelling is the one that its name is normalized to. -/
def canonical (names : Names N) (domain : Domain) : Bool :=
  match names.fromAscii domain with
  | some name => names.normalizedName name = domain
  | none => false

/-- There is a date at a second after the epoch. -/
def hasDate (second : ℤ) : Bool := -377705116800 ≤ second && second < 253402300800

/-- A receipt that may enter the ledger and move the clock. -/
def valid (names : Names N) (event : Event) : Bool :=
  0 ≤ event.second && hasDate event.second && event.domain.length ≤ 1024 &&
    canonical names event.domain

/-! ### The database and the store -/

/-- A popular question of one generation. -/
structure Target where
  generation : ℕ
  domain : Domain
  rrType : UInt16
  dnsClass : UInt16
  deriving DecidableEq

/-- The database: the ledger, its summary by domain, the popular questions and the metadata. -/
structure Database where
  rows : Table Event ℕ
  summary : Table Domain ℕ
  popular : Table Target ℕ
  highwater : ℤ
  generation : ℕ
  refreshedAt : ℤ
  accepted : ℕ
  saved : ℕ
  expired : ℕ
  droppedFull : ℕ
  unsaved : ℕ
  invalidRestored : ℕ
  lastError : Option String

/-- The database as the schema creates it. -/
def Database.fresh : Database where
  rows := ∅
  summary := ∅
  popular := ∅
  highwater := 0
  generation := 0
  refreshedAt := 0
  accepted := 0
  saved := 0
  expired := 0
  droppedFull := 0
  unsaved := 0
  invalidRestored := 0
  lastError := none

/-- The open store.  A lease is a generation and whether somebody still holds it. -/
structure Store where
  highwater : ℤ
  generation : ℕ
  leases : List (ℕ × Bool)
  fault : Option String
  deriving DecidableEq

/-- The telemetry of the running process, as an operation reads it. -/
structure Status where
  accepted : ℕ
  droppedFull : ℕ
  unsaved : ℕ
  lastError : Option String

/-- The accepted total, at least what is completed, and what of it was not saved; nothing if the sum
is out of range. -/
def restoreTotals (accepted saved expired unsaved : ℕ) : Option (ℕ × ℕ) :=
  if saved + expired + unsaved ≤ i64Max then
    let accepted := max accepted (saved + expired + unsaved)
    some (accepted, accepted - saved - expired)
  else none

def rangeError : String := "statistics restored telemetry exceeds signed counter range"

def conversionError : String := "out of range integral type conversion attempted"

def overflowError : String := "integer overflow"

def futureError : String :=
  "persisted statistics highwater is in the future; restore refused until UTC catches up"

/-- The second lies in the window that ends at a mark. -/
def inWindow (highwater : ℤ) (event : Event) : Bool :=
  highwater - windowSeconds < event.second && event.second ≤ highwater

/-! ### Opening -/

def advance (db : Database) (store : Store) (now : ℤ) : Database × Store :=
  let highwater := max store.highwater now
  ({ db with rows := db.rows.retain fun e _ => inWindow highwater e, highwater := highwater },
    { store with highwater := highwater })

/-- The rows that survive a restore: in the window, not after now, and with a canonical name. -/
def restorable (names : Names N) (highwater now : ℤ) (event : Event) : Bool :=
  event.domain.length ≤ 1024 && highwater - windowSeconds < event.second &&
    event.second ≤ min highwater now && canonical names event.domain

def validateRestore (names : Names N) (db : Database) (store : Store) (now : ℤ) : Database :=
  let rows := db.rows.retain fun e _ => restorable names store.highwater now e
  let invalid := db.rows.len - rows.len
  { db with
    rows := rows
    invalidRestored := db.invalidRestored + invalid
    lastError :=
      if 0 < invalid then some "discarded invalid/expired restored rows" else db.lastError }

/-- Opening: the database is refused if its metadata are not in order or its mark lies in the
future; then no row is touched. -/
def openStore (names : Names N) (db : Database) (now : ℤ) : Database × Option Store :=
  if db.highwater < 0 || db.refreshedAt < 0 || db.highwater < db.refreshedAt ||
      !hasDate db.highwater then (db, none)
  else if now < db.highwater then
    ({ db with lastError := some futureError }, none)
  else
    match restoreTotals db.accepted db.saved db.expired db.unsaved with
    | none => (db, none)
    | some _ =>
      let store : Store := ⟨max db.highwater now, db.generation, [], none⟩
      let db := validateRestore names { db with popular := ∅ } store now
      let (db, store) := advance db store now
      (db, some store)

/-! ### Batches -/

/-- The classes of a batch: what is counted, what is too old and what has no authority. -/
structure Classes where
  saved : ℕ
  expired : ℕ
  invalid : ℕ

/-- The mark after a batch. -/
def batchHighwater (names : Names N) (store : Store) (events : List Event) (now : ℤ) : ℤ :=
  (events.filter (valid names)).foldl (fun mark e => max mark e.second) (max store.highwater now)

/-- The event is counted in the window that ends at a mark. -/
def counted (names : Names N) (highwater : ℤ) (event : Event) : Bool :=
  valid names event && highwater - windowSeconds < event.second

/-- The event is valid and has left the window that ends at a mark. -/
def outdated (names : Names N) (highwater : ℤ) (event : Event) : Bool :=
  valid names event && event.second ≤ highwater - windowSeconds

def classify (names : Names N) (highwater : ℤ) (events : List Event) : Classes where
  saved := (events.filter (counted names highwater)).length
  expired := (events.filter (outdated names highwater)).length
  invalid := (events.filter fun e => !valid names e).length

/-- The ledger after a batch: what has left the window goes, and every key of the batch is added
with its count in the batch. -/
def batchRows (names : Names N) (rows : Table Event ℕ) (highwater : ℤ) (events : List Event) :
    Table Event ℕ :=
  let counts := Tally.addAll ∅ ((events.filter (counted names highwater)).map fun e => (e, 1))
  Tally.addAll (rows.retain fun e _ => inWindow highwater e) (Tally.pairs counts)

/-- One transaction for a batch; `failure` is the error of the database, if it has one. -/
def saveBatch (names : Names N) (db : Database) (store : Store) (events : List Event) (now : ℤ)
    (status : Status) (failure : Option String) : Except String (Database × Store × Classes) := do
  if batchCapacity < events.length then throw "statistics batch exceeds capacity"
  let highwater := batchHighwater names store events now
  let classes := classify names highwater events
  let rows := batchRows names db.rows highwater events
  if rows.entries.any fun b => i64Max < b.2 then throw overflowError
  let saved := db.saved + classes.saved
  let expired := db.expired + classes.expired
  let unsaved := status.unsaved + classes.invalid
  match restoreTotals status.accepted saved expired unsaved with
  | none => throw rangeError
  | some (accepted, _) =>
    if i64Max < accepted || i64Max < status.droppedFull then throw conversionError
    match failure with
    | some error => throw error
    | none =>
      return ({ db with
          rows := rows
          highwater := highwater
          saved := saved
          expired := expired
          accepted := accepted
          droppedFull := status.droppedFull
          unsaved := unsaved
          lastError :=
            if 0 < classes.invalid then some "discarded invalid live statistics receipts"
            else db.lastError },
        { store with highwater := highwater }, classes)

/-- What a batch leaves behind, and what it adds to the counters of the process. -/
structure BatchOutcome where
  db : Database
  store : Store
  saved : ℕ
  expired : ℕ
  unsaved : ℕ
  error : Option String

/-- A batch: a failure latches, and a latched store discards. -/
def batch (names : Names N) (db : Database) (store : Store) (events : List Event) (now : ℤ)
    (status : Status) (failure : Option String) : BatchOutcome :=
  if events = [] then ⟨db, store, 0, 0, 0, none⟩
  else
    match store.fault with
    | some fault => ⟨db, store, 0, 0, events.length, some fault⟩
    | none =>
      match saveBatch names db store events now status failure with
      | .ok (db, store, classes) =>
        ⟨db, store, classes.saved, classes.expired, classes.invalid, none⟩
      | .error error => ⟨db, { store with fault := some error }, 0, 0, events.length, some error⟩

/-! ### Refreshes -/

/-- The generations that nobody holds any longer are deleted. -/
def pruneGenerations (db : Database) (store : Store) : Database × Store :=
  ({ db with popular := db.popular.retain fun t _ =>
      !store.leases.any fun lease => lease.1 = t.generation && !lease.2 },
    { store with leases := store.leases.filter (·.2) })

/-- A refresh does not get to the ledger: a fault is latched, or two generations are leased. -/
def refused (store : Store) (final : Bool) : Option String :=
  match store.fault with
  | some fault => some fault
  | none =>
    if !final && 2 ≤ (store.leases.filter (·.2)).length then
      some "two statistics generations still leased; release old snapshot before refresh"
    else none

/-- The question of an event, in a generation. -/
def target (generation : ℕ) (event : Event) : Target :=
  ⟨generation, event.domain, event.rrType, event.dnsClass⟩

/-- The sums by domain. -/
def summarize (rows : Table Event ℕ) : Table Domain ℕ :=
  Tally.group Event.domain (Tally.pairs rows)

/-- The questions of the domains with more than a hundred, summed up by type and class. -/
def popularTargets (rows : Table Event ℕ) (generation : ℕ) : Table Target ℕ :=
  Tally.group (target generation)
    ((Tally.pairs rows).filter fun q => 100 < Tally.total (summarize rows) q.1.domain)

/-- The environment of a refresh: whether the text file is written, and whether anybody who could
be given the generation is left. -/
structure RefreshOutcome where
  publishError : Option String
  owned : Bool

/-- The transaction of a refresh, after the mark has advanced. -/
def writeGeneration (db : Database) (store : Store) (status : Status) (final : Bool) :
    Except String (Database × Store) := do
  if i64Max ≤ store.generation then throw "generation exhausted"
  let generation := store.generation + 1
  let summary := summarize db.rows
  if summary.entries.any fun b => i64Max < b.2 then throw overflowError
  -- the generation is new, so no row of it can be there already
  let popular :=
    if final then db.popular
    else Tally.addAll db.popular (Tally.pairs (popularTargets db.rows generation))
  match restoreTotals status.accepted db.saved db.expired status.unsaved with
  | none => throw rangeError
  | some (accepted, _) =>
    if i64Max < accepted || i64Max < status.droppedFull then throw conversionError
    return ({ db with
        summary := summary
        popular := popular
        generation := generation
        refreshedAt := store.highwater
        accepted := accepted
        droppedFull := status.droppedFull
        unsaved := status.unsaved
        lastError := status.lastError },
      { store with generation := generation })

/-- A refresh: its result, the generation it hands out if it is not the final one, and what it
leaves behind. -/
def refresh (db : Database) (store : Store) (now : ℤ) (status : Status) (final : Bool)
    (outcome : RefreshOutcome) : Except String (Option ℕ) × Database × Store :=
  match store.fault with
  | some fault => (.error fault, db, store)
  | none =>
    let (db, store) := pruneGenerations db store
    match refused store final with
    | some error => (.error error, db, store)
    | none =>
      let (db, store) := advance db store now
      match writeGeneration db store status final with
      | .error error => (.error error, db, store)
      | .ok (db, store) =>
        match outcome.publishError with
        | some error =>
          (.error error,
            { db with popular := db.popular.retain fun t _ =>
              t.generation ≠ store.generation },
            store)
        | none =>
          if final then (.ok none, db, store)
          else if outcome.owned then
            (.ok (some store.generation), db,
              { store with leases := store.leases ++ [(store.generation, true)] })
          else (.error "statistics owner closed", db, store)

/-- The totals that are written when the process ends. -/
def persistHealth (db : Database) (status : Status) : Except String Database :=
  match restoreTotals status.accepted db.saved db.expired status.unsaved with
  | none => .error rangeError
  | some (accepted, _) =>
    if i64Max < accepted || i64Max < status.droppedFull then .error conversionError
    else
      .ok { db with
        accepted := accepted
        droppedFull := status.droppedFull
        unsaved := status.unsaved
        lastError := status.lastError }

/-! ### Batches, summed up -/

/-- **Every event of a batch is in exactly one class.** -/
theorem classes_total (names : Names N) (highwater : ℤ) (events : List Event) :
    (events.filter (counted names highwater) ++ events.filter (outdated names highwater) ++
      events.filter fun e => !valid names e).Perm events := by
  have hvalid : (events.filter (counted names highwater) ++
      events.filter (outdated names highwater)).Perm (events.filter (valid names)) := by
    have hold : events.filter (outdated names highwater) =
        (events.filter (valid names)).filter fun e =>
          !decide (highwater - windowSeconds < e.second) := by
      rw [List.filter_filter]
      refine List.filter_congr ?_
      intro e _
      rw [Bool.eq_iff_iff]
      simp [outdated, and_comm]
    have hnew : events.filter (counted names highwater) =
        (events.filter (valid names)).filter fun e =>
          decide (highwater - windowSeconds < e.second) := by
      rw [List.filter_filter]
      refine List.filter_congr ?_
      intro e _
      rw [Bool.eq_iff_iff]
      simp [counted, and_comm]
    rw [hold, hnew]
    exact List.filter_append_perm _ _
  exact (hvalid.append_right _).trans (List.filter_append_perm _ _)

section Batch

variable {names : Names N} {db : Database} {store : Store} {events : List Event} {now : ℤ}
  {status : Status} {failure : Option String}

theorem saveBatch_ok {db' : Database} {store' : Store} {classes : Classes}
    (h : saveBatch names db store events now status failure = .ok (db', store', classes)) :
    db'.rows = batchRows names db.rows (batchHighwater names store events now) events ∧
      db'.highwater = batchHighwater names store events now ∧
      store' = { store with highwater := batchHighwater names store events now } ∧
      db'.popular = db.popular ∧ db'.generation = db.generation ∧
      db'.refreshedAt = db.refreshedAt ∧
      classes = classify names (batchHighwater names store events now) events := by
  unfold saveBatch at h
  simp only [bind, Except.bind, pure, Except.pure, throw, throwThe, MonadExceptOf.throw] at h
  repeat' split at h
  all_goals cases h
  all_goals exact ⟨rfl, rfl, rfl, rfl, rfl, rfl, rfl⟩

/-- A batch that reports an error leaves the database alone, and nothing of it is saved. -/
theorem batch_error {error : String}
    (h : (batch names db store events now status failure).error = some error) :
    (batch names db store events now status failure).db = db ∧
      (batch names db store events now status failure).store.highwater = store.highwater ∧
      (batch names db store events now status failure).saved = 0 ∧
      (batch names db store events now status failure).expired = 0 ∧
      (batch names db store events now status failure).unsaved = events.length := by
  grind [batch]

/-- A batch without an error counts its classes by the mark that it leaves. -/
theorem batch_ok (h : (batch names db store events now status failure).error = none) :
    let outcome := batch names db store events now status failure
    outcome.saved = (events.filter (counted names outcome.store.highwater)).length ∧
      outcome.expired = (events.filter (outdated names outcome.store.highwater)).length ∧
      outcome.unsaved = (events.filter fun e => !valid names e).length := by
  unfold batch at h ⊢
  split
  · next hnil =>
    subst hnil
    exact ⟨rfl, rfl, rfl⟩
  · next hne =>
    split
    · next fault hfault => simp [hne, hfault] at h
    · split
      · next db' store' classes hsave =>
        obtain ⟨-, -, rfl, -, -, -, rfl⟩ := saveBatch_ok hsave
        exact ⟨rfl, rfl, rfl⟩
      · next error hsave => simp_all

end Batch

end Statistics
