/-
**The DNS packet cache: entries and two clocks, admission and eviction, the file.**

An entry keeps the packet as it came, the lifetime it was admitted with and the time it was
resolved at.  Its age is the greater of two: the wall-clock time since it was resolved, and the age
it had when it was last read plus the monotonic time since.  Reading an entry takes the age it then
has as the new base, so the age survives a wall clock that is set back.
-/

import TorSocks5.BigEndian
import TorSocks5.DnsMessage
import TorSocks5.Machine
import TorSocks5.Table

set_option autoImplicit false

namespace DnsServer

/-! ### Clocks and entries -/

/-- Maximum number of cached query tuples. -/
def dnsCacheCap : ℕ := 4096

def maxPacket : ℕ := 65535

def maxPayload : ℕ := 16 * 1024 * 1024

/-- A wall-clock time, between the years -9999 and 9999. -/
structure OffsetDateTime where
  nanos : ℤ
  lower : -377705116800 * 1000000000 ≤ nanos
  upper : nanos < 253402300800 * 1000000000
  deriving DecidableEq

/-- The time from a stamp to now, unless the stamp lies in the future. -/
def wallAge (stamp now : OffsetDateTime) : Option ℕ :=
  if stamp.nanos ≤ now.nanos then some (now.nanos - stamp.nanos).toNat else none

/-- A cached packet. -/
structure Entry where
  packet : List UInt8
  ttl : ℕ
  resolvedAt : OffsetDateTime
  admitted : ℕ
  initialAge : ℕ
  deriving DecidableEq

/-- The age of an entry by either clock, whichever is greater. -/
def Entry.age (entry : Entry) (now : OffsetDateTime) (instant : ℕ) : ℕ :=
  max (entry.initialAge + (instant - entry.admitted)) ((wallAge entry.resolvedAt now).getD 0)

def Entry.remaining (entry : Entry) (now : OffsetDateTime) (instant : ℕ) : ℕ :=
  entry.ttl - entry.age now instant

/-- The entry with its present age as the new base. -/
def Entry.refresh (entry : Entry) (now : OffsetDateTime) (instant : ℕ) : Entry :=
  { entry with initialAge := entry.age now instant, admitted := instant }

/-- The entry has not expired. -/
def unexpired (now : OffsetDateTime) (instant : ℕ) (entry : Entry) : Bool :=
  entry.remaining now instant ≠ 0

abbrev Entries := Table Query Entry

/-- The key of a question: its name with the root dot. -/
def admittedQuery (query : Query) : Query :=
  { query with name := { query.name with fqdn := true } }

theorem admittedQuery_eq {q q' : Query} (h : sameQuestion q q' = true) :
    admittedQuery q = admittedQuery q' := by
  obtain ⟨hname, htype, hclass⟩ := sameQuestion_iff.1 h
  simp [admittedQuery, hname, htype, hclass]

theorem admittedQuery_of_fqdn {q : Query} (h : q.name.fqdn = true) : admittedQuery q = q := by
  obtain ⟨⟨labels, fqdn⟩, type, dnsClass⟩ := q
  simp_all [admittedQuery]

/-! ### Reading -/

/-- One resolved answer. -/
structure ResolvedAnswer (X : Type) where
  message : Message X
  ttl : ℕ
  resolvedAt : OffsetDateTime
  deriving DecidableEq

/-- The functions of other libraries that the cache rests on. -/
structure Library (X : Type) where
  /-- Encoding a message; it fails when the message does not fit. -/
  toVec : Message X → Option (List UInt8)
  fromVec : List UInt8 → Option (Message X)
  /-- The date at a number of nanoseconds, if it is in range. -/
  fromUnixTimestampNanos : ℤ → Option OffsetDateTime
  fromUnixTimestampNanos_nanos : ∀ t, fromUnixTimestampNanos t.nanos = some t

variable {X : Type}

variable {lib : Library X} {now : OffsetDateTime} {instant : ℕ} {entries : Entries} {entry : Entry}

/-- The binding that a question finds: under itself, or under a key that differs in the root dot. -/
def find (entries : Entries) (query : Query) : Option ((_ : Query) × Entry) :=
  if query.name.fqdn then (entries.get query).map (Sigma.mk query)
  else entries.entries.find? fun b => sameQuestion b.1 query

/-- The cache without a question. -/
def dropQuestion (entries : Entries) (query : Query) : Entries :=
  if query.name.fqdn then entries.remove query
  else entries.retain fun key _ => !sameQuestion key query

/-- An ordinary record aged by a number of seconds. -/
def ageRecord (seconds : ℕ) (record : Record X) : Record X :=
  if record.recordType ≠ .opt then record.decrementTtl seconds else record

/-- The answer that is made of an entry that was just refreshed. -/
def serve (lib : Library X) (query : Query) (entry : Entry) (now : OffsetDateTime) (instant : ℕ) :
    Option (ResolvedAnswer X) := do
  let age := entry.age now instant
  let message ← lib.fromVec entry.packet
  let seconds := min (age / second) (2 ^ 32 - 1)
  return {
    message := (normalizeNegativeSoaTtl query message).mapRecords (ageRecord seconds)
    ttl := entry.ttl - age
    resolvedAt := now }

/-- Reading: an expired entry is dropped, any other is refreshed and served. -/
def getAt (lib : Library X) (entries : Entries) (query : Query) (now : OffsetDateTime)
    (instant : ℕ) : Option (ResolvedAnswer X) × Entries :=
  match find entries query with
  | none => (none, entries)
  | some ⟨key, entry⟩ =>
    if entry.remaining now instant = 0 then (none, dropQuestion entries query)
    else
      let entry := entry.refresh now instant
      (serve lib query entry now instant, entries.insert key entry)

/-! ### Admission and eviction -/

/-- The bytes of all packets. -/
def payload (entries : Entries) : ℕ := entries.sum fun entry => entry.packet.length

/-- The eviction loop, for a number of rounds: as long as a packet of `need` bytes does not fit, the
entry that expires soonest goes.  `bytes` is the running sum; no value says that the rounds ran
out. -/
def evictLoop (need : ℕ) (now : OffsetDateTime) (instant : ℕ) :
    ℕ → Entries → ℕ → Option Entries
  | 0, _, _ => none
  | rounds + 1, entries, bytes =>
    if dnsCacheCap ≤ entries.len ∨ maxPayload < bytes + need then
      match entries.entries.argmin fun b => b.2.remaining now instant with
      | none => some entries
      | some victim =>
        evictLoop need now instant rounds (entries.remove victim.1)
          (bytes - victim.2.packet.length)
    else some entries

/-- The loop from the sum of the packets; `evictLoop_isSome` says that the rounds suffice. -/
def evict (need : ℕ) (now : OffsetDateTime) (instant : ℕ) (entries : Entries) : Entries :=
  (evictLoop need now instant (entries.len + 1) entries (payload entries)).getD entries

/-- The entries that an admission finds: nothing expired, nothing under the key. -/
def makeRoom (entries : Entries) (key : Query) (now : OffsetDateTime) (instant : ℕ) : Entries :=
  (entries.retain fun _ existing => unexpired now instant existing).remove key

/-- `admit`: an entry takes the place of what is evicted for it. -/
def admitEntry (entries : Entries) (key : Query) (entry : Entry) (now : OffsetDateTime)
    (instant : ℕ) : Entries :=
  (evict entry.packet.length now instant (makeRoom entries key now instant)).insert key entry

/-- The entry that an answer is admitted as, if it passes every check. -/
def admission [DecidableEq X] (lib : Library X) (query : Query) (answer : ResolvedAnswer X)
    (now : OffsetDateTime) (instant : ℕ) : Option Entry := do
  let policyTtl ← cacheTtl query answer.message
  let ttl := min answer.ttl policyTtl
  let initialAge ← wallAge answer.resolvedAt now
  guard (initialAge < ttl)
  let packet ← lib.toVec answer.message
  guard (packet.length ≤ maxPacket)
  let decoded ← lib.fromVec packet
  guard (decoded.eqv answer.message = true ∧ recordTtls decoded = recordTtls answer.message)
  return {
    packet := packet
    ttl := ttl
    resolvedAt := answer.resolvedAt
    admitted := instant
    initialAge := initialAge }

def insertAt [DecidableEq X] (lib : Library X) (entries : Entries) (query : Query)
    (answer : ResolvedAnswer X) (now : OffsetDateTime) (instant : ℕ) : Entries :=
  match admission lib query answer now instant with
  | none => entries
  | some entry => admitEntry entries (admittedQuery query) entry now instant

/-! ### The file -/

/-- What is written of an entry: a loss that the wall clock does not show shortens its lifetime. -/
def Entry.snapshot (entry : Entry) (now : OffsetDateTime) (instant : ℕ) : Entry :=
  { entry with
    ttl := min entry.ttl
      (entry.remaining now instant + (wallAge entry.resolvedAt now).getD 0) }

/-- Saving: what is written, and what stays in the cache. -/
def save (entries : Entries) (now : OffsetDateTime) (instant : ℕ) : List Entry × Entries :=
  let kept := entries.retain fun _ entry => unexpired now instant entry
  (kept.entries.map fun b => b.2.snapshot now instant, kept)

/-- The bytes `TOR-DNS-PACKETS`, a zero and the version. -/
def magic : List UInt8 :=
  [84, 79, 82, 45, 68, 78, 83, 45, 80, 65, 67, 75, 69, 84, 83, 0, 1]

def frameHeader : ℕ := 32

def maxFile : ℕ := maxPayload + dnsCacheCap * frameHeader + magic.length

/-- The frame of an entry: stamp, seconds, nanoseconds, length and packet. -/
def encodeFrame (entry : Entry) : List UInt8 :=
  BigEndian.encodeSigned 16 entry.resolvedAt.nanos ++
    (BigEndian.encode 8 (entry.ttl / second) ++
      (BigEndian.encode 4 (entry.ttl % second) ++
        (BigEndian.encode 4 entry.packet.length ++ entry.packet)))

/-- The file of a list of entries; a packet too long for its length field is an error. -/
def encodeFile (entries : List Entry) : Option (List UInt8) :=
  if ∀ entry ∈ entries, entry.packet.length < 2 ^ 32 then
    some (magic ++ entries.flatMap encodeFrame)
  else none

/-- The fields of a frame, as they are read. -/
structure Frame where
  stamp : ℤ
  seconds : ℕ
  nanos : ℕ
  packet : List UInt8

/-- The first frame and the rest; nothing if it is truncated. -/
def readFrame (data : List UInt8) : Option (Frame × List UInt8) := do
  let (stamp, data) ← BigEndian.split 16 data
  let (seconds, data) ← BigEndian.split 8 data
  let (nanos, data) ← BigEndian.split 4 data
  let (length, data) ← BigEndian.split 4 data
  let (packet, data) ← BigEndian.split (BigEndian.decode length) data
  return (⟨BigEndian.decodeSigned stamp, BigEndian.decode seconds, BigEndian.decode nanos, packet⟩,
    data)

/-- The binding that a frame stands for, if it is in order. -/
def frameEntry (lib : Library X) (frame : Frame) (now : OffsetDateTime) (instant : ℕ) :
    Option (Query × Entry) := do
  guard (frame.packet.length ≤ maxPacket)
  let resolvedAt ← lib.fromUnixTimestampNanos frame.stamp
  guard (frame.nanos < 1000000000)
  let ttl := frame.seconds * second + frame.nanos
  let initialAge ← wallAge resolvedAt now
  let message ← lib.fromVec frame.packet
  let query ← message.queries.head?
  let policyTtl ← cacheTtl query message
  let ttl := min ttl policyTtl
  guard (initialAge < ttl)
  return (admittedQuery query, {
    packet := frame.packet
    ttl := ttl
    resolvedAt := resolvedAt
    admitted := instant
    initialAge := initialAge })

/-- The frames of an input, a bounded number of them, admitted in turn. -/
def decodeFrames (lib : Library X) (now : OffsetDateTime) (instant : ℕ) :
    ℕ → List UInt8 → Entries → Entries
  | 0, _, entries => entries
  | frames + 1, data, entries =>
    match readFrame data with
    | none => entries
    | some (frame, rest) =>
      decodeFrames lib now instant frames rest
        (match frameEntry lib frame now instant with
          | none => entries
          | some (key, entry) => admitEntry entries key entry now instant)

def decode (lib : Library X) (data : List UInt8) (now : OffsetDateTime) (instant : ℕ) : Entries :=
  if maxFile < data.length || !magic.isPrefixOf data then ∅
  else decodeFrames lib now instant dnsCacheCap (data.drop magic.length) ∅

/-- Loading: a file that cannot be read leaves the cache empty. -/
def load (lib : Library X) (file : Option (List UInt8)) (now : OffsetDateTime) (instant : ℕ) :
    Entries :=
  match file with
  | none => ∅
  | some data => decode lib data now instant

/-! ### Where entries come from -/

variable {query key k : Query} {e : Entry} {answer : ResolvedAnswer X}
theorem find_spec (h : find entries query = some ⟨key, entry⟩) :
    entries.get key = some entry ∧ sameQuestion key query = true := by
  unfold find at h
  split at h
  · obtain ⟨e, he, heq⟩ := Option.map_eq_some_iff.1 h
    obtain ⟨rfl, rfl⟩ : query = key ∧ e = entry := by simpa using heq
    exact ⟨he, sameQuestion_iff.2 ⟨rfl, rfl, rfl⟩⟩
  · have hmem := List.mem_of_find?_eq_some h
    have hsame := List.find?_some h
    exact ⟨Table.mem_entries.1 hmem, hsame⟩

theorem get_of_get_dropQuestion
    (h : (dropQuestion entries query).get k = some e) : entries.get k = some e := by
  unfold dropQuestion at h
  split_ifs at h
  · exact Table.get_of_get_remove h
  · exact (Table.get_of_get_retain h).1

theorem get_of_get_evictLoop {need : ℕ} : ∀ {rounds : ℕ} {entries rest : Entries} {bytes : ℕ},
      evictLoop need now instant rounds entries bytes = some rest →
        rest.get k = some e → entries.get k = some e := by
  intro rounds
  induction rounds with
  | zero => exact fun h => by simp [evictLoop] at h
  | succ rounds ih =>
    intro entries rest bytes h hget
    unfold evictLoop at h
    repeat' split at h
    · cases h
      exact hget
    · exact Table.get_of_get_remove (ih h hget)
    · cases h
      exact hget

theorem get_of_get_evict {need : ℕ} (h : (evict need now instant entries).get k = some e) :
    entries.get k = some e := by
  unfold evict at h
  cases hloop : evictLoop need now instant (entries.len + 1) entries (payload entries) with
  | none => simpa [hloop] using h
  | some rest => exact get_of_get_evictLoop hloop (by simpa [hloop] using h)

theorem get_admit (h : (admitEntry entries key entry now instant).get k = some e) :
    (k = key ∧ e = entry) ∨
      (k ≠ key ∧ entries.get k = some e ∧ unexpired now instant e = true) := by
  unfold admitEntry at h
  rcases eq_or_ne k key with rfl | hk
  · rw [Table.get_insert_self] at h
    exact .inl ⟨rfl, (Option.some.inj h).symm⟩
  · rw [Table.get_insert_of_ne _ hk] at h
    exact .inr ⟨hk, Table.get_of_get_retain (Table.get_of_get_remove (get_of_get_evict h))⟩

/-- A property of bindings that every frame in order has, and that an admission keeps, is one of
every loaded entry. -/
theorem get_decodeFrames {P : Query → Entry → Prop}
    (hframe : ∀ frame k e, frameEntry lib frame now instant = some (k, e) → P k e) :
    ∀ {frames : ℕ} {data : List UInt8} {entries : Entries},
      (∀ k e, entries.get k = some e → P k e) →
        ∀ k e, (decodeFrames lib now instant frames data entries).get k = some e → P k e := by
  intro frames
  induction frames with
  | zero => exact id
  | succ frames ih =>
    intro data entries hall
    unfold decodeFrames
    split
    · exact hall
    · refine ih ?_
      split
      · exact hall
      · next key entry hentry =>
        intro k e hget
        rcases get_admit hget with ⟨rfl, rfl⟩ | ⟨-, hold, -⟩
        · exact hframe _ _ _ hentry
        · exact hall k e hold

theorem get_load {file : Option (List UInt8)} {P : Query → Entry → Prop}
    (hframe : ∀ frame k e, frameEntry lib frame now instant = some (k, e) → P k e) :
    ∀ k e, (load lib file now instant).get k = some e → P k e := by
  have hempty : ∀ k e, (∅ : Entries).get k = some e → P k e := by simp
  unfold load
  split
  · exact hempty
  · unfold decode
    split_ifs
    · exact hempty
    · exact get_decodeFrames hframe hempty

/-! ### Every sequence of operations -/

/-- A reading of an entry: when it was made, and the age it went by. -/
structure Reading where
  instant : ℕ
  age : ℕ
  deriving DecidableEq

/-- Where an entry came from: the insertion that admitted it, and the readings since. -/
structure Origin (X : Type) where
  query : Query
  answer : ResolvedAnswer X
  now : OffsetDateTime
  instant : ℕ
  readings : List Reading
  deriving DecidableEq

/-- The cache, and the origin of every key inserted since the last load. -/
structure State (X : Type) where
  entries : Entries
  origins : Query → Option (Origin X)

def State.init : State X := ⟨∅, fun _ => none⟩

/-- The operations with the clock readings they make.  A hash map may hand its bindings out in
another order at any time, which is the last one. -/
inductive Action (X : Type)
  | insert (query : Query) (answer : ResolvedAnswer X) (now : OffsetDateTime) (instant : ℕ)
  | get (query : Query) (now : OffsetDateTime) (instant : ℕ)
  | save (now : OffsetDateTime) (instant : ℕ)
  | load (file : Option (List UInt8)) (now : OffsetDateTime) (instant : ℕ)
  | rehash (entries : Entries)

/-- The origin of a key once more read. -/
def Origin.read (origin : Origin X) (entry : Entry) (now : OffsetDateTime) (instant : ℕ) :
    Origin X :=
  { origin with readings := ⟨instant, entry.age now instant⟩ :: origin.readings }

/-- The origins after a read. -/
def readOrigins (s : State X) (query : Query) (now : OffsetDateTime) (instant : ℕ) :
    Query → Option (Origin X) :=
  match find s.entries query with
  | none => s.origins
  | some ⟨key, entry⟩ =>
    if entry.remaining now instant = 0 then s.origins
    else
      Function.update s.origins key ((s.origins key).map fun o => o.read entry now instant)

variable [DecidableEq X]

/-- The origins after an insertion. -/
def insertOrigins (lib : Library X) (s : State X) (query : Query) (answer : ResolvedAnswer X)
    (now : OffsetDateTime) (instant : ℕ) : Query → Option (Origin X) :=
  match admission lib query answer now instant with
  | none => s.origins
  | some _ =>
    Function.update s.origins (admittedQuery query) (some ⟨query, answer, now, instant, []⟩)

def step (lib : Library X) (s : State X) : Action X → Option (State X)
  | .insert query answer now instant =>
    some ⟨insertAt lib s.entries query answer now instant,
      insertOrigins lib s query answer now instant⟩
  | .get query now instant =>
    some ⟨(getAt lib s.entries query now instant).2, readOrigins s query now instant⟩
  | .save now instant => some ⟨(save s.entries now instant).2, s.origins⟩
  | .load file now instant => some ⟨load lib file now instant, fun _ => none⟩
  | .rehash entries =>
    if entries.entries.Perm s.entries.entries then some ⟨entries, s.origins⟩ else none

def machine (lib : Library X) : Machine (State X) (Action X) := ⟨step lib⟩

/-! ### Invariants of entries -/

/-- A property of every binding and its origin. -/
def AllEntries (P : Query → Entry → Option (Origin X) → Prop) (s : State X) : Prop :=
  ∀ k e, s.entries.get k = some e → P k e (s.origins k)

section Invariant

variable {lib : Library X} {P : Query → Entry → Option (Origin X) → Prop} {s t : State X}

theorem all_insert (hnew : ∀ entry, admission lib query answer now instant = some entry →
      P (admittedQuery query) entry (some ⟨query, answer, now, instant, []⟩))
    (h : AllEntries P s) :
    AllEntries P ⟨insertAt lib s.entries query answer now instant,
      insertOrigins lib s query answer now instant⟩ := by
  intro k e hget
  simp only [insertAt, insertOrigins] at hget ⊢
  cases hadm : admission lib query answer now instant with
  | none =>
    simp only [hadm] at hget ⊢
    exact h k e hget
  | some entry =>
    simp only [hadm] at hget ⊢
    rcases get_admit hget with ⟨rfl, rfl⟩ | ⟨hne, hold, -⟩
    · simpa using hnew _ hadm
    · simpa [hne] using h k e hold

omit [DecidableEq X] in
theorem all_get (hread : ∀ k e o, P k e o → e.remaining now instant ≠ 0 →
      P k (e.refresh now instant) (o.map fun o => o.read e now instant))
    (h : AllEntries P s) :
    AllEntries P ⟨(getAt lib s.entries query now instant).2, readOrigins s query now instant⟩ := by
  intro k e hget
  simp only [getAt, readOrigins] at hget ⊢
  cases hfind : find s.entries query with
  | none =>
    simp only [hfind] at hget ⊢
    exact h k e hget
  | some b =>
    obtain ⟨key, entry⟩ := b
    simp only [hfind] at hget ⊢
    split_ifs at hget ⊢ with hrem
    · exact h k e (get_of_get_dropQuestion hget)
    · rcases eq_or_ne k key with rfl | hk
      · rw [Table.get_insert_self] at hget
        cases hget
        rw [Function.update_self]
        exact hread k entry _ (h k entry (find_spec hfind).1) hrem
      · rw [Table.get_insert_of_ne _ hk] at hget
        simpa [hk] using h k e hget

/-- **The invariant rule.**  What holds of an entry when it is inserted or loaded, and still holds
when it is read, holds of every entry after a step. -/
theorem all_step {a : Action X}
    (hnew : ∀ query answer now instant, a = .insert query answer now instant →
      ∀ entry, admission lib query answer now instant = some entry →
        P (admittedQuery query) entry (some ⟨query, answer, now, instant, []⟩))
    (hread : ∀ k e o now instant, P k e o → e.remaining now instant ≠ 0 →
      P k (e.refresh now instant) (o.map fun o => o.read e now instant))
    (hload : ∀ file now instant, a = .load file now instant →
      ∀ frame k e, frameEntry lib frame now instant = some (k, e) → P k e none)
    (h : AllEntries P s) (hstep : step lib s a = some t) : AllEntries P t := by
  cases a with
  | insert query answer now instant =>
    cases hstep
    exact all_insert (hnew query answer now instant rfl) h
  | get query now instant =>
    cases hstep
    exact all_get (fun k e o => hread k e o now instant) h
  | save now instant =>
    cases hstep
    exact fun k e hget => h k e (Table.get_of_get_retain hget).1
  | load file now instant =>
    cases hstep
    exact get_load (P := fun k e => P k e none) (hload file now instant rfl)
  | rehash entries =>
    simp only [step] at hstep
    split_ifs at hstep with hperm
    cases hstep
    exact fun k e hget => h k e (Table.get_of_perm hperm k ▸ hget)

end Invariant

/-! ### Sound entries -/

/-- What is known of every entry: its packet decodes to a message that may be cached at least as
long, and the question of the message is the key. -/
structure Sound (lib : Library X) (key : Query) (entry : Entry) : Prop where
  packet_le : entry.packet.length ≤ maxPacket
  message : ∃ message query policy, lib.fromVec entry.packet = some message ∧
    key = admittedQuery query ∧ Cacheable query message policy ∧ entry.ttl ≤ policy

/-- What admission checks, in one place. -/
theorem admission_spec (h : admission lib query answer now instant = some entry) :
    ∃ policy age, cacheTtl query answer.message = some policy ∧
      wallAge answer.resolvedAt now = some age ∧ age < min answer.ttl policy ∧
      entry.packet.length ≤ maxPacket ∧ lib.fromVec entry.packet = some answer.message ∧
      entry.ttl = min answer.ttl policy ∧ entry.resolvedAt = answer.resolvedAt ∧
      entry.admitted = instant ∧ entry.initialAge = age := by
  simp only [admission, guard, Option.bind_eq_bind, Option.bind_eq_some_iff] at h
  obtain ⟨policy, hpolicy, age, hage, _, hlt, packet, -, _, hlen, decoded, hdec, _, heq, ⟨⟩⟩ := h
  obtain ⟨hle, -⟩ := Option.ite_none_right_eq_some.1 hlt
  obtain ⟨hpacket, -⟩ := Option.ite_none_right_eq_some.1 hlen
  obtain ⟨heqv, -⟩ := Option.ite_none_right_eq_some.1 heq
  rw [Message.eq_of_eqv heqv.1 heqv.2] at hdec
  exact ⟨policy, age, hpolicy, hage, hle, hpacket, hdec, rfl, rfl, rfl, rfl⟩

omit [DecidableEq X] in
/-- What a frame in order is known to be. -/
theorem frameEntry_spec {frame : Frame} (h : frameEntry lib frame now instant = some (key, entry)) :
    ∃ resolvedAt age message query policy, entry.packet = frame.packet ∧
      frame.packet.length ≤ maxPacket ∧
      lib.fromUnixTimestampNanos frame.stamp = some resolvedAt ∧
      wallAge resolvedAt now = some age ∧ lib.fromVec frame.packet = some message ∧
      message.queries.head? = some query ∧ cacheTtl query message = some policy ∧
      key = admittedQuery query ∧
      entry.ttl = min (frame.seconds * second + frame.nanos) policy ∧ age < entry.ttl ∧
      entry.resolvedAt = resolvedAt ∧ entry.admitted = instant ∧ entry.initialAge = age := by
  simp only [frameEntry, guard, Option.bind_eq_bind, Option.bind_eq_some_iff] at h
  obtain ⟨_, hlen, resolvedAt, hstamp, _, -, age, hage, message, hdec, query, hquery, policy,
    hpolicy, _, hlt, ⟨⟩⟩ := h
  obtain ⟨hpacket, -⟩ := Option.ite_none_right_eq_some.1 hlen
  obtain ⟨hle, -⟩ := Option.ite_none_right_eq_some.1 hlt
  exact ⟨resolvedAt, age, message, query, policy, rfl, hpacket, hstamp, hage, hdec, hquery,
    hpolicy, rfl, rfl, hle, rfl, rfl, rfl⟩

theorem sound_of_admission (h : admission lib query answer now instant = some entry) :
    Sound lib (admittedQuery query) entry := by
  obtain ⟨policy, age, hpolicy, -, -, hlen, hdec, httl, -⟩ := admission_spec h
  exact ⟨hlen, answer.message, query, policy, hdec, rfl, cacheable_of_cacheTtl hpolicy,
    httl ▸ min_le_right _ _⟩

omit [DecidableEq X] in
theorem sound_of_frameEntry {frame : Frame}
    (h : frameEntry lib frame now instant = some (key, entry)) :
    Sound lib key entry := by
  obtain ⟨-, -, message, query, policy, hpacket, hlen, -, -, hdec, -, hpolicy, hkey, httl, -⟩ :=
    frameEntry_spec h
  rw [← hpacket] at hlen hdec
  exact ⟨hlen, message, query, policy, hdec, hkey, cacheable_of_cacheTtl hpolicy,
    httl ▸ min_le_right _ _⟩

/-- Every entry of a state is sound. -/
def AllSound (lib : Library X) (s : State X) : Prop :=
  ∀ k e, s.entries.get k = some e → Sound lib k e

theorem allSound_run {ok : State X → Action X → Prop} {as : List (Action X)}
    {s t : State X} (h : (machine lib).Run ok s as t) (hs : AllSound lib s) : AllSound lib t := by
  refine h.invariant (I := AllEntries fun k e _ => Sound lib k e) (fun s a t hall _ hstep => ?_) hs
  exact all_step (fun _ _ _ _ _ _ => sound_of_admission)
    (fun k e o now instant hsound _ => ⟨hsound.packet_le, hsound.message⟩)
    (fun _ _ _ _ _ _ _ => sound_of_frameEntry) hall hstep

/-- **Every entry is sound after every run**, loads of any file included. -/
theorem sound_of_run {ok : State X → Action X → Prop} {as : List (Action X)}
    {s : State X} (h : (machine lib).Run ok .init as s) : AllSound lib s := by
  exact allSound_run h (by simp [AllSound, State.init])

/-! ### A small cache -/

/-- A question and its answer, one address that lives for five minutes. -/
def sampleQuery : Query := ⟨⟨[[100, 110, 115]], true⟩, .other 1, .internet⟩

def sampleMessage : Message Unit where
  messageType := .response
  opCode := .query
  truncation := false
  responseCode := .noError
  signature := false
  queries := [sampleQuery]
  answers := [⟨sampleQuery.name, .internet, ⟨300, by decide⟩, .other (.other 1) ()⟩]
  authorities := []
  additionals := []
  rest := ()

/-- A library that knows one message. -/
def sampleLibrary : Library Unit where
  toVec _ := some [0]
  fromVec _ := some sampleMessage
  fromUnixTimestampNanos n :=
    if h : -377705116800 * 1000000000 ≤ n ∧ n < 253402300800 * 1000000000 then
      some ⟨n, h.1, h.2⟩
    else none
  fromUnixTimestampNanos_nanos t := by
    rw [dif_pos ⟨t.lower, t.upper⟩]

/-- A wall-clock time, in seconds after the epoch. -/
def atSecond (n : Fin 100000) : OffsetDateTime :=
  ⟨n * 1000000000, by omega, by omega⟩

def sampleAnswer (resolvedAt : OffsetDateTime) : ResolvedAnswer Unit :=
  ⟨sampleMessage, 300 * second, resolvedAt⟩

/-- One answer, read at the tenth second and saved at the twentieth. -/
def sampleRun : List (Action Unit) :=
  [.insert sampleQuery (sampleAnswer (atSecond 0)) (atSecond 0) 0,
    .get sampleQuery (atSecond 10) (10 * second),
    .save (atSecond 20) (20 * second)]

end DnsServer
