/-
**DNS messages, and how long one may be cached.**

The part of a DNS message that the cache policy reads, and the policy itself.  A message is cached
for the shortest TTL of its ordinary records; an answer that says that something does not exist is
also held to the negative TTL of the SOA records that cover the name at the end of its CNAME chain.
A copy that is served has the TTLs of those SOA records brought down to the same value and every
ordinary TTL lowered by the age of the copy.
-/

import Mathlib

set_option autoImplicit false

namespace DnsServer

/-! ### Names and questions -/

/-- A domain name: its labels in lower case, the root last, and whether it was written with the
root dot. -/
structure Name where
  labels : List (List UInt8)
  fqdn : Bool
  deriving DecidableEq

/-- Equality of names up to the root dot. -/
def Name.eqIgnoreRoot (left right : Name) : Bool := left.labels = right.labels

/-- A name lies in a zone when it ends in the labels of the zone. -/
def Name.zoneOf (zone name : Name) : Bool := zone.labels.isSuffixOf name.labels

/-- The record types that are told apart; every other one is its code. -/
inductive RecordType
  | cname
  | soa
  | opt
  | any
  | other (code : ℕ)
  deriving DecidableEq

/-- The class of a record or of a question. -/
inductive DnsClass
  | internet
  | other (code : ℕ)
  deriving DecidableEq

/-- A question. -/
structure Query where
  name : Name
  queryType : RecordType
  queryClass : DnsClass
  deriving DecidableEq

/-- Questions that differ in the root dot at most. -/
def sameQuestion (left right : Query) : Bool :=
  left.name.eqIgnoreRoot right.name && left.queryType = right.queryType &&
    left.queryClass = right.queryClass

theorem sameQuestion_iff {left right : Query} :
    sameQuestion left right = true ↔ left.name.labels = right.name.labels ∧
      left.queryType = right.queryType ∧ left.queryClass = right.queryClass := by
  simp [sameQuestion, Name.eqIgnoreRoot, and_assoc]

/-! ### Messages -/

/-- The width of a TTL. -/
abbrev U32 := Fin (2 ^ 32)

/-- The data of a record. -/
inductive RData (X : Type)
  | cname (target : Name)
  | soa (minimum : U32) (rest : X)
  | other (type : RecordType) (rest : X)
  deriving DecidableEq

/-- A resource record. -/
structure Record (X : Type) where
  name : Name
  dnsClass : DnsClass
  ttl : U32
  data : RData X
  deriving DecidableEq

inductive MessageType
  | query
  | response
  deriving DecidableEq

inductive OpCode
  | query
  | other (code : ℕ)
  deriving DecidableEq

inductive ResponseCode
  | noError
  | nxDomain
  | other (code : ℕ)
  deriving DecidableEq

/-- A message; `signature` says whether there is one, `rest` is what is never looked at. -/
structure Message (X : Type) where
  messageType : MessageType
  opCode : OpCode
  truncation : Bool
  responseCode : ResponseCode
  signature : Bool
  queries : List Query
  answers : List (Record X)
  authorities : List (Record X)
  additionals : List (Record X)
  rest : X
  deriving DecidableEq

variable {X : Type}

/-- The type of a record, which is that of its data. -/
def Record.recordType (record : Record X) : RecordType :=
  match record.data with
  | .cname _ => .cname
  | .soa _ _ => .soa
  | .other type _ => type

/-- A record with its TTL lowered, at most to zero. -/
def Record.decrementTtl (record : Record X) (offset : ℕ) : Record X :=
  { record with ttl := ⟨record.ttl - offset, by omega⟩ }

/-- The records of a message, in the order of its sections. -/
def Message.records (message : Message X) : List (Record X) :=
  message.answers ++ message.authorities ++ message.additionals

/-- A message with every record changed. -/
def Message.mapRecords (message : Message X) (f : Record X → Record X) : Message X :=
  { message with
    answers := message.answers.map f
    authorities := message.authorities.map f
    additionals := message.additionals.map f }

theorem Message.records_mapRecords (message : Message X) (f : Record X → Record X) :
    (message.mapRecords f).records = message.records.map f := by
  simp [Message.records, Message.mapRecords]

/-! ### Equality of messages -/

/-- The TTLs of all records. -/
def recordTtls (message : Message X) : List U32 := message.records.map (·.ttl)

/-- The equality of messages that the library gives: that of records does not see TTLs. -/
def Message.eqv [DecidableEq X] (left right : Message X) : Bool :=
  left.mapRecords (fun r => { r with ttl := 0 }) = right.mapRecords fun r => { r with ttl := 0 }

private theorem eq_of_map_ttl : ∀ {as bs : List (Record X)},
    as.map (fun r => { r with ttl := 0 }) = bs.map (fun r => { r with ttl := 0 }) →
      as.map (·.ttl) = bs.map (·.ttl) → as = bs := by
  intro as
  induction as with
  | nil => simp
  | cons a as ih =>
    intro bs h httl
    cases bs with
    | nil => simp at h
    | cons b bs =>
      simp only [List.map_cons, List.cons.injEq] at h httl
      have hab : a = b := by
        cases a
        cases b
        simp_all
      rw [hab, ih h.2 httl.2]

theorem Message.eq_of_eqv [DecidableEq X] {left right : Message X} (h : left.eqv right = true)
    (httl : recordTtls left = recordTtls right) : left = right := by
  have herase := of_decide_eq_true h
  have hrec := congrArg Message.records herase
  rw [Message.records_mapRecords, Message.records_mapRecords] at hrec
  have hrecords : left.records = right.records := eq_of_map_ttl hrec httl
  -- the sections have the same lengths, so equal concatenations have equal parts
  have hans := congrArg (fun m : Message X => m.answers.length) herase
  have hauth := congrArg (fun m : Message X => m.authorities.length) herase
  simp only [Message.mapRecords, List.length_map] at hans hauth
  obtain ⟨hfront, hadd⟩ := List.append_inj hrecords (by simp [hans, hauth])
  obtain ⟨hanswers, hauthorities⟩ := List.append_inj hfront hans
  cases left
  cases right
  simp_all [Message.mapRecords]

/-! ### The end of a CNAME chain -/

/-- The record answers the question at a name. -/
def answersAt (query : Query) (terminal : Name) (record : Record X) : Bool :=
  record.name.eqIgnoreRoot terminal && record.dnsClass = query.queryClass &&
    (record.recordType = query.queryType ||
      (query.queryType = .any && record.recordType ≠ .opt))

/-- Where a name is an alias to, by one record. -/
def aliasAt (query : Query) (terminal : Name) (record : Record X) : Option Name :=
  if record.name.eqIgnoreRoot terminal && record.dnsClass = query.queryClass then
    match record.data with
    | .cname target => some target
    | _ => none
  else none

/-- The chain from a name over a number of rounds: its end, and whether the question is answered
there.  A chain that does not end in time is a cycle. -/
def followAliases (query : Query) (answers : List (Record X)) : ℕ → Name → Option (Name × Bool)
  | 0, _ => none
  | rounds + 1, terminal =>
    if answers.any (answersAt query terminal) then some (terminal, true)
    else
      match answers.findSome? (aliasAt query terminal) with
      | some target => followAliases query answers rounds target
      | none => some (terminal, false)

/-- The end of the chain of a question, and whether the question is answered there. -/
def terminalAnswer (query : Query) (answers : List (Record X)) : Option (Name × Bool) :=
  followAliases query answers (answers.length + 1) query.name

private theorem followAliases_congr {q q' : Query} (htype : q.queryType = q'.queryType)
    (hclass : q.queryClass = q'.queryClass) (answers : List (Record X)) :
    ∀ (rounds : ℕ) {n n' : Name}, n.labels = n'.labels →
      (followAliases q answers rounds n).map (fun p => (p.1.labels, p.2)) =
        (followAliases q' answers rounds n').map fun p => (p.1.labels, p.2) := by
  intro rounds
  induction rounds with
  | zero => exact fun _ => rfl
  | succ rounds ih =>
    intro n n' hn
    have hany : answersAt (X := X) q n = answersAt q' n' := by
      funext r
      simp [answersAt, Name.eqIgnoreRoot, htype, hclass, hn]
    have halias : aliasAt (X := X) q n = aliasAt q' n' := by
      funext r
      simp [aliasAt, Name.eqIgnoreRoot, hclass, hn]
    simp only [followAliases, hany, halias]
    split
    · simp [hn]
    · split
      · exact ih rfl
      · simp [hn]

theorem terminalAnswer_congr {q q' : Query} (h : sameQuestion q q' = true)
    {answers : List (Record X)} {terminal : Name} {positive : Bool}
    (ht : terminalAnswer q answers = some (terminal, positive)) :
    ∃ terminal', terminalAnswer q' answers = some (terminal', positive) ∧
      terminal'.labels = terminal.labels := by
  obtain ⟨hname, htype, hclass⟩ := sameQuestion_iff.1 h
  have hmap := followAliases_congr htype hclass answers (answers.length + 1) hname
  unfold terminalAnswer at ht ⊢
  rw [ht] at hmap
  obtain ⟨⟨terminal', positive'⟩, hsome, heq⟩ := Option.map_eq_some_iff.1 hmap.symm
  obtain ⟨hlabels, hpos⟩ := Prod.mk.inj heq
  exact ⟨terminal', by rw [hsome]; simpa using hpos, hlabels⟩

/-! ### Lifetimes -/

/-- Durations are counted in nanoseconds. -/
def second : ℕ := 1000000000

/-- The negative TTL of a record: that of an SOA of the class of the question whose zone covers the
end of the chain. -/
def negativeTtl (query : Query) (terminal : Name) (record : Record X) : Option ℕ :=
  if record.dnsClass = query.queryClass && record.name.zoneOf terminal then
    match record.data with
    | .soa minimum _ => some (min record.ttl minimum : U32)
    | _ => none
  else none

/-- The least negative TTL, which an answer that is not positive has to have. -/
def negativeBound (query : Query) (terminal : Name) (positive : Bool)
    (authorities : List (Record X)) : Option (Option ℕ) :=
  if positive then some none
  else (authorities.filterMap (negativeTtl query terminal)).min?.map some

/-- The TTLs of the records other than OPT. -/
def ordinaryTtls (message : Message X) : List ℕ :=
  (message.records.filter fun r => r.recordType ≠ .opt).map fun r => r.ttl

/-- How long a packet may be cached, if at all. -/
def cacheTtl (query : Query) (message : Message X) : Option ℕ := do
  guard (message.messageType = .response ∧ message.opCode = .query ∧
    message.truncation = false ∧ message.signature = false)
  let [asked] := message.queries | none
  guard (sameQuestion asked query = true)
  guard (message.responseCode = .noError ∨ message.responseCode = .nxDomain)
  let (terminal, positive) ← terminalAnswer query message.answers
  guard (¬ (positive = true ∧ message.responseCode = .nxDomain))
  let negative ← negativeBound query terminal positive message.authorities
  let ordinary ← (ordinaryTtls message).min?
  let ttl := negative.elim ordinary fun negative => min negative ordinary
  guard (ttl ≠ 0)
  return ttl * second

/-- The root dot of a question does not change how long its answer may be cached. -/
theorem cacheTtl_congr {q q' : Query} (h : sameQuestion q q' = true) {message : Message X}
    {lifetime : ℕ} (hq : cacheTtl q message = some lifetime) :
    cacheTtl q' message = some lifetime := by
  obtain ⟨hname, htype, hclass⟩ := sameQuestion_iff.1 h
  have hasked : ∀ asked, sameQuestion asked q = sameQuestion asked q' := fun asked => by
    simp [sameQuestion, Name.eqIgnoreRoot, hname, htype, hclass]
  cases hterm : terminalAnswer q message.answers with
  | none =>
    simp only [cacheTtl, hterm, Option.bind_eq_bind, Option.bind_eq_some_iff] at hq
    obtain ⟨_, -, hq⟩ := hq
    split at hq <;> simp at hq
  | some chain =>
    obtain ⟨terminal, positive⟩ := chain
    obtain ⟨terminal', hterm', hlabels⟩ := terminalAnswer_congr h hterm
    have hneg : negativeTtl (X := X) q terminal = negativeTtl q' terminal' := by
      funext r
      simp [negativeTtl, Name.zoneOf, hclass, hlabels]
    simp only [cacheTtl, hterm, hasked, Option.bind_eq_bind, Option.bind_some, negativeBound,
      hneg] at hq
    simpa only [cacheTtl, hterm', Option.bind_eq_bind, Option.bind_some, negativeBound] using hq

/-- The TTL of a covering SOA brought down to its negative TTL. -/
def normalizeRecord (query : Query) (terminal : Name) (record : Record X) : Record X :=
  if record.dnsClass = query.queryClass && record.name.zoneOf terminal then
    match record.data with
    | .soa minimum _ => { record with ttl := min record.ttl minimum }
    | _ => record
  else record

/-- A negative answer with the TTLs of its covering SOA records brought down. -/
def normalizeNegativeSoaTtl (query : Query) (message : Message X) : Message X :=
  if message.truncation || message.signature ||
      !(message.responseCode = .noError || message.responseCode = .nxDomain) then message
  else
    match terminalAnswer query message.answers with
    | some (terminal, false) =>
      { message with authorities := message.authorities.map (normalizeRecord query terminal) }
    | _ => message

/-- What a lifetime says about the message that has it. -/
structure Cacheable (query : Query) (message : Message X) (lifetime : ℕ) : Prop where
  /-- The message repeats the question, and no other. -/
  asked : ∃ q, message.queries = [q] ∧ sameQuestion q query = true
  /-- The lifetime is a positive number of seconds, no more than any ordinary TTL has, and no more
  than a covering SOA allows if the answer is a negative one. -/
  bound : ∃ ttl terminal positive, lifetime = ttl * second ∧ 0 < ttl ∧
    terminalAnswer query message.answers = some (terminal, positive) ∧
    (∀ r ∈ message.records, r.recordType ≠ .opt → ttl ≤ r.ttl) ∧
    (positive = false → ∀ r ∈ message.authorities, ∀ n, negativeTtl query terminal r = some n →
      ttl ≤ n)
  /-- Some record is not OPT, so the lifetime is that of a TTL. -/
  small : lifetime < 2 ^ 32 * second

theorem cacheable_of_cacheTtl {query : Query} {message : Message X} {lifetime : ℕ}
    (h : cacheTtl query message = some lifetime) : Cacheable query message lifetime := by
  unfold cacheTtl at h
  simp only [guard, Option.bind_eq_bind, Option.bind_eq_some_iff] at h
  obtain ⟨_, -, h⟩ := h
  split at h
  case h_2 => simp at h
  case h_1 asked hqueries =>
    simp only [Option.bind_eq_some_iff] at h
    obtain ⟨_, hasked, _, -, ⟨terminal, positive⟩, hterm, _, -, negative, hneg, ordinary, hord,
      _, hpos, ⟨⟩⟩ := h
    have hsame : sameQuestion asked query = true := by
      by_contra hne
      simp [hne] at hasked
    have hne : negative.elim ordinary (fun n => min n ordinary) ≠ 0 := by
      by_contra hzero
      simp [hzero] at hpos
    obtain ⟨hmem, hmin⟩ := List.min?_eq_some_iff.1 hord
    have hle : negative.elim ordinary (fun n => min n ordinary) ≤ ordinary := by
      cases negative <;> simp
    refine ⟨⟨asked, hqueries, hsame⟩, ⟨_, terminal, positive, rfl, Nat.pos_of_ne_zero hne, hterm,
      fun r hr hopt => hle.trans (hmin _ ?_), ?_⟩, ?_⟩
    · exact List.mem_map.2 ⟨r, List.mem_filter.2 ⟨hr, by simpa using hopt⟩, rfl⟩
    · rintro rfl r hr n hn
      simp only [negativeBound, Bool.false_eq_true, if_false, Option.map_eq_some_iff] at hneg
      obtain ⟨m, hm, rfl⟩ := hneg
      have hmn := (List.min?_eq_some_iff.1 hm).2 n (List.mem_filterMap.2 ⟨r, hr, hn⟩)
      exact (min_le_left m ordinary).trans hmn
    · obtain ⟨r, -, rfl⟩ := List.mem_map.1 hmem
      have hlt := r.ttl.isLt
      exact Nat.mul_lt_mul_of_pos_right (by omega) (by decide)

/-! ### Normalized records -/

@[simp] theorem recordType_normalizeRecord (query : Query) (terminal : Name) (r : Record X) :
    (normalizeRecord query terminal r).recordType = r.recordType := by
  unfold normalizeRecord
  split
  · split <;> simp_all [Record.recordType]
  · rfl

theorem normalizeRecord_ttl (query : Query) (terminal : Name) (r : Record X) :
    negativeTtl query terminal r = some ((normalizeRecord query terminal r).ttl : ℕ) ∨
      normalizeRecord query terminal r = r := by
  unfold normalizeRecord negativeTtl
  split_ifs
  · split
    · exact .inl rfl
    · exact .inr rfl
  · exact .inr rfl

/-- **A normalized record lives as long as its packet may**, also when the question is asked
without the root dot that it was cached with. -/
theorem le_normalized_ttl {query query' : Query} {message : Message X} {lifetime : ℕ}
    (h : Cacheable query message lifetime) (hsame : sameQuestion query query' = true)
    {r : Record X} (hr : r ∈ (normalizeNegativeSoaTtl query' message).records)
    (hopt : r.recordType ≠ .opt) : lifetime ≤ r.ttl * second := by
  obtain ⟨ttl, terminal, positive, rfl, -, hterm, hord, hneg⟩ := h.bound
  obtain ⟨terminal', hterm', hlabels⟩ := terminalAnswer_congr hsame hterm
  obtain ⟨-, -, hclass⟩ := sameQuestion_iff.1 hsame
  refine Nat.mul_le_mul_right second ?_
  unfold normalizeNegativeSoaTtl at hr
  split at hr
  · exact hord r hr hopt
  · rw [hterm'] at hr
    cases positive with
    | true => exact hord r hr hopt
    | false =>
      simp only [Message.records, List.mem_append, List.mem_map] at hr
      rcases hr with (hr | ⟨o, ho, rfl⟩) | hr
      · exact hord r (by simp [Message.records, hr]) hopt
      · rcases normalizeRecord_ttl query' terminal' o with hn | hn
        · refine hneg rfl o ho _ (hn ▸ ?_)
          simp [negativeTtl, Name.zoneOf, hclass, hlabels]
        · rw [hn] at hopt ⊢
          exact hord o (by simp [Message.records, ho]) hopt
      · exact hord r (by simp [Message.records, hr]) hopt

end DnsServer
