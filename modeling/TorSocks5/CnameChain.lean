/-
**The CNAME chain of an answer.**

`terminal_answer` on the names as a message has them, with their case and their root dot.  The chain
of a question starts at its name; from a name it goes to the target of the first CNAME record there,
and it stops at a name that has a record of the asked type, or no CNAME record.  The search gives up
after one round more than there are records, which is never too early: a chain that stops does not
use a record twice.
-/

import Mathlib
import TorSocks5.Chain
import TorSocks5.DnsMessage

set_option autoImplicit false

namespace DnsServer.Wire

/-! ### The search -/

/-- A name as it is written, the root last. -/
structure Name where
  labels : List (List UInt8)
  fqdn : Bool
  deriving DecidableEq

/-- `u8::to_ascii_lowercase`. -/
def lowerByte (b : UInt8) : UInt8 := if 65 ≤ b ∧ b ≤ 90 then b + 32 else b

def Name.lower (name : Name) : DnsServer.Name := ⟨name.labels.map (·.map lowerByte), name.fqdn⟩

/-- `Name::eq_ignore_root`. -/
def Name.eqIgnoreRoot (left right : Name) : Bool := left.lower.eqIgnoreRoot right.lower

/-- The data of a record, as far as the chain reads it. -/
inductive Data
  | cname (target : Name)
  | other (type : RecordType)
  deriving DecidableEq

structure Record where
  name : Name
  dnsClass : DnsClass
  data : Data
  deriving DecidableEq

structure Query where
  name : Name
  queryType : RecordType
  queryClass : DnsClass
  deriving DecidableEq

def Record.recordType (record : Record) : RecordType :=
  match record.data with
  | .cname _ => .cname
  | .other type => type

/-- The record answers the question at a name. -/
def answersAt (query : Query) (terminal : Name) (record : Record) : Bool :=
  record.name.eqIgnoreRoot terminal && record.dnsClass = query.queryClass &&
    (record.recordType = query.queryType ||
      (query.queryType = .any && record.recordType ≠ .opt))

/-- Where a name is an alias to, by one record. -/
def aliasAt (query : Query) (terminal : Name) (record : Record) : Option Name :=
  if record.name.eqIgnoreRoot terminal && record.dnsClass = query.queryClass then
    match record.data with
    | .cname target => some target
    | .other _ => none
  else none

def followAliases (query : Query) (answers : List Record) : ℕ → Name → Option (Name × Bool)
  | 0, _ => none
  | rounds + 1, terminal =>
    if answers.any (answersAt query terminal) then some (terminal, true)
    else
      match answers.findSome? (aliasAt query terminal) with
      | some target => followAliases query answers rounds target
      | none => some (terminal, false)

/-- `terminal_answer`. -/
def terminalAnswer (query : Query) (answers : List Record) : Option (Name × Bool) :=
  followAliases query answers (answers.length + 1) query.name

/-! ### The chain -/

section Chain

variable (query : Query) (answers : List Record)

/-- The record is of the name and of the class of the question. -/
def Owns (name : Name) (record : Record) : Prop :=
  record.name.lower.labels = name.lower.labels ∧ record.dnsClass = query.queryClass

/-- A record of the asked type is at the name; for `ANY`, one of any type but OPT. -/
def Answered (name : Name) : Prop :=
  ∃ record ∈ answers, Owns query name record ∧
    (record.recordType = query.queryType ∨ query.queryType = .any ∧ record.recordType ≠ .opt)

/-- The first CNAME record at the name. -/
def FirstAlias (name : Name) (record : Record) (target : Name) : Prop :=
  ∃ before after, answers = before ++ record :: after ∧ Owns query name record ∧
    record.data = .cname target ∧
    ∀ earlier ∈ before, Owns query name earlier → ∀ t, earlier.data ≠ .cname t

/-- The chain goes on from one name to another. -/
def Next (name target : Name) : Prop :=
  ¬ Answered query answers name ∧ ∃ record, FirstAlias query answers name record target

/-- The chain stops at a name. -/
def Stopped (name : Name) : Prop :=
  Answered query answers name ∨
    ∀ record ∈ answers, Owns query name record → ∀ t, record.data ≠ .cname t

/-- The record that leads on from a name. -/
def link (name : Name) : Option Record :=
  if answers.any (answersAt query name) then none
  else answers.find? fun record => (aliasAt query name record).isSome

end Chain

/-- Where a record leads to. -/
def Record.target (record : Record) : Name :=
  match record.data with
  | .cname target => target
  | .other _ => record.name

variable {query : Query} {answers : List Record}

variable {name : Name} {record : Record} {name' : DnsServer.Name}
theorem any_answersAt_iff :
    answers.any (answersAt query name) = true ↔ Answered query answers name := by
  rw [List.any_eq_true]
  refine exists_congr fun record => and_congr_right fun _ => ?_
  simp [answersAt, Owns, Name.eqIgnoreRoot, DnsServer.Name.eqIgnoreRoot, and_assoc]

theorem aliasAt_eq_some_iff {target : Name} : aliasAt query name record = some target ↔
      Owns query name record ∧ record.data = .cname target := by
  have howns : (record.name.eqIgnoreRoot name && record.dnsClass = query.queryClass) = true ↔
      Owns query name record := by
    simp [Owns, Name.eqIgnoreRoot, DnsServer.Name.eqIgnoreRoot]
  unfold aliasAt
  split_ifs with hown <;> rw [howns] at hown
  · cases record.data <;> simp [hown]
  · simp [hown]

theorem aliasAt_eq_none_iff :
    aliasAt query name record = none ↔ (Owns query name record → ∀ t, record.data ≠ .cname t) := by
  rw [Option.eq_none_iff_forall_ne_some]
  simp only [ne_eq, aliasAt_eq_some_iff, not_and]
  exact forall_comm

/-- The record that leads on is the first alias at a name that is not answered. -/
theorem link_eq_some_iff : link query answers name = some record ↔
      ¬ Answered query answers name ∧ ∃ target, FirstAlias query answers name record target := by
  rw [link, ← any_answersAt_iff]
  by_cases hany : answers.any (answersAt query name) = true
  · simp [hany]
  · rw [if_neg hany, and_iff_right hany, List.find?_eq_some_iff_append]
    constructor
    · rintro ⟨halias, before, after, hlist, hbefore⟩
      obtain ⟨target, htarget⟩ := Option.isSome_iff_exists.1 halias
      obtain ⟨hown, hdata⟩ := aliasAt_eq_some_iff.1 htarget
      refine ⟨target, before, after, hlist, hown, hdata, fun earlier hmem => ?_⟩
      exact aliasAt_eq_none_iff.1 (by simpa using hbefore earlier hmem)
    · rintro ⟨target, before, after, hlist, hown, hdata, hbefore⟩
      refine ⟨?_, before, after, hlist, fun earlier hmem => ?_⟩
      · rw [aliasAt_eq_some_iff.2 ⟨hown, hdata⟩]
        rfl
      · rw [aliasAt_eq_none_iff.2 (hbefore earlier hmem)]
        rfl

theorem next_iff {target : Name} : Next query answers name target ↔
    ∃ record, link query answers name = some record ∧ record.target = target := by
  have htarget {record : Record} {t : Name} (h : FirstAlias query answers name record t) :
      record.target = t := by
    obtain ⟨_, _, _, _, hdata, _⟩ := h
    rw [Record.target, hdata]
  constructor
  · rintro ⟨hnot, record, hfirst⟩
    exact ⟨record, link_eq_some_iff.2 ⟨hnot, target, hfirst⟩, htarget hfirst⟩
  · rintro ⟨record, hlink, rfl⟩
    obtain ⟨hnot, target, hfirst⟩ := link_eq_some_iff.1 hlink
    exact ⟨hnot, record, (htarget hfirst).symm ▸ hfirst⟩

theorem link_eq_none_iff : link query answers name = none ↔ Stopped query answers name := by
  rw [link, Stopped, ← any_answersAt_iff]
  by_cases hany : answers.any (answersAt query name) = true
  · simp [hany]
  · rw [if_neg hany, List.find?_eq_none, or_iff_right hany]
    simp only [Option.not_isSome_iff_eq_none, aliasAt_eq_none_iff]

theorem mem_of_link (h : link query answers name = some record) : record ∈ answers := by
  obtain ⟨-, target, before, after, rfl, -⟩ := link_eq_some_iff.1 h
  exact List.mem_append_right _ List.mem_cons_self

/-- **The search follows the chain.** -/
theorem followAliases_eq (rounds : ℕ) (name : Name) :
    followAliases query answers rounds name =
      (Chain.walk (link query answers) Record.target rounds name).map
        fun terminal => (terminal, answers.any (answersAt query terminal)) := by
  induction rounds generalizing name with
  | zero => rfl
  | succ rounds ih =>
    rw [followAliases, Chain.walk]
    by_cases hany : answers.any (answersAt query name) = true
    · have hlink : link query answers name = none := by rw [link, if_pos hany]
      simp [hany, hlink]
    · rw [if_neg hany]
      cases hlink : link query answers name with
      | none =>
        have hnone : answers.findSome? (aliasAt query name) = none := by
          simp only [List.findSome?_eq_none_iff, aliasAt_eq_none_iff]
          exact (link_eq_none_iff.1 hlink).resolve_left fun h => hany (any_answersAt_iff.2 h)
        simp [hnone, hany]
      | some record =>
        obtain ⟨-, target, before, after, hlist, hown, hdata, hbefore⟩ :=
          link_eq_some_iff.1 hlink
        have hsome : answers.findSome? (aliasAt query name) = some record.target := by
          rw [hlist, List.findSome?_append, List.findSome?_eq_none_iff.2 fun earlier hmem =>
            aliasAt_eq_none_iff.2 (hbefore earlier hmem), Option.none_or, List.findSome?_cons,
            aliasAt_eq_some_iff.2 ⟨hown, hdata⟩, Record.target, hdata]
        rw [hsome]
        exact ih record.target

/-- A walk of the links is a chain of names. -/
theorem reflTransGen_iff {terminal : Name} :
    Relation.ReflTransGen (Next query answers) name terminal ∧ Stopped query answers terminal ↔
      ∃ followed, Chain.Ends (link query answers) Record.target name followed terminal := by
  constructor
  · rintro ⟨hreach, hstop⟩
    induction hreach using Relation.ReflTransGen.head_induction_on with
    | refl => exact ⟨[], Chain.Ends.stop (link_eq_none_iff.2 hstop)⟩
    | head hnext _ ih =>
      obtain ⟨record, hlink, rfl⟩ := next_iff.1 hnext
      obtain ⟨followed, hends⟩ := ih
      exact ⟨record :: followed, Chain.Ends.follow hlink hends⟩
  · rintro ⟨followed, hends⟩
    induction hends with
    | stop hnone => exact ⟨Relation.ReflTransGen.refl, link_eq_none_iff.1 hnone⟩
    | follow hsome _ ih =>
      exact ⟨Relation.ReflTransGen.head (next_iff.2 ⟨_, hsome, rfl⟩) ih.1, ih.2⟩

/-- The search in enough rounds finds the end of a chain that stops. -/
theorem terminalAnswer_eq_some_iff {terminal : Name} {positive : Bool} :
    terminalAnswer query answers = some (terminal, positive) ↔
      (∃ followed, Chain.Ends (link query answers) Record.target query.name followed terminal) ∧
        (positive = true ↔ Answered query answers terminal) := by
  rw [terminalAnswer, followAliases_eq, Option.map_eq_some_iff, ← any_answersAt_iff]
  constructor
  · rintro ⟨_, hwalk, ⟨⟩⟩
    obtain ⟨followed, hends, -⟩ := Chain.walk_eq_some_iff.1 hwalk
    exact ⟨⟨followed, hends⟩, Iff.rfl⟩
  · rintro ⟨⟨followed, hends⟩, hpositive⟩
    refine ⟨terminal, Chain.walk_eq_some_iff.2 ⟨followed, hends, Nat.lt_succ_of_le ?_⟩, ?_⟩
    · exact hends.length_le fun _ _ => mem_of_link
    · rw [Bool.eq_iff_iff.2 hpositive]

/-! ### Case and root dots -/

section Lower

variable {X : Type}

/-- The data of a record of the wire, and of one whose names are lowercased. -/
def Data.Lowers : Data → RData X → Prop
  | .cname target, .cname target' => target'.labels = target.lower.labels
  | .other type, .soa _ _ => type = .soa
  | .other type, .other type' _ => type' = type
  | _, _ => False

/-- A record of the wire, and one whose names are lowercased; the root dots may differ. -/
structure Lowers (record : Record) (record' : DnsServer.Record X) : Prop where
  name : record'.name.labels = record.name.lower.labels
  dnsClass : record'.dnsClass = record.dnsClass
  data : record.data.Lowers record'.data

theorem Lowers.recordType {record' : DnsServer.Record X}
    (h : Lowers record record') : record'.recordType = record.recordType := by
  have hdata := h.data
  unfold Record.recordType DnsServer.Record.recordType
  cases hd : record.data <;> cases hd' : record'.data <;>
    simp_all [Data.Lowers, eq_comm]

/-- A question of the wire, and one whose name is lowercased. -/
structure Asks (query : Query) (query' : DnsServer.Query) : Prop where
  name : query'.name.labels = query.name.lower.labels
  queryType : query'.queryType = query.queryType
  queryClass : query'.queryClass = query.queryClass

variable {query' : DnsServer.Query} {answers' : List (DnsServer.Record X)}

theorem any_answersAt_lowers (hquery : Asks query query') (h : List.Forall₂ Lowers answers answers')
    (hname : name'.labels = name.lower.labels) :
    answers'.any (DnsServer.answersAt query' name') = answers.any (answersAt query name) := by
  induction h with
  | nil => rfl
  | cons hrecord _ ih =>
    rw [List.any_cons, List.any_cons, ih]
    congr 1
    simp [answersAt, DnsServer.answersAt, Name.eqIgnoreRoot, DnsServer.Name.eqIgnoreRoot,
      hrecord.name, hrecord.dnsClass, hrecord.recordType, hquery.queryType, hquery.queryClass,
        hname]

theorem aliasAt_lowers (hquery : Asks query query') {record' : DnsServer.Record X}
    (h : Lowers record record')
    (hname : name'.labels = name.lower.labels) :
    (DnsServer.aliasAt query' name' record').map DnsServer.Name.labels =
      (aliasAt query name record).map fun target => target.lower.labels := by
  have hdata := h.data
  have howns : (record'.name.eqIgnoreRoot name' && record'.dnsClass = query'.queryClass) =
      (record.name.eqIgnoreRoot name && record.dnsClass = query.queryClass) := by
    simp only [Name.eqIgnoreRoot, DnsServer.Name.eqIgnoreRoot, h.name, h.dnsClass,
      hquery.queryClass, hname]
  rw [aliasAt, DnsServer.aliasAt, howns]
  split_ifs
  · cases hd : record.data <;> cases hd' : record'.data <;> simp_all [Data.Lowers]
  · rfl

theorem findSome?_lowers (hquery : Asks query query') (h : List.Forall₂ Lowers answers answers')
    (hname : name'.labels = name.lower.labels) :
    (answers'.findSome? (DnsServer.aliasAt query' name')).map DnsServer.Name.labels =
      (answers.findSome? (aliasAt query name)).map fun target => target.lower.labels := by
  induction h with
  | nil => rfl
  | @cons record record' _ _ hrecord _ ih =>
    have halias := aliasAt_lowers hquery hrecord hname
    rw [List.findSome?_cons, List.findSome?_cons]
    cases ha : aliasAt query name record with
    | none =>
      rw [ha, Option.map_none, Option.map_eq_none_iff] at halias
      rwa [halias]
    | some target =>
      obtain ⟨target', htarget', heq⟩ := Option.map_eq_some_iff.1 (ha ▸ halias)
      rw [htarget']
      exact congrArg some heq

theorem followAliases_lowers (hquery : Asks query query') (h : List.Forall₂ Lowers answers answers')
    (rounds : ℕ) (hname : name'.labels = name.lower.labels) :
    (DnsServer.followAliases query' answers' rounds name').map (fun p => (p.1.labels, p.2)) =
      (followAliases query answers rounds name).map fun p => (p.1.lower.labels, p.2) := by
  induction rounds generalizing name name' with
  | zero => rfl
  | succ rounds ih =>
    rw [followAliases, DnsServer.followAliases, any_answersAt_lowers hquery h hname]
    split
    · simp [hname]
    · have halias := findSome?_lowers hquery h hname
      cases ha : answers.findSome? (aliasAt query name) with
      | none =>
        rw [ha, Option.map_none, Option.map_eq_none_iff] at halias
        simp [halias, hname]
      | some target =>
        obtain ⟨target', htarget', heq⟩ := Option.map_eq_some_iff.1 (ha ▸ halias)
        rw [htarget']
        exact ih heq

/-- **Case and root dots do not matter**: the search on lowercased names finds the same. -/
theorem terminalAnswer_lowers (hquery : Asks query query')
    (h : List.Forall₂ Lowers answers answers') :
    (DnsServer.terminalAnswer query' answers').map (fun p => (p.1.labels, p.2)) =
      (terminalAnswer query answers).map fun p => (p.1.lower.labels, p.2) := by
  rw [terminalAnswer, DnsServer.terminalAnswer, ← h.length_eq]
  exact followAliases_lowers hquery h _ hquery.name

end Lower

/-- Names that are written alike up to case and the root dot. -/
def Name.Alike (left right : Name) : Prop := left.lower.labels = right.lower.labels

/-- Records that are alike up to the case and the root dots of their names. -/
def Record.Alike (left right : Record) : Prop :=
  left.name.Alike right.name ∧ left.dnsClass = right.dnsClass ∧
    match left.data, right.data with
    | .cname target, .cname target' => target.Alike target'
    | .other type, .other type' => type = type'
    | _, _ => False

/-- A record with its names lowercased. -/
def Record.lower (record : Record) : DnsServer.Record Unit where
  name := record.name.lower
  dnsClass := record.dnsClass
  ttl := ⟨0, by decide⟩
  data :=
    match record.data with
    | .cname target => .cname target.lower
    | .other type => .other type ()

theorem lowers_of_alike {left right : Record} (h : left.Alike right) :
    Lowers right left.lower := by
  obtain ⟨hname, hclass, hdata⟩ := h
  refine ⟨hname, hclass, ?_⟩
  unfold Record.lower
  cases hl : left.data <;> cases hr : right.data <;> simp_all [Name.Alike, Data.Lowers]

theorem Record.alike_refl (record : Record) : record.Alike record := by
  refine ⟨rfl, rfl, ?_⟩
  cases record.data with
  | cname target => rfl
  | other type => rfl

theorem lowers_lower : ∀ {answers answers' : List Record},
    List.Forall₂ Record.Alike answers answers' →
    List.Forall₂ Lowers answers' (answers.map Record.lower) := by
  intro answers answers' h
  exact List.forall₂_map_right_iff.2 (h.flip.imp fun _ _ => lowers_of_alike)

/-- The search is exact.  It finds nothing exactly if the chain goes on forever; otherwise it finds
the name at which the chain stops, and says whether a record of the asked type is there.  More
rounds would find nothing else, and names that are alike up to case and the root label are not told
apart. -/
theorem terminal_answer_is_chain_end (query : Query) (answers : List Record) :
    (terminalAnswer query answers = none ↔ ∃ place : ℕ → Name, place 0 = query.name ∧
      ∀ n, Next query answers (place n) (place (n + 1))) ∧
    (∀ terminal positive, terminalAnswer query answers = some (terminal, positive) ↔
      Relation.ReflTransGen (Next query answers) query.name terminal ∧
        Stopped query answers terminal ∧ (positive = true ↔ Answered query answers terminal)) ∧
    (∀ rounds found, followAliases query answers rounds query.name = some found →
      terminalAnswer query answers = some found) ∧
    ∀ (query' : Query) (answers' : List Record), query.name.Alike query'.name →
      query.queryType = query'.queryType → query.queryClass = query'.queryClass →
      List.Forall₂ Record.Alike answers answers' →
      (terminalAnswer query answers).map (fun p => (p.1.lower.labels, p.2)) =
        (terminalAnswer query' answers').map fun p => (p.1.lower.labels, p.2) := by
  refine ⟨?_, ?_, ?_, ?_⟩
  · have hnone : terminalAnswer query answers = none ↔ ¬ ∃ followed terminal,
        Chain.Ends (link query answers) Record.target query.name followed terminal := by
      rw [Option.eq_none_iff_forall_ne_some]
      constructor
      · rintro h ⟨followed, terminal, hends⟩
        exact h (terminal, decide (answers.any (answersAt query terminal)))
          (terminalAnswer_eq_some_iff.2 ⟨⟨followed, hends⟩, by simp [← any_answersAt_iff]⟩)
      · rintro h ⟨terminal, positive⟩ hsome
        obtain ⟨⟨followed, hends⟩, -⟩ := terminalAnswer_eq_some_iff.1 hsome
        exact h ⟨followed, terminal, hends⟩
    rw [hnone, Chain.endless_iff]
    simp only [next_iff, eq_comm]
  · intro terminal positive
    rw [terminalAnswer_eq_some_iff, ← reflTransGen_iff, and_assoc]
  · rintro rounds ⟨terminal, positive⟩ hfound
    rw [followAliases_eq, Option.map_eq_some_iff] at hfound
    obtain ⟨_, hwalk, heq⟩ := hfound
    cases heq
    obtain ⟨followed, hends, -⟩ := Chain.walk_eq_some_iff.1 hwalk
    exact terminalAnswer_eq_some_iff.2 ⟨⟨followed, hends⟩, any_answersAt_iff⟩
  · intro query' answers' hname htype hclass hanswers
    let lowered : DnsServer.Query := ⟨query.name.lower, query.queryType, query.queryClass⟩
    have hasks : Asks query lowered := ⟨rfl, rfl, rfl⟩
    have hasks' : Asks query' lowered := ⟨hname, htype, hclass⟩
    have hself : List.Forall₂ Record.Alike answers answers :=
      List.forall₂_same.2 fun record _ => record.alike_refl
    rw [← terminalAnswer_lowers hasks (lowers_lower hself),
      ← terminalAnswer_lowers hasks' (lowers_lower hanswers)]

end DnsServer.Wire
