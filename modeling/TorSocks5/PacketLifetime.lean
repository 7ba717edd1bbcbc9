/-
**An answer is not served past its lifetime.**

The wall clock may jump either way, and the monotonic readings of concurrent operations may reach
the cache out of order.  What an entry keeps from one reading to the next is a lower bound on its
age that holds at *every* monotonic reading: the age it was admitted with plus the time since.
Taking the present age as the new base never lowers that bound, however the clocks stand.
-/

import TorSocks5.PacketCache

set_option autoImplicit false

namespace DnsServer

variable {X : Type}

/-! ### Ages -/

theorem age_refresh (entry : Entry) (now : OffsetDateTime) (instant : ℕ) :
    (entry.refresh now instant).age now instant = entry.age now instant := by
  simp only [Entry.age, Entry.refresh]
  omega

theorem le_age (entry : Entry) (now : OffsetDateTime) (instant : ℕ) :
    entry.initialAge + (instant - entry.admitted) ≤ entry.age now instant := le_max_left _ _

theorem base_refresh (entry : Entry) (now : OffsetDateTime) (instant i : ℕ) :
    entry.initialAge + (i - entry.admitted) ≤
      (entry.refresh now instant).initialAge + (i - (entry.refresh now instant).admitted) := by
  have hage := le_age entry now instant
  simp only [Entry.refresh]
  omega

/-! ### Traced entries -/

/-- What an entry has kept of the insertion that admitted it and of the readings since. -/
structure Traced (lib : Library X) (key : Query) (entry : Entry) (origin : Origin X)
    (policy age : ℕ) : Prop where
  policy_eq : cacheTtl origin.query origin.answer.message = some policy
  age_eq : wallAge origin.answer.resolvedAt origin.now = some age
  key_eq : key = admittedQuery origin.query
  packet : lib.fromVec entry.packet = some origin.answer.message
  ttl_eq : entry.ttl = min origin.answer.ttl policy
  /-- At every monotonic reading, the entry is at least as old as its admission says. -/
  base : ∀ i, age + (i - origin.instant) ≤ entry.initialAge + (i - entry.admitted)
  /-- So it was when it was read, and it has not become younger. -/
  readings : ∀ r ∈ origin.readings, age + (r.instant - origin.instant) ≤ r.age ∧
    r.age ≤ entry.initialAge
  /-- No reading found it younger than an earlier one; the latest comes first. -/
  sorted : origin.readings.Pairwise fun later earlier => earlier.age ≤ later.age

/-- A binding is traced to its origin. -/
def TracedTo (lib : Library X) (key : Query) (entry : Entry) (origin : Option (Origin X)) : Prop :=
  ∃ o policy age, origin = some o ∧ Traced lib key entry o policy age

variable {lib : Library X} {entry : Entry} {policy age instant : ℕ} {query : Query}
  {now : OffsetDateTime}
theorem traced_refresh {key : Query} {o : Origin X} (h : Traced lib key entry o policy age)
    (now : OffsetDateTime) (instant : ℕ) :
    Traced lib key (entry.refresh now instant) (o.read entry now instant) policy age := by
  have hage := le_age entry now instant
  have hle (r) (hr : r ∈ o.readings) := (h.readings r hr).2.trans ((Nat.le_add_right _ _).trans hage)
  exact ⟨h.policy_eq, h.age_eq, h.key_eq, h.packet, h.ttl_eq,
    fun i => (h.base i).trans (base_refresh entry now instant i),
    List.forall_mem_cons.2 ⟨⟨(h.base instant).trans hage, le_rfl⟩,
      fun r hr => ⟨(h.readings r hr).1, hle r hr⟩⟩, h.sorted.cons hle⟩

section Runs

variable [DecidableEq X] {lib : Library X}

theorem traced_of_admission {answer : ResolvedAnswer X}
    (h : admission lib query answer now instant = some entry) :
    TracedTo lib (admittedQuery query) entry (some ⟨query, answer, now, instant, []⟩) := by
  obtain ⟨policy, age, hpolicy, hage, -, -, hdec, httl, -, hadm, hinit⟩ := admission_spec h
  exact ⟨_, policy, age, rfl, hpolicy, hage, rfl, hdec, httl, fun i => by rw [hadm, hinit], nofun,
    .nil⟩

/-- The operations that take nothing from a file. -/
def notLoad (_ : State X) : Action X → Prop
  | .load _ _ _ => False
  | _ => True

/-- **Every entry is traced** to the insertion that admitted it. -/
theorem traced_of_run {as : List (Action X)} {s : State X}
    (h : (machine lib).Run notLoad .init as s) : AllEntries (TracedTo lib) s := by
  refine h.invariant (I := AllEntries (TracedTo lib)) ?_ fun k e hget => by simp [State.init] at hget
  intro s a t hall hok hstep
  refine all_step (fun _ _ _ _ _ _ hadm => traced_of_admission hadm) ?_ ?_ hall hstep
  · rintro k e _ now instant ⟨o, policy, age, rfl, htraced⟩ _
    exact ⟨_, policy, age, rfl, traced_refresh htraced now instant⟩
  · rintro file now instant rfl
    exact hok.elim

end Runs

/-! ### What is served -/

/-- A record that is served, against the normalized original: OPT is left alone, any other record
has lost the seconds of its age and has one left at least. -/
def Aged (seconds : ℕ) (original served : Record X) : Prop :=
  (original.recordType = .opt ∧ served = original) ∨
    (original.recordType ≠ .opt ∧ served = { original with ttl := served.ttl } ∧
      (served.ttl : ℕ) + seconds = original.ttl ∧ 1 ≤ (served.ttl : ℕ))

theorem aged_ageRecord {seconds : ℕ} {record : Record X}
    (h : record.recordType ≠ .opt → seconds < record.ttl) :
    Aged seconds record (ageRecord seconds record) := by
  by_cases hopt : record.recordType = .opt
  · exact .inl ⟨hopt, by simp [ageRecord, hopt]⟩
  · have hlt := h hopt
    refine .inr ⟨hopt, ?_⟩
    simp only [ageRecord, ne_eq, hopt, not_false_eq_true, if_true, Record.decrementTtl, true_and]
    omega

/-- The records of a message that is served before the lifetime of its packet is over. -/
theorem served_records {query' : Query} {message : Message X}
    (hpolicy : cacheTtl query message = some policy) (hsame : sameQuestion query query' = true)
    (hage : age < policy) :
    List.Forall₂ (Aged (age / second)) (normalizeNegativeSoaTtl query' message).records
      ((normalizeNegativeSoaTtl query' message).mapRecords
        (ageRecord (min (age / second) (2 ^ 32 - 1)))).records := by
  have hcache := cacheable_of_cacheTtl hpolicy
  have hdiv {n} (h : age < n * second) : age / second < n :=
    Nat.div_lt_of_lt_mul (by rwa [mul_comm])
  -- the seconds fit the width of a TTL, so they are not cut off
  have hfits : age / second < 2 ^ 32 := hdiv (hage.trans hcache.small)
  have hmin : min (age / second) (2 ^ 32 - 1) = age / second := by omega
  rw [Message.records_mapRecords, hmin, List.forall₂_map_right_iff, List.forall₂_same]
  exact fun r hr => aged_ageRecord fun hopt =>
    hdiv (hage.trans_le (le_normalized_ttl hcache hsame hr hopt))

theorem getAt_spec {entries : Entries} {answer : ResolvedAnswer X}
    (h : (getAt lib entries query now instant).1 = some answer) :
    ∃ key entry message, find entries query = some ⟨key, entry⟩ ∧
      entry.age now instant < entry.ttl ∧ lib.fromVec entry.packet = some message ∧
      answer.message = (normalizeNegativeSoaTtl query message).mapRecords
        (ageRecord (min (entry.age now instant / second) (2 ^ 32 - 1))) ∧
      answer.ttl = entry.ttl - entry.age now instant ∧ answer.resolvedAt = now := by
  unfold getAt at h
  split at h
  · simp at h
  · next key entry hfind =>
    split_ifs at h with hrem
    simp only [serve, age_refresh, Option.bind_eq_bind, Option.bind_eq_some_iff] at h
    obtain ⟨message, hdec, hans⟩ := h
    cases hans
    unfold Entry.remaining at hrem
    exact ⟨key, entry, message, hfind, by omega, hdec, rfl, rfl, rfl⟩

/-- What is served of a traced entry. -/
theorem served_of_traced {key : Query} {o : Origin X} (h : Traced lib key entry o policy age)
    (hsame : sameQuestion key query = true) {message : Message X}
    (hlt : entry.age now instant < entry.ttl) (hdec : lib.fromVec entry.packet = some message) :
    entry.age now instant < min o.answer.ttl policy ∧
      List.Forall₂ (Aged (entry.age now instant / second))
        (normalizeNegativeSoaTtl query o.answer.message).records
        ((normalizeNegativeSoaTtl query message).mapRecords
          (ageRecord (min (entry.age now instant / second) (2 ^ 32 - 1)))).records := by
  obtain rfl := Option.some.inj (h.packet.symm.trans hdec)
  rw [h.ttl_eq] at hlt
  rw [h.key_eq] at hsame
  exact ⟨hlt, served_records h.policy_eq (sameQuestion_iff.2 (sameQuestion_iff.1 hsame))
    (hlt.trans_le (min_le_right _ _))⟩

/-- **An answer is not served past its lifetime.**  After any insertions, reads and savings, with
any readings of either clock: an entry is never taken for younger than its age at admission plus the
monotonic time to the present reading or to one at which it was read, nor for younger than it was
when it was read; and what a read returns has not reached the lifetime of the packet or the one the
caller gave, and its ordinary records have lost the whole seconds of its age and no more. -/
theorem not_served_past_lifetime [DecidableEq X] {lib : Library X} {as : List (Action X)}
    {s : State X} (h : (machine lib).Run notLoad .init as s) :
    (∀ k e, s.entries.get k = some e → ∃ o policy age, s.origins k = some o ∧
      cacheTtl o.query o.answer.message = some policy ∧
      wallAge o.answer.resolvedAt o.now = some age ∧
      (∀ now instant, age + (instant - o.instant) ≤ e.age now instant ∧
        ∀ r ∈ o.readings, age + (r.instant - o.instant) ≤ e.age now instant ∧
          r.age ≤ e.age now instant) ∧
      o.readings.Pairwise fun later earlier => earlier.age ≤ later.age) ∧
    ∀ query now instant answer, (getAt lib s.entries query now instant).1 = some answer →
      ∃ k e o policy, find s.entries query = some ⟨k, e⟩ ∧ s.entries.get k = some e ∧
        s.origins k = some o ∧ cacheTtl o.query o.answer.message = some policy ∧
        e.age now instant < min o.answer.ttl policy ∧
        List.Forall₂ (Aged (e.age now instant / second))
          (normalizeNegativeSoaTtl query o.answer.message).records answer.message.records := by
  have hall := traced_of_run h
  constructor
  · intro k e hget
    obtain ⟨o, policy, age, horigin, htraced⟩ := hall k e hget
    refine ⟨o, policy, age, horigin, htraced.policy_eq, htraced.age_eq, ?_, htraced.sorted⟩
    intro now instant
    have hage := le_age e now instant
    refine ⟨(htraced.base instant).trans hage, ?_⟩
    intro r hr
    obtain ⟨hlow, hhigh⟩ := htraced.readings r hr
    omega
  · intro query now instant answer hanswer
    obtain ⟨k, e, message, hfind, hlt, hdec, hmessage, -, -⟩ := getAt_spec hanswer
    obtain ⟨hget, hsame⟩ := find_spec hfind
    obtain ⟨o, policy, age, horigin, htraced⟩ := hall k e hget
    obtain ⟨hlife, hrecords⟩ := served_of_traced htraced hsame hlt hdec
    refine ⟨k, e, o, policy, hfind, hget, horigin, htraced.policy_eq, hlife, ?_⟩
    rw [hmessage]
    exact hrecords

theorem not_served_past_lifetime_sampleRun :
    ((getAt sampleLibrary ((machine sampleLibrary).after .init sampleRun).entries sampleQuery
        (atSecond 5) (30 * second)).1.map fun a => (a.ttl, a.message.records.map (·.ttl))) =
      some (270 * second, [270]) ∧
    ∃ o policy age, ((machine sampleLibrary).after .init sampleRun).origins sampleQuery = some o ∧
      cacheTtl o.query o.answer.message = some policy ∧
      wallAge o.answer.resolvedAt o.now = some age ∧ o.readings = [⟨10 * second, 10 * second⟩] := by
  have hrun : (machine sampleLibrary).Run notLoad .init sampleRun
      ((machine sampleLibrary).after .init sampleRun) := by
    refine Machine.Run.of_exec_mem ?_ rfl
    intro a ha s
    simp only [sampleRun, List.mem_cons, List.not_mem_nil, or_false] at ha
    rcases ha with rfl | rfl | rfl <;> trivial
  have hget : ((machine sampleLibrary).after .init sampleRun).entries.get sampleQuery =
      some ⟨[0], 300 * second, atSecond 0, 10 * second, 10 * second⟩ := by decide +kernel
  obtain ⟨o, policy, age, horigin, hpolicy, hage, -⟩ :=
    (not_served_past_lifetime hrun).1 _ _ hget
  refine ⟨by decide +kernel, o, policy, age, horigin, hpolicy, hage, ?_⟩
  have hreadings : (((machine sampleLibrary).after .init sampleRun).origins sampleQuery).map
      (·.readings) = some [⟨10 * second, 10 * second⟩] := by decide +kernel
  rw [horigin] at hreadings
  exact Option.some.inj hreadings

/-- A saving that sees an entry a hundred seconds after its admission keeps nothing of it: a read
that made its reading of the monotonic clock earlier takes the entry for fifty seconds old, and
serves it for two hundred and fifty more. -/
theorem saved_reading_is_forgotten : ∃ s e o,
    (machine sampleLibrary).exec .init
      [.insert sampleQuery (sampleAnswer (atSecond 0)) (atSecond 0) 0,
        .save (atSecond 0) (100 * second)] = some s ∧
    s.entries.get sampleQuery = some e ∧ s.origins sampleQuery = some o ∧
    wallAge o.answer.resolvedAt o.now = some 0 ∧
    e.age (atSecond 0) (50 * second) < 0 + (100 * second - o.instant) ∧
    ((getAt sampleLibrary s.entries sampleQuery (atSecond 0) (50 * second)).1.map (·.ttl)) =
      some (250 * second) := by
  refine ⟨_, ⟨[0], 300 * second, atSecond 0, 0, 0⟩,
    ⟨sampleQuery, sampleAnswer (atSecond 0), atSecond 0, 0, []⟩, rfl, ?_, ?_, ?_, ?_, ?_⟩
  all_goals decide +kernel

end DnsServer
