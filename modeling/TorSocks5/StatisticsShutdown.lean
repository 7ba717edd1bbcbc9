/-
**A shutdown of the statistics loses no accepted event.**

The argument is about the producers that hold a registration.  The admission word is their number,
plus the bit that closes admission: a producer enters only while the bit is clear and the number
does not reach it, and leaves once, so the number neither carries into the bit nor falls below zero.
When the worker reads the bit and nothing else, no producer holds a registration, and none ever will
again; so nothing is sent after the queue is closed, and what was sent has been counted and
returned.
-/

import TorSocks5.Family
import TorSocks5.StatisticsLedger
import TorSocks5.StatisticsWorker

set_option autoImplicit false

namespace Statistics

variable {ι N : Type} [Fintype ι] {names : Names N} {s t : Session ι} {i : ι}

/-! ### What a producer holds -/

/-- One for a producer that holds a registration. -/
def holding : Producer → ℕ
  | .registered _ => 1
  | .sent _ => 1
  | .full _ => 1
  | .leaving _ _ => 1
  | _ => 0

/-- One for a producer whose event is in the queue and not yet counted. -/
def uncounted : Producer → ℕ
  | .sent _ => 1
  | _ => 0

/-- The event that a producer has sent, until it returns that it is accepted. -/
def carries : Producer → Multiset Event
  | .sent event => {event}
  | .leaving event .accepted => {event}
  | _ => 0

theorem carries_of_holding {p : Producer} (h : holding p = 0) :
    carries p = 0 ∧ uncounted p = 0 := by
  cases p <;> simp_all [holding, carries, uncounted]

/-! ### The admission word -/

/-- The word is the number of the registered producers, and the bit. -/
structure Admission (s : Session ι) : Prop where
  word : s.admission = Family.total holding s.producers +
    if admissionStop ≤ s.admission then admissionStop else 0
  small : Family.total holding s.producers < admissionStop

theorem Admission.lt (h : Admission s) : s.admission < 2 ^ 64 := by
  grind [h.word, h.small, admissionStop]

theorem Admission.orStop (h : Admission s) :
    s.admission ||| admissionStop = Family.total holding s.producers + admissionStop := by
  have hword := h.word
  grind [or_stop h.lt]

theorem Admission.of_stop (h : Admission s) {t : Session ι} (hproducers : t.producers = s.producers)
    (hword : t.admission = s.admission ||| admissionStop) : Admission t := by
  grind [Admission, h.small, h.orStop]

theorem Admission.nobody (h : Admission s) (hword : s.admission = admissionStop) :
    Family.total holding s.producers = 0 := by
  grind [h.word]

theorem Admission.congr (h : Admission s) {t : Session ι} (hword : t.admission = s.admission)
    (htotal : Family.total holding t.producers = Family.total holding s.producers) :
    Admission t := by
  exact ⟨by grind [h.word], by grind [h.small]⟩

theorem Admission.mod (h : Admission s) :
    s.admission % admissionStop = Family.total holding s.producers := by
  have hword := h.word
  have hsmall := h.small
  unfold admissionStop at hword hsmall ⊢
  split at hword <;> omega

/-- **The number never underflows**: whoever leaves is counted in it. -/
theorem Admission.pos_of_leaving (h : Admission s) {event : Event} {outcome : RecordOutcome}
    (hp : s.producers i = .leaving event outcome) :
    0 < s.admission % admissionStop ∧
      (s.admission + 2 ^ 64 - 1) % 2 ^ 64 = s.admission - 1 := by
  have hle := Family.le_total holding s.producers i
  rw [hp, ← h.mod] at hle
  have hpos : 0 < s.admission % admissionStop := hle
  have hword : s.admission % admissionStop ≤ s.admission := Nat.mod_le _ _
  have hlt := h.lt
  exact ⟨hpos, by omega⟩

theorem not_stop_le {word : ℕ} (h : word < 2 ^ 64) (hclear : word &&& admissionStop = 0) :
    ¬ admissionStop ≤ word := by
  grind [and_stop h, admissionStop]

variable {db : Database} {store : Store} {counters : Counters} {lastError : Option String}
theorem total_start {M : Type} [AddCommMonoid M] {w : Producer → M} (hw : w .idle = 0) :
    Family.total w (Session.start ι db store counters lastError).producers = 0 :=
  Family.total_eq_zero fun _ => hw

variable [DecidableEq ι]

theorem total_setProducer {M : Type} [AddCommMonoid M] (w : Producer → M) (x : Producer) :
    Family.total w (s.setProducer i x).producers + w (s.producers i) =
      Family.total w s.producers + w x :=
  Family.total_update w s.producers i x

theorem admission_call (h : Admission s) (hmove : CallMove s i t) : Admission t := by
  -- a move between states of equal weight changes neither the word nor the number
  have htotal := fun x => total_setProducer (s := s) (i := i) holding x
  have hword := h.word
  have hsmall := h.small
  cases hmove with
  | @entered event hp hclear hfits hroom =>
    have hlow := not_stop_le h.lt hclear
    have hlow' := not_stop_le hfits hroom
    constructor <;> grind -ring -linarith [htotal (.registered event), holding]
  | @left event outcome hp =>
    obtain ⟨-, hsub⟩ := h.pos_of_leaving hp
    have hidle := htotal .idle
    rw [hp] at hidle
    simp only [holding, Nat.add_zero] at hidle
    constructor
    · simp only [hsub]
      unfold admissionStop at hword hsmall ⊢
      split at hword <;> split <;> omega
    · simp only
      omega
  | _ => exact h.congr rfl (Family.total_update_of_eq (by simp_all [holding]))

/-- **No call sets or clears the bit.** -/
theorem call_keeps_stop (h : Admission s) (hmove : CallMove s i t) :
    admissionStop ≤ t.admission ↔ admissionStop ≤ s.admission := by
  cases hmove with
  | entered _ hclear hfits hroom =>
    exact iff_of_false (not_stop_le hfits hroom) (not_stop_le h.lt hclear)
  | left hp =>
    obtain ⟨hpos, hsub⟩ := h.pos_of_leaving hp
    simp only [hsub]
    unfold admissionStop at hpos ⊢
    omega
  | _ => exact Iff.rfl

omit [DecidableEq ι] in
theorem admission_work (h : Admission s) (hmove : WorkMove names s t) : Admission t := by
  cases hmove with
  | barred _ => exact h.of_stop rfl rfl
  | _ => exact h.congr rfl rfl

theorem admission_step (h : Admission s) (hstep : Step names s t) : Admission t := by
  cases hstep with
  | call hmove => exact admission_call h hmove
  | work hmove => exact admission_work h hmove
  | stopBit => exact h.of_stop rfl rfl
  | _ => exact h.congr rfl rfl

omit [DecidableEq ι] in
theorem admission_start : Admission (Session.start ι db store counters lastError) := by
  exact ⟨by rw [total_start rfl]; rfl, by rw [total_start rfl]; decide⟩

/-! ### After the queue is closed -/

/-- The queue is closed, or about to be, only when the word is the bit alone; once every sender is
gone, no call is under way; and the worker leaves its loop with nothing pending and nothing to
come. -/
structure Shut (s : Session ι) : Prop where
  closing : s.worker = .closing → s.admission = admissionStop
  closed : s.closed = true → s.admission = admissionStop
  detached : s.detached = true → ∀ i, s.producers i = .idle
  out : s.worker = .finishing ∨ s.worker = .ended →
    s.pending = [] ∧ (s.closed = true ∨ s.detached = true)

omit [DecidableEq ι] in
theorem holding_eq_zero (h : Admission s) (hword : s.admission = admissionStop) (i : ι) :
    holding (s.producers i) = 0 := by
  have htotal := h.nobody hword
  have hle := Family.le_total holding s.producers i
  omega

theorem call_of_stop (h : Admission s) (hword : s.admission = admissionStop)
    (hmove : CallMove s i t) :
    t.admission = admissionStop ∧ t.put = s.put ∧ t.returned = s.returned ∧ t.queue = s.queue := by
  have hzero := holding_eq_zero h hword i
  cases hmove with
  | begun | loaded | turnedAway | retried => exact ⟨hword, rfl, rfl, rfl⟩
  | entered _ hclear =>
    rw [hword] at hclear
    cases hclear
  -- the others begin with a registration
  | refused hp | full hp | counted hp | dropped hp | left hp | sent hp => simp [hp, holding] at hzero

omit [Fintype ι] in
theorem call_frame (hmove : CallMove s i t) :
    t.worker = s.worker ∧ t.closed = s.closed ∧ t.detached = s.detached ∧ t.next = s.next ∧
      t.taken = s.taken := by
  cases hmove <;> exact ⟨rfl, rfl, rfl, rfl, rfl⟩

omit [Fintype ι] in
theorem not_call_of_idle (hdetached : s.detached = true) (hidle : ∀ i, s.producers i = .idle) :
    ¬ CallMove s i t := by
  intro hmove
  cases hmove with
  | begun hattached _ => simp [hdetached] at hattached
  | _ => simp_all

theorem stop_or_stop : admissionStop ||| admissionStop = admissionStop := Nat.or_self _

theorem shut_call (hadm : Admission s) (h : Shut s) (hmove : CallMove s i t) : Shut t := by
  obtain ⟨hworker, hclosed, hdetached, hnext, -⟩ := call_frame hmove
  have hstop := fun hword => call_of_stop hadm hword hmove
  have hidle := fun hd => not_call_of_idle hd (h.detached hd) hmove
  obtain ⟨hclosing, hshut, hgone, hout⟩ := h
  constructor <;> grind -ring -linarith [Session.pending]

omit [Fintype ι] [DecidableEq ι] in
theorem shut_work (h : Shut s) (hmove : WorkMove names s t) : Shut t := by
  obtain ⟨hclosing, hclosed, hdetached, hout⟩ := h
  cases hmove with
  | checked | barred | waited => constructor <;> grind -ring -linarith [stop_or_stop]
  | stayed => exact ⟨hclosing, hclosed, hdetached, hout⟩
  | closed hw => exact ⟨by simp, fun _ => hclosing hw, hdetached, by simp⟩
  | ranOut hw hpending hgone => exact ⟨by simp, hclosed, hdetached, fun _ => ⟨hpending, hgone⟩⟩
  | finished hw => exact ⟨by simp, hclosed, hdetached, fun _ => hout (.inl hw)⟩
  | saved hw => exact ⟨by simp [saveUp], hclosed, hdetached, by simp [saveUp]⟩
  | _ => exact ⟨by simp, hclosed, hdetached, by simp⟩

theorem shut_step (hadm : Admission s) (h : Shut s) (hstep : Step names s t) : Shut t := by
  cases hstep with
  | call hmove => exact shut_call hadm h hmove
  | work hmove => exact shut_work h hmove
  | _ =>
    obtain ⟨hclosing, hclosed, hdetached, hout⟩ := h
    constructor <;> grind -ring -linarith [stop_or_stop, Session.pending]

theorem shut_of_run {as : List (Action ι)}
    (h : (session ι N names).Run Machine.anyStep (.start ι db store counters lastError) as s) :
    Admission s ∧ Shut s := by
  refine h.invariant (I := fun s => Admission s ∧ Shut s) ?_ ⟨admission_start, ?_⟩
  · intro u a v hu _ hstep
    have hcases := step_cases hstep
    exact ⟨admission_step hu.1 hcases, shut_step hu.1 hu.2 hcases⟩
  · constructor <;> simp [Session.start]

/-- Nobody can send any more: the queue is closed or every sender is gone. -/
def Quiet (s : Session ι) : Prop := s.closed = true ∨ s.detached = true

omit [DecidableEq ι] in
theorem holding_of_quiet (hadm : Admission s) (hshut : Shut s) (hquiet : Quiet s) (i : ι) :
    holding (s.producers i) = 0 := by
  rcases hquiet with hc | hd
  · exact holding_eq_zero hadm (hshut.closed hc) i
  · rw [hshut.detached hd i]
    rfl

/-- In a quiet session a step sends and returns nothing, and it stays quiet. -/
theorem quiet_step (hadm : Admission s) (hshut : Shut s) (hquiet : Quiet s)
    (hstep : Step names s t) : t.put = s.put ∧ t.returned = s.returned ∧ Quiet t := by
  cases hstep with
  | call hmove =>
    obtain ⟨-, hclosed, hdetached, -⟩ := call_frame hmove
    rcases hquiet with hc | hd
    · obtain ⟨-, hput, hret, -⟩ := call_of_stop hadm (hshut.closed hc) hmove
      exact ⟨hput, hret, .inl (hclosed.trans hc)⟩
    · exact absurd hmove (not_call_of_idle hd (hshut.detached hd))
  | work hmove => cases hmove <;> grind -ring -linarith [Quiet, saveUp]
  | _ => grind [Quiet]

/-- **Nothing is sent or accepted** in a quiet session. -/
theorem quiet_run {as : List (Action ι)} (hadm : Admission s) (hshut : Shut s) (hquiet : Quiet s)
    (h : (session ι N names).Run Machine.anyStep s as t) :
    t.put = s.put ∧ t.returned = s.returned := by
  refine (h.invariant (I := fun t => (Admission t ∧ Shut t ∧ Quiet t) ∧ t.put = s.put ∧
    t.returned = s.returned) ?_ ⟨⟨hadm, hshut, hquiet⟩, rfl, rfl⟩).2
  rintro u a v ⟨⟨hadm, hshut, hquiet⟩, hput, hret⟩ - hstep
  have hcases := step_cases hstep
  obtain ⟨hput', hret', hquiet'⟩ := quiet_step hadm hshut hquiet hcases
  exact ⟨⟨admission_step hadm hcases, shut_step hadm hshut hcases, hquiet'⟩, hput'.trans hput,
    hret'.trans hret⟩

/-! ### What became of the events -/

/-- What was put into the queue is what was taken and what is pending, in order; it is also what was
returned as accepted and what the producers still carry.  Nothing is put aside while a batch is
collected. -/
structure Flow (s : Session ι) : Prop where
  queued : s.put = s.taken ++ records s.pending
  carried : (s.put : Multiset Event) = s.returned + Family.total carries s.producers
  aside : ∀ events, s.worker = .collecting events → s.next = none

omit [DecidableEq ι] in
theorem Flow.congr (h : Flow s) (hput : t.put = s.put) (htaken : t.taken = s.taken)
    (hpending : records t.pending = records s.pending) (hreturned : t.returned = s.returned)
    (htotal : Family.total carries t.producers = Family.total carries s.producers)
    (haside : ∀ events, t.worker = .collecting events → t.next = none) : Flow t := by
  refine ⟨?_, ?_, haside⟩
  · simpa only [hput, htaken, hpending] using h.queued
  · simpa only [hput, hreturned, htotal] using h.carried

theorem flow_call (h : Flow s) (hmove : CallMove s i t) : Flow t := by
  have hsame : ∀ x, carries x = carries (s.producers i) →
      Family.total carries (s.setProducer i x).producers = Family.total carries s.producers :=
    fun x hx => Family.total_update_of_eq hx
  have htotal := fun x => total_setProducer (s := s) (i := i) carries x
  cases hmove with
  | @sent event hp _ =>
    have hsent := htotal (.sent event)
    rw [hp] at hsent
    simp only [carries, add_zero] at hsent
    refine ⟨?_, ?_, h.aside⟩
    · have hqueued := h.queued
      simp only [Session.setProducer, Session.pending, records_append, records_cons_record,
        records_nil] at hqueued ⊢
      rw [hqueued]
      simp only [List.append_assoc]
    · simp only [Session.setProducer] at hsent ⊢
      rw [hsent, ← Multiset.coe_add, h.carried, add_assoc]
      rfl
  | @left event outcome hp =>
    have hleft := htotal .idle
    rw [hp] at hleft
    cases outcome with
    | accepted =>
      simp only [carries, add_zero] at hleft
      refine ⟨h.queued, ?_, h.aside⟩
      simp only [if_true]
      calc (s.put : Multiset Event)
          = s.returned + (Family.total carries (s.setProducer i .idle).producers + {event}) := by
            rw [hleft, h.carried]
        _ = ↑(s.returned ++ [event]) +
              Family.total carries (s.setProducer i .idle).producers := by
            rw [← Multiset.coe_add, add_comm (Family.total carries _), ← add_assoc]
            rfl
    | droppedFull | closed =>
      simp only [carries, add_zero] at hleft
      exact h.congr rfl rfl rfl rfl hleft h.aside
  | _ => exact h.congr rfl rfl rfl rfl (hsame _ (by simp_all [carries])) h.aside

theorem records_cons (command : Command) (commands : List Command) :
    records (command :: commands) = records [command] ++ records commands :=
  records_append [command] commands

omit [DecidableEq ι] in
theorem flow_work (h : Flow s) (hmove : WorkMove names s t) : Flow t := by
  have hqueued := h.queued
  have haside := h.aside
  cases hmove with
  | tookEvent _ hpending =>
    refine ⟨?_, h.carried, fun _ _ => rfl⟩
    rw [hpending, records_cons_record] at hqueued
    simpa [Session.pending] using hqueued
  | tookCommand _ hother hpending =>
    refine h.congr rfl rfl ?_ rfl rfl (by simp)
    rw [hpending, records_cons, hother]
    rfl
  | collected hw hqueue =>
    have hnone := haside _ hw
    refine ⟨?_, h.carried, fun _ _ => hnone⟩
    rw [Session.pending, hnone, hqueue] at hqueued
    simpa [Session.pending, hnone, records_cons_record] using hqueued
  | putAside hw hother hqueue =>
    refine h.congr rfl rfl ?_ rfl rfl (by simp)
    rw [Session.pending, Session.pending, haside _ hw, hqueue]
    rfl
  | _ => exact h.congr rfl rfl rfl rfl rfl (by grind [saveUp])

theorem flow_step (h : Flow s) (hstep : Step names s t) : Flow t := by
  cases hstep with
  | call hmove => exact flow_call h hmove
  | work hmove => exact flow_work h hmove
  | ready _ => exact h.congr rfl rfl rfl rfl rfl (by simp)
  | @commanded command _ _ hother =>
    refine h.congr rfl rfl ?_ rfl rfl h.aside
    simp only [Session.pending, ← List.append_assoc]
    rw [records_append, hother, List.append_nil]
  | _ => exact h.congr rfl rfl rfl rfl rfl h.aside

/-! ### What was counted -/

/-- The counters, as long as they are below their limit, are what they were at the start and the
number of the events that they stand for; what was taken is in one of the classes or in the
worker's hands. -/
structure Accounts (counters : Counters) (s : Session ι) : Prop where
  accepted : s.counters.accepted < i64Max →
    s.counters.accepted + Family.total uncounted s.producers = counters.accepted + s.put.length
  saved : s.counters.saved < i64Max →
    s.counters.saved = counters.saved + s.savedEvents.length
  expired : s.counters.expired < i64Max →
    s.counters.expired = counters.expired + s.expiredEvents.length
  unsaved : s.counters.unsaved < i64Max →
    s.counters.unsaved = counters.unsaved + s.unsavedEvents.length
  classes : (s.savedEvents ++ s.expiredEvents ++ s.unsavedEvents ++ s.worker.batch).Perm s.taken

section Accounts

variable {counters : Counters}

theorem accounts_call (h : Accounts counters s) (hmove : CallMove s i t) : Accounts counters t := by
  -- only a send and its count change what is counted as accepted
  have htotal := fun x => total_setProducer (s := s) (i := i) uncounted x
  have haccepted := h.accepted
  cases hmove with
  | @sent event | @counted event =>
    refine ⟨?_, h.saved, h.expired, h.unsaved, h.classes⟩
    grind [htotal (.sent event), htotal (.leaving event .accepted), uncounted, Session.setProducer,
      addCounter]
  | _ =>
    refine ⟨?_, h.saved, h.expired, h.unsaved, h.classes⟩
    grind [uncounted, Session.setProducer]

/-- The counts of a batch are the sizes of its classes. -/
theorem splitBatch_spec (names : Names N) (db : Database) (store : Store) (events : List Event)
    (now : ℤ) (status : Status) (failure : Option String) :
    let outcome := batch names db store events now status failure
    let split := splitBatch names events outcome
    outcome.saved = split.1.length ∧ outcome.expired = split.2.1.length ∧
      outcome.unsaved = split.2.2.length ∧ (split.1 ++ split.2.1 ++ split.2.2).Perm events := by
  intro outcome split
  cases herror : outcome.error with simp only [split, splitBatch, herror]
  | some error =>
    obtain ⟨-, -, hsaved, hexpired, hunsaved⟩ := batch_error herror
    exact ⟨hsaved, hexpired, hunsaved, .refl _⟩
  | none =>
    obtain ⟨hsaved, hexpired, hunsaved⟩ := batch_ok herror
    exact ⟨hsaved, hexpired, hunsaved, classes_total names _ events⟩

theorem perm_classes (saved expired unsaved saved' expired' unsaved' : List Event) :
    (saved ++ saved' ++ (expired ++ expired') ++ (unsaved ++ unsaved')).Perm
      (saved ++ expired ++ unsaved ++ (saved' ++ expired' ++ unsaved')) := by
  rw [← Multiset.coe_eq_coe]
  simp only [← Multiset.coe_add]
  abel

omit [DecidableEq ι] in
theorem accounts_work (h : Accounts counters s) (hmove : WorkMove names s t) :
    Accounts counters t := by
  have hclasses := h.classes
  cases hmove with
  | checked hw =>
    refine ⟨h.accepted, h.saved, h.expired, h.unsaved, ?_⟩
    grind [Worker.batch]
  | tookEvent hw | collected hw =>
    refine ⟨h.accepted, h.saved, h.expired, h.unsaved, ?_⟩
    simp only [hw, Worker.batch, List.append_nil, ← List.append_assoc] at hclasses ⊢
    exact hclasses.append_right _
  | @saved events environment hw =>
    obtain ⟨hsaved, hexpired, hunsaved, hperm⟩ := splitBatch_spec names s.db s.store events
      environment.now s.status environment.failure
    refine ⟨h.accepted, ?_, ?_, ?_, ?_⟩
    · grind [h.saved, saveUp, addCounter]
    · grind [h.expired, saveUp, addCounter]
    · grind [h.unsaved, saveUp, addCounter]
    · rw [hw] at hclasses
      refine List.Perm.trans ?_ hclasses
      simp only [saveUp, Worker.batch, List.append_nil]
      exact (perm_classes _ _ _ _ _ _).trans (hperm.append_left _)
  | _ =>
    -- the other steps of the worker keep what is in its hands
    refine ⟨h.accepted, h.saved, h.expired, h.unsaved, ?_⟩
    simp_all [Worker.batch]

theorem accounts_step (h : Accounts counters s) (hstep : Step names s t) : Accounts counters t := by
  cases hstep with
  | call hmove => exact accounts_call h hmove
  | work hmove => exact accounts_work h hmove
  | ready hw =>
    exact ⟨h.accepted, h.saved, h.expired, h.unsaved, by simpa [hw, Worker.batch] using h.classes⟩
  | _ => exact { h with }

end Accounts

/-! ### Whole runs -/

section Runs

variable {db : Database} {store : Store} {counters : Counters} {lastError : Option String}
  {as : List (Action ι)}

theorem flow_of_run
    (h : (session ι N names).Run Machine.anyStep (.start ι db store counters lastError) as s) :
    Flow s := by
  refine h.invariant (fun _ _ _ hs _ hstep => flow_step hs (step_cases hstep)) ?_
  refine ⟨rfl, ?_, by simp [Session.start]⟩
  rw [total_start rfl]
  rfl

theorem accounts_of_run
    (h : (session ι N names).Run Machine.anyStep (.start ι db store counters lastError) as s) :
    Accounts counters s := by
  refine h.invariant (fun _ _ _ hs _ hstep => accounts_step hs (step_cases hstep)) ?_
  refine ⟨fun _ => ?_, fun _ => rfl, fun _ => rfl, fun _ => rfl, List.Perm.refl _⟩
  rw [total_start rfl]
  rfl

omit [DecidableEq ι] in
theorem settled_of_ended (hadm : Admission s) (hshut : Shut s) (hflow : Flow s)
    (hended : s.worker = .ended) : s.put = s.taken ∧ s.returned.Perm s.put ∧
      Family.total uncounted s.producers = 0 := by
  obtain ⟨hpending, hquiet⟩ := hshut.out (.inr hended)
  have hzero := fun i => carries_of_holding (holding_of_quiet hadm hshut hquiet i)
  have hqueued := hflow.queued
  have hcarried := hflow.carried
  rw [hpending, records_nil, List.append_nil] at hqueued
  rw [Family.total_eq_zero fun i => (hzero i).1, add_zero] at hcarried
  exact ⟨hqueued, (Multiset.coe_eq_coe.1 hcarried).symm, Family.total_eq_zero fun i => (hzero i).2⟩

/-- **A shutdown conserves the events.**  For every interleaving of the parties, every pattern of
failed batches and every number of stops: the word without the bit is the number of the registered
producers, no registration and no departure touches the bit, and whoever leaves is counted; once
the worker has closed its queue, nothing is sent or returned as accepted any more; and when it has
ended, what was returned as accepted is what it took, each event of it is in exactly one of the
three classes, and the counters, if they are below their limit, have grown by the sizes of these. -/
theorem shutdown_conserves_events
    (h : (session ι N names).Run Machine.anyStep (.start ι db store counters lastError) as s) :
    (s.admission % admissionStop = Family.total holding s.producers ∧ s.admission < 2 ^ 64 ∧
      (∀ i t, (∃ spurious, enterStep s i spurious = some t) ∨ leaveStep s i = some t →
        (admissionStop ≤ t.admission ↔ admissionStop ≤ s.admission)) ∧
      ∀ i t, leaveStep s i = some t →
        0 < s.admission % admissionStop ∧ s.admission = t.admission + 1) ∧
    (s.closed = true → ∀ bs t, (session ι N names).Run Machine.anyStep s bs t →
      t.put = s.put ∧ t.returned = s.returned) ∧
    (s.worker = .ended →
      s.returned.Perm s.taken ∧
      s.returned.Perm (s.savedEvents ++ s.expiredEvents ++ s.unsavedEvents) ∧
      (s.counters.accepted < i64Max → s.counters.saved < i64Max → s.counters.expired < i64Max →
        s.counters.unsaved < i64Max →
        s.counters.accepted = counters.accepted + s.returned.length ∧
        s.counters.saved = counters.saved + s.savedEvents.length ∧
        s.counters.expired = counters.expired + s.expiredEvents.length ∧
        s.counters.unsaved = counters.unsaved + s.unsavedEvents.length ∧
        s.counters.accepted - counters.accepted = s.counters.saved - counters.saved +
          (s.counters.expired - counters.expired) + (s.counters.unsaved - counters.unsaved))) := by
  obtain ⟨hadm, hshut⟩ := shut_of_run h
  have hflow := flow_of_run h
  have haccounts := accounts_of_run h
  refine ⟨⟨hadm.mod, hadm.lt, ?_, ?_⟩, ?_, ?_⟩
  · rintro i t (⟨spurious, henter⟩ | hleave)
    · exact call_keeps_stop hadm (enterStep_move henter)
    · exact call_keeps_stop hadm (leaveStep_move hleave)
  · intro i t hleave
    unfold leaveStep at hleave
    split at hleave
    · next event outcome hp =>
      obtain ⟨hpos, hsub⟩ := hadm.pos_of_leaving hp
      cases hleave
      have hle : s.admission % admissionStop ≤ s.admission := Nat.mod_le _ _
      refine ⟨hpos, ?_⟩
      simp only [hsub]
      omega
    · simp at hleave
  · intro hclosed bs t hrun
    exact quiet_run hadm hshut (.inl hclosed) hrun
  · intro hended
    obtain ⟨htaken, hreturned, hcounted⟩ := settled_of_ended hadm hshut hflow hended
    have hclasses := haccounts.classes
    rw [hended] at hclasses
    simp only [Worker.batch, List.append_nil] at hclasses
    rw [htaken] at hreturned
    have hperm := hreturned.trans hclasses.symm
    refine ⟨hreturned, hperm, ?_⟩
    intro ha hs he hu
    have haccepted := haccounts.accepted ha
    have hsaved := haccounts.saved hs
    have hexpired := haccounts.expired he
    have hunsaved := haccounts.unsaved hu
    have hlen := hreturned.length_eq
    have hsum := hperm.length_eq
    simp only [List.length_append] at hsum
    rw [htaken, hcounted] at haccepted
    refine ⟨?_, hsaved, hexpired, hunsaved, ?_⟩
    · omega
    · omega

end Runs

/-! ### A small session -/

def sampleEvent : Event := ⟨[97], 1, 1, 1000⟩

def sampleSession : Session (Fin 2) :=
  .start (Fin 2) .fresh ⟨1000, 0, [], none⟩ ⟨0, 0, 0, 0, 0⟩ none

/-- The first producer registers before the stop and counts after it; the second loads the word
before the stop and is turned away.  Then the worker does its work. -/
def sampleActions : List (Action (Fin 2)) :=
  [.ready true, .record 0 sampleEvent, .enter 0 false, .enter 0 false, .record 1 sampleEvent,
    .enter 1 false, .send 0, .stopBit, .enter 1 false, .enter 1 false, .count 0, .leave 0,
      .stopFlag,
    .command .wake] ++ List.replicate 19 (.work ⟨1000, none, sampleOutcome⟩)

theorem shutdown_conserves_events_sampleActions :
    ((session (Fin 2) Domain sampleNames).after sampleSession sampleActions).returned.Perm
        ((session (Fin 2) Domain sampleNames).after sampleSession sampleActions).taken ∧
      ((session (Fin 2) Domain sampleNames).after sampleSession sampleActions).returned =
        [sampleEvent] := by
  have hrun : (session (Fin 2) Domain sampleNames).Run Machine.anyStep sampleSession sampleActions
      ((session (Fin 2) Domain sampleNames).after sampleSession sampleActions) :=
    Machine.Run.of_exec (Machine.exec_eq_after (by decide +kernel))
  have hended : ((session (Fin 2) Domain sampleNames).after sampleSession sampleActions).worker =
      .ended := by decide +kernel
  exact ⟨((shutdown_conserves_events hrun).2.2 hended).1, by decide +kernel⟩

end Statistics
