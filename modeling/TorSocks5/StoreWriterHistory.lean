/-
**The history of the bridge health store.**

What the parties outside the store writer see is its log: an operation is acknowledged or refused,
a command-line transaction reports that it saved.  What the disk sees is the history of the file:
the mutations in it, in the order in which they got there.  This module relates the two.
-/

import TorSocks5.StoreWriterDiscipline

set_option autoImplicit false

namespace StoreWriter

open List

variable {σ : Type} {s t : State σ}

/-! ### Events and entries -/

/-- The entry an event reports. -/
def Event.entry : Event σ → Option (Entry σ)
  | applied id m => some (.writer id m)
  | cliSaved n m => some (.cli n m)
  | _ => none

/-- The operation an event answers. -/
def Event.answered : Event σ → Option ℕ
  | applied id _ => some id
  | refused id => some id
  | _ => none

/-- The entry is a mutation the actor acknowledged. -/
def Entry.isWriter : Entry σ → Bool
  | writer _ _ => true
  | cli _ _ => false

/-- The operation an entry of the channel stands for. -/
def Op.id : Op σ → Option ℕ
  | mutate id _ => some id
  | close _ => none

/-- The operation the actor is busy with. -/
def Phase.inHand : Phase σ → List ℕ
  | acquiring id _ => [id]
  | loading id _ => [id]
  | mutating id _ => [id]
  | _ => []

/-! ### The three effects -/

/-- What a step does to the log, to the history of the file and to the pending mutations. -/
inductive Effect (s t : State σ) : Prop
  /-- The operation `id` is acknowledged, and pending. -/
  | acknowledged (id : ℕ) (m : Mutation σ) (hlog : t.log = s.log ++ [.applied id m])
      (hserial : t.serial = s.serial) (hpending : t.pending = s.pending ++ [.writer id m])
  /-- The first `k` pending mutations reach the file. -/
  | moved (k : ℕ) (es : List (Event σ)) (hes : es.filterMap Event.entry = [])
      (hlog : t.log = s.log ++ es) (hserial : t.serial = s.serial ++ s.pending.take k)
      (hpending : t.pending = s.pending.drop k)
  /-- The command-line transaction `n` saves. -/
  | transaction (n : ℕ) (m : Mutation σ) (hlog : t.log = s.log ++ [.cliSaved n m])
      (hserial : t.serial = s.serial ++ [.cli n m]) (hpending : t.pending = s.pending)

namespace Effect

theorem quiet (es : List (Event σ)) (hes : es.filterMap Event.entry = [])
    (hlog : t.log = s.log ++ es) (hserial : t.serial = s.serial)
      (hpending : t.pending = s.pending) :
    Effect s t :=
  moved 0 es hes hlog (by simpa using hserial) (by simpa using hpending)

theorem silent (hlog : t.log = s.log) (hserial : t.serial = s.serial)
    (hpending : t.pending = s.pending) : Effect s t :=
  quiet [] rfl (by simpa using hlog) hserial hpending

theorem tryStartPublish {u : State σ} (h : Effect s u) : Effect s (tryStartPublish u) := by
  rcases tryStartPublish_cases u with heq | ⟨st, -, -, -, -, heq⟩
  · rwa [heq]
  · rw [heq]
    cases h with
    | acknowledged id m hlog hserial hpending => exact acknowledged id m hlog hserial hpending
    | moved k es hes hlog hserial hpending => exact moved k es hes hlog hserial hpending
    | transaction n m hlog hserial hpending => exact transaction n m hlog hserial hpending

end Effect

theorem filterMap_entry_stop (rs : List ℕ) (ops : List (Op σ)) (ok : Bool) :
    (rs.map (fun r => (.closed r ok : Event σ)) ++ ops.map Op.dropped).filterMap Event.entry =
      [] := by
  simp only [filterMap_append, filterMap_map, append_eq_nil_iff,
    filterMap_eq_nil_iff, Function.comp_apply]
  refine ⟨fun r _ => rfl, fun op _ => ?_⟩
  cases op <;> rfl

/-- **A step has one of the three effects.** -/
theorem effect_of_step {a : Action σ} (hstep : step s a = some t) : Effect s t := by
  refine step_preserves (fun hs => ?_) (fun b _ hs => ?_) (fun out _ hs => ?_) (fun n hs => ?_)
    hstep
  · cases hs with
    | refused _ => exact .quiet [.refused s.nextOp] rfl rfl rfl rfl
    | _ => exact Effect.silent rfl rfl rfl
  · cases hs with
    | @acquireFailed id | @loadFailed id | @panicked id =>
      exact .quiet [.refused id] rfl rfl rfl rfl
    | @mutated id m st owned _ _ _ =>
      exact Effect.tryStartPublish (.acknowledged id m rfl rfl rfl)
    | @completed r rest _ _ _ =>
      refine Effect.tryStartPublish ?_
      unfold absorbPublishResult
      cases r with
      | ok => simp only; split <;> exact Effect.silent rfl rfl rfl
      | err => exact Effect.silent rfl rfl rfl
    | retried => exact Effect.tryStartPublish (Effect.silent rfl rfl rfl)
    | stopped | flushFailed =>
      exact .quiet _ (filterMap_entry_stop s.closeReplies s.rx _) (append_assoc _ _ _) rfl rfl
    | flushed _ =>
      exact .moved s.pending.length _ (filterMap_entry_stop s.closeReplies s.rx true)
        (append_assoc _ _ _) (by simp [stop, StoreWriter.flushed])
        (by simp [stop, StoreWriter.flushed])
    | _ => exact Effect.silent rfl rfl rfl
  · cases hs with
    | @ok j _ => exact .moved j.covers [] rfl (by simp [published]) rfl rfl
    | _ => exact Effect.silent rfl rfl rfl
  · cases hs with
    | failed | saveFailed => exact .quiet [.cliFailed n] rfl rfl rfl rfl
    | @saved m st _ => exact .transaction n m rfl rfl rfl
    | _ => exact Effect.silent rfl rfl rfl

/-! ### The log and the history -/

/-- **The log and the history agree.**  What is in the file or pending is what was acknowledged, in
that order; the other entries of the file are the transactions that reported their save, in that
order. -/
structure History (s : State σ) : Prop where
  pending : ∀ e ∈ s.pending, e.isWriter = true
  acknowledged : (s.serial ++ s.pending).filter Entry.isWriter =
    (s.log.filterMap Event.entry).filter Entry.isWriter
  transactions : s.serial.filter (fun e => !e.isWriter) =
    (s.log.filterMap Event.entry).filter fun e => !e.isWriter

theorem history_init (initial : ℕ) (f : σ) : History (init initial f) where
  pending := by simp [init]
  acknowledged := rfl
  transactions := rfl

theorem History.effect (h : History s) (he : Effect s t) : History t := by
  obtain ⟨hpend, hack, htrans⟩ := h
  cases he with
  | acknowledged id m hlog hserial hpending =>
    constructor <;> simp_all [Event.entry, Entry.isWriter, ← append_assoc]
    grind
  | moved k es hes hlog hserial hpending =>
    have hnone : (s.pending.take k).filter (fun e => !e.isWriter) = [] := by
      rw [filter_eq_nil_iff]
      intro e he
      simp [hpend e (mem_of_mem_take he)]
    refine ⟨fun e he => hpend e (mem_of_mem_drop (hpending ▸ he)), ?_, ?_⟩
    · rw [hserial, hpending, hlog, append_assoc, take_append_drop, hack,
        filterMap_append, hes, append_nil]
    · rw [hserial, hlog, filter_append, hnone, append_nil, htrans,
        filterMap_append, hes, append_nil]
  | transaction n m hlog hserial hpending =>
    constructor <;> simp_all [Event.entry, Entry.isWriter]

variable {ok : State σ → Action σ → Prop} {as : List (Action σ)} {id : ℕ} {e : Event σ}
/-- **The log and the history agree in every state of every run.** -/
theorem history_of_run {initial : ℕ} {f : σ} (h : (machine σ).Run ok (init initial f) as s) :
    History s :=
  h.invariant (I := History) (fun _ _ _ hs _ hstep => hs.effect (effect_of_step hstep))
    (history_init initial f)

theorem serial_isPrefix_of_run (h : (machine σ).Run ok s as t) : s.serial <+: t.serial := by
  refine h.relation (R := fun s t => s.serial <+: t.serial) (fun s => prefix_refl _)
    (fun _ _ _ => List.IsPrefix.trans) ?_
  intro s a t _ hstep
  cases effect_of_step hstep with
  | acknowledged id m hlog hserial hpending => rw [hserial]
  | moved k es hes hlog hserial hpending => rw [hserial]; exact prefix_append _ _
  | transaction n m hlog hserial hpending => rw [hserial]; exact prefix_append _ _

/-! ### The answers -/

/-- **Every operation sent is answered, with the actor, or in the channel**, in the order in which
they were sent. -/
structure Answers (s : State σ) : Prop where
  sent : s.log.filterMap Event.answered ++ s.phase.inHand ++ s.rx.filterMap Op.id =
    List.range s.nextOp
  stopped : s.phase = .stopped → s.rx = []

theorem answers_init (initial : ℕ) (f : σ) : Answers (init initial f) where
  sent := rfl
  stopped := by simp [init]

namespace Answers

theorem tryStartPublish (h : Answers s) : Answers (tryStartPublish s) := by
  rcases tryStartPublish_cases s with heq | ⟨st, -, -, -, -, heq⟩
  · rwa [heq]
  · rw [heq]
    exact ⟨h.sent, h.stopped⟩

theorem answered_stop (rs : List ℕ) (ops : List (Op σ)) (ok : Bool) :
    (rs.map (fun r => (.closed r ok : Event σ)) ++ ops.map Op.dropped).filterMap
      Event.answered = ops.filterMap Op.id := by
  rw [filterMap_append, filterMap_map, filterMap_map]
  have hops : Event.answered ∘ Op.dropped = (Op.id : Op σ → Option ℕ) := by
    funext op
    cases op <;> rfl
  rw [hops, append_left_eq_self, filterMap_eq_nil_iff]
  exact fun r _ => rfl

theorem stop (h : Answers s) (hp : s.phase.inHand = []) (ok : Bool) : Answers (stop ok s) := by
  refine ⟨?_, fun _ => rfl⟩
  have hsent := h.sent
  rw [hp, append_nil] at hsent
  simp only [StoreWriter.stop, Phase.inHand, append_nil, filterMap_nil]
  rw [append_assoc, filterMap_append, answered_stop, hsent]

theorem answer (h : Answers s) (hp : s.phase.inHand = [id])
    (he : e.answered = some id) (hlog : t.log = s.log ++ [e]) (htp : t.phase = .select)
    (hrx : t.rx = s.rx) (hnext : t.nextOp = s.nextOp) : Answers t := by
  refine ⟨?_, fun hs => by rw [htp] at hs; cases hs⟩
  have hsent := h.sent
  rw [hp] at hsent
  rw [hlog, htp, hrx, hnext, ← hsent, filterMap_append]
  simp [Phase.inHand, he]

theorem unrelated (h : Answers s) (he : e.answered = none)
    (hlog : t.log = s.log ++ [e]) (htp : t.phase = s.phase) (hrx : t.rx = s.rx)
    (hnext : t.nextOp = s.nextOp) : Answers t := by
  refine ⟨?_, by rw [htp, hrx]; exact h.stopped⟩
  rw [hlog, htp, hrx, hnext, ← h.sent, filterMap_append]
  simp [he]

theorem move (h : Answers s) {p : Phase σ} {rx : List (Op σ)}
    (hid : p.inHand ++ rx.filterMap Op.id = s.phase.inHand ++ s.rx.filterMap Op.id)
    (hp : p ≠ .stopped) (hlog : t.log = s.log) (htp : t.phase = p) (hrx : t.rx = rx)
    (hnext : t.nextOp = s.nextOp) : Answers t := by
  refine ⟨?_, fun hs => absurd (htp ▸ hs) hp⟩
  rw [hlog, htp, hrx, hnext, ← h.sent, append_assoc, append_assoc, hid]

theorem actor (h : Answers s) {a : ActorAction} (hs : ActorStep s a t) : Answers t := by
  cases hs with
  | recvHangup hp | acquired hp | loaded hp | flushStarted hp =>
    exact h.move (by simp [hp, Phase.inHand]) (by simp) rfl rfl rfl rfl
  | recvLoad hp hrx | recvMutate hp hrx =>
    exact h.move (by simp [hp, hrx, Phase.inHand, Op.id]) (by simp) rfl rfl rfl rfl
  | recvClose hp hrx => exact h.move (by rw [hp, hrx]; rfl) (by simp) rfl rfl rfl rfl
  | acquireFailed hp | loadFailed hp | panicked hp =>
    exact h.answer (by simp [hp, Phase.inHand]) rfl rfl rfl rfl rfl
  | mutated hp _ _ =>
    exact tryStartPublish (h.answer (by simp [hp, Phase.inHand]) rfl rfl rfl rfl rfl)
  | @completed r rest _ _ _ =>
    refine tryStartPublish ?_
    unfold absorbPublishResult
    cases r with
    | ok => simp only; split <;> exact ⟨h.sent, h.stopped⟩
    | err => exact ⟨h.sent, h.stopped⟩
  | retried _ _ _ _ _ => exact h.tryStartPublish
  | stopped hp _ _ => exact h.stop (by simp [hp, Phase.inHand]) true
  | @flushed st hp =>
    have hf : Answers (StoreWriter.flushed st s) := ⟨h.sent, h.stopped⟩
    exact hf.stop (by simp [StoreWriter.flushed, hp, Phase.inHand]) true
  | flushFailed hp _ =>
    have hf : Answers { s with retry := s.retry.recordFailure s.now } := ⟨h.sent, h.stopped⟩
    exact hf.stop (by simp [hp, Phase.inHand]) false

theorem step (h : Answers s) {a : Action σ} (hstep : step s a = some t) : Answers t := by
  refine step_preserves (fun hs => ?_) (fun _ _ hs => h.actor hs) (fun out _ hs => ?_)
    (fun n hs => ?_) hstep
  · have hsent := h.sent
    cases hs with
    | refused hp =>
      refine ⟨?_, h.stopped⟩
      simp only [hp, h.stopped hp, Phase.inHand, filterMap_nil, append_nil] at hsent
      simp only [hp, h.stopped hp, Phase.inHand, filterMap_nil, append_nil,
        filterMap_append, hsent, range_succ]
      rfl
    | sent m hp =>
      refine ⟨?_, fun hs => absurd hs hp⟩
      simp only [filterMap_append, ← append_assoc, hsent, range_succ]
      rfl
    | closeSent r hp =>
      refine ⟨?_, fun hs => absurd hs hp⟩
      simp only [filterMap_append, ← append_assoc, hsent]
      exact append_nil _
    | _ => exact ⟨hsent, h.stopped⟩
  · cases hs <;> exact ⟨h.sent, h.stopped⟩
  · cases hs with
    | failed | saveFailed => exact h.unrelated (e := .cliFailed n) rfl rfl rfl rfl rfl
    | @saved m st _ => exact h.unrelated (e := .cliSaved n m) rfl rfl rfl rfl rfl
    | _ => exact ⟨h.sent, h.stopped⟩

end Answers

/-- **Every operation sent is accounted for in every state of every run.** -/
theorem answers_of_run {initial : ℕ} {f : σ} (h : (machine σ).Run ok (init initial f) as s) :
    Answers s :=
  h.invariant (I := Answers) (fun _ _ _ hs _ hstep => hs.step hstep) (answers_init initial f)

theorem Answers.nodup (h : Answers s) : (s.log.filterMap Event.answered).Nodup := by
  have hr : (s.log.filterMap Event.answered ++ s.phase.inHand ++ s.rx.filterMap Op.id).Nodup := by
    rw [h.sent]
    exact nodup_range
  exact (nodup_append'.1 (nodup_append'.1 hr).1).1

/-- Two events that answer one operation are one event. -/
theorem Answers.event_unique (h : Answers s) {e' : Event σ} (he : e ∈ s.log)
    (he' : e' ∈ s.log) (hid : e.answered = some id) (hid' : e'.answered = some id) : e = e' := by
  have hnd := h.nodup
  generalize s.log = l at he he' hnd
  induction l with
  | nil => cases he
  | cons x xs ih => grind

/-- A mutation of the history was acknowledged. -/
theorem History.applied_of_mem (h : History s) {m : Mutation σ}
    (hmem : .writer id m ∈ s.serial ++ s.pending) : .applied id m ∈ s.log := by
  have hw : .writer id m ∈ (s.serial ++ s.pending).filter Entry.isWriter :=
    mem_filter.2 ⟨hmem, rfl⟩
  rw [h.acknowledged, mem_filter, mem_filterMap] at hw
  obtain ⟨⟨e, he, hentry⟩, -⟩ := hw
  cases e <;> cases hentry
  exact he

/-- **A mutation of the history was never refused.** -/
theorem not_refused_of_mem (h : History s) (ha : Answers s) {m : Mutation σ}
    (hmem : .writer id m ∈ s.serial ++ s.pending) : .refused id ∉ s.log := by
  intro href
  cases ha.event_unique href (h.applied_of_mem hmem) rfl rfl

end StoreWriter
