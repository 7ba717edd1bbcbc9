/-
**The store writer is serializable and durable, up to the range of its tail counter.**

The actor acknowledges a mutation before it is on disk, publishes snapshots while it goes on
mutating, and drops its snapshot, and the lock, when a publish succeeds and the tail counter says
that nothing was absorbed meanwhile.  The invariant of this module ties the snapshot in memory, the
snapshot of the publish in flight, the dirty flag and the file to one history.
-/

import TorSocks5.StoreWriterClean
import TorSocks5.StoreWriterHistory

set_option autoImplicit false

namespace StoreWriter

variable {σ : Type} {s t : State σ} {f₀ : σ}

/-! ### The contract -/

/-- **The contract of the store writer**, in a run that started on the file `f₀`. -/
structure Serializable (f₀ : σ) (s : State σ) : Prop where
  /-- The mutations in the file and in the retained snapshot are the acknowledged ones, each as
  often as it was acknowledged and in that order. -/
  acknowledged : (s.serial ++ s.pending).filter Entry.isWriter =
    (s.log.filterMap Event.entry).filter Entry.isWriter
  /-- No operation is answered twice. -/
  once : (s.log.filterMap Event.answered).Nodup
  /-- A refused mutation is not applied. -/
  refused : ∀ id m, .refused id ∈ s.log → .writer id m ∉ s.serial ++ s.pending
  /-- The other entries of the file are the transactions that reported their save. -/
  transactions : s.serial.filter (fun e => !e.isWriter) =
    (s.log.filterMap Event.entry).filter fun e => !e.isWriter
  /-- The file is the serial history applied to the file of the start. -/
  file : replay f₀ s.serial = some s.file
  /-- What is acknowledged and not in the file is in the retained snapshot, under the lock. -/
  retained : s.phase ≠ .stopped → s.pending ≠ [] → s.lock = some .actor ∧
    ∃ st, s.store = some st ∧ replay f₀ (s.serial ++ s.pending) = some st
  /-- Once a close request is answered `Ok`, everything acknowledged is in the file. -/
  closed : ∀ r, .closed r true ∈ s.log → s.pending = []

/-- A publish that completes well has absorbed no mutation, or a number of them that the tail
counter does not read as zero. -/
def CounterExact (s : State σ) (a : Action σ) : Prop :=
  a = .actor .complete → s.doneRx.head? = some .ok →
    s.pending.length % u32Range = 0 → s.pending = []

/-! ### The invariant -/

/-- **Every copy of the store is a point of one history.** -/
structure Backed (f₀ : σ) (s : State σ) : Prop where
  file : replay f₀ s.serial = some s.file
  store : ∀ st, s.store = some st → replay f₀ (s.serial ++ s.pending) = some st
  job : ∀ j, s.job = some j → replay f₀ (s.serial ++ s.pending.take j.covers) = some j.snapshot
  clean : s.phase ≠ .stopped → s.store = none → s.pending = []
  dirty : s.phase ≠ .stopped → s.pending ≠ [] → s.retry.dirty = true
  closed : ∀ r ok, .closed r ok ∈ s.log → s.phase = .stopped
  closedOk : ∀ r, .closed r true ∈ s.log → s.pending = []

theorem backed_init (initial : ℕ) (f : σ) : Backed f (init initial f) where
  file := rfl
  store := by simp [init]
  job := by simp [init]
  clean := fun _ _ => rfl
  dirty := by simp [init]
  closed := by simp [init]
  closedOk := fun _ _ => rfl

namespace Backed

theorem frame (h : Backed f₀ s) (hfile : t.file = s.file) (hserial : t.serial = s.serial)
    (hpending : t.pending = s.pending) (hstore : t.store = s.store)
    (hjob : ∀ j, t.job = some j → s.job = some j) (hdirty : t.retry.dirty = s.retry.dirty)
    (hphase : t.phase = .stopped ↔ s.phase = .stopped)
    (hlog : ∀ r ok, .closed r ok ∈ t.log → .closed r ok ∈ s.log) : Backed f₀ t := by
  obtain ⟨hf, hs, hj, hclean, hd, hclosed, hclosedOk⟩ := h
  constructor <;> grind

theorem tryStartPublish (h : Backed f₀ s) : Backed f₀ (tryStartPublish s) := by
  rcases tryStartPublish_cases s with heq | ⟨st, hst, -, -, -, heq⟩
  · rwa [heq]
  · have hstore := h.store st hst
    rw [heq]
    exact ⟨h.file, h.store, by grind [startPublish], h.clean, h.dirty, h.closed, h.closedOk⟩

/-- A mutation on the snapshot is one more entry of the history. -/
theorem mutated (h : Backed f₀ s) (hd : Discipline s) {id : ℕ} {m : Mutation σ} {st owned : σ}
    (hp : s.phase = .mutating id m) (hst : s.store = some st) (hm : m st = some owned) :
    Backed f₀ (mutated id m owned s) := by
  have open_ : ∀ r ok, .closed r ok ∉ s.log := by grind [h.closed]
  refine tryStartPublish ⟨h.file, ?_, ?_, by simp, fun _ _ => rfl, by grind, by grind⟩
  · rintro _ ⟨rfl⟩
    rw [← List.append_assoc, replay_concat (h.store st hst)]
    exact hm
  · intro j hj
    obtain ⟨-, -, -, hcov, -⟩ := hd.job j hj
    simp only [List.take_append_of_le_length hcov]
    exact h.job j hj

/-- The result of a publish: a clean snapshot is dropped only when its history is in the file. -/
theorem absorb (h : Backed f₀ s) (hd : Discipline s) {r : Published} {rest : List Published}
    (hdone : s.doneRx = r :: rest)
    (hok : CounterExact s (.actor .complete)) :
    Backed f₀ (absorbPublishResult r { s with doneRx := rest, publishing := false }) := by
  obtain ⟨rfl, hpub, hjob, hst, hmsp⟩ := hd.done r rest hdone
  unfold absorbPublishResult
  cases r with
  | ok =>
    simp only
    split
    · next hz =>
      have hnil : s.pending = [] := hok rfl (by simp [hdone]) (by rw [← hmsp rfl, hz])
      exact ⟨h.file, by simp, by simp [hjob], fun _ _ => hnil, fun _ hne => absurd hnil hne,
        h.closed, h.closedOk⟩
    · exact ⟨h.file, h.store, h.job, h.clean, fun _ _ => rfl, h.closed, h.closedOk⟩
  | err => exact ⟨h.file, h.store, h.job, h.clean, fun _ _ => rfl, h.closed, h.closedOk⟩

/-- The end of the task, with everything in the file if the answer is `Ok`. -/
theorem stop (h : Backed f₀ s) (hp : s.phase ≠ .stopped) (hjob : s.job = none) {ok : Bool}
    (hpend : ok = true → s.pending = []) : Backed f₀ (stop ok s) := by
  refine ⟨h.file, by simp [StoreWriter.stop], by simp [StoreWriter.stop, hjob],
    fun hp => absurd rfl hp, fun hp => absurd rfl hp, fun _ _ _ => rfl, ?_⟩
  intro r hmem
  simp only [StoreWriter.stop, List.mem_append, List.mem_map] at hmem
  rcases hmem with (hmem | ⟨r', -, hr'⟩) | ⟨op, -, hop⟩
  · exact absurd (h.closed r true hmem) hp
  · cases hr'
    exact hpend rfl
  · cases op <;> cases hop

theorem actor (h : Backed f₀ s) (hd : Discipline s) {a : ActorAction}
    (hok : CounterExact s (.actor a)) (hs : ActorStep s a t) : Backed f₀ t := by
  cases hs with
  | acquireFailed hp | loadFailed hp =>
    exact h.frame rfl rfl rfl rfl (fun _ => id) rfl (by simp [StoreWriter.loadFailed, hp])
      (by simp [StoreWriter.loadFailed])
  | @loaded id m hp =>
    have hnil : s.pending = [] := h.clean (by simp [hp]) (by simpa [PhaseOk, hp] using hd.phase)
    refine ⟨h.file, ?_, h.job, by simp, fun _ hne => absurd hnil hne, ?_, h.closedOk⟩
    · rintro _ ⟨rfl⟩
      simpa [hnil] using h.file
    · grind [h.closed]
  | mutated hp hst hm => exact h.mutated hd hp hst hm
  | panicked hp _ _ =>
    exact h.frame rfl rfl rfl rfl (fun _ => id) rfl (by simp [mutationPanicked, hp])
      (by simp [mutationPanicked])
  | completed hdone _ _ => exact (h.absorb hd hdone hok).tryStartPublish
  | retried _ _ _ _ _ => exact h.tryStartPublish
  | stopped hp hpub hdirty =>
    refine h.stop (by simp [hp]) (hd.idle hpub).1 fun _ => ?_
    by_contra hne
    exact hne (h.clean (by simp [hp]) (hdirty (h.dirty (by simp [hp]) hne)))
  | @flushed st hp =>
    obtain ⟨hst, hpub⟩ : s.store = some st ∧ s.publishing = false := by
      simpa [PhaseOk, hp] using hd.phase
    have hf : Backed f₀ (StoreWriter.flushed st s) := by
      refine ⟨h.store st hst, ?_, ?_, fun _ _ => rfl, by simp [StoreWriter.flushed], h.closed,
        fun _ _ => rfl⟩
      · simpa [StoreWriter.flushed] using h.store
      · simp [StoreWriter.flushed, (hd.idle hpub).1]
    exact hf.stop (by simp [StoreWriter.flushed, hp]) (hd.idle hpub).1 fun _ => rfl
  | @flushFailed st out hp _ =>
    obtain ⟨-, hpub⟩ : s.store = some st ∧ s.publishing = false := by
      simpa [PhaseOk, hp] using hd.phase
    have hf : Backed f₀ { s with retry := s.retry.recordFailure s.now } :=
      ⟨h.file, h.store, h.job, h.clean, fun _ _ => rfl, h.closed, h.closedOk⟩
    exact hf.stop (by simp [hp]) (hd.idle hpub).1 (by simp)
  | recvHangup hp | recvLoad hp | recvMutate hp | recvClose hp | acquired hp | flushStarted hp =>
    exact h.frame rfl rfl rfl rfl (fun _ => id) rfl (by simp [hp]) fun _ _ => id

theorem publish (h : Backed f₀ s) (hd : Discipline s) {out : Outcome} (hs : PublishStep s out t) :
    Backed f₀ t := by
  cases hs with
  | @ok j hj =>
    obtain ⟨hpub, -, hst, -⟩ := hd.job j hj
    have hp : s.phase ≠ .stopped := by
      intro hp
      have := hd.phase
      simp [PhaseOk, hp, hpub] at this
    refine ⟨h.job j hj, ?_, by simp [published], fun _ hnone => absurd hnone hst, ?_,
      h.closed, fun r hmem => absurd (h.closed r true hmem) hp⟩
    · intro st hst'
      rw [← h.store st hst']
      simp [published]
    · intro _ hne
      refine h.dirty hp fun hnil => hne ?_
      simp [published, hnil]
  | _ => exact h.frame rfl rfl rfl rfl (by simp) rfl Iff.rfl fun _ _ => id

theorem cli (h : Backed f₀ s) (hd : Discipline s) {n : ℕ} (hs : CliStep s n t) : Backed f₀ t := by
  cases hs with
  | failed | saveFailed =>
    exact h.frame rfl rfl rfl rfl (fun _ => id) rfl Iff.rfl (by simp [cliFailed, setCli])
  | @saved m st hc =>
    -- the transaction holds the lock, so the actor has no snapshot to contradict it
    have hnone : s.store = none := hd.no_store (by rw [hc]; rfl)
    have hjob : s.job = none :=
      Option.eq_none_iff_forall_ne_some.2 fun j hj => (hd.job j hj).2.2.1 hnone
    refine ⟨?_, ?_, ?_, h.clean, h.dirty, ?_, ?_⟩
    · rw [cliSaved, setCli]
      simp only
      rw [replay_concat h.file]
      exact hd.cliApplied n m st hc
    · simp [cliSaved, setCli, hnone]
    · simp [cliSaved, setCli, hjob]
    · simpa [cliSaved, setCli] using h.closed
    · simpa [cliSaved, setCli] using h.closedOk
  | _ => exact h.frame rfl rfl rfl rfl (fun _ => id) rfl Iff.rfl fun _ _ => id

theorem caller (h : Backed f₀ s) (hs : CallerStep s t) : Backed f₀ t := by
  cases hs with
  | refused _ => exact h.frame rfl rfl rfl rfl (fun _ => id) rfl Iff.rfl (by simp)
  | _ => exact h.frame rfl rfl rfl rfl (fun _ => id) rfl Iff.rfl fun _ _ => id

theorem step (h : Backed f₀ s) (hd : Discipline s) {a : Action σ} (hok : CounterExact s a)
    (hstep : step s a = some t) : Backed f₀ t := by
  refine step_preserves h.caller ?_ (fun _ _ => h.publish hd) (fun _ => h.cli hd) hstep
  rintro b rfl
  exact h.actor hd hok

end Backed

theorem backed_of_run {initial : ℕ} {f : σ} {as : List (Action σ)}
    (h : (machine σ).Run CounterExact (init initial f) as s) : Discipline s ∧ Backed f s :=
  h.invariant (I := fun s => Discipline s ∧ Backed f s)
    (fun _ _ _ hs hok hstep => ⟨hs.1.step hstep, hs.2.step hs.1 hok hstep⟩)
    ⟨discipline_init initial f, backed_init initial f⟩

theorem Backed.serializable (h : Backed f₀ s) (hd : Discipline s) (hh : History s)
    (ha : Answers s) : Serializable f₀ s where
  acknowledged := hh.acknowledged
  once := ha.nodup
  refused := fun _ _ href hmem => not_refused_of_mem hh ha hmem href
  transactions := hh.transactions
  file := h.file
  retained := by
    intro hp hne
    have hst : s.store ≠ none := fun hnone => hne (h.clean hp hnone)
    obtain ⟨st, hst'⟩ := Option.ne_none_iff_exists'.1 hst
    exact ⟨hd.actorLock.2 (.inl hst), st, hst', h.store st hst'⟩
  closed := h.closedOk

/-- **The store writer is serializable and durable, and its histories are one history, throughout
a run exactly when no completed publish of the run has absorbed a positive multiple of `2 ^ 32`
mutations.** -/
theorem serializable_iff {initial : ℕ} {f : σ} {as : List (Action σ)}
    (h : (machine σ).Run Machine.anyStep (init initial f) as s) :
    (∀ bs u, bs <+: as → (machine σ).Run Machine.anyStep (init initial f) bs u →
      Serializable f u ∧ u.serial <+: s.serial) ↔
    (machine σ).Run CounterExact (init initial f) as s := by
  have key : (∀ bs u, bs <+: as → (machine σ).Run Machine.anyStep (init initial f) bs u →
      Serializable f u) ↔ (machine σ).Run CounterExact (init initial f) as s :=
    Machine.Run.forall_iff (fun bs u hrun => ?_) (fun bs u a v hrun hbad hstep => ?_) h
  · rw [← key]
    refine ⟨fun hall bs u hbs hu => (hall bs u hbs hu).1, fun hall bs u hbs hu => ?_⟩
    refine ⟨hall bs u hbs hu, ?_⟩
    obtain ⟨cs, rfl⟩ := hbs
    obtain ⟨v, hv, hvs⟩ := h.split
    obtain rfl := hu.deterministic hv
    exact serial_isPrefix_of_run hvs
  · obtain ⟨hd, hb⟩ := backed_of_run hrun
    exact hb.serializable hd (history_of_run hrun) (answers_of_run hrun)
  · -- the counter reads zero: the snapshot goes, and the pending mutations with it
    unfold CounterExact at hbad
    push Not at hbad
    obtain ⟨rfl, hhead, hmod, hne⟩ := hbad
    have hs : ActorStep u .complete v := actorStep_of_step hstep
    obtain ⟨rest, hdone⟩ : ∃ rest, u.doneRx = .ok :: rest := by
      cases hd : u.doneRx with
      | nil => simp [hd] at hhead
      | cons r rest =>
        simp only [hd, List.head?_cons, Option.some.injEq] at hhead
        exact ⟨rest, by rw [hhead]⟩
    have hmsp := ((discipline_of_run hrun).done _ _ hdone).2.2.2.2 rfl
    cases hs with
    | completed hdone' hpub hp =>
      obtain ⟨rfl, rfl⟩ := List.cons.inj (hdone.symm.trans hdone')
      intro hser
      have hz : u.mutationsSincePublish = 0 := by rw [hmsp, hmod]
      simp only [complete, absorbPublishResult, hz, if_true, tryStartPublish] at hser
      obtain ⟨-, st, hst, -⟩ := hser.retained (Phase.ne_stopped_of_awaits hp) hne
      cases hst

theorem serializable_iff_increment :
    ∃ s : State ℕ, (machine ℕ).exec (init initialBackoff 0)
        (applyOnce (fun n => some (n + 1)) ++
          [.publish .ok, .actor .complete]) = some s ∧
      s.file = 1 ∧
      ((∀ bs u, bs <+: applyOnce (fun n => some (n + 1)) ++
          [.publish .ok, .actor .complete] →
          (machine ℕ).Run Machine.anyStep (init initialBackoff 0) bs u →
            Serializable 0 u ∧ u.serial <+: s.serial) ↔
        (machine ℕ).Run CounterExact (init initialBackoff 0)
          (applyOnce (fun n => some (n + 1)) ++
            [.publish .ok, .actor .complete]) s) :=
  ⟨_, rfl, rfl, serializable_iff (Machine.Run.of_exec rfl)⟩

/-! ### The counter at its limit -/

/-- The mutation of the examples: a counter is incremented. -/
def increment : Mutation ℕ := fun n => some (n + 1)

/-- One more mutation sent to an actor that has a snapshot. -/
def absorbOne : List (Action ℕ) :=
  [.caller (.apply increment), .actor .recv,
    .actor .mutate]

/-- The first increment is being published, and `k` more have been absorbed since. -/
structure Absorbing (k : ℕ) (s : State ℕ) : Prop where
  phase : s.phase = .select
  store : ∃ n, s.store = some n
  publishing : s.publishing = true
  tail : s.mutationsSincePublish = k % u32Range
  closeReplies : s.closeReplies = []
  rx : s.rx = []
  senders : s.senders = true
  doneRx : s.doneRx = []
  job : s.job = some ⟨1, 1⟩
  pending : s.pending.length = k + 1

theorem absorbing_zero : ∃ s, (machine ℕ).exec (init initialBackoff 0) (applyOnce increment) =
    some s ∧ Absorbing 0 s :=
  ⟨_, rfl, rfl, ⟨_, rfl⟩, rfl, rfl, rfl, rfl, rfl, rfl, rfl, rfl⟩

theorem Absorbing.succ {k : ℕ} {s : State ℕ} (h : Absorbing k s) :
    ∃ t, (machine ℕ).exec s absorbOne = some t ∧ Absorbing (k + 1) t := by
  obtain ⟨hphase, ⟨n, hstore⟩, hpublishing, htail, hreplies, hrx, hsenders, hdone, hjob,
    hpending⟩ := h
  cases s
  simp only at hphase hstore hpublishing htail hreplies hrx hsenders hdone hjob hpending
  subst hphase hstore hpublishing htail hreplies hrx hsenders hdone hjob
  refine ⟨_, rfl, rfl, ⟨_, rfl⟩, rfl, ?_, rfl, rfl, rfl, rfl, rfl, ?_⟩
  · exact Nat.mod_add_mod k u32Range 1
  · simp [mutated, tryStartPublish, hpending]

theorem exists_absorbing (k : ℕ) : ∃ as s,
    (machine ℕ).Run Machine.anyStep (init initialBackoff 0) as s ∧ Absorbing k s := by
  induction k with
  | zero =>
    obtain ⟨s, hexec, hs⟩ := absorbing_zero
    exact ⟨_, s, Machine.Run.of_exec hexec, hs⟩
  | succ k ih =>
    obtain ⟨as, s, hrun, hs⟩ := ih
    obtain ⟨t, hexec, ht⟩ := hs.succ
    exact ⟨_, t, hrun.trans (Machine.Run.of_exec hexec), ht⟩

/-- A tail the counter reads as zero: the publish completes, the actor forgets its snapshot, and a
close request is answered `Ok`. -/
theorem Absorbing.close {k : ℕ} {s : State ℕ} (h : Absorbing k s) (hk : k % u32Range = 0) :
    ∃ t, (machine ℕ).exec s
        [.publish .ok, .actor .complete,
          .caller (.close 0), .actor .recv,
          .actor .drained] = some t ∧
      .closed 0 true ∈ t.log ∧ t.file = 1 ∧ t.pending.length = k := by
  obtain ⟨hphase, ⟨n, hstore⟩, hpublishing, htail, hreplies, hrx, hsenders, hdone, hjob,
    hpending⟩ := h
  rw [hk] at htail
  cases s
  simp only at hphase hstore hpublishing htail hreplies hrx hsenders hdone hjob hpending
  subst hphase hstore hpublishing htail hreplies hrx hsenders hdone hjob
  refine ⟨_, rfl, ?_, rfl, ?_⟩
  · simp [stop, complete, absorbPublishResult, published, tryStartPublish]
  · simp [stop, complete, absorbPublishResult, published, tryStartPublish, hpending]

/-- **`2 ^ 32` mutations absorbed during one publish are lost**: they are acknowledged, the close
request is answered `Ok`, and the file holds the first increment only. -/
theorem counter_wrap_loses_mutations : ∃ (as : List (Action ℕ)) (s : State ℕ),
    (machine ℕ).Run Machine.anyStep (init initialBackoff 0) as s ∧
      .closed 0 true ∈ s.log ∧ s.file = 1 ∧ s.pending.length = 2 ^ 32 ∧
      ¬ Serializable 0 s := by
  obtain ⟨as, s, hrun, hs⟩ := exists_absorbing u32Range
  obtain ⟨t, hexec, hclosed, hfile, hlen⟩ := hs.close (Nat.mod_self _)
  refine ⟨_, t, hrun.trans (Machine.Run.of_exec hexec), hclosed, hfile, hlen, fun hser => ?_⟩
  rw [hser.closed 0 hclosed] at hlen
  cases hlen

end StoreWriter
