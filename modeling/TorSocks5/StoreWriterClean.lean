/-
**What the store writer holds while it is clean.**

The contract at the head of `bridge_store_writer.rs` says that a clean state is `store = None`: a
publish that succeeds with no tail drops the snapshot and releases the lock, so that the next
mutation re-reads the file and a waiting command-line transaction can go ahead.
-/

import TorSocks5.StoreWriterDiscipline

set_option autoImplicit false

namespace StoreWriter

variable {σ : Type} {s t : State σ}

/-! ### What dirty means -/

/-- A dirty snapshot with no publish in flight has a mutation in it that no published file has;
so has the snapshot of a publish that is running or has failed. -/
structure Owed (s : State σ) : Prop where
  dirty : s.phase ≠ .stopped → s.retry.dirty = true → s.publishing = false → s.pending ≠ []
  job : s.job ≠ none → s.pending ≠ []
  err : ∀ rest, s.doneRx = .err :: rest → s.pending ≠ []
  publishing : s.publishing = true → s.retry.dirty = true
  snapshot : s.phase ≠ .stopped → s.retry.dirty = true → s.store ≠ none

theorem owed_init (initial : ℕ) (f : σ) : Owed (init initial f) where
  dirty := by simp [init, RetryState.new]
  job := by simp [init]
  err := by simp [init]
  publishing := by simp [init]
  snapshot := by simp [init, RetryState.new]

theorem Phase.ne_stopped_of_awaits {p : Phase σ} (h : p.awaitsCompletion = true) :
    p ≠ .stopped := by
  rintro rfl
  cases h

namespace Owed

theorem caller (h : Owed s) (hs : CallerStep s t) : Owed t := by
  cases hs <;> exact { h with }

theorem cli (h : Owed s) {n : ℕ} (hs : CliStep s n t) : Owed t := by
  cases hs <;> exact { h with }

theorem tryStartPublish (h : Owed s) (hp : s.phase ≠ .stopped) :
    Owed (tryStartPublish s) := by
  rcases tryStartPublish_cases s with heq | ⟨st, -, hpub, hd, -, heq⟩
  · rwa [heq]
  · rw [heq]
    exact ⟨fun _ _ hpub' => by simp [startPublish] at hpub', fun _ => h.dirty hp hd hpub, h.err,
      fun _ => hd, h.snapshot⟩

/-- The counter is zero whenever the tail is empty, so a counter that is not zero leaves a
pending mutation behind. -/
theorem absorb (h : Owed s) (hd : Discipline s) {r : Published} {rest : List Published}
    (hdone : s.doneRx = r :: rest) :
    Owed (absorbPublishResult r { s with doneRx := rest, publishing := false }) := by
  obtain ⟨rfl, -, hjob, hst, hmsp⟩ := hd.done r rest hdone
  unfold absorbPublishResult
  cases r with
  | ok =>
    simp only
    split
    · exact ⟨by simp, by simp [hjob], by simp, by simp, by simp⟩
    · next hne =>
      refine ⟨fun _ _ _ hnil => hne ?_, by simp [hjob], by simp, by simp, fun _ _ => hst⟩
      simp only at hnil
      simp [hmsp rfl, hnil]
  | err => exact ⟨fun _ _ _ => h.err [] hdone, by simp [hjob], by simp, by simp, fun _ _ => hst⟩

theorem move (h : Owed s) {p : Phase σ} (hp : s.phase ≠ .stopped) {st : Option σ}
    (hst : s.store ≠ none → st ≠ none) {rx : List (Op σ)} {l : Option Holder}
    {log : List (Event σ)} {rs : List ℕ} :
    Owed { s with phase := p, store := st, rx := rx, lock := l, log := log, closeReplies := rs } :=
  ⟨fun _ => h.dirty hp, h.job, h.err, h.publishing, fun _ hd => hst (h.snapshot hp hd)⟩

theorem actor (h : Owed s) (hd : Discipline s) {a : ActorAction} (hs : ActorStep s a t) :
    Owed t := by
  cases hs with
  | loaded hp => exact h.move (by simp [hp]) (by simp)
  | mutated hp hst hm =>
    exact tryStartPublish ⟨by simp, by simp, by simp, fun _ => rfl, by simp⟩ (by simp)
  | @completed r rest hdone _ hp =>
    refine (h.absorb hd hdone).tryStartPublish ?_
    cases r <;> grind [absorbPublishResult, Phase.ne_stopped_of_awaits]
  | retried hp _ _ _ _ => exact h.tryStartPublish (by simp [hp])
  | stopped _ _ _ =>
    exact ⟨fun hp => absurd rfl hp, h.job, h.err, h.publishing, fun hp => absurd rfl hp⟩
  | flushed hp =>
    obtain ⟨-, hpub⟩ : _ ∧ s.publishing = false := by simpa [PhaseOk, hp] using hd.phase
    obtain ⟨hjob, hdone⟩ := hd.idle hpub
    exact ⟨fun hp => absurd rfl hp, by simp [stop, StoreWriter.flushed, hjob],
      by simp [stop, StoreWriter.flushed, hdone], by simp [stop, StoreWriter.flushed, hpub],
      fun hp => absurd rfl hp⟩
  | flushFailed hp _ =>
    exact ⟨fun hp => absurd rfl hp, h.job, h.err, fun _ => rfl, fun hp => absurd rfl hp⟩
  | recvHangup hp | recvLoad hp | recvMutate hp | recvClose hp | acquired hp | acquireFailed hp
  | loadFailed hp | panicked hp | flushStarted hp => exact h.move (by simp [hp]) id

theorem publish (h : Owed s) (hd : Discipline s) {out : Outcome} (hs : PublishStep s out t) :
    Owed t := by
  obtain ⟨hdirty, hjob, herr, hpublishing, hsnapshot⟩ := h
  have hjobs := hd.job
  cases hs <;> constructor <;> grind [published]

theorem step (h : Owed s) (hd : Discipline s) {a : Action σ} (hs : step s a = some t) : Owed t :=
  step_preserves h.caller (fun _ _ => h.actor hd) (fun _ _ => h.publish hd) (fun _ => h.cli) hs

end Owed

theorem owed_of_run {ok : State σ → Action σ → Prop} {initial : ℕ} {f : σ}
    {as : List (Action σ)} (h : (machine σ).Run ok (init initial f) as s) : Owed s := by
  exact (h.invariant (I := fun s => Discipline s ∧ Owed s)
    (fun _ _ _ hs _ hstep => ⟨hs.1.step hstep, hs.2.step hs.1 hstep⟩)
    ⟨discipline_init initial f, owed_init initial f⟩).2

/-! ### The contract -/

/-- **The contract of the clean state.**  When the actor waits for its next event, no publish is in
flight and nothing acknowledged is unpublished, it holds neither a snapshot nor the lock: the next
mutation goes through the clean load, and a waiting transaction can take the lock unless another
one has it. -/
def HoldsNothingWhileClean (s : State σ) : Prop :=
  s.phase = .select → s.publishing = false → s.pending = [] →
    s.store = none ∧ s.lock ≠ some .actor ∧
    (∀ id m rx, s.rx = .mutate id m :: rx →
      stepActor s .recv = some { s with rx := rx, phase := .acquiring id m }) ∧
    (∀ n m, s.clis n = .waiting m → (∀ k, (s.clis k).holds = false) →
      ∃ t, stepCli s n (.acquire true) = some t ∧ t.lock = some (.cli n))

/-- No mutation closure panics on a clean actor: one with no publish in flight and nothing
acknowledged that is not published. -/
def NoCleanPanic (s : State σ) (a : Action σ) : Prop :=
  a = .actor .mutate → ∀ id m st, s.phase = .mutating id m →
    s.store = some st → m st = none → s.publishing = true ∨ s.pending ≠ []

/-- Away from its jobs, the actor keeps a snapshot only for the disk's sake. -/
def Kept (s : State σ) : Prop :=
  s.phase.awaitsCompletion = true → s.store ≠ none → s.retry.dirty = true ∨ s.pending ≠ []

theorem Kept.tryStartPublish (h : Kept s) : Kept (tryStartPublish s) := by
  grind [Kept, tryStartPublish_cases, startPublish]

theorem Kept.actor (h : Kept s) (hd : Discipline s) (ho : Owed s) {a : ActorAction}
    (hok : NoCleanPanic s (.actor a)) (hs : ActorStep s a t) : Kept t := by
  cases hs with
  | recvHangup hp | recvClose hp => exact fun _ => h (by simp [hp, Phase.awaitsCompletion])
  | acquireFailed hp | loadFailed hp =>
    exact fun _ hst => absurd (by simpa [PhaseOk, loadFailed, hp] using hd.phase) hst
  | mutated => exact Kept.tryStartPublish fun _ _ => .inl rfl
  | panicked hp hst hm =>
    exact fun _ _ => (hok rfl _ _ _ hp hst hm).imp_left ho.publishing
  | @completed r rest _ _ _ =>
    refine Kept.tryStartPublish ?_
    unfold absorbPublishResult
    cases r with
    | ok =>
      simp only
      split
      · exact fun _ hst => absurd rfl hst
      · exact fun _ _ => .inl rfl
    | err => exact fun _ _ => .inl rfl
  | retried => exact h.tryStartPublish
  | _ => rintro ⟨⟩

theorem Kept.publish (h : Kept s) (hd : Discipline s) (ho : Owed s) {out : Outcome}
    (hs : PublishStep s out t) : Kept t := by
  cases hs with
  | @ok j hj => exact fun _ _ => .inl (ho.publishing (hd.job j hj).1)
  | _ => exact h

theorem kept_of_run {initial : ℕ} {f : σ} {as : List (Action σ)}
    (h : (machine σ).Run NoCleanPanic (init initial f) as s) :
    Discipline s ∧ Owed s ∧ Kept s := by
  refine h.invariant (I := fun s => Discipline s ∧ Owed s ∧ Kept s) ?_
    ⟨discipline_init initial f, owed_init initial f, by simp [Kept, init]⟩
  rintro s a t ⟨hd, ho, hk⟩ hok hstep
  refine ⟨hd.step hstep, ho.step hd hstep, step_preserves ?_ ?_ ?_ ?_ hstep⟩
  · rintro ⟨⟩ <;> exact hk
  · rintro b rfl hs
    exact hk.actor hd ho hok hs
  · exact fun _ _ hs => hk.publish hd ho hs
  · rintro n ⟨⟩ <;> exact hk

/-- An actor that holds no snapshot while it waits honours the contract. -/
theorem holdsNothing_of_store_none (hd : Discipline s) (hst : s.store = none) :
    HoldsNothingWhileClean s := by
  intro hp _ _
  have hl : s.lock ≠ some .actor := by
    rw [Ne, hd.actorLock, not_or]
    simp [hst, hp, Phase.isLoading]
  refine ⟨hst, hl, fun id m rx hrx => ?_, fun n m hc hfree => ?_⟩
  · simp only [stepActor, hp, hrx, hst]
  · have hnone : s.lock = none := by
      have hcli := hd.cliLock
      rcases hlock : s.lock with - | holder
      · rfl
      · cases holder <;> grind
    simp [stepCli, hc, hnone, setCli]

/-- **The contract of the clean state holds throughout a run exactly when no mutation closure of
the run panics on a clean actor.** -/
theorem holdsNothingWhileClean_iff {initial : ℕ} {f : σ} {as : List (Action σ)}
    (h : (machine σ).Run Machine.anyStep (init initial f) as s) :
    (∀ bs u, bs <+: as → (machine σ).Run Machine.anyStep (init initial f) bs u →
      HoldsNothingWhileClean u) ↔ (machine σ).Run NoCleanPanic (init initial f) as s := by
  refine Machine.Run.forall_iff (fun bs u hrun => ?_) (fun bs u a v hrun hbad hstep => ?_) h
  · obtain ⟨hd, ho, hk⟩ := kept_of_run hrun
    intro hp hpub hpend
    have hst : u.store = none := by
      by_contra hst
      rcases hk (by simp [hp, Phase.awaitsCompletion]) hst with hdirty | hne
      · exact ho.dirty (by simp [hp]) hdirty hpub hpend
      · exact hne hpend
    exact holdsNothing_of_store_none hd hst hp hpub hpend
  · -- the panicking closure leaves everything but its acknowledgement in place
    unfold NoCleanPanic at hbad
    push Not at hbad
    obtain ⟨rfl, id, m, st, hp, hst, hm, hpub, hpend⟩ := hbad
    simp only [machine_step, step, stepActor, hp, hst, hm, Option.some.injEq] at hstep
    subst hstep
    intro hclean
    have := (hclean rfl (by simpa [mutationPanicked] using hpub) hpend).1
    simp [mutationPanicked, hst] at this

/-- One mutation sent to a clean actor, up to the end of its mutation job. -/
def applyOnce (m : Mutation σ) : List (Action σ) :=
  [.caller (.apply m), .actor .recv,
    .actor (.acquire true), .actor (.load .ok),
    .actor .mutate]

theorem holdsNothingWhileClean_iff_increment :
    ∃ s : State ℕ, (machine ℕ).exec (init initialBackoff 0) (applyOnce fun n => some (n + 1)) =
        some s ∧
      ((∀ bs u, bs <+: applyOnce (fun n => some (n + 1)) →
          (machine ℕ).Run Machine.anyStep (init initialBackoff 0) bs u →
            HoldsNothingWhileClean u) ↔
        (machine ℕ).Run NoCleanPanic (init initialBackoff 0)
          (applyOnce fun n => some (n + 1)) s) :=
  ⟨_, rfl, holdsNothingWhileClean_iff (Machine.Run.of_exec rfl)⟩

/-- **A closure that panics right after the clean load leaves the lock and the snapshot with an
actor that owes nothing.** -/
theorem clean_panic_keeps_lock :
    ∃ s : State ℕ, (machine ℕ).exec (init initialBackoff 0) (applyOnce fun _ => none) = some s ∧
      s.phase = .select ∧ s.publishing = false ∧ s.pending = [] ∧
      s.store = some 0 ∧ s.lock = some .actor ∧ ¬ HoldsNothingWhileClean s :=
  ⟨_, rfl, rfl, rfl, rfl, rfl, rfl, fun h => by cases (h rfl rfl rfl).1⟩

end StoreWriter
