/-
**Closing the store writer: every close request is answered, unless a publish panics.**

The actor clears its `publishing` flag only on a message of the completion channel, and the job
that is to send it is detached: its join handle is dropped on the spot.  A publisher that returns,
with `Ok` or `Err`, sends its message.  A publisher that panics unwinds past the send, and nobody
else will ever clear the flag; the final flush, which awaits its join handle, treats the same panic
as a failure.
-/

import TorSocks5.StoreWriterClean

set_option autoImplicit false

namespace StoreWriter

variable {σ : Type} {s t : State σ}

/-! ### Definitions -/

/-- A raised flag stands for a job that is running or a message that is queued. -/
def NotWedged (s : State σ) : Prop :=
  s.publishing = true → s.job ≠ none ∨ s.doneRx ≠ []

/-- No publish job panics. -/
def NoPublishPanic (_ : State σ) (a : Action σ) : Prop :=
  a ≠ .publish .panic

/-- The steps a close request waits for: those of the actor, the jobs it awaits in place included,
and the ends of publish jobs that return. -/
def Progress (_ : State σ) (a : Action σ) : Prop :=
  (∃ b, a = .actor b) ∨ a = .publish .ok ∨ a = .publish .err

/-- The close request `r` is in the channel, or with the actor. -/
def AwaitsClose (r : ℕ) (s : State σ) : Prop :=
  .close r ∈ s.rx ∨ r ∈ s.closeReplies

/-- The sender of the close request `r` has its answer: from the actor, or from the receiver that
was dropped on an earlier close. -/
def CloseAnswered (r : ℕ) (s : State σ) : Prop :=
  (∃ ok, .closed r ok ∈ s.log) ∨ .closeDropped r ∈ s.log

/-- **The writer never wedges.** -/
def NeverWedges (s : State σ) : Prop :=
  NotWedged s ∧ ∀ r, AwaitsClose r s → (machine σ).Inevitable Progress (CloseAnswered r) s

/-! ### The flag -/

theorem NotWedged.tryStartPublish (h : NotWedged s) : NotWedged (tryStartPublish s) := by
  grind [NotWedged, tryStartPublish_cases, startPublish]

variable {a : ActorAction} {r : ℕ}
theorem NotWedged.actor (h : NotWedged s) (hs : ActorStep s a t) : NotWedged t := by
  cases hs with
  | mutated _ _ _ => exact NotWedged.tryStartPublish h
  | @completed r rest _ _ _ =>
    refine NotWedged.tryStartPublish ?_
    cases r <;> grind [NotWedged, absorbPublishResult]
  | retried _ _ => exact h.tryStartPublish
  | _ => exact h

theorem NotWedged.step (h : NotWedged s) {a : Action σ} (hok : NoPublishPanic s a)
    (hstep : step s a = some t) : NotWedged t := by
  refine step_preserves (fun hs => ?_) (fun b _ hs => h.actor hs) (fun out hout hs => ?_)
    (fun n hs => ?_) hstep
  · cases hs <;> exact h
  · cases hs with
    | panic _ => exact absurd hout hok
    | _ => exact fun _ => .inr (by simp [published])
  · cases hs <;> exact h

/-! ### The close requests and the backoff -/

/-- The actor is not closing. -/
def Phase.isOpen : Phase σ → Bool
  | draining => false
  | flushing _ => false
  | stopped => false
  | _ => true

/-- Close requests are with the actor only while it is closing, nothing is left once it has
stopped, and the backoff is never zero. -/
structure Closing (s : State σ) : Prop where
  replies : s.phase.isOpen = true → s.closeReplies = []
  stopped : s.phase = .stopped → s.rx = [] ∧ s.closeReplies = []
  backoff : 0 < s.retry.backoff

theorem closing_init {initial : ℕ} (hpos : 0 < initial) (f : σ) : Closing (init initial f) where
  replies := fun _ => rfl
  stopped := by simp [init]
  backoff := hpos

namespace Closing

theorem tryStartPublish (h : Closing s) : Closing (tryStartPublish s) := by
  rcases tryStartPublish_cases s with heq | ⟨st, -, -, -, -, heq⟩
  · rwa [heq]
  · rw [heq]
    exact { h with }

theorem backoff_recordFailure (h : Closing s) : 0 < (s.retry.recordFailure s.now).backoff := by
  have := h.backoff
  simp only [RetryState.recordFailure, maxBackoff]
  omega

theorem move (h : Closing s) (hp : s.phase.isOpen = true) {p : Phase σ} {rx : List (Op σ)}
    (hp' : p ≠ .stopped) {st : Option σ} {l : Option Holder} {log : List (Event σ)} :
    Closing { s with phase := p, rx := rx, store := st, lock := l, log := log } :=
  ⟨fun _ => h.replies hp, fun hs => absurd hs hp', h.backoff⟩

theorem actor (h : Closing s) (hs : ActorStep s a t) : Closing t := by
  cases hs with
  | mutated hp _ _ =>
    exact tryStartPublish ⟨fun _ => h.replies (by simp [hp, Phase.isOpen]), by simp, h.backoff⟩
  | @completed r rest _ _ _ =>
    refine tryStartPublish ?_
    unfold absorbPublishResult
    cases r with
    | ok =>
      simp only
      split <;> exact ⟨h.replies, h.stopped, by simp [RetryState.recordSuccess, initialBackoff]⟩
    | err => exact ⟨h.replies, h.stopped, h.backoff_recordFailure⟩
  | retried _ _ => exact h.tryStartPublish
  | recvClose | flushStarted => exact ⟨by rintro ⟨⟩, by simp, h.backoff⟩
  | stopped _ _ _ => exact ⟨by rintro ⟨⟩, fun _ => ⟨rfl, rfl⟩, h.backoff⟩
  | flushed _ =>
    exact ⟨by rintro ⟨⟩, fun _ => ⟨rfl, rfl⟩,
      by simp [stop, StoreWriter.flushed, RetryState.recordSuccess, initialBackoff]⟩
  | flushFailed _ _ => exact ⟨by rintro ⟨⟩, fun _ => ⟨rfl, rfl⟩, h.backoff_recordFailure⟩
  | recvHangup hp | recvLoad hp | recvMutate hp | acquired hp | acquireFailed hp | loaded hp
  | loadFailed hp | panicked hp => exact h.move (by simp [hp, Phase.isOpen]) (by simp)

theorem step (h : Closing s) {a : Action σ} (hstep : step s a = some t) : Closing t := by
  refine step_preserves (fun hs => ?_) (fun b _ hs => h.actor hs) (fun out _ hs => ?_)
    (fun n hs => ?_) hstep
  · cases hs with
    | sent _ hp | closeSent _ hp => exact ⟨h.replies, fun hs => absurd hs hp, h.backoff⟩
    | _ => exact { h with }
  · cases hs <;> exact { h with }
  · cases hs <;> exact { h with }

end Closing

/-! ### The measure -/

/-- The steps an operation in the channel may still cost, the publish it may cause included. -/
def Op.cost : Op σ → ℕ
  | .mutate _ _ => 7
  | .close _ => 4

/-- The steps left of what the actor is doing. -/
def Phase.cost : Phase σ → ℕ
  | select => 0
  | acquiring _ _ => 6
  | loading _ _ => 5
  | mutating _ _ => 4
  | draining => 3
  | flushing _ => 2
  | stopped => 0

theorem Phase.cost_select : (.select : Phase σ).cost = 0 := rfl

theorem Phase.cost_stopped : (.stopped : Phase σ).cost = 0 := rfl

/-- The retry branch is ready. -/
def retryDue (s : State σ) : Bool :=
  s.retry.dirty && s.retry.retryAt.isSome && !backoffPending s

/-- The steps left of the publish in flight and of the follow-up its tail will cause; a retry that
is due is one more. -/
def publishCost (s : State σ) : ℕ :=
  if s.publishing then
    (if s.doneRx.isEmpty then 2 else 1) + (if s.mutationsSincePublish = 0 then 0 else 2)
  else if retryDue s then 3 else 0

/-- How many steps the actor and its jobs can still take. -/
def remaining (s : State σ) : ℕ :=
  (s.rx.map Op.cost).sum + s.phase.cost + publishCost s

theorem publishCost_tryStartPublish_le (hst : s.store ≠ none) (hpub : s.publishing = false) :
    publishCost (tryStartPublish s) ≤ 2 := by
  obtain ⟨st, hst⟩ := Option.ne_none_iff_exists'.1 hst
  grind [tryStartPublish, publishCost, retryDue, startPublish]

theorem tryStartPublish_of_publishing (hpub : s.publishing = true) : tryStartPublish s = s := by
  grind [tryStartPublish]

theorem tryStartPublish_of_backoffPending (hb : backoffPending s = true) :
    tryStartPublish s = s := by
  grind [tryStartPublish]

theorem backoffPending_recordFailure (hb : 0 < s.retry.backoff) {u : State σ}
    (hnow : u.now = s.now) :
    backoffPending { u with retry := s.retry.recordFailure s.now } = true := by
  simp [backoffPending, RetryState.recordFailure, hnow, hb]

/-- A message costs one step, and its follow-up, if there is a tail, two more. -/
theorem publishCost_complete_lt (hd : Discipline s) (hc : Closing s) {r : Published}
    {rest : List Published} (hdone : s.doneRx = r :: rest) :
    publishCost (complete r { s with doneRx := rest }) < publishCost s := by
  obtain ⟨rfl, hpub, -, hst, -⟩ := hd.done r rest hdone
  have hcost : publishCost s = 1 + (if s.mutationsSincePublish = 0 then 0 else 2) := by
    simp [publishCost, hpub, hdone]
  rw [hcost]
  unfold complete
  cases r with
  | ok =>
    by_cases hz : s.mutationsSincePublish = 0
    · -- no tail: the snapshot is dropped
      simp [absorbPublishResult, hz, tryStartPublish, publishCost, retryDue]
    · simp only [absorbPublishResult, if_neg hz]
      exact lt_of_le_of_lt (publishCost_tryStartPublish_le hst rfl) (by omega)
  | err =>
    -- the retry is armed for a later moment, so nothing starts now
    have hpend := backoffPending_recordFailure hc.backoff
      (u := { s with doneRx := [], publishing := false, mutationsSincePublish := 0 }) rfl
    simp only [absorbPublishResult]
    rw [tryStartPublish_of_backoffPending hpend]
    simp [publishCost, retryDue, hpend]

/-- An acknowledged mutation adds at most the two steps of a publish. -/
theorem publishCost_mutated_le (id : ℕ) (m : Mutation σ) (owned : σ) (s : State σ) :
    publishCost (mutated id m owned s) ≤ publishCost s + 2 := by
  unfold mutated
  cases hpub : s.publishing with
  | true =>
    rw [tryStartPublish_of_publishing rfl]
    simp only [publishCost, hpub, if_true]
    split <;> split <;> omega
  | false => exact (publishCost_tryStartPublish_le (by simp) rfl).trans (by omega)

theorem publishCost_retried_lt (hst : s.store ≠ none) (hpub : s.publishing = false)
    (hdue : retryDue s = true) : publishCost (tryStartPublish s) < publishCost s := by
  have h := publishCost_tryStartPublish_le hst hpub
  have hs : publishCost s = 3 := by simp [publishCost, hpub, hdue]
  omega

theorem phase_tryStartPublish (s : State σ) : (tryStartPublish s).phase = s.phase := by
  grind [tryStartPublish, startPublish]

theorem rx_tryStartPublish (s : State σ) : (tryStartPublish s).rx = s.rx := by
  grind [tryStartPublish, startPublish]

theorem phase_complete (r : Published) (s : State σ) : (complete r s).phase = s.phase := by
  cases r <;> grind [complete, phase_tryStartPublish, absorbPublishResult]

theorem rx_complete (r : Published) (s : State σ) : (complete r s).rx = s.rx := by
  cases r <;> grind [complete, rx_tryStartPublish, absorbPublishResult]

theorem remaining_lt_of_phase (hrx : t.rx = s.rx) (hpub : publishCost t = publishCost s)
    (hlt : t.phase.cost < s.phase.cost) : remaining t < remaining s := by
  unfold remaining
  rw [hrx, hpub]
  omega

theorem remaining_lt_of_recv {op : Op σ} {rx : List (Op σ)} (hp : s.phase = .select)
    (hrx : s.rx = op :: rx) (htrx : t.rx = rx) (hpub : publishCost t = publishCost s)
    (hlt : t.phase.cost < op.cost) : remaining t < remaining s := by
  unfold remaining
  rw [hrx, htrx, hpub, hp, Phase.cost_select, List.map_cons, List.sum_cons]
  omega

theorem remaining_lt_of_stop (htrx : t.rx = []) (htp : t.phase = .stopped)
    (hpub : publishCost t ≤ publishCost s) (hlt : 0 < s.phase.cost) :
    remaining t < remaining s := by
  unfold remaining
  rw [htrx, htp, Phase.cost_stopped, List.map_nil, List.sum_nil]
  omega

/-- **Every step of the actor makes progress**, except the one by which an actor with nothing to do
and no senders left starts to close. -/
theorem remaining_actor_lt (hd : Discipline s) (ho : Owed s) (hc : Closing s)
    (hs : ActorStep s a t) (hask : s.phase = .select → s.rx ≠ []) :
    remaining t < remaining s := by
  cases hs with
  | recvHangup hp hrx _ => exact absurd hrx (hask hp)
  | recvLoad hp hrx | recvMutate hp hrx | recvClose hp hrx =>
    exact remaining_lt_of_recv hp hrx rfl rfl (by simp [Phase.cost, Op.cost])
  | @mutated id m st owned hp hst hm =>
    have := publishCost_mutated_le id m owned s
    unfold remaining
    rw [show (StoreWriter.mutated id m owned s).rx = s.rx from rx_tryStartPublish _,
      show (StoreWriter.mutated id m owned s).phase = .select from phase_tryStartPublish _, hp]
    simp only [Phase.cost]
    omega
  | @completed r rest hdone _ _ =>
    have := publishCost_complete_lt hd hc hdone
    unfold remaining
    rw [rx_complete, phase_complete]
    simp only
    omega
  | retried hp hpub hdirty hat hdue =>
    have hst := ho.snapshot (by simp [hp]) hdirty
    have := publishCost_retried_lt hst hpub (by simp [retryDue, hdirty, hat, hdue])
    unfold remaining
    rw [rx_tryStartPublish, phase_tryStartPublish]
    omega
  | stopped hp _ _ => exact remaining_lt_of_stop rfl rfl le_rfl (by simp [hp, Phase.cost])
  | flushed hp =>
    have hpub : s.publishing = false := (by simpa [PhaseOk, hp] using hd.phase : _ ∧ _).2
    refine remaining_lt_of_stop rfl rfl ?_ (by simp [hp, Phase.cost])
    simp [publishCost, stop, StoreWriter.flushed, retryDue, hpub]
  | flushFailed hp _ =>
    have hpub : s.publishing = false := (by simpa [PhaseOk, hp] using hd.phase : _ ∧ _).2
    refine remaining_lt_of_stop rfl rfl ?_ (by simp [hp, Phase.cost])
    simp [publishCost, stop, retryDue, hpub, backoffPending, RetryState.recordFailure, hc.backoff]
  | acquired hp | acquireFailed hp | loaded hp | loadFailed hp | panicked hp | flushStarted hp =>
    exact remaining_lt_of_phase rfl rfl
      (by simp [hp, StoreWriter.loadFailed, mutationPanicked, Phase.cost])

theorem remaining_publish_lt (hd : Discipline s) {out : Outcome} (hout : out ≠ .panic)
    (hs : PublishStep s out t) : remaining t < remaining s := by
  unfold remaining
  cases hs with
  | @ok j hj =>
    obtain ⟨hpub, hdone, -⟩ := hd.job j hj
    simp [published, publishCost, hpub, hdone]
  | @err j hj =>
    obtain ⟨hpub, hdone, -⟩ := hd.job j hj
    simp [publishCost, hpub, hdone]
  | panic _ => exact absurd rfl hout

/-! ### Every close request is answered -/

theorem closeAnswered_stop (h : AwaitsClose r s) (ok : Bool) : CloseAnswered r (stop ok s) := by
  rcases h with h | h
  · exact .inr (List.mem_append_right _ (List.mem_map.2 ⟨_, h, rfl⟩))
  · exact .inl ⟨ok, List.mem_append_left _ (List.mem_append_right _ (List.mem_map.2 ⟨r, h, rfl⟩))⟩

theorem AwaitsClose.of_eq (h : AwaitsClose r s) (hrx : t.rx = s.rx)
    (hcr : t.closeReplies = s.closeReplies) : AwaitsClose r t := by
  unfold AwaitsClose
  rwa [hrx, hcr]

theorem closeReplies_tryStartPublish (s : State σ) :
    (tryStartPublish s).closeReplies = s.closeReplies := by
  grind [tryStartPublish, startPublish]

theorem closeReplies_complete (r : Published) (s : State σ) :
    (complete r s).closeReplies = s.closeReplies := by
  cases r <;> grind [complete, closeReplies_tryStartPublish, absorbPublishResult]

/-- A step of the actor forgets no close request: it is still waiting, or it has its answer. -/
theorem AwaitsClose.actor (h : AwaitsClose r s)
    (hs : ActorStep s a t) : AwaitsClose r t ∨ CloseAnswered r t := by
  cases hs with
  | recvLoad _ hrx | recvMutate _ hrx => exact .inl (by simpa [AwaitsClose, hrx] using h)
  | recvClose _ hrx => grind [AwaitsClose]
  | mutated => exact .inl (h.of_eq (rx_tryStartPublish _) (closeReplies_tryStartPublish _))
  | completed => exact .inl (h.of_eq (rx_complete _ _) (closeReplies_complete _ _))
  | retried => exact .inl (h.of_eq (rx_tryStartPublish s) (closeReplies_tryStartPublish s))
  | stopped => exact .inr (closeAnswered_stop h true)
  | flushed | flushFailed => exact .inr (closeAnswered_stop (h.of_eq rfl rfl) _)
  | _ => exact .inl h

/-- As long as a close request waits, the actor or a job of its can take a step. -/
theorem progress_enabled (hd : Discipline s) (hc : Closing s) (hw : NotWedged s)
    (hr : AwaitsClose r s) : ∃ a t, Progress s a ∧ step s a = some t := by
  have actor : ∀ b, (stepActor s b).isSome = true → ∃ a t, Progress s a ∧ step s a = some t :=
    fun b h => ⟨.actor b, _, .inl ⟨b, rfl⟩, (Option.some_get h).symm⟩
  cases hp : s.phase with
  | select =>
    have hrx : .close r ∈ s.rx := by
      simpa [AwaitsClose, hc.replies (by simp [hp, Phase.isOpen])] using hr
    refine actor .recv ?_
    rcases hs : s.rx with - | ⟨⟨id, m⟩ | r, rx⟩
    · simp [hs] at hrx
    · cases hst : s.store <;> simp [stepActor, hp, hs, hst]
    · simp [stepActor, hp, hs]
  | acquiring id m => exact actor (.acquire false) (by simp [stepActor, hp])
  | loading id m => exact actor (.load .ok) (by simp [stepActor, hp])
  | mutating id m =>
    obtain ⟨st, hst⟩ : ∃ st, s.store = some st := by
      simpa [PhaseOk, hp, Option.ne_none_iff_exists'] using hd.phase
    refine actor .mutate ?_
    cases hm : m st <;> simp [stepActor, hp, hst, hm]
  | draining =>
    cases hpub : s.publishing with
    | false =>
      refine actor .drained ?_
      cases hdirty : s.retry.dirty <;> cases hst : s.store <;>
        simp [stepActor, hp, hpub, hdirty, hst]
    | true =>
      -- here alone the actor depends on the flag
      rcases hw hpub with hjob | hdone
      · obtain ⟨j, hj⟩ := Option.ne_none_iff_exists'.1 hjob
        exact ⟨.publish .ok, published j s, .inr (.inl rfl), by simp [step, stepPublish, hj]⟩
      · obtain ⟨res, rest, hdone⟩ := List.exists_cons_of_ne_nil hdone
        exact actor .complete (by simp [stepActor, hdone, hpub, hp, Phase.awaitsCompletion])
  | flushing st => exact actor (.flush .ok) (by simp [stepActor, hp])
  | stopped =>
    obtain ⟨hrx, hcr⟩ := hc.stopped hp
    simp [AwaitsClose, hrx, hcr] at hr

/-- **A close request is answered once the jobs it waits for have ended**, as long as the actor is
not wedged and its publish jobs return. -/
theorem close_inevitable (hd : Discipline s) (ho : Owed s) (hc : Closing s)
    (hw : NotWedged s) (hr : AwaitsClose r s) :
    (machine σ).Inevitable Progress (CloseAnswered r) s := by
  refine Machine.Inevitable.of_measure (I := fun s => Discipline s ∧ Owed s ∧ Closing s ∧
    NotWedged s ∧ (AwaitsClose r s ∨ CloseAnswered r s)) remaining ?_ ⟨hd, ho, hc, hw, .inl hr⟩
  rintro s ⟨hd, ho, hc, hw, hr | hr⟩
  · refine .inr ⟨progress_enabled hd hc hw hr, fun a t hmay hstep => ?_⟩
    have hok : NoPublishPanic s a := by
      rcases hmay with ⟨b, rfl⟩ | rfl | rfl <;> simp [NoPublishPanic]
    have hask : s.phase = .select → s.rx ≠ [] := by
      intro hp hnil
      simp [AwaitsClose, hnil, hc.replies (by simp [hp, Phase.isOpen])] at hr
    have publish : ∀ out, out ≠ .panic → PublishStep s out t →
        (AwaitsClose r t ∨ CloseAnswered r t) ∧ remaining t < remaining s := by
      intro out hout hs
      refine ⟨.inl ?_, remaining_publish_lt hd hout hs⟩
      cases hs <;> exact hr
    have key : (AwaitsClose r t ∨ CloseAnswered r t) ∧ remaining t < remaining s := by
      rcases hmay with ⟨b, rfl⟩ | rfl | rfl
      · have hs := actorStep_of_step hstep
        exact ⟨hr.actor hs, remaining_actor_lt hd ho hc hs hask⟩
      · exact publish .ok (by simp) (publishStep_of_step hstep)
      · exact publish .err (by simp) (publishStep_of_step hstep)
    exact ⟨⟨hd.step hstep, ho.step hd hstep, hc.step hstep, hw.step hok hstep, key.1⟩, key.2⟩
  · exact .inl hr

theorem notWedged_of_run {initial : ℕ} (hpos : 0 < initial) {f : σ} {as : List (Action σ)}
    (h : (machine σ).Run NoPublishPanic (init initial f) as s) : NotWedged s ∧ Closing s :=
  h.invariant (I := fun s => NotWedged s ∧ Closing s)
    (fun _ _ _ hs hok hstep => ⟨hs.1.step hok hstep, hs.2.step hstep⟩)
    ⟨by simp [NotWedged, init], closing_init hpos f⟩

/-- **The writer never wedges exactly as long as no publish job panics.** -/
theorem neverWedges_iff {initial : ℕ} (hpos : 0 < initial) {f : σ} {as : List (Action σ)}
    (h : (machine σ).Run Machine.anyStep (init initial f) as s) :
    (∀ bs u, bs <+: as → (machine σ).Run Machine.anyStep (init initial f) bs u →
      NeverWedges u) ↔ (machine σ).Run NoPublishPanic (init initial f) as s := by
  refine Machine.Run.forall_iff (fun bs u hrun => ?_) (fun bs u a v hrun hbad hstep => ?_) h
  · obtain ⟨hw, hc⟩ := notWedged_of_run hpos hrun
    exact ⟨hw, fun r hr => close_inevitable (discipline_of_run hrun) (owed_of_run hrun) hc hw hr⟩
  · -- the job is gone, its message was never sent, and the flag stands
    obtain rfl : a = .publish .panic := by simpa [NoPublishPanic] using hbad
    have hs : PublishStep u .panic v := publishStep_of_step hstep
    cases hs with
    | panic hj =>
      obtain ⟨hpub, hdone, -⟩ := (discipline_of_run hrun).job _ hj
      intro hnw
      rcases hnw.1 hpub with hjob | hne
      · exact hjob rfl
      · exact hne hdone

theorem neverWedges_iff_increment :
    ∃ s : State ℕ, (machine ℕ).exec (init initialBackoff 0) (applyOnce fun n => some (n + 1)) =
        some s ∧
      ((∀ bs u, bs <+: applyOnce (fun n => some (n + 1)) →
          (machine ℕ).Run Machine.anyStep (init initialBackoff 0) bs u → NeverWedges u) ↔
        (machine ℕ).Run NoPublishPanic (init initialBackoff 0)
          (applyOnce fun n => some (n + 1)) s) :=
  ⟨_, rfl, neverWedges_iff (by decide) (Machine.Run.of_exec rfl)⟩

/-! ### After a panic -/

/-- The flag is up, and nothing is left that could clear it. -/
structure Wedged (s : State σ) : Prop where
  publishing : s.publishing = true
  job : s.job = none
  doneRx : s.doneRx = []
  phase : ∀ st, s.phase ≠ .flushing st

/-- No close request has been answered since. -/
def NoneAnswered (s t : State σ) : Prop :=
  ∀ r, CloseAnswered r t → CloseAnswered r s

theorem Wedged.actor (h : Wedged s) (hs : ActorStep s a t) : Wedged t ∧ NoneAnswered s t := by
  have idle : s.publishing ≠ false := by simp [h.publishing]
  cases hs with
  | mutated _ _ _ =>
    rw [StoreWriter.mutated, tryStartPublish_of_publishing (by exact h.publishing)]
    exact ⟨⟨h.publishing, h.job, h.doneRx, by rintro _ ⟨⟩⟩, by simp [NoneAnswered, CloseAnswered]⟩
  | completed hdone _ _ => simp [h.doneRx] at hdone
  | retried _ hpub | flushStarted _ hpub | stopped _ hpub => exact absurd hpub idle
  | flushed hp | flushFailed hp => exact absurd hp (h.phase _)
  | _ =>
    exact ⟨⟨h.publishing, h.job, h.doneRx, by rintro _ ⟨⟩⟩,
      by simp [NoneAnswered, CloseAnswered, StoreWriter.loadFailed, mutationPanicked]⟩

/-- A wedged actor stays wedged and answers no close request, whatever anybody does. -/
theorem Wedged.step (h : Wedged s) {a : Action σ} (hstep : step s a = some t) :
    Wedged t ∧ NoneAnswered s t := by
  refine step_preserves (I := fun t => Wedged t ∧ NoneAnswered s t) (fun hs => ?_)
    (fun b _ hs => h.actor hs) (fun out _ hs => ?_) (fun n hs => ?_) hstep
  · cases hs <;>
      exact ⟨⟨h.publishing, h.job, h.doneRx, h.phase⟩, by simp [NoneAnswered, CloseAnswered]⟩
  · rcases hs with hj | hj | hj <;> simp [h.job] at hj
  · refine ⟨?_, ?_⟩
    · cases hs <;> exact { h with }
    · cases hs <;> simp [NoneAnswered, CloseAnswered, setCli, cliFailed, cliSaved]

/-- **Once wedged, always wedged**: no run from a wedged state answers a close request, retries the
snapshot or publishes anything. -/
theorem Wedged.of_run (h : Wedged s) {as : List (Action σ)}
    (hrun : (machine σ).Run Machine.anyStep s as t) : Wedged t ∧ NoneAnswered s t := by
  refine hrun.invariant (I := fun t => Wedged t ∧ NoneAnswered s t) ?_ ⟨h, fun _ => id⟩
  rintro u a v ⟨hu, hsu⟩ _ hstep
  obtain ⟨hv, huv⟩ := hu.step hstep
  exact ⟨hv, fun r hr => hsu r (huv r hr)⟩

/-- **A publisher that panics**: the actor keeps its snapshot and its lock, waits for a message
nobody will send, and the close request it has taken is never answered. -/
theorem publish_panic_wedges :
    ∃ s : State ℕ, (machine ℕ).exec (init initialBackoff 0)
        (applyOnce (fun n => some (n + 1)) ++
          [.publish .panic, .caller (.close 0),
            .actor .recv]) = some s ∧
      s.publishing = true ∧ s.job = none ∧ s.doneRx = [] ∧ s.store = some 1 ∧ s.file = 0 ∧
      AwaitsClose 0 s ∧ ¬ NeverWedges s ∧
      ∀ as t, (machine ℕ).Run Machine.anyStep s as t →
        t.publishing = true ∧ t.job = none ∧ ¬ CloseAnswered 0 t := by
  refine ⟨_, rfl, rfl, rfl, rfl, rfl, rfl, .inr (by decide), fun h => ?_, fun as t hrun => ?_⟩
  · rcases h.1 rfl with h | h
    · exact h rfl
    · exact h rfl
  obtain ⟨hw, hnone⟩ := Wedged.of_run ⟨rfl, rfl, rfl, nofun⟩ hrun
  refine ⟨hw.publishing, hw.job, fun hans => ?_⟩
  rcases hnone 0 hans with ⟨ok, h⟩ | h
  · cases h with
    | tail _ h => cases h
  · cases h with
    | tail _ h => cases h

end StoreWriter
