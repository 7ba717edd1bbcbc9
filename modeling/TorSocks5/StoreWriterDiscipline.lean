/-
**The discipline of the store writer: who holds the lock, and what is in flight.**

`TorSocks5/StoreWriter.lean` gives the writer as a machine.  This module proves what every run of
it keeps, whatever the jobs do and however the steps interleave: the lock is with whoever needs it,
and of a publish in flight the writer knows what it covers.
-/

import TorSocks5.StoreWriter

set_option autoImplicit false

namespace StoreWriter

variable {σ : Type} {s t : State σ}

/-! ### Dropping a lock -/

@[simp] theorem dropLock_eq_some {h h' : Holder} {l : Option Holder} :
    dropLock h l = some h' ↔ l = some h' ∧ h' ≠ h := by
  grind -ring -linarith [dropLock]

/-! ### The invariant -/

/-- The clean-load job has the lock. -/
def Phase.isLoading : Phase σ → Bool
  | loading _ _ => true
  | _ => false

/-- The transaction has the lock. -/
def CliPhase.holds : CliPhase σ → Bool
  | locked _ => true
  | loaded _ _ => true
  | applied _ _ => true
  | saved => true
  | _ => false

/-- What the actor's position says about its snapshot. -/
def PhaseOk (s : State σ) : Prop :=
  match s.phase with
  | .acquiring _ _ => s.store = none
  | .loading _ _ => s.store = none
  | .mutating _ _ => s.store ≠ none
  | .flushing st => s.store = some st ∧ s.publishing = false
  | .stopped => s.store = none ∧ s.publishing = false
  | _ => True

/-- **The discipline of the lock and of the publish in flight.** -/
structure Discipline (s : State σ) : Prop where
  actorLock : s.lock = some .actor ↔ s.store ≠ none ∨ s.phase.isLoading = true
  cliLock : ∀ n, s.lock = some (.cli n) ↔ (s.clis n).holds = true
  cliLoaded : ∀ n m st, s.clis n = .loaded m st → st = s.file
  cliApplied : ∀ n m st, s.clis n = .applied m st → m s.file = some st
  phase : PhaseOk s
  job : ∀ j, s.job = some j → s.publishing = true ∧ s.doneRx = [] ∧ s.store ≠ none ∧
    j.covers ≤ s.pending.length ∧
    s.mutationsSincePublish = (s.pending.length - j.covers) % u32Range
  done : ∀ r rest, s.doneRx = r :: rest → rest = [] ∧ s.publishing = true ∧ s.job = none ∧
    s.store ≠ none ∧ (r = .ok → s.mutationsSincePublish = s.pending.length % u32Range)

theorem discipline_init (initial : ℕ) (f : σ) : Discipline (init initial f) where
  actorLock := by simp [init, Phase.isLoading]
  cliLock := by simp [init, CliPhase.holds]
  cliLoaded := by simp [init]
  cliApplied := by simp [init]
  phase := trivial
  job := by simp [init]
  done := by simp [init]

namespace Discipline

theorem idle (h : Discipline s) (hpub : s.publishing = false) : s.job = none ∧ s.doneRx = [] := by
  have hjob := h.job
  have hdone := h.done
  cases hj : s.job <;> cases hd : s.doneRx <;> grind

theorem no_cli (h : Discipline s) (hst : s.store ≠ none) (n : ℕ) : (s.clis n).holds = false := by
  grind -ring -linarith [h.actorLock, h.cliLock n]

theorem no_store (h : Discipline s) {n : ℕ} (hn : (s.clis n).holds = true) : s.store = none := by
  grind -ring -linarith [h.no_cli]

theorem cliLoaded_of_store (h : Discipline s) (hst : s.store ≠ none) (f : σ) :
    ∀ n m st, s.clis n = .loaded m st → st = f := by
  intro n m st hc
  have := h.no_cli hst n
  simp [hc, CliPhase.holds] at this

theorem cliApplied_of_store (h : Discipline s) (hst : s.store ≠ none) (f : σ) :
    ∀ n m st, s.clis n = .applied m st → m f = some st := by
  intro n m st hc
  have := h.no_cli hst n
  simp [hc, CliPhase.holds] at this

/-! ### The steps -/

theorem caller (h : Discipline s) (hs : CallerStep s t) : Discipline t := by
  cases hs <;>
    exact ⟨h.actorLock, h.cliLock, h.cliLoaded, h.cliApplied, h.phase, h.job, h.done⟩

/-- Starting a publish: its snapshot covers everything pending. -/
theorem tryStartPublish (h : Discipline s) (hfl : s.phase.awaitsCompletion = true) :
    Discipline (tryStartPublish s) := by
  rcases tryStartPublish_cases s with heq | ⟨st, hst, hpub, -, -, heq⟩
  · rwa [heq]
  · obtain ⟨-, hdone⟩ := h.idle hpub
    rw [heq]
    refine ⟨h.actorLock, h.cliLock, h.cliLoaded, h.cliApplied, ?_, ?_, ?_⟩
    · have hp := h.phase
      revert hfl hp
      unfold PhaseOk startPublish
      cases s.phase <;> simp [Phase.awaitsCompletion]
    · intro j hj
      obtain rfl : _ = j := by simpa [startPublish] using hj
      exact ⟨rfl, hdone, by simp [startPublish, hst], le_refl _, by simp [startPublish]⟩
    · intro r rest hd
      simp [startPublish, hdone] at hd

/-- Absorbing the result of the publish in flight. -/
theorem absorb (h : Discipline s) {r : Published} {rest : List Published}
    (hd : s.doneRx = r :: rest) (hp : s.phase.awaitsCompletion = true) :
    Discipline (absorbPublishResult r { s with doneRx := rest, publishing := false }) := by
  obtain ⟨rfl, hpub, hjob, hst, -⟩ := h.done r rest hd
  have hlock := h.actorLock
  have hclis := h.cliLock
  have hload : s.phase.isLoading = false := by
    cases hph : s.phase <;> simp_all [Phase.awaitsCompletion, Phase.isLoading]
  have hphase : ∀ u : State σ, u.phase = s.phase → PhaseOk u := by
    intro u hu
    unfold PhaseOk
    rw [hu]
    cases hph : s.phase <;> simp_all [Phase.awaitsCompletion]
  unfold absorbPublishResult
  cases r with
  | ok =>
    simp only
    split
    · refine ⟨?_, ?_, h.cliLoaded, h.cliApplied, hphase _ rfl, ?_, ?_⟩ <;> grind -ring -linarith [dropLock]
    · exact ⟨hlock, hclis, h.cliLoaded, h.cliApplied, hphase _ rfl, by simp [hjob], by simp⟩
  | err => exact ⟨hlock, hclis, h.cliLoaded, h.cliApplied, hphase _ rfl, by simp [hjob], by simp⟩

theorem complete (h : Discipline s) {r : Published} {rest : List Published}
    (hd : s.doneRx = r :: rest) (hp : s.phase.awaitsCompletion = true) :
    Discipline (complete r { s with doneRx := rest }) := by
  refine (h.absorb hd hp).tryStartPublish ?_
  unfold absorbPublishResult
  cases r with
  | ok => simp only; split <;> exact hp
  | err => exact hp

theorem stop (h : Discipline s) (hpub : s.publishing = false) (ok : Bool) :
    Discipline (stop ok s) := by
  obtain ⟨hjob, hdone⟩ := h.idle hpub
  have hclis := h.cliLock
  refine ⟨?_, ?_, h.cliLoaded, h.cliApplied, ⟨rfl, hpub⟩, ?_, ?_⟩
  all_goals grind -ring -linarith [StoreWriter.stop, Phase.isLoading, dropLock_eq_some]

/-- The acknowledged mutation joins the tail of the publish in flight. -/
theorem mutated (h : Discipline s) {id : ℕ} {m : Mutation σ} {owned : σ}
    (hp : s.phase = .mutating id m) : Discipline (mutated id m owned s) := by
  have hst : s.store ≠ none := by simpa [PhaseOk, hp] using h.phase
  unfold StoreWriter.mutated
  refine tryStartPublish ⟨?_, h.cliLock, h.cliLoaded, h.cliApplied, trivial, ?_, ?_⟩ rfl
  · simpa [Phase.isLoading] using h.actorLock.2 (.inl hst)
  · intro j hj
    obtain ⟨hpub, hdone, -, hle, hmsp⟩ := h.job j hj
    refine ⟨hpub, hdone, by simp, by simp; omega, ?_⟩
    simp only [hmsp, List.length_append, List.length_singleton, Nat.sub_add_comm hle,
      Nat.mod_add_mod]
  · intro r rest hd
    obtain ⟨hrest, hpub, hjob, -, hmsp⟩ := h.done r rest hd
    refine ⟨hrest, hpub, hjob, by simp, fun hr => ?_⟩
    simp only [hmsp hr, List.length_append, List.length_singleton, Nat.mod_add_mod]

theorem loadFailed (h : Discipline s) (hst : s.store = none) (id : ℕ) :
    Discipline (loadFailed id s) := by
  have hclis := h.cliLock
  refine ⟨?_, ?_, h.cliLoaded, h.cliApplied, trivial, h.job, h.done⟩
  all_goals grind -ring -linarith [StoreWriter.loadFailed, Phase.isLoading, dropLock_eq_some]

theorem actor (h : Discipline s) {a : ActorAction} (hs : ActorStep s a t) : Discipline t := by
  have hphase := h.phase
  have hlock := h.actorLock
  have hclis := h.cliLock
  have hjob := h.job
  have hdone := h.done
  cases hs with
  | acquireFailed hp | loadFailed hp => exact h.loadFailed (by simpa [PhaseOk, hp] using hphase) _
  | mutated hp hst hm => exact h.mutated hp
  | completed hd hpub hp => exact h.complete hd hp
  | retried hp hpub _ _ _ => exact h.tryStartPublish (by simp [hp, Phase.awaitsCompletion])
  | stopped hp hpub hdirty => exact h.stop hpub true
  | @flushed st hp =>
    obtain ⟨hst, hpub⟩ : s.store = some st ∧ s.publishing = false := by
      simpa [PhaseOk, hp] using hphase
    have hst' : s.store ≠ none := by simp [hst]
    have hfl : Discipline (StoreWriter.flushed st s) := by
      refine ⟨hlock, hclis, h.cliLoaded_of_store hst' _, h.cliApplied_of_store hst' _, ?_, ?_, ?_⟩
      all_goals grind -ring -linarith [PhaseOk, StoreWriter.flushed, h.idle hpub]
    exact hfl.stop hpub true
  | @flushFailed st out hp hout =>
    obtain ⟨hst, hpub⟩ : s.store = some st ∧ s.publishing = false := by
      simpa [PhaseOk, hp] using hphase
    have hfl : Discipline { s with retry := s.retry.recordFailure s.now } :=
      ⟨hlock, hclis, h.cliLoaded, h.cliApplied, h.phase, hjob, hdone⟩
    exact hfl.stop hpub false
  | _ =>
    refine ⟨?_, ?_, h.cliLoaded, h.cliApplied, ?_, ?_, ?_⟩
    all_goals grind -ring -linarith [PhaseOk, Phase.isLoading, mutationPanicked]

theorem publish (h : Discipline s) {out : Outcome} (hs : PublishStep s out t) :
    Discipline t := by
  have hjob := h.job
  have hdone := h.done
  cases hs with
  | @ok j hj =>
    obtain ⟨-, -, hst, -⟩ := h.job j hj
    refine ⟨h.actorLock, h.cliLock, h.cliLoaded_of_store hst _, h.cliApplied_of_store hst _,
      h.phase, ?_, ?_⟩ <;> grind -ring -linarith [published]
  | _ =>
    refine ⟨h.actorLock, h.cliLock, h.cliLoaded, h.cliApplied, h.phase, ?_, ?_⟩ <;> grind

theorem clis_setCli (n : ℕ) (p : CliPhase σ) (s : State σ) (k : ℕ) :
    (StoreWriter.setCli n p s).clis k = if k = n then p else s.clis k :=
  Function.update_apply ..

theorem cli (h : Discipline s) {n : ℕ} (hs : CliStep s n t) : Discipline t := by
  have hlock := h.actorLock
  have hclis := h.cliLock
  have hloaded := h.cliLoaded
  have happlied := h.cliApplied
  cases hs <;> refine ⟨?_, ?_, ?_, ?_, h.phase, h.job, h.done⟩
  all_goals grind -ring -linarith [clis_setCli, StoreWriter.setCli, cliFailed, cliSaved, dropLock_eq_some,
    CliPhase.holds]

/-- **Every step keeps the discipline.** -/
theorem step (h : Discipline s) {a : Action σ} (hs : step s a = some t) : Discipline t :=
  step_preserves h.caller (fun _ _ => h.actor) (fun _ _ => h.publish) (fun _ => h.cli) hs

end Discipline

theorem discipline_of_run {ok : State σ → Action σ → Prop} {initial : ℕ} {f : σ}
    {as : List (Action σ)} (h : (machine σ).Run ok (init initial f) as s) : Discipline s :=
  h.invariant (fun _ _ _ hs _ hstep => hs.step hstep) (discipline_init initial f)

end StoreWriter
