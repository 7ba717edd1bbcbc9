/-
**The status the Android library reports.**

The status is a global of its own, beside the engine slot: a call changes the slot in one critical
section and writes the status in another.  `nativeStop` holds no mutex when it writes the status of
an idle slot, or of a wait that timed out, so a whole `nativeStart` fits in before that write, and
the status of the running engine is overwritten with *Off* or with the error of the old wait.
-/

import Mathlib
import TorSocks5.EngineSlot

set_option autoImplicit false

namespace Engine

/-! ### Statuses -/

/-- The statuses of an engine that is not there any more. -/
def EngineStatus.isEnded : EngineStatus → Bool
  | off | error _ _ => true
  | _ => false

/-- The statuses in which `nativeStop` leaves what it has stopped. -/
def EngineStatus.isStopped : EngineStatus → Bool
  | off | error .stop _ => true
  | _ => false

/-- The statuses that fit an engine, by whether its final status is published. -/
def EngineStatus.fits (status : EngineStatus) : Bool → Bool
  | true => status.isEnded
  | false => !status.isStopped

variable {status : EngineStatus} {u : Thread} {pc : Pc}
theorem EngineStatus.isStopped_of_isProgress
    (h : status.isProgress = true) : status.isStopped = false := by
  cases status <;> simp_all [isProgress, isStopped]

theorem EngineStatus.isEnded_of_isFinal (h : status.isFinal = true) : status.isEnded = true := by
  cases status <;> simp_all [isFinal, isEnded]

/-! ### The property and the order of the writes -/

section Agreement

variable {ι : Type*}

/-- **The status agrees with the slot.** -/
structure StatusAgrees (s : State ι) : Prop where
  running : ∀ h t, s.slot = .running h → s.threads h = some t → t.finished = false →
    t.published = false → s.status ≠ .off ∧ ∀ message, s.status ≠ .error .stop message
  idle : s.slot = .idle → (∀ pct, s.status ≠ .starting pct) ∧ (∀ addr, s.status ≠ .on addr) ∧
    s.status ≠ .stopping

/-- The calls of `nativeStop` that write a status without the mutex, for a slot that is not theirs.
-/
def Pc.isLate : Pc → Bool
  | .sawIdle | .parked => true
  | _ => false

/-- A `nativeStart` has announced an engine, or an engine is running. -/
def State.Announced (s : State ι) : Prop :=
  (∃ h, s.slot = .running h) ∨ ∃ c, s.calls c = .starting ∨ ∃ h, s.calls c = .spawned h

/-- The steps that keep the order: a late status comes before the next engine is announced, and a
thread publishes its final status before it ends. -/
def InOrder (s : State ι) : Action ι → Prop
  | .stop c .setStatus => (s.calls c).isLate = true → ¬ s.Announced
  | .thread h .dropSender => ∀ t, s.threads h = some t → t.published = true
  | _ => True

/-! ### What holds while calls are in progress -/

/-- The thread of the running engine, or of the one that `nativeStart` is about to store. -/
def State.Current (s : State ι) (h : ℕ) : Prop := s.slot = .running h ∨ ∃ c, s.calls c = .spawned h

/-- The calls that are yet to write the status, or to hand it over to an engine. -/
def Pc.isBusy : Pc → Bool
  | .starting | .spawned _ | .spawnFailed | .panicked | .cleared _ => true
  | _ => false

/-- What holds of the engine threads. -/
structure Truthful (s : State ι) : Prop where
  dropped : ∀ h t, s.threads h = some t → t.dropped = true → t.published = true
  finished : ∀ h t, s.threads h = some t → t.finished = true → t.dropped = true
  generation : ∀ h, s.Alive h → s.generation = h

/-- What holds of the status. -/
structure Agrees (s : State ι) : Prop where
  starting : ∀ c, s.calls c = .starting → s.status.isStopped = false
  current : ∀ h t, s.Current h → s.threads h = some t → s.status.fits t.published = true
  idle : s.slot = .idle → s.status.isEnded = true ∨ ∃ c, (s.calls c).isBusy = true

variable {s s' t : State ι} {c : ι} {h h' : ℕ}

theorem EngineSlot.eq_of_custody_empty {slot : EngineSlot} (hslot : slot.custody = .empty) :
    slot = .idle := by
  cases slot with
  | idle => rfl
  | running h => cases hslot
  | stopping handle => cases handle <;> cases hslot

theorem Owned.idle_of_locks (hs : Owned s) (hc : (s.calls c).role.locks = true) : s.slot = .idle :=
  EngineSlot.eq_of_custody_empty (hs.kept.empty c hc)

theorem Owned.eq_of_locks {c' : ι} (hs : Owned s) (hc : (s.calls c).role.locks = true)
    (hc' : (s.calls c').role.locks = true) : c = c' :=
  hs.kept.lock.unique hc hc'

theorem Owned.not_current_of_locks (hs : Owned s) (hc : (s.calls c).role.locks = true)
    (hnot : ∀ k, s.calls c ≠ .spawned k) : ¬ s.Current h := by
  rintro (hslot | ⟨c', hc'⟩)
  · simp [hs.idle_of_locks hc] at hslot
  · obtain rfl : c = c' := hs.eq_of_locks hc (hc' ▸ rfl)
    exact hnot h hc'

theorem Owned.not_starting_of_locks {c' : ι} (hs : Owned s) (hc : (s.calls c).role.locks = true)
    (hnot : s.calls c ≠ .starting) : s.calls c' ≠ .starting := by
  intro hc'
  obtain rfl : c = c' := hs.eq_of_locks hc (hc' ▸ rfl)
  exact hnot hc'

theorem Owned.not_current_of_owner (hs : Owned s) (hc : (s.calls c).role = .owner h') :
    ¬ s.Current h := by
  have hslot := hs.slot_of_owner hc
  rintro (hrun | ⟨c', hc'⟩)
  · simp [hslot] at hrun
  · have := hs.idle_of_locks (c := c') (hc' ▸ rfl)
    simp [hslot] at this

theorem Owned.eq_of_current (hs : Owned s) (hcur : s.Current h) (halive : s.Alive h') : h' = h := by
  rcases hcur with hslot | ⟨c, hc⟩
  · exact hs.kept.live_of_held (by simp [State.custody, hslot, EngineSlot.custody]) halive
  · have hlocks : (s.calls c).role.locks = true := by rw [hc]; rfl
    obtain ⟨c', hc'⟩ := hs.kept.live_of_empty (hs.kept.empty c hlocks) halive
    have hrole : (s.calls c').role = .made h' := hc'
    obtain rfl := hs.eq_of_locks hlocks (by rw [hrole]; rfl)
    rw [hc] at hrole
    exact (Custody.Role.made.inj hrole).symm

/-! ### The threads -/

theorem forall_setThread {P : Thread → Prop} (hs : ∀ k v, s.threads k = some v → P v) (hu : P u) :
    ∀ k v, (s.setThread h u).threads k = some v → P v := by
  intro k v hv
  rcases eq_or_ne k h with rfl | hkh
  · simp only [State.setThread, Function.update_self, Option.some.injEq] at hv
    rwa [← hv]
  · simp only [State.setThread, Function.update_of_ne hkh] at hv
    exact hs k v hv

theorem truthful_setThread {u' : Thread} (ht : Truthful s) (hu : s.threads h = some u)
    (hdropped : u'.dropped = true → u'.published = true)
    (hfinished : u'.finished = true → u'.dropped = true)
    (hkeep : u'.finished = false → u.finished = false) : Truthful (s.setThread h u') :=
  ⟨forall_setThread ht.dropped hdropped, forall_setThread ht.finished hfinished,
    fun k hk => ht.generation k (alive_setThread hu hkeep hk)⟩

variable [DecidableEq ι]

theorem truthful_step {a : Action ι} (hs : Owned s) (ht : Truthful s) (hok : InOrder s a)
    (hstep : Step s a t) : Truthful t := by
  have hnot {c : ι} {k : ℕ} (hcall : s.calls c = .starting) : ¬ s.Alive k :=
    hs.kept.not_live_of_maker (i := c) (by simp [State.custody, hcall, Pc.role])
  cases hstep with
  | @spawn c hcall =>
    refine ⟨forall_setThread ht.dropped (by simp), forall_setThread ht.finished (by simp), ?_⟩
    intro k hk
    have hlive : k ∈ insert (s.generation + 1) s.custody.live := by
      rw [← live_setThread (t := ⟨false, false, false, false⟩) rfl]
      exact hk
    exact hlive.elim Eq.symm fun hlive => absurd hlive (hnot hcall)
  | spawnFails hcall => exact ⟨ht.dropped, ht.finished, fun k hk => absurd hk (hnot hcall)⟩
  | @publish k u _ hu =>
    have hset : Truthful (s.setThread k { u with published := true }) :=
      truthful_setThread ht hu (fun _ => rfl) (ht.finished k u hu) id
    exact ⟨hset.dropped, hset.finished, hset.generation⟩
  | @sendDone k u hu =>
    exact truthful_setThread ht hu (ht.dropped k u hu) (ht.finished k u hu) id
  | @dropSender k u hu =>
    exact truthful_setThread ht hu (fun _ => hok u hu) (fun _ => rfl) id
  | @finish k u hu hdropped =>
    exact truthful_setThread ht hu (ht.dropped k u hu) (fun _ => hdropped) (by simp)
  | _ => exact ⟨ht.dropped, ht.finished, ht.generation⟩

/-! ### The status -/

theorem busy_goto (hbusy : ∃ c', (s.calls c').isBusy = true)
    (hc : (s.calls c).isBusy = false) : ∃ c', ((s.goto c pc).calls c').isBusy = true := by
  obtain ⟨c', hc'⟩ := hbusy
  have hne : c' ≠ c := by
    rintro rfl
    simp [hc] at hc'
  exact ⟨c', by rw [calls_goto, if_neg hne, hc']⟩

/-- A call goes on and leaves the status alone. -/
theorem agrees_goto (ha : Agrees s)
    (hkeep : s'.status = s.status ∧ s'.threads = s.threads ∧ s'.calls = s.calls)
    (hpc : pc ≠ .starting ∧ ∀ k, pc ≠ .spawned k)
    (hrun : ∀ k, s'.slot = .running k → s.Current k)
    (hidle : s'.slot = .idle → s.status.isEnded = true ∨ pc.isBusy = true ∨
      s.slot = .idle ∧ (s.calls c).isBusy = false) : Agrees (s'.goto c pc) := by
  obtain ⟨hstatus, hthreads, hcalls⟩ := hkeep
  constructor
  · intro c' hc'
    change s'.status.isStopped = false
    rw [calls_goto, hcalls] at hc'
    rw [hstatus]
    split at hc'
    · exact absurd hc' hpc.1
    · exact ha.starting c' hc'
  · intro k u hcur hu
    change s'.status.fits u.published = true
    rw [hstatus]
    refine ha.current k u ?_ (hthreads ▸ hu)
    rcases hcur with hslot | ⟨c', hc'⟩
    · exact hrun k hslot
    · rw [calls_goto, hcalls] at hc'
      split at hc'
      · exact absurd hc' (hpc.2 k)
      · exact .inr ⟨c', hc'⟩
  · intro hslot
    change s'.status.isEnded = true ∨ _
    rw [hstatus]
    rcases hidle hslot with hended | hbusy | ⟨hslot', hc⟩
    · exact .inl hended
    · exact .inr ⟨c, by rw [calls_goto, if_pos rfl, hbusy]⟩
    · exact (ha.idle hslot').imp_right fun hbusy =>
        busy_goto (by rwa [hcalls]) (by rwa [hcalls])

theorem agrees_goto_of_free (ha : Agrees s)
    (hkeep : s'.status = s.status ∧ s'.threads = s.threads ∧ s'.calls = s.calls)
    (hpc : pc ≠ .starting ∧ ∀ k, pc ≠ .spawned k) (hslot : s'.slot = s.slot)
    (hfree : (s.calls c).isBusy = false) : Agrees (s'.goto c pc) := by
  refine agrees_goto ha hkeep hpc (fun k hk => .inl (hslot ▸ hk)) fun hidle => ?_
  exact .inr (.inr ⟨hslot ▸ hidle, hfree⟩)

/-- A call writes the status. -/
theorem agrees_write {m : Option ι} (hpc : ∀ k, pc ≠ .spawned k)
    (hstart : pc = .starting ∨ (∃ c, s.calls c = .starting) → status.isStopped = false)
    (hcurrent : ∀ k u, s.Current k → s.threads k = some u → status.fits u.published = true)
    (hidle : s.slot = .idle → status.isEnded = true ∨ pc.isBusy = true) :
    Agrees ({ s with mutex := m, status := status }.goto c pc) := by
  constructor
  · intro c' hc'
    rw [calls_goto] at hc'
    split at hc'
    · exact hstart (.inl hc')
    · exact hstart (.inr ⟨c', hc'⟩)
  · rintro k u (hslot | ⟨c', hc'⟩) hu
    · exact hcurrent k u (.inl hslot) hu
    · rw [calls_goto] at hc'
      split at hc'
      · exact absurd hc' (hpc k)
      · exact hcurrent k u (.inr ⟨c', hc'⟩) hu
  · intro hslot
    exact (hidle hslot).imp_right fun hbusy => ⟨c, by rw [calls_goto, if_pos rfl, hbusy]⟩

omit [DecidableEq ι] in
theorem agrees_setThread {u' : Thread} (ha : Agrees s) (hu : s.threads h = some u)
    (hsame : u'.published = u.published) : Agrees (s.setThread h u') := by
  refine ⟨ha.starting, fun k v hcur hv => ?_, ha.idle⟩
  rcases eq_or_ne k h with rfl | hkh
  · simp only [State.setThread, Function.update_self, Option.some.injEq] at hv
    rw [← hv, hsame]
    exact ha.current k u hcur hu
  · simp only [State.setThread, Function.update_of_ne hkh] at hv
    exact ha.current k v hcur hv

theorem agrees_spawn (hs : Owned s) (ha : Agrees s) (hcall : s.calls c = .starting) :
    Agrees (({ s with generation := s.generation + 1 }.setThread (s.generation + 1)
      ⟨false, false, false, false⟩).goto c (.spawned (s.generation + 1))) := by
  have hlocks : (s.calls c).role.locks = true := by rw [hcall]; rfl
  have hstatus : s.status.isStopped = false := ha.starting c hcall
  refine ⟨fun _ _ => hstatus, ?_, fun _ => .inr ⟨c, by rw [calls_goto, if_pos rfl]; rfl⟩⟩
  intro k u hcur hu
  -- no other call has the mutex, so the new thread is the current one
  obtain rfl : s.generation + 1 = k := by
    rcases hcur with hslot | ⟨c', hc'⟩
    · exact nomatch (hs.idle_of_locks hlocks).symm.trans hslot
    · rw [calls_goto] at hc'
      split at hc'
      · exact Pc.spawned.inj hc'
      · exact absurd (.inr ⟨c', hc'⟩) (hs.not_current_of_locks (h := k) hlocks (by simp [hcall]))
  simp only [State.goto, State.setThread, Function.update_self, Option.some.injEq] at hu
  simp [← hu, State.goto, State.setThread, EngineStatus.fits, hstatus]

omit [DecidableEq ι] in
theorem agrees_report (hs : Owned s)
    (hu : s.threads h = some u) (halive : u.finished = false) (hpublished : u.published = false)
    (hprogress : status.isProgress = true) : Agrees { s with status := status } := by
  have hstatus := EngineStatus.isStopped_of_isProgress hprogress
  refine ⟨fun _ _ => hstatus, ?_, fun hslot => ?_⟩
  · intro k v hcur hv
    obtain rfl := hs.eq_of_current hcur ⟨u, hu, halive⟩
    cases hu.symm.trans hv
    simp [EngineStatus.fits, hpublished, hstatus]
  · -- a live thread of an idle slot is with the call that has spawned it
    have hempty : s.custody.slot = .empty := congrArg EngineSlot.custody hslot
    obtain ⟨c, hc⟩ := hs.kept.live_of_empty hempty ⟨u, hu, halive⟩
    have hrole : (s.calls c).role = .made h := hc
    refine .inr ⟨c, ?_⟩
    cases hcall : s.calls c <;> simp_all [Pc.role, Pc.isBusy]

omit [DecidableEq ι] in
theorem agrees_publish (hs : Owned s) (ht : Truthful s)
    (hu : s.threads h = some u) (halive : u.finished = false)
    (hfinal : status.isFinal = true) :
    Agrees { s.setThread h { u with published := true } with
      status := if s.generation = h then status else s.status } := by
  have hended := EngineStatus.isEnded_of_isFinal hfinal
  have hlive : s.Alive h := ⟨u, hu, halive⟩
  rw [if_pos (ht.generation h hlive)]
  refine ⟨fun c hcall => ?_, fun k v hcur hv => ?_, fun _ => .inl hended⟩
  · -- nothing is alive while a call is about to spawn
    have hcall' : s.calls c = .starting := hcall
    exact absurd hlive
      (hs.kept.not_live_of_maker (i := c) (by simp [State.custody, hcall', Pc.role]))
  · obtain rfl := hs.eq_of_current hcur hlive
    simp only [State.setThread, Function.update_self, Option.some.injEq] at hv
    rwa [← hv]

theorem agrees_late (hended : status.isEnded = true)
    (hok : ¬ s.Announced) : Agrees ({ s with status := status }.goto c .away) := by
  refine agrees_write (m := s.mutex) (by simp) ?_ ?_ fun _ => .inl hended
  · rintro (hpc | ⟨c', hc'⟩)
    · cases hpc
    · exact absurd (.inr ⟨c', .inl hc'⟩) hok
  · rintro k _ (hslot | ⟨c', hc'⟩) _
    · exact absurd (.inl ⟨k, hslot⟩) hok
    · exact absurd (.inr ⟨c', .inr ⟨k, hc'⟩⟩) hok

/-- **Every step in order keeps it.** -/
theorem agrees_step {a : Action ι} (hs : Owned s) (ht : Truthful s) (ha : Agrees s)
    (hok : InOrder s a) (hstep : Step s a t) : Agrees t := by
  cases hstep with
  | refused => exact ha
  | enter hcall _ hslot =>
    refine agrees_goto ha ⟨rfl, rfl, rfl⟩ (by simp) (by simp) fun _ => ?_
    rcases hslot with hslot | ⟨k, hslot, hfinished⟩
    · exact .inr (.inr ⟨hslot, by rw [hcall]; rfl⟩)
    · -- the thread of a finished engine has published its final status
      obtain ⟨u, hu, hu'⟩ := Option.any_eq_true _ _ |>.1 hfinished
      have hfits := ha.current k u (.inl hslot) hu
      rw [ht.dropped k u hu (ht.finished k u hu hu')] at hfits
      exact .inl hfits
  | fail hcall | beginIdle hcall | waitEnds hcall | waitStops hcall | join hcall =>
    exact agrees_goto_of_free ha ⟨rfl, rfl, rfl⟩ (by simp) rfl (hcall ▸ rfl)
  | setStarting hcall =>
    refine agrees_write (m := s.mutex) (by simp) (fun _ => rfl) ?_ fun _ => .inr rfl
    intro k u hcur _
    exact absurd hcur (hs.not_current_of_locks (by rw [hcall]; rfl) (by simp [hcall]))
  | spawn hcall => exact agrees_spawn hs ha hcall
  | spawnFails | panic =>
    exact agrees_goto ha ⟨rfl, rfl, rfl⟩ (by simp) (fun k => .inl) fun _ => .inr (.inl rfl)
  | rollBack | panicStatus =>
    exact agrees_write (by simp) (fun _ => rfl) (fun k u _ _ => by cases u.published <;> rfl)
      fun _ => .inl rfl
  | store hcall =>
    refine agrees_goto ha ⟨rfl, rfl, rfl⟩ (by simp) (fun k hk => ?_) (by simp)
    obtain rfl := EngineSlot.running.inj hk
    exact .inr ⟨_, hcall⟩
  | checkOut => exact agrees_goto ha ⟨rfl, rfl, rfl⟩ (by simp) (by simp) (by simp)
  | setOff hcall | setTimeout hcall => exact agrees_late rfl (hok (hcall ▸ rfl))
  | setStopping hcall =>
    refine agrees_write (m := s.mutex) (by simp) (fun _ => rfl) (fun k _ hcur _ => ?_) ?_
    · exact absurd hcur (hs.not_current_of_owner (by rw [hcall]; rfl))
    · intro hslot
      simp [hs.slot_of_owner (by rw [hcall]; rfl)] at hslot
  | @setCleared c normally hcall =>
    have hlocks : (s.calls c).role.locks = true := by rw [hcall]; rfl
    refine agrees_write (by simp) ?_ (fun k _ hcur _ => ?_)
      fun _ => .inl (by cases normally <;> rfl)
    · rintro (hpc | ⟨c', hc'⟩)
      · cases hpc
      · exact absurd hc' (hs.not_starting_of_locks hlocks (by simp [hcall]))
    · exact absurd hcur (hs.not_current_of_locks hlocks (by simp [hcall]))
  | clear => exact agrees_goto ha ⟨rfl, rfl, rfl⟩ (by simp) (by simp) fun _ => .inr (.inl rfl)
  | @park _ _ timedOut =>
    exact agrees_goto ha ⟨rfl, rfl, rfl⟩ (by cases timedOut <;> simp) (by simp) (by simp)
  | parkForced hcall hslot => exact absurd (hs.slot_of_owner (by rw [hcall]; rfl)) hslot
  | forced hcall => exact absurd hcall (hs.notForced _ _ _)
  | report hu halive hpublished hprogress => exact agrees_report hs hu halive hpublished hprogress
  | publish hu halive _ hfinal => exact agrees_publish hs ht hu halive hfinal
  | sendDone hu | dropSender hu | finish hu => exact agrees_setThread ha hu rfl

omit [DecidableEq ι] in
theorem truthful_start : Truthful (State.start : State ι) := by
  constructor <;> simp [State.start, State.Alive]

omit [DecidableEq ι] in
theorem agrees_start : Agrees (State.start : State ι) := by
  constructor <;> simp [State.start, State.Current, EngineStatus.isEnded]

theorem agrees_of_run {as : List (Action ι)} (hrun : engine.Run InOrder State.start as s) :
    Agrees s := by
  have hinv := hrun.invariant (I := fun s => Owned s ∧ Truthful s ∧ Agrees s)
    (fun s a t ⟨hs, ht, ha⟩ hok hstep =>
      have hcases := step_cases hstep
      ⟨owned_step hs hcases, truthful_step hs ht hok hcases, agrees_step hs ht ha hok hcases⟩)
    ⟨owned_start, truthful_start, agrees_start⟩
  exact hinv.2.2

omit [DecidableEq ι] in
/-- Between the calls, what holds is the agreement itself. -/
theorem Agrees.statusAgrees (ha : Agrees s) (hquiet : ∀ c, s.calls c = .away) :
    StatusAgrees s := by
  constructor
  · intro h t hslot ht _ hpublished
    have hfits := ha.current h t (.inl hslot) ht
    rw [hpublished] at hfits
    constructor
    · intro hoff
      simp [hoff, EngineStatus.fits, EngineStatus.isStopped] at hfits
    · intro message herror
      simp [herror, EngineStatus.fits, EngineStatus.isStopped] at hfits
  · intro hslot
    rcases ha.idle hslot with hended | ⟨c, hc⟩
    · refine ⟨?_, ?_, ?_⟩
      · intro pct hstatus
        simp [hstatus, EngineStatus.isEnded] at hended
      · intro addr hstatus
        simp [hstatus, EngineStatus.isEnded] at hended
      · intro hstatus
        simp [hstatus, EngineStatus.isEnded] at hended
    · simp [hquiet c, Pc.isBusy] at hc

/-- **Between the calls the status agrees with the slot.**  In every run in which the late writes of
`nativeStop` come before the next engine is announced, and every engine thread publishes its final
status before it ends. -/
theorem status_agrees {as : List (Action ι)} (hrun : engine.Run InOrder State.start as s)
    (hquiet : ∀ c, s.calls c = .away) : StatusAgrees s :=
  (agrees_of_run hrun).statusAgrees hquiet

/-- An engine is started and reports that it is on. -/
def startedRun : List (Action Bool) :=
  [.start false .enter, .start false .setStatus, .start false (.spawn true), .start false .store,
    .thread 1 (.report (.on "127.0.0.1:1080".toList))]

theorem status_agrees_startedRun :
    (engine.after State.start startedRun).slot = .running 1 ∧
      StatusAgrees (engine.after State.start startedRun) := by
  have hrun : engine.Run InOrder State.start startedRun (engine.after State.start startedRun) := by
    refine Machine.Run.of_exec_mem ?_ (Machine.exec_eq_after (by decide +kernel))
    intro a ha s
    simp only [startedRun, List.mem_cons, List.not_mem_nil, or_false] at ha
    rcases ha with rfl | rfl | rfl | rfl | rfl <;> trivial
  exact ⟨by decide +kernel, status_agrees hrun (by decide +kernel)⟩

/-- A `nativeStop` finds the slot idle; before it writes the status, a `nativeStart` starts an
engine. -/
def lateOffRun : List (Action Bool) :=
  [.stop true .begin, .start false .enter, .start false .setStatus, .start false (.spawn true),
    .start false .store, .stop true .setStatus]

/-- **A late write of `nativeStop` reports a running engine as off.** -/
theorem late_off_hides_engine :
    engine.Run Machine.anyStep State.start lateOffRun (engine.after State.start lateOffRun) ∧
      (∀ c, (engine.after State.start lateOffRun).calls c = .away) ∧
      (engine.after State.start lateOffRun).slot = .running 1 ∧
      (engine.after State.start lateOffRun).threads 1 = some ⟨false, false, false, false⟩ ∧
      (engine.after State.start lateOffRun).status = .off ∧
      ¬ StatusAgrees (engine.after State.start lateOffRun) := by
  have hslot : (engine.after State.start lateOffRun).slot = .running 1 := by decide +kernel
  have hthread : (engine.after State.start lateOffRun).threads 1 =
      some ⟨false, false, false, false⟩ := by decide +kernel
  have hstatus : (engine.after State.start lateOffRun).status = .off := by decide +kernel
  refine ⟨Machine.Run.of_exec (Machine.exec_eq_after (by decide +kernel)), by decide +kernel, hslot,
    hthread, hstatus, ?_⟩
  intro hagrees
  exact (hagrees.running 1 _ hslot hthread rfl rfl).1 hstatus

end Agreement

end Engine
