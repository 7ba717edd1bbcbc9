/-
**Drains make progress through the queue.**

A drain attempts candidates from the front of the queue.  Its confirm removes those that are dead or
promoted and moves the deferred ones to the back; those it did not get to keep their places.  A
merge adds candidates at the back.  So the candidates ahead of one that waits only become fewer, and
every attempt on one of them costs it its place: after as many attempts as there were candidates
ahead, the one that waits is the first of its transport, and the next drain takes it.
-/

import TorSocks5.DrainPoolKeeps
import TorSocks5.PoolRefinement

set_option autoImplicit false

namespace DrainPool

open List

open OrderedSet (ahead)

variable {B K : Type*} [DecidableEq K] {f : BridgeFormat B K}

/-! ### Attempts -/

/-- The identities that a drain has attempted, by what came of it. -/
def Report.attempted (f : BridgeFormat B K) (r : Report B) : List K :=
  ((r.dead ++ r.promoted) ++ r.deferred).map f.key

omit [DecidableEq K] in
/-- A round adds its bridge to what has been attempted, unless it passes over it. -/
theorem attempted_attempt (plan : Plan) (r : Report B) (b : B) (late : Bool)
    (probe : Option Outcome) (check : Bool) :
    ((attempt plan r b late probe check).attempted f).Perm
      ((if r.full plan late then [] else [f.key b]) ++ r.attempted f) := by
  have hdead : (((r.dead ++ [b]) ++ r.promoted) ++ r.deferred).Perm
      (b :: ((r.dead ++ r.promoted) ++ r.deferred)) := by
    simp only [append_assoc, singleton_append]
    exact perm_middle
  have hpromoted : ((r.dead ++ (r.promoted ++ [b])) ++ r.deferred).Perm
      (b :: ((r.dead ++ r.promoted) ++ r.deferred)) := by
    rw [← append_assoc, append_assoc _ [b]]
    exact perm_middle
  have hdeferred : ((r.dead ++ r.promoted) ++ (r.deferred ++ [b])).Perm
      (b :: ((r.dead ++ r.promoted) ++ r.deferred)) := by
    rw [← append_assoc]
    exact perm_append_singleton _ _
  unfold attempt
  split
  · exact List.Perm.refl _
  rcases probe with _ | outcome
  · exact hdeferred.map f.key
  cases outcome with simp only [judge]
  | unmeasured => exact hdeferred.map f.key
  | unreachable => exact hdead.map f.key
  | reachable latency =>
    split
    · exact hpromoted.map f.key
    · exact hdeferred.map f.key

/-- What a drain has attempted and not confirmed. -/
def DrainPhase.pending : DrainPhase f → List K
  | .walking _ _ r => r.attempted f
  | .walked r => r.attempted f
  | .promoting r => r.attempted f
  | .rewriting r _ => r.attempted f
  | .decided r _ => r.attempted f
  | .confirming r _ => r.attempted f
  | .shedding r _ _ => r.attempted f
  | _ => []

/-- The identity that a drain attempts in a step, if it attempts one. -/
def DrainPhase.attemptOf (p : DrainPhase f) : DrainAction → Option K
  | .probe late _ _ =>
    match p with
    | .walking plan (b :: _) r => if r.full plan late then none else some (f.key b)
    | _ => none
  | _ => none

/-- The drain has not begun, or it has come to its end. -/
def DrainPhase.Quiet : DrainPhase f → Prop
  | .idle => True
  | .finished => True
  | _ => False

/-- The identity that a step attempts, if it attempts one. -/
def attemptOf (s : State f) : Action B K → Option K
  | .drain i a => (s.drains i).attemptOf a
  | _ => none

/-- Some drain has attempted the identity and not confirmed. -/
def Pending (s : State f) (k : K) : Prop := ∃ i, k ∈ (s.drains i).pending

/-! ### Orderly runs -/

/-- What is asked of a drain: it prefers the transport, its promotion and its confirm succeed, and
it ends without a confirm only if it has attempted nothing. -/
def DrainPhase.Orderly (preferred : Option String) (p : DrainPhase f) : DrainAction → Prop
  | .start plan => plan.preferred = preferred
  | .promotionFailed => False
  | .writeConfig w => w.ok = true
  | .savePool w => w.ok = true
  | .stop => p.pending = []
  | _ => True

/-- Drains of one transport that do not overlap and come to their end, and refreshes that do not
migrate. -/
def Orderly (preferred : Option String) (s : State f) : Action B K → Prop
  | .drain i a => (s.drains i).Orderly preferred a ∧
      ∀ plan, a = .start plan → ∀ j, (s.drains j).Quiet
  | .refresh _ (.lockPool m) => m.migration = false
  | _ => True

/-- What a drain holds on to: what is left to walk is new, promotions have succeeded, and what is to
be saved is the pool on disk with the confirm made. -/
def DrainPhase.Tidy (preferred : Option String) (d : Files K) (i : ℕ) : DrainPhase f → Prop
  | .acquiring plan => plan.preferred = preferred ∧ plan.target ≠ 0
  | .loading plan => plan.preferred = preferred ∧ plan.target ≠ 0
  | .walking _ todo r => (r.attempted f ++ todo.map f.key).Nodup
  | .decided _ promotion => promotion = true
  | .confirming _ promotion => promotion = true ∧ d.poolLock = some (.drain i)
  | .shedding r promotion fresh => promotion = true ∧
      d.poolLock = some (.drain i) ∧ fresh = r.confirm true (CandidatePool.load d.pool)
  | _ => True

/-- What a refresh holds on to: what is to be saved is the pool on disk with the merge made. -/
def RefreshPhase.Tidy (d : Files K) (i : ℕ) : RefreshPhase f → Prop
  | .loading m => m.migration = false ∧ d.poolLock = some (.refresh i)
  | .saving m pool => m.migration = false ∧ d.poolLock = some (.refresh i) ∧
      pool = m.apply (CandidatePool.load d.pool)
  | _ => True

/-- At most one drain is under way, and every party is tidy. -/
structure Tidy (preferred : Option String) (s : State f) : Prop where
  alone : ∀ i j, ¬ (s.drains i).Quiet → ¬ (s.drains j).Quiet → i = j
  drains : ∀ i, (s.drains i).Tidy preferred s.files i
  refreshes : ∀ i, (s.refreshes i).Tidy s.files i

theorem tidy_init (preferred : Option String) (pool config : List (List Char)) :
    Tidy preferred (init f pool config) :=
  ⟨fun _ _ h => absurd trivial h, fun _ => trivial, fun _ => trivial⟩

/-! ### Parties -/

section Frames

variable {L : Type*} {d d' : Files L}

/-- A step of a party leaves the pool to another party that holds the lock. -/
def Frames (p : Party) (d d' : Files L) : Prop :=
  ∀ q, q ≠ p → d.poolLock = some q → d'.poolLock = some q ∧ d'.pool = d.pool

theorem frames_of_release {p : Party} (hlock : d'.poolLock = d.poolLock)
    (hpool : d'.pool = d.pool) : Frames p d (d'.release p) :=
  fun _ hq hq' => ⟨release_poolLock (hlock.trans hq') hq, hpool⟩

theorem frames_of_eq {p : Party} (hlock : d'.poolLock = d.poolLock) (hpool : d'.pool = d.pool) :
    Frames p d d' := fun _ _ hq => ⟨hlock.trans hq, hpool⟩

theorem frames_of_holder {p : Party} (h : d.poolLock = some p) : Frames p d d' := by
  grind [Frames]

theorem frames_of_free {p : Party} (h : d.poolLock = none) : Frames p d d' := by
  grind [Frames]

end Frames

section Parties

variable {d d' : Files K} {i : ℕ} {preferred : Option String}

theorem DrainPhase.Tidy.frame {p : DrainPhase f} {q : Party} (h : p.Tidy preferred d i)
    (hf : Frames q d d') (hq : .drain i ≠ q) : p.Tidy preferred d' i := by
  cases p with
  | confirming | shedding => grind [Frames, DrainPhase.Tidy]
  | _ => exact h

theorem RefreshPhase.Tidy.frame {p : RefreshPhase f} {q : Party} (h : p.Tidy d i)
    (hf : Frames q d d') (hq : .refresh i ≠ q) : p.Tidy d' i := by
  cases p with
  | loading | saving => grind [Frames, RefreshPhase.Tidy]
  | _ => exact h

/-- What a step of an orderly drain does. -/
structure DrainStep (preferred : Option String) (d : Files K) (i : ℕ) (p : DrainPhase f)
    (a : DrainAction) (d' : Files K) (p' : DrainPhase f) : Prop where
  tidy : p'.Tidy preferred d' i
  frames : Frames (.drain i) d d'
  /-- Only a start begins a drain. -/
  quiet : p.Quiet → p'.Quiet ∨ ∃ plan, a = .start plan
  /-- The pool stays and what was attempted is pending, or the confirm is saved. -/
  pool : (d'.pool = d.pool ∧ ∀ k, k ∈ p'.pending ↔ p.attemptOf a = some k ∨ k ∈ p.pending) ∨
    ∃ r : Report B, ¬ p.Quiet ∧ p.pending = r.attempted f ∧
      d'.pool = (r.confirm true (CandidatePool.load d.pool : CandidatePool f)).save ∧
      p' = .finished ∧ p.attemptOf a = none

theorem DrainStep.of_same {p p' : DrainPhase f} {a : DrainAction} (htidy : p'.Tidy preferred d' i)
    (hframes : Frames (.drain i) d d')
    (hquiet : p.Quiet → p'.Quiet ∨ ∃ plan, a = .start plan) (hpool : d'.pool = d.pool)
    (hpending : p'.pending = p.pending) (hnone : p.attemptOf a = none) :
    DrainStep preferred d i p a d' p' := by
  refine ⟨htidy, hframes, hquiet, .inl ⟨hpool, fun k => ?_⟩⟩
  rw [hpending, hnone]
  simp

theorem nodup_batch (pool : CandidatePool f) (n : ℕ) (transport : Option String)
    (seed : Option UInt64) :
    ((shuffle seed (pool.takeTransport n transport).1).map f.key).Nodup := by
  have htaken := ((pool.takeTransport_perm n transport).map f.key).nodup_iff.2 pool.nodup
  rw [map_append] at htaken
  exact ((shuffle_perm seed _).map f.key).nodup_iff.2 htaken.of_append_left

theorem drainStep_of_step {p p' : DrainPhase f} {a : DrainAction} (h : p.Tidy preferred d i)
    (hok : p.Orderly preferred a) (hstep : stepDrain i d p a = some (d', p')) :
    DrainStep preferred d i p a d' p' := by
  cases a with simp only [stepDrain] at hstep
  | start plan =>
    split at hstep <;> cases hstep
    split
    · exact .of_same trivial (frames_of_eq rfl rfl) (fun _ => .inl trivial) rfl rfl rfl
    · exact .of_same ⟨hok, ‹_›⟩ (frames_of_eq rfl rfl) (fun _ => .inr ⟨plan, rfl⟩) rfl rfl rfl
  | lockPool =>
    split at hstep <;> cases hstep
    exact .of_same h (frames_of_free ‹_›) (by rintro ⟨⟩) rfl rfl rfl
  | load seed =>
    split at hstep <;> [split at hstep; skip] <;> cases hstep
    · exact .of_same trivial (frames_of_release rfl rfl) (by rintro ⟨⟩) rfl rfl rfl
    · exact .of_same (nodup_batch _ _ _ _) (frames_of_eq rfl rfl) (by rintro ⟨⟩) rfl rfl rfl
  | probe late outcome check =>
    split at hstep <;> cases hstep
    case h_1 plan b todo r =>
      have hperm := attempted_attempt (f := f) plan r b late outcome check
      have hnodup : (r.attempted f ++ f.key b :: todo.map f.key).Nodup := h
      refine ⟨(hperm.append_right (todo.map f.key)).nodup_iff.2 ?_, frames_of_eq rfl rfl,
        by rintro ⟨⟩,
        .inl ⟨rfl, fun k => hperm.mem_iff.trans ?_⟩⟩
      · -- the bridge of the round goes from what is left to what was attempted, or is passed over
        split
        · exact hnodup.sublist ((sublist_cons_self _ _).append_left _)
        · exact perm_middle.nodup_iff.1 hnodup
      · simp only [DrainPhase.attemptOf, DrainPhase.pending]
        split
        · simp
        · simp [eq_comm]
  | unlockPool =>
    split at hstep <;> cases hstep
    exact .of_same trivial (frames_of_release rfl rfl) (by rintro ⟨⟩) rfl rfl rfl
  | skipPromotion =>
    split at hstep <;> [split at hstep; skip] <;> cases hstep
    exact .of_same rfl (frames_of_eq rfl rfl) (by rintro ⟨⟩) rfl rfl rfl
  | lockConfig | loadConfig =>
    split at hstep <;> cases hstep
    exact .of_same trivial (frames_of_eq rfl rfl) (by rintro ⟨⟩) rfl rfl rfl
  | promotionFailed => exact hok.elim
  | writeConfig w =>
    split at hstep <;> [split at hstep; skip] <;> cases hstep
    · exact .of_same hok (frames_of_release rfl rfl) (by rintro ⟨⟩) rfl rfl rfl
    · exact .of_same rfl (frames_of_release rfl rfl) (by rintro ⟨⟩) rfl rfl rfl
  | lockConfirm =>
    split at hstep <;> [split at hstep; skip] <;> cases hstep
    exact .of_same ⟨h, rfl⟩ (frames_of_free ‹_›) (by rintro ⟨⟩) rfl rfl rfl
  | loadConfirm =>
    split at hstep <;> cases hstep
    case h_1 r promotion =>
      obtain ⟨rfl, hlock⟩ : promotion = true ∧ _ := h
      exact .of_same ⟨rfl, hlock, rfl⟩ (frames_of_eq rfl rfl) (by rintro ⟨⟩) rfl rfl rfl
  | savePool w =>
    split at hstep <;> cases hstep
    case h_1 r promotion fresh =>
      obtain ⟨-, hlock, rfl⟩ := h
      have hlands : w.lands = true := by
        cases w with
        | failed => cases hok
        | _ => rfl
      refine ⟨trivial, frames_of_holder hlock, by rintro ⟨⟩, .inr ⟨r, id, rfl, ?_, rfl, rfl⟩⟩
      simp only [hlands, if_true]
      rfl
  | stop =>
    cases hstep
    exact .of_same trivial (frames_of_release rfl rfl) (fun _ => .inl trivial) rfl
      (Eq.symm hok) rfl

/-- What a step of an orderly refresh does. -/
structure RefreshStep (d : Files K) (i : ℕ) (d' : Files K) (p' : RefreshPhase f) : Prop where
  tidy : p'.Tidy d' i
  frames : Frames (.refresh i) d d'
  /-- The pool stays, or a merge is saved. -/
  pool : d'.pool = d.pool ∨ ∃ fetched exclude,
    d'.pool = ((CandidatePool.load d.pool : CandidatePool f).merge fetched exclude).1.save

theorem refreshStep_of_step {p p' : RefreshPhase f} {a : RefreshAction B K} (h : p.Tidy d i)
    (hok : ∀ m, a = .lockPool m → m.migration = false)
    (hstep : stepRefresh i d p a = some (d', p')) : RefreshStep d i d' p' := by
  cases a with simp only [stepRefresh] at hstep
  | lockPool m =>
    split at hstep <;> [split at hstep; skip] <;> cases hstep
    exact ⟨⟨hok m rfl, rfl⟩, frames_of_free ‹_›, .inl rfl⟩
  | load =>
    split at hstep <;> cases hstep
    exact ⟨⟨h.1, h.2, rfl⟩, frames_of_eq rfl rfl, .inl rfl⟩
  | savePool w =>
    split at hstep <;> cases hstep
    case h_1 m pool =>
      obtain ⟨hmigration, hlock, rfl⟩ := h
      refine ⟨by cases w.ok && m.configStale <;> trivial, frames_of_holder hlock, ?_⟩
      cases w.lands with
      | false => exact .inl rfl
      | true =>
        refine .inr ⟨m.fetched, m.exclude, ?_⟩
        simp only [if_true, Fetch.apply, hmigration, Bool.false_eq_true, if_false]
        rfl
  | lockConfig | loadConfig =>
    split at hstep <;> cases hstep
    exact ⟨trivial, frames_of_eq rfl rfl, .inl rfl⟩
  | writeConfig w =>
    split at hstep <;> cases hstep
    exact ⟨trivial, frames_of_release rfl rfl, .inl rfl⟩
  | stop =>
    cases hstep
    exact ⟨trivial, frames_of_release rfl rfl, .inl rfl⟩

end Parties

/-! ### Steps of the machine -/

section Steps

variable {preferred : Option String} {s t : State f} {a : Action B K}

theorem Orderly.refresh {i : ℕ} {a : RefreshAction B K}
    (h : Orderly preferred s (.refresh i a)) :
    ∀ m, a = .lockPool m → m.migration = false := by
  rintro m rfl
  exact h

/-- **Every orderly step keeps the parties tidy.** -/
theorem tidy_step (h : Tidy preferred s) (hok : Orderly preferred s a)
    (hstep : step s a = some t) : Tidy preferred t := by
  cases a with
  | drain i a =>
    simp only [step, Option.map_eq_some_iff] at hstep
    obtain ⟨⟨d', p'⟩, hdrain, rfl⟩ := hstep
    obtain ⟨htidy, hframes, hquiet, -⟩ := drainStep_of_step (h.drains i) hok.1 hdrain
    -- a drain that is under way was so before, or all were quiet when it started
    have hbusy : ∀ j, j ≠ i → ¬ p'.Quiet → (s.drains j).Quiet := by
      intro j hj hp'
      by_cases hp : (s.drains i).Quiet
      · obtain ⟨plan, rfl⟩ := (hquiet hp).resolve_left hp'
        exact hok.2 plan rfl j
      · by_contra hjq
        exact hj (h.alone j i hjq hp)
    have halone := h.alone
    refine ⟨by grind, ?_, fun j => (h.refreshes j).frame hframes (by rintro ⟨⟩)⟩
    exact (Function.forall_update_iff _ fun j (p : DrainPhase f) => p.Tidy preferred d' j).2
      ⟨htidy, fun j hj => (h.drains j).frame hframes fun heq => hj (Party.drain.inj heq)⟩
  | refresh i a =>
    simp only [step, Option.map_eq_some_iff] at hstep
    obtain ⟨⟨d', p'⟩, hrefresh, rfl⟩ := hstep
    obtain ⟨htidy, hframes, -⟩ := refreshStep_of_step (h.refreshes i) hok.refresh hrefresh
    exact ⟨h.alone, fun j => (h.drains j).frame hframes (by rintro ⟨⟩),
      (Function.forall_update_iff _ fun j (p : RefreshPhase f) => p.Tidy d' j).2 ⟨htidy,
        fun j hj => (h.refreshes j).frame hframes fun heq => hj (Party.refresh.inj heq)⟩⟩
  | edit lines =>
    cases hstep
    have hframes (q) : Frames q s.files { s.files with config := lines } := frames_of_eq rfl rfl
    exact ⟨h.alone, fun j => (h.drains j).frame (hframes (.refresh 0)) (by rintro ⟨⟩),
      fun j => (h.refreshes j).frame (hframes (.drain 0)) (by rintro ⟨⟩)⟩

theorem not_quiet_of_mem_pending {p : DrainPhase f} {k : K} (h : k ∈ p.pending) : ¬ p.Quiet := by
  cases p with
  | idle => cases h
  | finished => cases h
  | _ => exact id

theorem pending_iff (h : Tidy preferred s) {i : ℕ} (hi : ¬ (s.drains i).Quiet) (k : K) :
    Pending s k ↔ k ∈ (s.drains i).pending := by
  constructor
  · rintro ⟨j, hj⟩
    rwa [h.alone i j hi (not_quiet_of_mem_pending hj)]
  · exact fun hk => ⟨i, hk⟩

/-- What is attempted has not been attempted by the same drain before. -/
theorem not_pending_of_attempt (h : Tidy preferred s) {k : K} (ha : attemptOf s a = some k) :
    ¬ Pending s k := by
  cases a with
  | drain i a =>
    cases a with
    | probe late outcome check =>
      simp only [attemptOf, DrainPhase.attemptOf] at ha
      split at ha <;> [skip; cases ha]
      next plan b todo r hwalk =>
        split_ifs at ha
        cases ha
        have htidy := h.drains i
        rw [hwalk] at htidy
        rw [pending_iff h (by rw [hwalk]; exact id), hwalk]
        exact fun hmem => (nodup_append.1 htidy).2.2 _ hmem _ mem_cons_self rfl
    | _ => cases ha
  | _ => cases ha

end Steps

/-! ### The queue -/

/-- The identities of the candidates on disk, in order. -/
def queue (s : State f) : List K :=
  (CandidatePool.load s.files.pool : CandidatePool f).bridges.map f.key

theorem nodup_queue (s : State f) : (queue s).Nodup :=
  (CandidatePool.load s.files.pool : CandidatePool f).nodup

/-- The confirm takes away what is dead or promoted, and moves what is deferred to the back. -/
theorem map_key_confirm (r : Report B) (pool : CandidatePool f) :
    (r.confirm true pool).bridges.map f.key =
      let kept := (pool.bridges.map f.key).filter fun k =>
        decide (k ∉ (r.dead ++ r.promoted).map f.key)
      (kept.filter fun k => decide (k ∉ r.deferred.map f.key)) ++
        kept.filter fun k => decide (k ∈ r.deferred.map f.key) := by
  have hremoved : (pool.removeAll (r.discard true)).1.bridges = pool.bridges.filter fun b =>
      decide (f.key b ∉ (r.discard true).map f.key) :=
    congrArg (fun o => o.1.items) (pool.toSet_removeAll (r.discard true))
  have hrotated : ∀ p : CandidatePool f, (p.rotateToBack r.deferred).1.bridges =
      (p.bridges.filter fun b => decide (f.key b ∉ r.deferred.map f.key)) ++
        p.bridges.filter fun b => !decide (f.key b ∉ r.deferred.map f.key) :=
    fun p => congrArg (fun o => o.1.items) (p.toSet_rotateToBack r.deferred)
  rw [Report.confirm, hrotated, hremoved, Report.discard, if_pos rfl]
  simp only [map_append, filter_map, Function.comp_def, decide_not, Bool.not_not]

section Queue

variable {preferred : Option String} {s t : State f} {a : Action B K}

/-- **What a step does to the queue and to what is pending.**  Candidates may come at the back, and
an attempt is pending; or a drain confirms: what was pending has left or is at the back. -/
theorem queue_step (hf : f.Faithful) (h : Tidy preferred s) (hok : Orderly preferred s a)
    (hstep : step s a = some t) :
    ((∃ new, queue t = queue s ++ new) ∧
      ∀ k, Pending t k ↔ attemptOf s a = some k ∨ Pending s k) ∨
    ∃ gone back : List K,
      queue t = (((queue s).filter fun k => decide (k ∉ gone)).filter fun k => decide (k ∉ back)) ++
        ((queue s).filter fun k => decide (k ∉ gone)).filter (fun k => decide (k ∈ back)) ∧
      (∀ k, Pending s k ↔ k ∈ gone ∨ k ∈ back) ∧ (∀ k, ¬ Pending t k) ∧ attemptOf s a = none := by
  cases a with
  | drain i a =>
    simp only [step, Option.map_eq_some_iff] at hstep
    obtain ⟨⟨d', p'⟩, hdrain, rfl⟩ := hstep
    rcases (drainStep_of_step (h.drains i) hok.1 hdrain).pool with
      ⟨hpool, hpending⟩ | ⟨r, hbusy, hattempted, hpool, rfl, hnone⟩
    · refine .inl ⟨⟨[], by simp only [queue, hpool, append_nil]⟩, fun k => ⟨?_, ?_⟩⟩
      · rintro ⟨j, hj⟩
        grind [Pending, attemptOf]
      · rintro (hk | ⟨j, hj⟩)
        · exact ⟨i, by grind [attemptOf]⟩
        · exact ⟨j, by grind⟩
    · refine .inr ⟨(r.dead ++ r.promoted).map f.key, r.deferred.map f.key, ?_, ?_, ?_, hnone⟩
      · simp only [queue, hpool]
        rw [CandidatePool.map_key_load_save hf, map_key_confirm]
      · intro k
        rw [pending_iff h hbusy, hattempted, Report.attempted, map_append, mem_append]
      · rintro k ⟨j, hj⟩
        have halone := h.alone j i
        grind [DrainPhase.pending, not_quiet_of_mem_pending]
  | refresh i a =>
    simp only [step, Option.map_eq_some_iff] at hstep
    obtain ⟨⟨d', p'⟩, hrefresh, rfl⟩ := hstep
    refine .inl ⟨?_, fun k => by simp [Pending, attemptOf]⟩
    rcases (refreshStep_of_step (h.refreshes i) hok.refresh hrefresh).pool with
      hpool | ⟨fetched, exclude, hpool⟩
    · exact ⟨[], by simp only [queue, hpool, append_nil]⟩
    · simp only [queue, hpool]
      rw [CandidatePool.map_key_load_save hf]
      have hmerged := congrArg OrderedSet.items (CandidatePool.toSet_merge
        (CandidatePool.load s.files.pool : CandidatePool f) fetched exclude).1
      exact ⟨_, (congrArg (map f.key) hmerged).trans (map_append ..)⟩
  | edit lines =>
    cases hstep
    exact .inl ⟨⟨[], (append_nil _).symm⟩, fun k => by simp [Pending, attemptOf]⟩

/-- What a step does to a candidate that waits and is not attempted: it stays in the queue, and
those ahead of it are the same, or those that were pending are gone. -/
theorem ahead_step (hf : f.Faithful) (h : Tidy preferred s) (hok : Orderly preferred s a)
    (hstep : step s a = some t) (hit : K → Bool) {x : K} (hx : x ∈ queue s) (hwait : ¬ Pending s x)
    (ha : attemptOf s a ≠ some x) :
    x ∈ queue t ∧ ¬ Pending t x ∧
      ((ahead hit x (queue t) = ahead hit x (queue s) ∧
          ∀ k, Pending t k ↔ attemptOf s a = some k ∨ Pending s k) ∨
        ((∀ k, k ∈ ahead hit x (queue t) ↔ k ∈ ahead hit x (queue s) ∧ ¬ Pending s k) ∧
          (∀ k, ¬ Pending t k) ∧ attemptOf s a = none)) := by
  rcases queue_step hf h hok hstep with
    ⟨⟨new, hqueue⟩, hpending⟩ | ⟨gone, back, hqueue, hpending, hclear, hnone⟩
  · rw [hqueue, OrderedSet.ahead_append hx]
    exact ⟨mem_append_left new hx, (hpending x).not.2 (not_or.2 ⟨ha, hwait⟩), .inl ⟨rfl, hpending⟩⟩
  · rw [hpending, not_or] at hwait
    have hgone : decide (x ∉ gone) = true := decide_eq_true hwait.1
    have hkept : x ∈ (queue s).filter fun k => decide (k ∉ gone) := mem_filter.2 ⟨hx, hgone⟩
    rw [hqueue, OrderedSet.ahead_rotate hkept hwait.2,
      OrderedSet.ahead_filter (q := fun k => decide (k ∉ gone)) hgone]
    refine ⟨mem_append_left _ (mem_filter.2 ⟨hkept, decide_eq_true hwait.2⟩), hclear x,
      .inr ⟨fun k => ?_, hclear, hnone⟩⟩
    simp only [hpending, mem_filter, decide_eq_true_eq, not_or, and_assoc]

end Queue

/-! ### Progress -/

/-- A candidate matches the preferred transport, which its identity tells. -/
def prefers (transportOf : K → Option String) (preferred : Option String) (k : K) : Bool :=
  preferred.all fun name => decide (transportOf k = some name)

/-- The matching candidates ahead of one in the queue on disk. -/
def aheadOf (transportOf : K → Option String) (preferred : Option String) (s : State f) (x : K) :
    List K := ahead (prefers transportOf preferred) x (queue s)

/-- The attempts of a run on candidates that are ahead of one when they are attempted. -/
def overtakes (transportOf : K → Option String) (preferred : Option String) (s : State f) (x : K)
    (as : List (Action B K)) : List K :=
  (machine f).outputs (fun u a => (attemptOf u a).toList.filter fun k =>
    decide (k ∈ aheadOf transportOf preferred u x)) s as

/-- The steps of an orderly run in which a candidate is not attempted. -/
def Passing (preferred : Option String) (x : K) (s : State f) (a : Action B K) : Prop :=
  Orderly preferred s a ∧ attemptOf s a ≠ some x

/-- Where a candidate stands that has not been attempted: `start` were ahead of it, and on `made` of
them there have been attempts. -/
structure Progress (transportOf : K → Option String) (preferred : Option String) (x : K)
    (start made : List K) (t : State f) : Prop where
  tidy : Tidy preferred t
  pooled : x ∈ queue t
  waits : ¬ Pending t x
  shrinks : ∀ k ∈ aheadOf transportOf preferred t x, k ∈ start
  distinct : made.Nodup
  were : ∀ k ∈ made, k ∈ start
  /-- An attempt costs a candidate its place, as soon as it is confirmed. -/
  gone : ∀ k ∈ made, k ∈ aheadOf transportOf preferred t x → Pending t k

section Progress

variable {transportOf : K → Option String} {preferred : Option String} {x : K}
  {start made : List K} {s t u : State f} {a : Action B K}

/-- The step lemma. -/
theorem Progress.step (hf : f.Faithful) (h : Progress transportOf preferred x start made t)
    (hok : Passing preferred x t a) (hstep : DrainPool.step t a = some u) :
    Progress transportOf preferred x start (made ++ (attemptOf t a).toList.filter fun k =>
      decide (k ∈ aheadOf transportOf preferred t x)) u := by
  obtain ⟨hqueue, hwaits, hahead⟩ := ahead_step hf h.tidy hok.1 hstep
    (prefers transportOf preferred) h.pooled h.waits hok.2
  have hsub : ∀ k ∈ aheadOf transportOf preferred u x, k ∈ aheadOf transportOf preferred t x := by
    grind [aheadOf]
  have hnew : ∀ k ∈ (attemptOf t a).toList.filter fun k =>
      decide (k ∈ aheadOf transportOf preferred t x),
        attemptOf t a = some k ∧ k ∈ aheadOf transportOf preferred t x := by
    simp
  have hgone := h.gone
  refine ⟨tidy_step h.tidy hok.1 hstep, hqueue, hwaits, fun k hk => h.shrinks k (hsub k hk), ?_, ?_,
    ?_⟩
  · refine nodup_append.2 ⟨h.distinct, List.Nodup.filter _ (by cases attemptOf t a <;> simp), ?_⟩
    -- an identity that was attempted and is still ahead is pending, and is not attempted again
    rintro k hk k' hk' rfl
    obtain ⟨hattempt, hin⟩ := hnew k hk'
    exact not_pending_of_attempt h.tidy hattempt (hgone k hk hin)
  · have hwere := h.were
    have hshrinks := h.shrinks
    grind
  · rcases hahead with ⟨-, hpending⟩ | ⟨hless, -, hnone⟩ <;> grind [aheadOf]

theorem Progress.of_run (hf : f.Faithful) (hs : Tidy preferred s) (hx : x ∈ queue s)
    (hwait : ¬ Pending s x) {bs : List (Action B K)}
    (h : (machine f).Run (Passing preferred x) s bs t) :
    Progress transportOf preferred x (aheadOf transportOf preferred s x)
      (overtakes transportOf preferred s x bs) t := by
  induction h with
  | refl => exact ⟨hs, hx, hwait, fun _ => id, nodup_nil, nofun, nofun⟩
  | tail hrun hok hstep ih =>
    rw [overtakes, Machine.Run.outputs_tail _ hrun]
    exact ih.step hf hok hstep

/-- As soon as nothing is pending, each attempt has made one candidate fewer. -/
theorem Progress.length_add_length (h : Progress transportOf preferred x start made t)
    (hclear : ∀ k, ¬ Pending t k) :
    (aheadOf transportOf preferred t x).length + made.length ≤ start.length := by
  have hnodup : (aheadOf transportOf preferred t x ++ made).Nodup := by
    refine nodup_append.2
      ⟨(nodup_queue t).sublist (OrderedSet.ahead_sublist _), h.distinct, ?_⟩
    rintro k hk k' hk' rfl
    exact hclear k (h.gone k hk' hk)
  rw [← length_append]
  exact (hnodup.subperm (append_subset.2 ⟨h.shrinks, h.were⟩)).length_le

/-! ### Batches -/

/-- The first of its transport is in every batch. -/
theorem mem_batch_of_first (hkey : ∀ b, f.transport b = transportOf (f.key b))
    {pool : CandidatePool f} (hx : x ∈ pool.bridges.map f.key)
    (hhit : prefers transportOf preferred x = true)
    (hfirst : ahead (prefers transportOf preferred) x (pool.bridges.map f.key) = []) {n : ℕ}
    (hn : 0 < n) (seed : Option UInt64) :
    ∃ b ∈ shuffle seed (pool.takeTransport n preferred).1, f.key b = x := by
  obtain ⟨rest, hrest⟩ := OrderedSet.filter_eq_cons_of_ahead hx hhit hfirst
  have htaken : (pool.takeTransport n preferred).1 = (pool.bridges.filter fun b =>
      preferred.all fun name => decide (f.transport b = some name)).take n :=
    congrArg Prod.fst (pool.toSet_takeTransport n preferred)
  simp only [hkey] at htaken
  rw [filter_map] at hrest
  obtain ⟨b, bs, hcons, hb, -⟩ := map_eq_cons_iff.1 hrest
  refine ⟨b, (shuffle_perm seed _).mem_iff.2 ?_, hb⟩
  have hmem : b ∈ (b :: bs).take n := by
    obtain ⟨m, rfl⟩ := Nat.exists_eq_add_one_of_ne_zero hn.ne'
    simp
  rw [← hcons] at hmem
  rwa [htaken]

/-- A drain that loads a queue takes a batch from its front. -/
theorem step_load {i : ℕ} {plan : Plan} (hphase : t.drains i = .loading plan)
    (hx : x ∈ queue t) (seed : Option UInt64) :
    let pool : CandidatePool f := CandidatePool.load t.files.pool
    let batch := shuffle seed (pool.takeTransport (min plan.maxAttempts pool.len) plan.preferred).1
    DrainPool.step t (.drain i (.load seed)) =
      some { t with
        drains := Function.update t.drains i
          (.walking plan batch (Report.start batch)) } := by
  have hne : (CandidatePool.load t.files.pool : CandidatePool f).isEmpty = false := by
    rw [CandidatePool.isEmpty, isEmpty_eq_false_iff]
    exact fun hnil => ne_nil_of_mem hx (by rw [queue, hnil, map_nil])
  simp only [DrainPool.step, hphase, stepDrain, hne, Bool.false_eq_true, if_false, Option.map_some]

/-- **Drains make progress through the queue.**  In an orderly run, as long as a matching candidate
of the queue is not attempted itself: it stays in the queue; those ahead of it are among those that
were; every attempt on one of them is on another one, and when it is confirmed that one is no longer
ahead; and when there have been as many such attempts as there were candidates ahead, a drain takes
the candidate into its batch, whatever the shuffle. -/
theorem drains_make_progress (transportOf : K → Option String) (hf : f.Faithful)
    (hkey : ∀ b, f.transport b = transportOf (f.key b)) {pool config : List (List Char)}
    {as bs : List (Action B K)}
    (hrun : (machine f).Run (Orderly preferred) (init f pool config) as s)
    (hx : x ∈ queue s) (hhit : prefers transportOf preferred x = true)
    (hwait : ¬ Pending s x) (hpass : (machine f).Run (Passing preferred x) s bs t) :
    x ∈ queue t ∧
      (∀ k ∈ aheadOf transportOf preferred t x, k ∈ aheadOf transportOf preferred s x) ∧
      (overtakes transportOf preferred s x bs).Nodup ∧
      (∀ k ∈ overtakes transportOf preferred s x bs, k ∈ aheadOf transportOf preferred s x ∧
        (k ∈ aheadOf transportOf preferred t x → Pending t k)) ∧
      ((∀ k, ¬ Pending t k) → (aheadOf transportOf preferred t x).length +
        (overtakes transportOf preferred s x bs).length ≤
          (aheadOf transportOf preferred s x).length) ∧
      ∀ i plan seed, t.drains i = .loading plan →
        (aheadOf transportOf preferred s x).length ≤
          (overtakes transportOf preferred s x bs).length →
        ∃ batch u, DrainPool.step t (.drain i (.load seed)) = some u ∧
          u.drains i = .walking plan batch (Report.start batch) ∧
          ∃ b ∈ batch, f.key b = x := by
  have hs : Tidy preferred s := hrun.invariant
    (fun _ _ _ h hok hstep => tidy_step h hok hstep) (tidy_init preferred pool config)
  have hprogress : Progress transportOf preferred x (aheadOf transportOf preferred s x)
      (overtakes transportOf preferred s x bs) t := Progress.of_run hf hs hx hwait hpass
  refine ⟨hprogress.pooled, hprogress.shrinks, hprogress.distinct,
    fun k hk => ⟨hprogress.were k hk, hprogress.gone k hk⟩, hprogress.length_add_length, ?_⟩
  intro i plan seed hphase hmany
  have htidy := hprogress.tidy.drains i
  have hbusy : ¬ (t.drains i).Quiet := by
    rw [hphase]
    exact id
  have hclear : ∀ k, ¬ Pending t k := by
    intro k
    rw [pending_iff hprogress.tidy hbusy, hphase]
    exact List.not_mem_nil
  rw [hphase] at htidy
  obtain ⟨hpreferred, htarget⟩ := htidy
  have hfirst : aheadOf transportOf preferred t x = [] := by
    have hlength := hprogress.length_add_length hclear
    exact List.eq_nil_of_length_eq_zero (by omega)
  have hsize : 0 < min plan.maxAttempts
      (CandidatePool.load t.files.pool : CandidatePool f).len := by
    have hlen : 0 < (queue t).length := List.length_pos_of_mem hprogress.pooled
    rw [queue, List.length_map] at hlen
    refine lt_min ?_ hlen
    simp only [Plan.maxAttempts, maxDrainAttempts]
    omega
  refine ⟨_, _, step_load hphase hprogress.pooled seed, Function.update_self i _ _, ?_⟩
  rw [hpreferred]
  exact mem_batch_of_first hkey hprogress.pooled hhit hfirst hsize seed

end Progress

/-- A drain that gets to the first of two bridges only and has to defer it, and the beginning of a
second drain. -/
def deferOne : List (Action Bool Bool) :=
  [.start ⟨1, none, false⟩, .lockPool, .load none,
    .probe false (some .unmeasured) false, .probe true none false,
    .unlockPool, .skipPromotion, .lockConfirm,
    .loadConfirm, .savePool .done].map (.drain 0) ++
  [.start ⟨1, none, false⟩, .lockPool].map (.drain 1)

/-- The second bridge has one bridge ahead of it, which is attempted; the second drain takes it. -/
theorem drains_make_progress_deferOne :
    ∃ t, (machine twoBridges).Run (Passing none false) (init twoBridges [['1'], ['0']] []) deferOne
        t ∧
      aheadOf (fun _ => none) none (init twoBridges [['1'], ['0']] []) false = [true] ∧
      overtakes (fun _ => none) none (init twoBridges [['1'], ['0']] []) false deferOne = [true] ∧
      ∃ batch u, DrainPool.step t (.drain 1 (.load (some 7))) = some u ∧
        u.drains 1 = .walking ⟨1, none, false⟩ batch (Report.start batch) ∧
        ∃ b ∈ batch, b = false := by
  have hpass : (machine twoBridges).Run (Passing none false) (init twoBridges [['1'], ['0']] [])
      deferOne ((machine twoBridges).after (init twoBridges [['1'], ['0']] []) deferOne) := by
    refine .head ⟨⟨rfl, fun _ _ _ => trivial⟩, nofun⟩ rfl ?_
    refine .head ⟨⟨trivial, nofun⟩, nofun⟩ rfl ?_
    refine .head ⟨⟨trivial, nofun⟩, nofun⟩ rfl ?_
    refine .head ⟨⟨trivial, nofun⟩, by decide⟩ rfl ?_
    refine .head ⟨⟨trivial, nofun⟩, by decide⟩ rfl ?_
    refine .head ⟨⟨trivial, nofun⟩, nofun⟩ rfl ?_
    refine .head ⟨⟨trivial, nofun⟩, nofun⟩ rfl ?_
    refine .head ⟨⟨trivial, nofun⟩, nofun⟩ rfl ?_
    refine .head ⟨⟨trivial, nofun⟩, nofun⟩ rfl ?_
    refine .head ⟨⟨rfl, nofun⟩, nofun⟩ rfl ?_
    refine .head ⟨⟨rfl, fun _ _ j => ?_⟩, nofun⟩ rfl ?_
    · cases j with
      | zero => exact trivial
      | succ j => exact trivial
    · exact .single ⟨⟨trivial, nofun⟩, nofun⟩ rfl
  have hahead : aheadOf (fun _ => none) none (init twoBridges [['1'], ['0']] []) false =
      [true] := by
    decide
  have hmade : overtakes (fun _ => none) none (init twoBridges [['1'], ['0']] []) false deferOne =
      [true] := by decide +kernel
  refine ⟨_, hpass, hahead, hmade, ?_⟩
  exact (drains_make_progress (fun _ => none) twoBridges_faithful (fun _ => rfl)
    (.refl _) (by decide) rfl (by rintro ⟨i, hi⟩; cases hi) hpass).2.2.2.2.2 1
      ⟨1, none, false⟩ (some 7) rfl (by rw [hahead, hmade])

end DrainPool
