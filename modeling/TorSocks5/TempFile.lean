/-
**Temp files: writers that publish by rename, and the cleanups that sweep after the dead ones.**

`packages/persist-lock/src/temp.rs` lets any number of processes save one target.  A writer creates
a temp file next to the target and renames it onto the target; a reader deletes the temps that dead
writers have left.  Three objects keep the two apart: the *section*, an advisory lock on a file that
is never unlinked; for each temp a *companion* file whose lock its writer holds from before the temp
exists until it is gone; and the two names themselves.
-/

import TorSocks5.CompanionLock
import TorSocks5.Machine

set_option autoImplicit false

namespace TempFile

open CompanionLock

/-! ### Data -/

/-- What makes the name of a temp unique. -/
structure Key where
  pid : ℕ
  seq : ℕ
  deriving DecidableEq

/-- The file names of the target's directory that can be candidates. -/
inductive FileName
  /-- The canonical temp `.target.pid.seq.tmp`. -/
  | temp (k : Key)
  /-- Any other name. -/
  | other (n : ℕ)
  deriving DecidableEq

/-- `parse_temp_name` recognises the name. -/
def FileName.isCanonical : FileName → Bool
  | temp _ => true
  | other _ => false

/-- Who can hold a lock. -/
inductive Party
  | writer (w : ℕ)
  | cleanup (c : ℕ)
  deriving DecidableEq

/-- Where a writer stands.  An inode in a phase is the one of its open companion handle. -/
inductive WriterPhase
  | idle
  /-- In `create`, before the section. -/
  | starting (k : Key)
  /-- In the section. -/
  | entered (k : Key)
  /-- The companion is open. -/
  | opened (k : Key) (i : ℕ)
  /-- The companion is locked. -/
  | locked (k : Key) (i : ℕ)
  /-- The temp could not be created: the companion handle is closed, its name to be removed. -/
  | aborting (k : Key)
  /-- The same, with the name dealt with. -/
  | aborted (k : Key)
  /-- The temp exists, and the section is still held. -/
  | created (k : Key) (i : ℕ)
  /-- `create` has returned; the data is written and synced. -/
  | owning (k : Key) (i : ℕ)
  /-- The temp is renamed onto the target, the directory not synced yet. -/
  | renamed (k : Key) (i : ℕ)
  /-- In `drop`, before the section. -/
  | dropping (k : Key) (i : ℕ) (done : Bool)
  /-- In `drop`, with the section or degraded to doing without. -/
  | removing (k : Key) (i : ℕ) (done section_ : Bool)
  /-- In `drop`, the temp is dealt with. -/
  | closing (k : Key) (i : ℕ) (section_ : Bool)
  /-- In `drop`, the companion is dealt with. -/
  | released (k : Key) (i : ℕ) (section_ : Bool)
  /-- The guard's fields are dropped: the companion handle is still open. -/
  | unlocking (k : Key) (i : ℕ)
  | finished
  | crashed
  deriving DecidableEq

/-- Where a cleanup stands inside one candidate, with the section held. -/
inductive Pc
  | entered
  /-- An orphaned companion: the temp was seen to be absent. -/
  | checked
  /-- The companion is open. -/
  | opened (i : ℕ)
  /-- The companion is locked. -/
  | locked (i : ℕ)
  /-- The companion handle is dropped, its name to be removed. -/
  | unlocked
  /-- The companion's name is gone, the temp to be removed. -/
  | companionGone
  /-- Returning. -/
  | leaving
  deriving DecidableEq

/-- Where a cleanup stands. -/
inductive CleanupPhase
  | idle
  /-- Between two candidates: those left of the listing, and the companions listed. -/
  | sweeping (names orphans : List FileName)
  /-- Busy with the candidate `n`, as a temp or as an orphaned companion. -/
  | busy (orphan : Bool) (pc : Pc) (n : FileName) (names orphans : List FileName)
  | finished
  | crashed
  deriving DecidableEq

/-! ### One step -/

/-- The steps of a writer; the argument says whether the system call succeeds. -/
inductive WriterAction
  | create (k : Key)
  | enter (ok : Bool)
  | openCompanion (ok : Bool)
  | tryLock (ok : Bool)
  | createTemp (ok : Bool)
  | leave
  | write
  | rename (ok : Bool)
  | fsyncDir (ok : Bool)
  | drop
  | removeTemp (ok : Bool)
  | removeCompanion (ok : Bool)
  | close
  | crash

/-- The steps of a cleanup. -/
inductive CleanupAction
  /-- The directory is read: its files, and the files its companions are for. -/
  | list (files locks : List FileName)
  | listFailed
  | enter (ok : Bool)
  | check
  | openCompanion (ok : Bool)
  | tryLock (ok : Bool)
  | unlock
  | removeCompanion (ok : Bool)
  | removeTemp (ok : Bool)
  | leave
  | finish
  | crash

/-- A step of the writer `w`, on the directory and its own phase. -/
def stepWriter (w : ℕ) (d : Dir Party FileName) :
    WriterPhase → WriterAction → Option (Dir Party FileName × WriterPhase)
  | .idle, .create k => some (d, .starting k)
  -- `TempLock::acquire` blocks while somebody has the section
  | .starting k, .enter true =>
    if d.section_ = none then some (d.enter (.writer w), .entered k) else none
  | .starting _, .enter false => some (d, .finished)
  | .entered k, .openCompanion true =>
    some (d.openCompanion (.temp k),
      .opened k (d.inodeOf (.temp k)))
  | .entered _, .openCompanion false => some (d.leave, .finished)
  | .opened k i, .tryLock true =>
    if d.holder i = none then some (d.lock i (.writer w), .locked k i)
    else some (d.leave, .finished)
  | .opened _ _, .tryLock false => some (d.leave, .finished)
  | .locked k i, .createTemp true =>
    some (d.createFile (.temp k), .created k i)
  | .locked k i, .createTemp false =>
    some (d.unlock i, .aborting k)
  | .aborting k, .removeCompanion ok =>
    some (d.removeCompanion (.temp k) ok, .aborted k)
  | .aborted _, .leave => some (d.leave, .finished)
  | .created k i, .leave => some (d.leave, .owning k i)
  | .owning k i, .write => some (d, .owning k i)
  | .owning k i, .rename true =>
    if d.present (.temp k) then
      some (d.removeFile (.temp k) true, .renamed k i)
    else none
  | .owning k i, .rename false => some (d, .dropping k i false)
  -- the guard is done only when the directory could be synced
  | .renamed k i, .fsyncDir ok => some (d, .dropping k i ok)
  | .owning k i, .drop => some (d, .dropping k i false)
  | .dropping k i done, .enter true =>
    if d.section_ = none then
      some (d.enter (.writer w), .removing k i done true)
    else none
  -- the section cannot be had: the removals are made without it
  | .dropping k i done, .enter false =>
    some (d, .removing k i done false)
  | .removing k i done sec, .removeTemp ok =>
    some (d.removeFile (.temp k) (!done && ok), .closing k i sec)
  | .closing k i sec, .removeCompanion ok =>
    some (d.removeCompanion (.temp k) ok, .released k i sec)
  | .released k i true, .leave => some (d.leave, .unlocking k i)
  | .released k i false, .leave => some (d, .unlocking k i)
  | .unlocking _ i, .close => some (d.unlock i, .finished)
  | .idle, .crash => none
  | .finished, .crash => none
  | .crashed, .crash => none
  | _, .crash => some (d.releaseAll (.writer w), .crashed)
  | _, _ => none

/-- The names a cleanup offers to `remove_temp_if_unlocked`. -/
def isCandidate (legacy : ℕ → Bool) : FileName → Bool
  | .temp _ => true
  | .other n => legacy n

/-- A step of the cleanup `c`, on the directory and its own phase; its caller nominates the other
names in `legacy`. -/
def stepCleanup (legacy : ℕ → Bool) (c : ℕ) (d : Dir Party FileName) :
    CleanupPhase → CleanupAction → Option (Dir Party FileName × CleanupPhase)
  | .idle, .list files locks =>
    some (d, .sweeping (files.filter (isCandidate legacy))
      (locks.filter FileName.isCanonical))
  | .idle, .listFailed => some (d, .finished)
  -- `TempLock::try_acquire`: a candidate behind a busy section is skipped
  | .sweeping (n :: names) orphans, .enter ok =>
    if ok ∧ d.section_ = none then
      some (d.enter (.cleanup c), .busy false .entered n names orphans)
    else some (d, .sweeping names orphans)
  | .sweeping [] (n :: orphans), .enter ok =>
    if ok ∧ d.section_ = none then
      some (d.enter (.cleanup c), .busy true .entered n [] orphans)
    else some (d, .sweeping [] orphans)
  | .sweeping [] [], .finish => some (d, .finished)
  -- an orphan is looked at again inside the section
  | .busy true .entered n names orphans, .check =>
    some (d, .busy true (if d.present n then .leaving else .checked) n names
      orphans)
  | .busy false .entered n names orphans, .openCompanion true =>
    match d.companion n with
    | some i => some (d, .busy false (.opened i) n names orphans)
    | none => some (d, .busy false .companionGone n names orphans)
  | .busy false .entered n names orphans, .openCompanion false =>
    some (d, .busy false .leaving n names orphans)
  | .busy true .checked n names orphans, .openCompanion true =>
    match d.companion n with
    | some i => some (d, .busy true (.opened i) n names orphans)
    | none => some (d, .busy true .leaving n names orphans)
  | .busy true .checked n names orphans, .openCompanion false =>
    some (d, .busy true .leaving n names orphans)
  | .busy orphan (.opened i) n names orphans, .tryLock ok =>
    if ok ∧ d.holder i = none then
      some (d.lock i (.cleanup c), .busy orphan (.locked i) n names orphans)
    else some (d, .busy orphan .leaving n names orphans)
  | .busy orphan (.locked i) n names orphans, .unlock =>
    some (d.unlock i, .busy orphan .unlocked n names orphans)
  | .busy true .unlocked n names orphans, .removeCompanion ok =>
    some (d.removeCompanion n ok, .busy true .leaving n names orphans)
  | .busy false .unlocked n names orphans, .removeCompanion ok =>
    some (d.removeCompanion n ok, .busy false .companionGone n names orphans)
  | .busy false .companionGone n names orphans, .removeTemp ok =>
    some (d.removeFile n ok, .busy false .leaving n names orphans)
  | .busy _ .leaving _ names orphans, .leave =>
    some (d.leave, .sweeping names orphans)
  | .idle, .crash => none
  | .finished, .crash => none
  | .crashed, .crash => none
  | _, .crash => some (d.releaseAll (.cleanup c), .crashed)
  | _, _ => none

/-- The directory and the parties. -/
structure State where
  dir : Dir Party FileName
  writers : ℕ → WriterPhase
  cleanups : ℕ → CleanupPhase

/-- A directory with some leftover files, and nobody at work. -/
def init (present : FileName → Bool) : State where
  dir := Dir.init present
  writers := fun _ => .idle
  cleanups := fun _ => .idle

inductive Action
  | writer (w : ℕ) (a : WriterAction)
  | cleanup (c : ℕ) (a : CleanupAction)

/-- One step of the whole system. -/
def step (legacy : ℕ → Bool) (s : State) : Action → Option State
  | .writer w a =>
    (stepWriter w s.dir (s.writers w) a).map fun r =>
      { s with dir := r.1, writers := Function.update s.writers w r.2 }
  | .cleanup c a =>
    (stepCleanup legacy c s.dir (s.cleanups c) a).map fun r =>
      { s with dir := r.1, cleanups := Function.update s.cleanups c r.2 }

/-- Writers, cleanups and the directory as a machine. -/
def machine (legacy : ℕ → Bool) : Machine State Action where
  step := step legacy

@[simp] theorem machine_step (legacy : ℕ → Bool) (s : State) (a : Action) :
    (machine legacy).step s a = step legacy s a := rfl

/-! ### What a phase relies on -/

/-- The stance of an owner of the temp of `k`. -/
def owner (k : Key) (inSection : Bool) (locks backs : Option ℕ) (hasFile : Bool) :
    Stance FileName :=
  { Stance.absent with
    key := some (.temp k)
    inSection := inSection
    locks := locks
    backs := backs
    hasFile := hasFile }

/-- What a writer relies on. -/
def WriterPhase.stance : WriterPhase → Stance FileName
  | idle => Stance.absent
  | starting k => owner k false none none false
  | entered k => owner k true none none false
  | opened k i => owner k true none (some i) false
  | locked k i => owner k true (some i) (some i) false
  | aborting k => owner k true none none false
  | aborted k => owner k true none none false
  | created k i => owner k true (some i) (some i) true
  | owning k i => owner k false (some i) (some i) true
  | renamed k i => owner k false (some i) (some i) false
  | dropping k i _ => owner k false (some i) (some i) false
  | removing k i _ sec => owner k sec (some i) (some i) false
  | closing k i sec => owner k sec (some i) (some i) false
  | released k i sec => owner k sec (some i) none false
  | unlocking k i => owner k false (some i) none false
  | finished => Stance.absent
  | crashed => Stance.absent

/-- What a cleanup in the section has found out. -/
def Pc.stance (n : FileName) : Pc → Stance FileName
  | entered => { Stance.absent with inSection := true }
  | checked => { Stance.absent with inSection := true }
  | opened i => { Stance.absent with inSection := true, examines := some (n, i) }
  | locked i => { Stance.absent with inSection := true, locks := some i, examines := some (n, i) }
  | unlocked => { Stance.absent with inSection := true, condemns := some n }
  | companionGone => { Stance.absent with inSection := true, condemns := some n }
  | leaving => { Stance.absent with inSection := true }

/-- What a cleanup has found out. -/
def CleanupPhase.stance : CleanupPhase → Stance FileName
  | busy _ pc n _ _ => pc.stance n
  | _ => Stance.absent

/-- The stances of all parties. -/
def State.stance (s : State) : Party → Stance FileName
  | .writer w => (s.writers w).stance
  | .cleanup c => (s.cleanups c).stance

theorem owner_wf (k : Key) {sec : Bool} {locks backs : Option ℕ} {hasFile : Bool}
    (hb : ∀ i, backs = some i → locks = some i ∨ sec = true)
    (hf : hasFile = true → backs ≠ none) : (owner k sec locks backs hasFile).WF :=
  ⟨fun _ => .inl nofun, hb, hf, nofun, nofun⟩

theorem absent_wf : (Stance.absent : Stance FileName).WF := ⟨nofun, nofun, nofun, nofun, nofun⟩

theorem WriterPhase.stance_wf (p : WriterPhase) : p.stance.WF := by
  cases p with
  | idle | finished | crashed => exact absent_wf
  | _ => exact owner_wf _ (by simp) (by simp)

theorem Pc.stance_wf (n : FileName) (pc : Pc) : (pc.stance n).WF := by
  cases pc with
  | locked i => exact ⟨fun _ => .inr nofun, nofun, nofun, fun _ => ⟨rfl, rfl⟩, nofun⟩
  | opened i => exact ⟨nofun, nofun, nofun, fun _ => ⟨rfl, rfl⟩, nofun⟩
  | unlocked | companionGone => exact ⟨nofun, nofun, nofun, nofun, fun _ => ⟨rfl, rfl⟩⟩
  | _ => exact ⟨nofun, nofun, nofun, nofun, nofun⟩

theorem CleanupPhase.stance_wf (p : CleanupPhase) : p.stance.WF := by
  cases p with
  | busy _ pc n _ _ => exact pc.stance_wf n
  | _ => exact absent_wf

/-! ### Every step is a call -/

theorem owner_weaker (k : Key) {sec sec' f f' : Bool} {l l' b b' : Option ℕ}
    (hb : b' = b ∨ b' = none) (hf : f' = true → f = true) :
    (owner k sec' l' b' f').Weaker (owner k sec l b f) :=
  ⟨⟨.inl rfl, hb, hf⟩, .inl rfl, .inl rfl⟩

/-- **Every step of a writer is a call of the pattern**, as long as it claims no key that is in
use. -/
theorem call_of_stepWriter {w : ℕ} {d d' : Dir Party FileName} {st : Party → Stance FileName}
    {p p' : WriterPhase} {a : WriterAction} (hp : st (.writer w) = p.stance)
    (hkey : ∀ k, a = .create k → ∀ q, (st q).key ≠ some (.temp k))
    (h : stepWriter w d p a = some (d', p')) : Call d st (.writer w) d' p'.stance := by
  have weaker : ∀ {k : Key} {sec sec' f f' : Bool} {l l' b b' : Option ℕ},
      st (.writer w) = owner k sec l b f → (b' = b ∨ b' = none) → (f' = true → f = true) →
      (owner k sec' l' b' f').Weaker (st (.writer w)) := fun hst hb hf =>
    hst ▸ owner_weaker _ hb hf
  have moved : ∀ {k : Key} {sec f f' : Bool} {l b : Option ℕ},
      st (.writer w) = owner k sec l b f → (f' = true → f = true) →
      Call d st (.writer w) d (owner k sec l b f') := fun hst hf =>
    .move (weaker hst (.inl rfl) hf) (hst ▸ rfl) (hst ▸ rfl)
  have ended : ∀ {k : Key} {b : Option ℕ} {f : Bool},
      st (.writer w) = owner k true none b f →
      Call d st (.writer w) d.leave Stance.absent := fun hst =>
    .leave (hst ▸ rfl) (Stance.Weaker.absent _) rfl (hst ▸ rfl)
  unfold stepWriter at h
  split at h
  all_goals try split at h
  all_goals cases h
  all_goals first
    | exact ended hp
    | exact moved hp id
    | exact moved hp (by rintro ⟨⟩)
    | exact .enter ‹_› (weaker hp (.inl rfl) id) rfl (hp ▸ rfl)
    | exact .leave (hp ▸ rfl) (weaker hp (.inl rfl) id) rfl (hp ▸ rfl)
    | exact .removeFile (.inl ⟨hp ▸ rfl, rfl⟩) (weaker hp (.inl rfl) (by rintro ⟨⟩)) (hp ▸ rfl)
        (hp ▸ rfl)
    | skip
  · exact .claim _ (hkey _ rfl) hp
  · exact .move (Stance.Weaker.absent _) (hp ▸ rfl) (hp ▸ rfl)
  · exact .openOwn' (hp ▸ rfl) (hp ▸ rfl) (hp ▸ rfl) (hp ▸ rfl)
  · exact .lock' ‹_› (hp ▸ rfl) (.inl ⟨_, by rw [hp]; rfl, hp ▸ rfl⟩) (hp ▸ rfl)
  · exact .create' (hp ▸ rfl) (by rw [hp]; rintro ⟨⟩) (hp ▸ rfl)
  · exact .unlock (hp ▸ rfl) (weaker hp (.inr rfl) id) rfl (hp ▸ rfl) rfl
  · exact .removeCompanion (.inl ⟨hp ▸ rfl, rfl⟩) (weaker hp (.inl rfl) id) (hp ▸ rfl) (hp ▸ rfl)
  · exact .removeCompanion (.inl ⟨hp ▸ rfl, rfl⟩) (weaker hp (.inr rfl) (by rintro ⟨⟩)) (hp ▸ rfl)
      (hp ▸ rfl)
  · exact .unlock (hp ▸ rfl) (Stance.Weaker.absent _) rfl (hp ▸ rfl) rfl
  · exact .crash

theorem weaker_idle {q q' : Stance FileName} (hk : q'.key = none) (hb : q'.backs = none)
    (hf : q'.hasFile = false) (hx : q'.examines = none) (hc : q'.condemns = none) : q'.Weaker q :=
  ⟨⟨.inr hk, .inr hb, by simp [hf]⟩, .inr hx, .inr hc⟩

/-- **Every step of a cleanup is a call of the pattern.** -/
theorem call_of_stepCleanup {legacy : ℕ → Bool} {c : ℕ} {d d' : Dir Party FileName}
    {st : Party → Stance FileName} {p p' : CleanupPhase} {a : CleanupAction}
    (hp : st (.cleanup c) = p.stance) (h : stepCleanup legacy c d p a = some (d', p')) :
    Call d st (.cleanup c) d' p'.stance := by
  have weaker : ∀ sec, ({ Stance.absent with inSection := sec } : Stance FileName).Weaker
      (st (.cleanup c)) := fun _ => weaker_idle rfl rfl rfl rfl rfl
  have moved : ∀ {sec}, sec = p.stance.inSection → none = p.stance.locks →
      Call d st (.cleanup c) d { Stance.absent with inSection := sec } :=
    fun hsec hlocks => .move (weaker _) (hp ▸ hsec) (hp ▸ hlocks)
  unfold stepCleanup at h
  split at h
  all_goals try split at h
  all_goals cases h
  all_goals try exact moved rfl rfl
  · next hc => exact .enter hc.2 (weaker true) rfl (hp ▸ rfl)
  · next hc => exact .enter hc.2 (weaker true) rfl (hp ▸ rfl)
  · exact .examine (hp ▸ rfl) ‹_› rfl rfl ⟨.inr rfl, .inr rfl, by rintro ⟨⟩⟩ rfl (hp ▸ rfl) rfl
  · exact .vacant (hp ▸ rfl) ‹_› rfl rfl ⟨.inr rfl, .inr rfl, by rintro ⟨⟩⟩ rfl (hp ▸ rfl) rfl
  · exact .examine (hp ▸ rfl) ‹_› rfl rfl ⟨.inr rfl, .inr rfl, by rintro ⟨⟩⟩ rfl (hp ▸ rfl) rfl
  · next hc => exact .lock' hc.2 (hp ▸ rfl) (.inr ⟨_, by rw [hp]; rfl⟩) (hp ▸ rfl)
  · exact .condemn (hp ▸ rfl) (hp ▸ rfl) rfl rfl ⟨.inr rfl, .inr rfl, by rintro ⟨⟩⟩ (hp ▸ rfl) rfl
  · exact .removeCompanion (.inr (hp ▸ rfl)) (weaker true) (hp ▸ rfl) (hp ▸ rfl)
  · exact .removeCompanion (.inr (hp ▸ rfl))
      ⟨⟨.inr rfl, .inr rfl, by rintro ⟨⟩⟩, .inr rfl, .inl (hp ▸ rfl)⟩
      (hp ▸ rfl) (hp ▸ rfl)
  · exact .removeFile (.inr (hp ▸ rfl)) (weaker true) (hp ▸ rfl) (hp ▸ rfl)
  · exact .leave (hp ▸ rfl) (weaker false) rfl (hp ▸ rfl)
  · exact .crash

/-! ### The invariant of every run -/

/-- The key of a writer that is alive. -/
def WriterPhase.key (p : WriterPhase) : Option FileName := p.stance.key

/-- **Live writers use distinct keys**: a key is taken into use only when no live writer has it. -/
def DistinctKeys (s : State) (a : Action) : Prop :=
  ∀ w k, a = .writer w (.create k) →
    ∀ w', (s.writers w').key ≠ some (.temp k)

theorem stance_init (present : FileName → Bool) :
    (init present).stance = fun _ => Stance.absent := by
  funext p
  cases p <;> rfl

theorem CleanupPhase.key_stance (p : CleanupPhase) : p.stance.key = none := by
  cases p with
  | busy _ pc _ _ _ => cases pc <;> rfl
  | _ => rfl

/-- A step of the system is a call of one party, the one that takes the step. -/
theorem call_of_step {legacy : ℕ → Bool} {s t : State} {a : Action} (hok : DistinctKeys s a)
    (h : step legacy s a = some t) :
    ∃ p q, q.WF ∧ Call s.dir s.stance p t.dir q ∧ t.stance = Function.update s.stance p q := by
  cases a with
  | writer w a =>
    obtain ⟨⟨d', p'⟩, hstep, rfl⟩ := Option.map_eq_some_iff.1 h
    refine ⟨.writer w, p'.stance, p'.stance_wf, call_of_stepWriter rfl ?_ hstep, ?_⟩
    · rintro k rfl (w' | c)
      · exact hok w k rfl w'
      · simp [State.stance, CleanupPhase.key_stance]
    · funext q
      cases q <;> grind [State.stance]
  | cleanup c a =>
    obtain ⟨⟨d', p'⟩, hstep, rfl⟩ := Option.map_eq_some_iff.1 h
    refine ⟨.cleanup c, p'.stance, p'.stance_wf, call_of_stepCleanup rfl hstep, ?_⟩
    funext q
    cases q <;> grind [State.stance]

/-- **The invariant of the pattern holds in every state of every run.** -/
theorem guarded_of_run {legacy : ℕ → Bool} {present : FileName → Bool} {s : State}
    {as : List Action} (h : (machine legacy).Run DistinctKeys (init present) as s) :
    Guarded s.dir s.stance := by
  refine h.invariant (I := fun s => Guarded s.dir s.stance) ?_ ?_
  · intro s a t hs hok hstep
    obtain ⟨p, q, hwf, hcall, hst⟩ := call_of_step hok hstep
    rw [hst]
    exact hs.call hwf hcall
  · rw [stance_init]
    exact guarded_init present

end TempFile
