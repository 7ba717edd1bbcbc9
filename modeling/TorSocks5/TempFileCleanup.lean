/-
**What a cleanup of temp files spares, and what it removes.**

Two statements about every run of writers and cleanups on one target.  A cleanup never touches the
temp or the companion of a writer that is alive and has neither renamed nor dropped its guard; this
is the frame property of the companion-lock pattern, read at the phases of the source.  And a
cleanup that meets nobody else in the section, and no failure of its own, ends with every temp gone
that no live writer stands behind.
-/

import TorSocks5.TempFile

set_option autoImplicit false

namespace TempFile

open CompanionLock

variable {legacy : ℕ → Bool} {s t : State} {c : ℕ} {k : Key}

/-! ### Safety -/

/-- The key and the companion inode of a writer that is alive and has neither renamed its temp nor
begun to drop its guard. -/
def WriterPhase.owns : WriterPhase → Option (Key × ℕ)
  | opened k i => some (k, i)
  | locked k i => some (k, i)
  | created k i => some (k, i)
  | owning k i => some (k, i)
  | _ => none

/-- The writer has created its temp. -/
def WriterPhase.hasTemp : WriterPhase → Bool
  | created _ _ => true
  | owning _ _ => true
  | _ => false

theorem WriterPhase.stance_of_owns {p : WriterPhase} {k : Key} {i : ℕ} (h : p.owns = some (k, i)) :
    p.stance.key = some (.temp k) ∧ p.stance.backs = some i ∧
      p.stance.hasFile = p.hasTemp := by
  cases p <;> simp only [owns, Option.some.injEq, Prod.mk.injEq, reduceCtorEq] at h
  all_goals
    obtain ⟨rfl, rfl⟩ := h
    exact ⟨rfl, rfl, rfl⟩

variable {a : CleanupAction} {d d' : Dir Party FileName} {p p' : CleanupPhase}
/-- **A step of a cleanup leaves the temp and the companion of a live writer alone**, and they are
there. -/
theorem spares_owner (h : Guarded s.dir s.stance)
    (hstep : step legacy s (.cleanup c a) = some t) {w i : ℕ}
    (howns : (s.writers w).owns = some (k, i)) :
    s.dir.companion (.temp k) = some i ∧ t.dir.companion (.temp k) = some i ∧
      t.dir.present (.temp k) = s.dir.present (.temp k) ∧
      ((s.writers w).hasTemp = true → t.dir.present (FileName.temp k) = true) := by
  obtain ⟨hkey, hbacks, hfile⟩ := WriterPhase.stance_of_owns howns
  obtain ⟨⟨d', p'⟩, hcleanup, rfl⟩ := Option.map_eq_some_iff.1 hstep
  have hcall : Call s.dir s.stance (.cleanup c) d' p'.stance := call_of_stepCleanup rfl hcleanup
  have hne : Party.writer w ≠ .cleanup c := nofun
  obtain ⟨hcomp, hpres⟩ := h.frame_of_call hcall hne hkey hbacks
  have hi := h.owners.backs (.writer w) _ i hkey hbacks
  refine ⟨hi, hcomp.trans hi, hpres, fun htemp => hpres.trans ?_⟩
  exact h.owners.hasFile (.writer w) _ hkey (hfile.trans htemp)

/-! ### An undisturbed cleanup -/

/-- Nobody but the cleanup `c` is in the section. -/
def NoOther (c : ℕ) (s : State) : Prop :=
  s.dir.section_ = none ∨ s.dir.section_ = some (.cleanup c)

/-- A step of a cleanup that is no failure: the listing is complete, the system calls succeed. -/
def FaultFree (d : Dir Party FileName) : CleanupAction → Prop
  | .list files _ => ∀ n, d.present n = true → n ∈ files
  | .listFailed => False
  | .enter ok => ok = true
  | .openCompanion ok => ok = true
  | .tryLock ok => ok = true
  | .removeCompanion ok => ok = true
  | .removeTemp ok => ok = true
  | .crash => False
  | _ => True

/-- The cleanup `c` is alone in the section and its own steps do not fail; the others do what they
like. -/
def Undisturbed (c : ℕ) (s : State) (a : Action) : Prop :=
  DistinctKeys s a ∧ NoOther c s ∧ ∀ b, a = .cleanup c b → FaultFree s.dir b

/-- The temp of `k` is gone, or still ahead of the cleanup. -/
def Covered (k : Key) (d : Dir Party FileName) : CleanupPhase → Prop
  | .idle => True
  | .sweeping names _ => d.present (.temp k) = true → .temp k ∈ names
  | .busy orphan pc n names _ => d.present (.temp k) = true →
      .temp k ∈ names ∨ n = .temp k ∧ orphan = false ∧ pc ≠ .leaving
  | .finished => d.present (.temp k) = false
  | .crashed => False

theorem Covered.mono (h : Covered k d p)
    (hpres : d'.present (.temp k) = true → d.present (.temp k) = true) :
    Covered k d' p := by
  cases p <;> grind [Covered]

/-- **The cleanup's own steps do not pass the temp by.** -/
theorem Covered.step (h : Covered k d p) (hff : FaultFree d a)
      (hsec : p.stance.inSection = false → d.section_ = none)
    (hlock : ∀ i, p.stance.examines = some (.temp k, i) → p.stance.locks = none →
      d.holder i = none)
    (hstep : stepCleanup legacy c d p a = some (d', p')) : Covered k d' p' := by
  unfold stepCleanup at hstep
  split at hstep
  all_goals try split at hstep
  all_goals cases hstep
  all_goals grind [Covered, FaultFree, CleanupPhase.stance, Pc.stance, Stance.absent, isCandidate,
    Dir.present_removeFile, Dir.removeCompanion, Dir.enter, Dir.leave, Dir.lock, Dir.unlock]

/-- Only an orphan is checked for its temp, and only a temp is left without its companion. -/
def CleanupPhase.Proper : CleanupPhase → Prop
  | busy orphan pc _ _ _ => pc ≠ if orphan then .companionGone else .checked
  | _ => True

theorem CleanupPhase.proper_of_step (hstep : stepCleanup legacy c d p a = some (d', p')) :
    p'.Proper := by
  unfold stepCleanup at hstep
  split at hstep
  all_goals try split at hstep
  all_goals cases hstep
  all_goals simp only [CleanupPhase.Proper]
  all_goals split <;> simp_all

/-- What an undisturbed cleanup keeps: nobody comes to own the key, and the temp is not passed by.
-/
structure Sweeping (c : ℕ) (k : Key) (s : State) : Prop where
  guarded : Guarded s.dir s.stance
  unowned : Unowned (.temp k) s.stance
  covered : Covered k s.dir (s.cleanups c)
  proper : (s.cleanups c).Proper

theorem Sweeping.section_free (h : Sweeping c k s) (hno : NoOther c s)
    (hout : (s.cleanups c).stance.inSection = false) : s.dir.section_ = none := by
  rcases hno with hno | hno
  · exact hno
  · cases hout.symm.trans ((h.guarded.locks.section_ (.cleanup c)).1 hno)

theorem Sweeping.companion_free (h : Sweeping c k s) (i : ℕ)
    (hx : (s.cleanups c).stance.examines = some (.temp k, i))
    (hl : (s.cleanups c).stance.locks = none) : s.dir.holder i = none := by
  have hin := ((s.cleanups c).stance_wf.examines (by simp [hx])).1
  exact h.guarded.holder_none (h.guarded.homes.examines (.cleanup c) _ i hx)
    (p := Party.cleanup c) hin hl h.unowned

/-- A step leaves a cleanup where it stands, or it is its own. -/
theorem cleanup_of_step (c : ℕ) {a : Action} (hstep : step legacy s a = some t) :
    t.cleanups c = s.cleanups c ∨
      ∃ b, a = .cleanup c b ∧ stepCleanup legacy c s.dir (s.cleanups c) b =
        some (t.dir, t.cleanups c) := by
  cases a with
  | writer w a =>
    obtain ⟨r, -, rfl⟩ := Option.map_eq_some_iff.1 hstep
    exact .inl rfl
  | cleanup c' a =>
    obtain ⟨r, hr, rfl⟩ := Option.map_eq_some_iff.1 hstep
    rcases eq_or_ne c c' with rfl | hc
    · exact .inr ⟨a, rfl, by simpa using hr⟩
    · exact .inl (Function.update_of_ne hc ..)

theorem Sweeping.step (h : Sweeping c k s) {a : Action} (hok : Undisturbed c s a)
    (hstep : step legacy s a = some t) : Sweeping c k t := by
  obtain ⟨hkeys, hno, hff⟩ := hok
  obtain ⟨p, q, hwf, hcall, hst⟩ := call_of_step hkeys hstep
  refine ⟨hst ▸ h.guarded.call hwf hcall, ?_, ?_, ?_⟩
  · rw [hst]
    refine h.guarded.unowned_of_call hcall h.unowned fun hkey => ?_
    -- a claimant in the section would be somebody other than the cleanup
    by_contra hin
    rw [Bool.not_eq_false, ← h.guarded.locks.section_] at hin
    rcases hno with hno | hno
    · cases hno.symm.trans hin
    · obtain rfl := Option.some.inj (hno.symm.trans hin)
      simp [State.stance, CleanupPhase.key_stance] at hkey
  · rcases cleanup_of_step c hstep with hsame | ⟨b, hb, hown⟩
    · exact hsame ▸ h.covered.mono (Guarded.present_of_call hcall h.unowned)
    · exact h.covered.step (hff b hb) (h.section_free hno) h.companion_free hown
  · rcases cleanup_of_step c hstep with hsame | ⟨b, -, hown⟩
    · exact hsame ▸ h.proper
    · exact CleanupPhase.proper_of_step hown

theorem Sweeping.of_run (h : Sweeping c k s) {as : List Action}
    (hrun : (machine legacy).Run (Undisturbed c) s as t) : Sweeping c k t :=
  hrun.invariant (I := Sweeping c k) (fun _ _ _ hs hok hstep => hs.step hok hstep) h

/-! ### The cleanup ends -/

/-- The steps left of one candidate. -/
def Pc.cost : Pc → ℕ
  | entered => 7
  | checked => 6
  | opened _ => 5
  | locked _ => 4
  | unlocked => 3
  | companionGone => 2
  | leaving => 1

/-- The steps left of a cleanup that has read the directory. -/
def CleanupPhase.cost : CleanupPhase → ℕ
  | sweeping names orphans => 8 * (names.length + orphans.length) + 1
  | busy _ pc _ names orphans => 8 * (names.length + orphans.length) + 1 + pc.cost
  | _ => 0

theorem CleanupPhase.cost_lt (hp : p ≠ .idle) (ha : a ≠ .crash)
    (hstep : stepCleanup legacy c d p a = some (d', p')) : p'.cost < p.cost := by
  unfold stepCleanup at hstep
  split at hstep
  · exact absurd rfl hp
  · exact absurd rfl hp
  all_goals try split at hstep
  all_goals cases hstep
  all_goals first
    | exact absurd rfl ha
    | (simp only [CleanupPhase.cost, Pc.cost, List.length_cons, List.length_nil]; omega)

theorem CleanupPhase.ne_idle_of_step (hstep : stepCleanup legacy c d p a = some (d', p')) :
    p' ≠ .idle := by
  unfold stepCleanup at hstep
  split at hstep
  all_goals try split at hstep
  all_goals cases hstep
  all_goals exact nofun

/-- A cleanup that has read the directory and is not at its end can take a step. -/
theorem exists_ownStep (legacy : ℕ → Bool) (h : Sweeping c k s) (hno : NoOther c s)
    (hidle : s.cleanups c ≠ .idle) (hfin : s.cleanups c ≠ .finished) :
    ∃ a, FaultFree s.dir a ∧ (stepCleanup legacy c s.dir (s.cleanups c) a).isSome = true := by
  have hcov := h.covered
  have hproper := h.proper
  have hfree := h.section_free hno
  cases hp : s.cleanups c with
  | idle => exact absurd hp hidle
  | finished => exact absurd hp hfin
  | crashed =>
    rw [hp] at hcov
    exact absurd hcov id
  | sweeping names orphans =>
    replace hfree := hfree (by rw [hp]; rfl)
    rcases names with - | ⟨n, names⟩
    · rcases orphans with - | ⟨n, orphans⟩
      · exact ⟨.finish, trivial, rfl⟩
      · exact ⟨.enter true, rfl, by simp [stepCleanup, hfree]⟩
    · exact ⟨.enter true, rfl, by simp [stepCleanup, hfree]⟩
  | busy orphan pc n names orphans =>
    rw [hp] at hproper
    cases pc with
    | entered =>
      cases orphan with
      | true => exact ⟨.check, trivial, rfl⟩
      | false => exact ⟨.openCompanion true, rfl, by grind [stepCleanup]⟩
    | checked =>
      cases orphan with
      | true => exact ⟨.openCompanion true, rfl, by grind [stepCleanup]⟩
      | false => simp [CleanupPhase.Proper] at hproper
    | opened i => exact ⟨.tryLock true, rfl, by grind [stepCleanup]⟩
    | locked i => exact ⟨.unlock, trivial, by simp [stepCleanup]⟩
    | unlocked => exact ⟨.removeCompanion true, rfl, by cases orphan <;> rfl⟩
    | companionGone =>
      cases orphan with
      | true => simp [CleanupPhase.Proper] at hproper
      | false => exact ⟨.removeTemp true, rfl, rfl⟩
    | leaving => exact ⟨.leave, trivial, by cases orphan <;> rfl⟩

/-- The steps of the cleanup `c` itself, undisturbed. -/
def OwnStep (c : ℕ) (s : State) (a : Action) : Prop :=
  Undisturbed c s a ∧ ∃ b, a = .cleanup c b

/-- The cleanup `c` has ended, and the temp of `k` is gone. -/
def Swept (c : ℕ) (k : Key) (s : State) : Prop :=
  s.cleanups c = .finished ∧ s.dir.present (.temp k) = false

theorem NoOther.ownStep (hno : NoOther c s) {b : CleanupAction}
    (hstep : step legacy s (.cleanup c b) = some t) : NoOther c t := by
  obtain ⟨⟨d', p'⟩, hcleanup, rfl⟩ := Option.map_eq_some_iff.1 hstep
  have hcall : Call s.dir s.stance (.cleanup c) d' p'.stance := call_of_stepCleanup rfl hcleanup
  grind [NoOther, hcall.section_cases]

/-- **An undisturbed cleanup comes to its end**, with the temp gone. -/
theorem swept_inevitable (h : Sweeping c k s) (hno : NoOther c s)
    (hidle : s.cleanups c ≠ .idle) :
    (machine legacy).Inevitable (OwnStep c) (Swept c k) s := by
  refine Machine.Inevitable.of_measure (I := fun s => Sweeping c k s ∧ NoOther c s ∧
    s.cleanups c ≠ .idle) (fun s => (s.cleanups c).cost) ?_ ⟨h, hno, hidle⟩
  rintro s ⟨h, hno, hidle⟩
  by_cases hfin : s.cleanups c = .finished
  · have hcov := h.covered
    rw [hfin] at hcov
    exact .inl ⟨hfin, hcov⟩
  · refine .inr ⟨?_, ?_⟩
    · obtain ⟨a, hff, hsome⟩ := exists_ownStep legacy h hno hidle hfin
      obtain ⟨r, hr⟩ := Option.isSome_iff_exists.1 hsome
      refine ⟨.cleanup c a, _, ⟨⟨nofun, hno, ?_⟩, a, rfl⟩, by simp [step, hr]; rfl⟩
      rintro b ⟨rfl⟩
      exact hff
    · rintro a t ⟨hok, b, rfl⟩ hstep
      have ht := h.step hok hstep
      have hno' := hno.ownStep hstep
      have hb : b ≠ .crash := by
        rintro rfl
        exact hok.2.2 _ rfl
      obtain ⟨⟨d', p'⟩, hcleanup, rfl⟩ := Option.map_eq_some_iff.1 hstep
      have hlt := CleanupPhase.cost_lt hidle hb hcleanup
      have hne := CleanupPhase.ne_idle_of_step hcleanup
      simp only [Function.update_self] at ht hno' hlt hne ⊢
      exact ⟨⟨ht, hno', hne⟩, hlt⟩

/-! ### The ownership of temp files -/

/-- **The ownership of temp files.**  In every state of every run no step of a cleanup takes away
the temp or the companion of a writer that is alive and has neither renamed nor dropped; and a
cleanup that starts there, is alone in the section and meets no failure comes to its end, with every
temp gone that no live writer stands behind. -/
theorem temp_ownership {present : FileName → Bool} {as : List Action}
    (h : (machine legacy).Run DistinctKeys (init present) as s) :
    (∀ c a t w k i, step legacy s (.cleanup c a) = some t →
      (s.writers w).owns = some (k, i) →
        s.dir.companion (.temp k) = some i ∧ t.dir.companion (.temp k) = some i ∧
        t.dir.present (.temp k) = s.dir.present (.temp k) ∧
        ((s.writers w).hasTemp = true → t.dir.present (.temp k) = true)) ∧
    ∀ c k bs u, s.cleanups c = .idle →
      (∀ w, (s.writers w).key ≠ some (.temp k)) →
      (machine legacy).Run (Undisturbed c) s bs u →
        (u.cleanups c = .finished → u.dir.present (.temp k) = false) ∧
        (NoOther c u → u.cleanups c ≠ .idle →
          (machine legacy).Inevitable (OwnStep c) (Swept c k) u) := by
  have hg := guarded_of_run h
  refine ⟨fun c a t w k i hstep howns => spares_owner hg hstep howns, ?_⟩
  intro c k bs u hidle hdead hrun
  have hun : Unowned (.temp k) s.stance := by
    rintro (w | c) hk
    · exact absurd hk (hdead w)
    · simp [State.stance, CleanupPhase.key_stance] at hk
  have hs : Sweeping c k s := ⟨hg, hun, by rw [hidle]; trivial, by rw [hidle]; trivial⟩
  have hu := hs.of_run hrun
  refine ⟨fun hfin => ?_, fun hno hne => swept_inevitable hu hno hne⟩
  have hcov := hu.covered
  rwa [hfin] at hcov

/-- The steps of a writer that creates its temp and dies. -/
def createAndCrash : List WriterAction :=
  [.enter true, .openCompanion true, .tryLock true,
    .createTemp true, .leave, .crash]

theorem distinctKeys_createAndCrash (w : ℕ) :
    ∀ a ∈ createAndCrash.map (.writer w), ∀ s, DistinctKeys s a := by
  rintro a ha s w' k rfl
  simp [createAndCrash] at ha

theorem temp_ownership_after_crash :
    ∃ s, (machine fun _ => false).exec (init fun _ => false) (.writer 0
        (.create ⟨1, 1⟩) :: createAndCrash.map (.writer 0)) = some s ∧
      s.dir.present (.temp ⟨1, 1⟩) = true ∧
      ∀ bs u, (machine fun _ => false).Run (Undisturbed 0) s bs u →
        u.cleanups 0 = .finished → u.dir.present (.temp ⟨1, 1⟩) = false := by
  refine ⟨_, rfl, rfl, fun bs u hrun hfin => ?_⟩
  have hstart : (machine fun _ => false).Run DistinctKeys (init fun _ => false) _ _ :=
    Machine.Run.head (a := .writer 0 (.create ⟨1, 1⟩)) (fun _ _ _ _ => nofun) rfl
      (Machine.Run.of_exec_mem (distinctKeys_createAndCrash 0) rfl)
  refine ((temp_ownership hstart).2 0 ⟨1, 1⟩ bs u rfl (fun w => ?_) hrun).1 hfin
  by_cases hw : w = 0
  · subst hw
    exact nofun
  · simp [init, Function.update, hw, WriterPhase.key, WriterPhase.stance, Stance.absent]

end TempFile
