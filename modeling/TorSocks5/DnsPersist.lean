/-
**Saving the DNS cache: generations, the publication gate and the directory fsync.**

`save_persisted_dns_cache_with_writer` captures a snapshot of the stores together with a fresh
generation number, writes it to a temp file of its own, and publishes it under the per-path
`publish_lock`: if a generation at least as new has been published it drops the temp and reports
success, otherwise it renames the temp onto the target and notes its generation as published.  The
rename is followed by an fsync of the directory, and an error of that fsync is an error of
`rename_into_target`: the snapshot stands at the target, and its generation is not noted.
-/

import TorSocks5.Machine

set_option autoImplicit false

namespace DnsPersist

variable {C : Type*}

/-! ### The saves of one path -/

/-- A captured snapshot: its generation and the contents of the file it becomes. -/
structure Snapshot (C : Type*) where
  /-- The number allocated in the capture. -/
  generation : ℕ
  /-- The lines to be written. -/
  contents : C
  deriving DecidableEq

/-- Where a call of `save_persisted_dns_cache_with_writer` stands. -/
inductive SavePhase (C : Type*)
  /-- Not called yet. -/
  | idle
  /-- Snapshot and generation are captured. -/
  | captured (v : Snapshot C)
  /-- The temp file exists. -/
  | created (v : Snapshot C)
  /-- The temp file holds the contents. -/
  | written (v : Snapshot C)
  /-- The temp file is on the disk; the save waits for the `publish_lock`. -/
  | synced (v : Snapshot C)
  /-- The save is in the publication section. -/
  | entered (v : Snapshot C)
  /-- The published generation is older: the temp is to be renamed. -/
  | publishing (v : Snapshot C)
  /-- The temp has become the target; the directory is to be synced. -/
  | renamed (v : Snapshot C)
  /-- `rename_into_target` has succeeded; the generation is to be noted. -/
  | recording (v : Snapshot C)
  /-- The result is decided and the `publish_lock` still held. -/
  | leaving (v : Snapshot C) (ok : Bool)
  /-- The call has returned. -/
  | returned (v : Snapshot C) (ok : Bool)
  deriving DecidableEq

/-- The state of one path. -/
structure State (C : Type*) where
  /-- `next_generation`: the last generation allocated, a `u64`. -/
  nextGeneration : ℕ
  /-- `published_generation`. -/
  publishedGeneration : ℕ
  /-- The save that holds the `publish_lock`. -/
  publishLock : Option ℕ
  /-- The snapshot of this process that stands at the target, if one does. -/
  target : Option (Snapshot C)
  /-- The calls. -/
  saves : ℕ → SavePhase C
  /-- The generations that were renamed into place and whose directory fsync failed. -/
  unsynced : List ℕ

/-- The path before the first save of the process. -/
def init : State C where
  nextGeneration := 0
  publishedGeneration := 0
  publishLock := none
  target := none
  saves := fun _ => .idle
  unsynced := []

/-- The atomic steps; a Boolean says whether the system call succeeds. -/
inductive Action (C : Type*)
  /-- `capture_persist_snapshots_with_generation`, one section under the `snapshot_lock`. -/
  | capture (i : ℕ) (contents : C)
  /-- `TempFileGuard::create`. -/
  | create (i : ℕ) (ok : Bool)
  /-- The writer; a panic of the writer is an error of the call like any other. -/
  | write (i : ℕ) (ok : Bool)
  /-- `TempFileGuard::fsync`. -/
  | fsync (i : ℕ) (ok : Bool)
  /-- The save takes the `publish_lock`. -/
  | enter (i : ℕ)
  /-- The comparison with the published generation. -/
  | compare (i : ℕ)
  /-- The rename of the temp onto the target. -/
  | rename (i : ℕ) (ok : Bool)
  /-- The fsync of the directory. -/
  | fsyncDir (i : ℕ) (ok : Bool)
  /-- The generation is noted as published. -/
  | record (i : ℕ)
  /-- The save drops the `publish_lock` and returns. -/
  | leave (i : ℕ)

/-- The save `i` goes on to the phase `p`. -/
def State.move (s : State C) (i : ℕ) (p : SavePhase C) : State C :=
  { s with saves := Function.update s.saves i p }

@[simp] theorem State.move_self (s : State C) (i : ℕ) (p : SavePhase C) :
    (s.move i p).saves i = p := Function.update_self ..

@[simp] theorem State.move_of_ne (s : State C) {i j : ℕ} (h : j ≠ i) (p : SavePhase C) :
    (s.move i p).saves j = s.saves j := Function.update_of_ne h ..

/-- The number of generations a `u64` can hold. -/
def generations : ℕ := 2 ^ 64

/-- The successor of a state. -/
def step (s : State C) : Action C → Option (State C)
  | .capture i contents =>
    match s.saves i with
    | .idle =>
      let gen := (s.nextGeneration + 1) % generations
      some ({ s with nextGeneration := gen }.move i (.captured ⟨gen, contents⟩))
    | _ => none
  | .create i ok =>
    match s.saves i with
    | .captured v =>
      some (s.move i (if ok then .created v else .returned v false))
    | _ => none
  | .write i ok =>
    match s.saves i with
    | .created v =>
      some (s.move i (if ok then .written v else .returned v false))
    | _ => none
  | .fsync i ok =>
    match s.saves i with
    | .written v =>
      some (s.move i (if ok then .synced v else .returned v false))
    | _ => none
  | .enter i =>
    match s.saves i, s.publishLock with
    | .synced v, none =>
      some ({ s with publishLock := some i }.move i (.entered v))
    | _, _ => none
  | .compare i =>
    match s.saves i with
    | .entered v =>
      -- A snapshot at least as new is taken to be on the disk: the save succeeds without it.
      some (s.move i (if v.generation ≤ s.publishedGeneration then .leaving v true
        else .publishing v))
    | _ => none
  | .rename i ok =>
    match s.saves i with
    | .publishing v =>
      some (if ok then { s with target := some v }.move i (.renamed v)
        else s.move i (.leaving v false))
    | _ => none
  | .fsyncDir i ok =>
    match s.saves i with
    | .renamed v =>
      -- On an error `rename_into_target` fails although the target has changed.
      some (if ok then s.move i (.recording v)
        else { s with unsynced := v.generation :: s.unsynced }.move i
          (.leaving v false))
    | _ => none
  | .record i =>
    match s.saves i with
    | .recording v =>
      some ({ s with publishedGeneration := v.generation }.move i (.leaving v true))
    | _ => none
  | .leave i =>
    match s.saves i with
    | .leaving v ok =>
      some ({ s with publishLock := none }.move i (.returned v ok))
    | _ => none

/-- The saves of one path as a machine. -/
def machine : Machine (State C) (Action C) := ⟨step⟩

/-- The steps, one constructor for each way a step may go. -/
inductive Step (s : State C) : Action C → State C → Prop
  | captured {i : ℕ} (c : C) : s.saves i = .idle →
      Step s (.capture i c)
        ({ s with nextGeneration := (s.nextGeneration + 1) % generations }.move i
          (.captured ⟨(s.nextGeneration + 1) % generations, c⟩))
  | created {i : ℕ} {v : Snapshot C} (ok : Bool) : s.saves i = .captured v →
      Step s (.create i ok)
        (s.move i (if ok then .created v else .returned v false))
  | written {i : ℕ} {v : Snapshot C} (ok : Bool) : s.saves i = .created v →
      Step s (.write i ok)
        (s.move i (if ok then .written v else .returned v false))
  | synced {i : ℕ} {v : Snapshot C} (ok : Bool) : s.saves i = .written v →
      Step s (.fsync i ok)
        (s.move i (if ok then .synced v else .returned v false))
  | entered {i : ℕ} {v : Snapshot C} : s.saves i = .synced v → s.publishLock = none →
      Step s (.enter i) ({ s with publishLock := some i }.move i (.entered v))
  | skipped {i : ℕ} {v : Snapshot C} : s.saves i = .entered v →
      v.generation ≤ s.publishedGeneration →
      Step s (.compare i) (s.move i (.leaving v true))
  | admitted {i : ℕ} {v : Snapshot C} : s.saves i = .entered v →
      s.publishedGeneration < v.generation →
      Step s (.compare i) (s.move i (.publishing v))
  | renamed {i : ℕ} {v : Snapshot C} : s.saves i = .publishing v →
      Step s (.rename i true) ({ s with target := some v }.move i (.renamed v))
  | notRenamed {i : ℕ} {v : Snapshot C} : s.saves i = .publishing v →
      Step s (.rename i false) (s.move i (.leaving v false))
  | durable {i : ℕ} {v : Snapshot C} : s.saves i = .renamed v →
      Step s (.fsyncDir i true) (s.move i (.recording v))
  | notDurable {i : ℕ} {v : Snapshot C} : s.saves i = .renamed v →
      Step s (.fsyncDir i false)
        ({ s with unsynced := v.generation :: s.unsynced }.move i (.leaving v false))
  | recorded {i : ℕ} {v : Snapshot C} : s.saves i = .recording v →
      Step s (.record i)
        ({ s with publishedGeneration := v.generation }.move i (.leaving v true))
  | left {i : ℕ} {v : Snapshot C} {ok : Bool} : s.saves i = .leaving v ok →
      Step s (.leave i) ({ s with publishLock := none }.move i (.returned v ok))

variable {s t : State C} {a : Action C} {v : Snapshot C}
theorem step_cases (h : step s a = some t) : Step s a t := by
  cases a <;> simp only [step] at h <;> grind [Step]

/-! ### What the saves are to do -/

/-- What stands at the target is not replaced by something older, and a save that has returned
`Ok` finds a snapshot at least as new as its own there. -/
def Advances (s t : State C) : Prop :=
  (∀ v, s.target = some v → ∃ w, t.target = some w ∧ v.generation ≤ w.generation) ∧
  ∀ i v, t.saves i = .returned v true →
    ∃ w, t.target = some w ∧ v.generation ≤ w.generation

/-- The generation counter does not come to its end. -/
def NoOverflow (s : State C) (a : Action C) : Prop :=
  ∀ i c, a = .capture i c → s.nextGeneration + 1 < generations

/-- No save renames its snapshot into place after a newer one whose directory fsync failed. -/
def InOrder (s : State C) (a : Action C) : Prop :=
  ∀ i v, a = .rename i true → s.saves i = .publishing v →
    ∀ g ∈ s.unsynced, g ≤ v.generation

/-! ### The invariant -/

/-- The snapshot a save has captured. -/
def SavePhase.snapshot : SavePhase C → Option (Snapshot C)
  | .idle => none
  | .captured v => some v
  | .created v => some v
  | .written v => some v
  | .synced v => some v
  | .entered v => some v
  | .publishing v => some v
  | .renamed v => some v
  | .recording v => some v
  | .leaving v _ => some v
  | .returned v _ => some v

/-- Whether a save is in the publication section. -/
def SavePhase.inSection : SavePhase C → Bool
  | .entered _ => true
  | .publishing _ => true
  | .renamed _ => true
  | .recording _ => true
  | .leaving _ _ => true
  | _ => false

/-- The snapshot a save has put in place without having noted it yet. -/
def SavePhase.landed : SavePhase C → Option (Snapshot C)
  | .renamed v => some v
  | .recording v => some v
  | _ => none

/-- The generation standing at the target, `0` before the first one: the numbers start at `1`. -/
def State.standing (s : State C) : ℕ :=
  (s.target.map Snapshot.generation).getD 0

/-- What the phase of a save says about the path. -/
def SavePhase.Fits (s : State C) : SavePhase C → Prop
  | .publishing v => s.publishedGeneration < v.generation
  | .renamed v => s.publishedGeneration < v.generation ∧ s.standing = v.generation
  | .recording v => s.publishedGeneration < v.generation ∧ s.standing = v.generation
  | .leaving v true => v.generation ≤ s.standing
  | .returned v true => v.generation ≤ s.standing
  | _ => True

/-- **The invariant of the publication section.** -/
structure Inv (s : State C) : Prop where
  /-- The generations of the captured snapshots have been allocated. -/
  allocated : ∀ i v, (s.saves i).snapshot = some v →
    0 < v.generation ∧ v.generation ≤ s.nextGeneration
  /-- No two saves have the same generation. -/
  distinct : ∀ i j v w, (s.saves i).snapshot = some v → (s.saves j).snapshot = some w →
    v.generation = w.generation → i = j
  /-- A save in the section holds the lock. -/
  locked : ∀ i, (s.saves i).inSection = true → s.publishLock = some i
  /-- Each save fits the path. -/
  fits : ∀ i, (s.saves i).Fits s
  /-- What stands at the target was captured by a save. -/
  captured : ∀ v, s.target = some v → ∃ i, (s.saves i).snapshot = some v
  /-- What is noted as published stands at the target, or something newer. -/
  published : s.publishedGeneration ≤ s.standing
  /-- So does what was renamed and not noted. -/
  unsynced : ∀ g ∈ s.unsynced, g ≤ s.standing
  /-- What stands at the target has been noted, or its fsync has failed, or its save is still
  in the section. -/
  source : s.standing = s.publishedGeneration ∨ s.standing ∈ s.unsynced ∨
    ∃ i v, (s.saves i).landed = some v ∧ s.standing = v.generation

theorem inv_init : Inv (init : State C) where
  allocated := nofun
  distinct := nofun
  locked := nofun
  fits := fun _ => trivial
  captured := nofun
  published := le_refl 0
  unsynced := nofun
  source := .inl rfl

theorem State.standing_of_target (h : s.target = some v) : s.standing = v.generation := by
  simp [State.standing, h]

theorem State.exists_target {g : ℕ} (hpos : 0 < g) (h : g ≤ s.standing) :
    ∃ w, s.target = some w ∧ g ≤ w.generation := by
  cases ht : s.target with
  | none =>
    simp [State.standing, ht] at h
    omega
  | some w => exact ⟨w, rfl, State.standing_of_target ht ▸ h⟩

theorem SavePhase.inSection_of_landed {p : SavePhase C} (h : p.landed = some v) :
    p.inSection = true := by
  cases p <;> first | rfl | cases h

/-! ### Steps keep the invariant -/

/-- Whether a phase fits depends on the published generation and the target alone, and a phase
outside the section only on the target. -/
theorem SavePhase.Fits.mono {p : SavePhase C} (h : p.Fits s)
    (hsec : p.inSection = true → t.publishedGeneration = s.publishedGeneration ∧
      t.standing = s.standing)
    (hle : s.standing ≤ t.standing) : p.Fits t := by
  cases p with
  | publishing v | renamed v | recording v =>
    obtain ⟨hp, hs⟩ := hsec rfl
    simpa [SavePhase.Fits, hp, hs] using h
  | leaving v ok | returned v ok =>
    cases ok with
    | true => exact le_trans h hle
    | false => trivial
  | _ => trivial

section Steps

variable {s t : State C} {i : ℕ} {p q : SavePhase C}

theorem Inv.alone (h : Inv s) (hin : (s.saves i).inSection = true) {j : ℕ}
    (hin' : (s.saves j).inSection = true) : j = i :=
  Option.some.inj ((h.locked j hin').symm.trans (h.locked i hin))

theorem Inv.fits_of (h : Inv s) (hi : s.saves i = q) : q.Fits s := hi ▸ h.fits i

/-- A step of the save `i` keeps the invariant, if what it does to the path does not show to the
other saves in the section and makes nothing older. -/
theorem Inv.of_update (h : Inv s) (hi : s.saves i = q)
    (hsaves : t.saves = Function.update s.saves i p)
    (hnext : t.nextGeneration = s.nextGeneration) (hsnap : p.snapshot = q.snapshot)
    (hown : p.inSection = true → t.publishLock = some i)
    (hothers : ∀ j, j ≠ i → (s.saves j).inSection = true → t.publishLock = some j ∧
      t.publishedGeneration = s.publishedGeneration ∧ t.standing = s.standing)
    (hfits : p.Fits t) (hle : s.standing ≤ t.standing)
    (htarget : ∀ v, t.target = some v → s.target = some v ∨ p.snapshot = some v)
    (hpublished : t.publishedGeneration ≤ t.standing)
    (hunsynced : ∀ g ∈ t.unsynced, g ≤ t.standing)
    (hsource : t.standing = t.publishedGeneration ∨ t.standing ∈ t.unsynced ∨
      ∃ j v, (t.saves j).landed = some v ∧ t.standing = v.generation) : Inv t := by
  have hself : t.saves i = p := by rw [hsaves, Function.update_self]
  have hother (j) (hj : j ≠ i) : t.saves j = s.saves j := by rw [hsaves, Function.update_of_ne hj]
  -- No save loses its snapshot or gets another one.
  have hsnaps (j) : (t.saves j).snapshot = (s.saves j).snapshot := by grind
  refine ⟨?_, ?_, by grind, fun j => ?_, ?_, hpublished, hunsynced, hsource⟩
  · simpa only [hsnaps, hnext] using h.allocated
  · simpa only [hsnaps] using h.distinct
  · rcases eq_or_ne j i with rfl | hji
    · rwa [hself]
    · rw [hother j hji]
      exact (h.fits j).mono (fun hj => (hothers j hji hj).2) hle
  · have hcaptured := h.captured
    grind

/-- What stands at the target keeps its source when a save that has not put it there moves on. -/
theorem Inv.source_move (h : Inv s) (hi : s.saves i = q)
    (hl : q.landed = none ∨ p.landed = q.landed) :
    s.standing = s.publishedGeneration ∨ s.standing ∈ s.unsynced ∨
      ∃ j v, (Function.update s.saves i p j).landed = some v ∧ s.standing = v.generation := by
  refine h.source.imp_right (Or.imp_right ?_)
  rintro ⟨j, v, hv, hs⟩
  exact ⟨j, v, by grind, hs⟩

/-- A step outside the section. -/
theorem Inv.move_outside (h : Inv s) (hi : s.saves i = q) (hout : q.inSection = false)
    (hsnap : p.snapshot = q.snapshot) (hp : p.inSection = false) (hfits : p.Fits s) :
    Inv (s.move i p) := by
  have hl : q.landed = none := by cases q <;> first | rfl | cases hout
  exact h.of_update hi rfl rfl hsnap (fun hin => by simp [hp] at hin)
    (fun j _ hj => ⟨h.locked j hj, rfl, rfl⟩) (hfits.mono (fun _ => ⟨rfl, rfl⟩) le_rfl) le_rfl
    (fun _ => .inl) h.published h.unsynced (h.source_move hi (.inl hl))

theorem Inv.move_inside (h : Inv s) (hi : s.saves i = q) (hin : q.inSection = true)
    (hsnap : p.snapshot = q.snapshot) (hfits : p.Fits s)
    (hl : q.landed = none ∨ p.landed = q.landed) : Inv (s.move i p) := by
  exact h.of_update hi rfl rfl hsnap (fun _ => h.locked i (hi ▸ hin))
    (fun j _ hj => ⟨h.locked j hj, rfl, rfl⟩) (hfits.mono (fun _ => ⟨rfl, rfl⟩) le_rfl) le_rfl
    (fun _ => .inl) h.published h.unsynced (h.source_move hi hl)

/-- Before a rename that is in order nothing newer stands at the target. -/
theorem Inv.standing_le (h : Inv s) (hi : s.saves i = .publishing v)
    (hord : ∀ g ∈ s.unsynced, g ≤ v.generation) : s.standing ≤ v.generation := by
  rcases h.source with hs | hs | ⟨j, w, hw, -⟩
  · exact hs ▸ (h.fits_of hi).le
  · exact hord _ hs
  · -- The save that put it there would be in the section beside this one.
    obtain rfl := h.alone (by rw [hi]; rfl) (SavePhase.inSection_of_landed hw)
    rw [hi] at hw
    cases hw

/-- The capture keeps the invariant as long as the counter does not overflow. -/
theorem Inv.capture (h : Inv s) (hi : s.saves i = .idle) (c : C)
    (hlt : s.nextGeneration + 1 < generations) :
    Inv ({ s with nextGeneration := (s.nextGeneration + 1) % generations }.move i
      (.captured ⟨(s.nextGeneration + 1) % generations, c⟩)) := by
  rw [Nat.mod_eq_of_lt hlt]
  -- A snapshot is one from before, or the one captured now, which has the newest generation.
  have hcases : ∀ j v, (Function.update s.saves i
      (.captured ⟨s.nextGeneration + 1, c⟩) j).snapshot = some v →
      j ≠ i ∧ (s.saves j).snapshot = some v ∨ j = i ∧ v.generation = s.nextGeneration + 1 := by
    intro j v hv
    rcases eq_or_ne j i with rfl | hj
    · rw [Function.update_self] at hv
      cases hv
      exact .inr ⟨rfl, rfl⟩
    · rw [Function.update_of_ne hj] at hv
      exact .inl ⟨hj, hv⟩
  have hallocated := h.allocated
  refine ⟨fun j v hv => ?_, fun j k v w hv hw heq => ?_, fun j hj => ?_, fun j => ?_,
    fun v hv => ?_, h.published, h.unsynced, h.source_move hi (.inl rfl)⟩
  · rcases hcases j v hv with ⟨-, hv⟩ | ⟨-, hv⟩
    · exact (hallocated j v hv).imp_right Nat.le_succ_of_le
    · exact ⟨by omega, hv.le⟩
  · have hdistinct := h.distinct j k v w
    have hv := hcases j v hv
    have hw := hcases k w hw
    grind
  · rcases eq_or_ne j i with rfl | hji
    · simp [SavePhase.inSection] at hj
    · exact h.locked j (by simpa [hji] using hj)
  · rcases eq_or_ne j i with rfl | hji
    · simp [SavePhase.Fits]
    · rw [State.move_of_ne _ hji]
      exact (h.fits j).mono (fun _ => ⟨rfl, rfl⟩) le_rfl
  · obtain ⟨j, hj⟩ := h.captured v hv
    have hji : j ≠ i := by
      rintro rfl
      rw [hi] at hj
      cases hj
    exact ⟨j, by simpa [hji] using hj⟩

/-- **A step that is in order keeps the invariant.** -/
theorem Inv.step (h : Inv s) (hcap : NoOverflow s a) (hord : InOrder s a)
    (hstep : step s a = some t) : Inv t := by
  cases step_cases hstep with
  | captured c hi => exact h.capture hi c (hcap _ c rfl)
  | created ok hi | written ok hi | synced ok hi =>
    cases ok <;> exact h.move_outside hi rfl rfl rfl trivial
  | entered hi hlock =>
    exact h.of_update hi rfl rfl rfl (fun _ => rfl)
      (fun j _ hj => by cases hlock.symm.trans (h.locked j hj)) trivial le_rfl (fun _ => .inl)
      h.published h.unsynced (h.source_move hi (.inl rfl))
  | skipped hi hle => exact h.move_inside hi rfl rfl (hle.trans h.published) (.inl rfl)
  | admitted hi hlt => exact h.move_inside hi rfl rfl hlt (.inl rfl)
  | notRenamed hi => exact h.move_inside hi rfl rfl trivial (.inl rfl)
  | @renamed i v hi =>
    have hin : (s.saves i).inSection = true := by rw [hi]; rfl
    have hle := h.standing_le hi (hord i v rfl hi)
    have hfits := h.fits_of hi
    exact h.of_update hi rfl rfl rfl (fun _ => h.locked i hin)
      (fun j hj hin' => absurd (h.alone hin hin') hj) ⟨hfits, rfl⟩ hle (fun w hw => .inr hw)
      (le_of_lt hfits) (fun g hg => (h.unsynced g hg).trans hle)
      (.inr (.inr ⟨i, v, by simp [SavePhase.landed], rfl⟩))
  | durable hi =>
    have hfits := h.fits_of hi
    exact h.move_inside hi rfl rfl hfits (.inr rfl)
  | @notDurable i v hi =>
    have hfits := h.fits_of hi
    exact h.of_update hi rfl rfl rfl (fun _ => h.locked i (hi ▸ rfl))
      (fun j _ hj => ⟨h.locked j hj, rfl, rfl⟩) trivial le_rfl (fun _ => .inl) h.published
      (List.forall_mem_cons.2 ⟨hfits.2.ge, h.unsynced⟩)
      (.inr (.inl (List.mem_cons.2 (.inl hfits.2))))
  | @recorded i v hi =>
    have hin : (s.saves i).inSection = true := by rw [hi]; rfl
    have hfits := h.fits_of hi
    exact h.of_update hi rfl rfl rfl (fun _ => h.locked i hin)
      (fun j hj hin' => absurd (h.alone hin hin') hj) hfits.2.ge le_rfl (fun _ => .inl) hfits.2.ge
      h.unsynced (.inl hfits.2)
  | @left i v ok hi =>
    have hin : (s.saves i).inSection = true := by rw [hi]; rfl
    refine h.of_update hi rfl rfl rfl nofun (fun j hj hin' => absurd (h.alone hin hin') hj) ?_
      le_rfl (fun _ => .inl) h.published h.unsynced (h.source_move hi (.inl rfl))
    cases ok with
    | true => exact h.fits_of hi
    | false => trivial

theorem Step.target_cases (h : Step s a t) : t.target = s.target ∨
    ∃ i v, a = .rename i true ∧ s.saves i = .publishing v ∧ t.target = some v := by
  cases h with
  | @renamed i v hi => exact .inr ⟨i, v, rfl, hi, rfl⟩
  | _ => exact .inl rfl

theorem Inv.standing_mono (h : Inv s) (hord : InOrder s a)
    (hstep : DnsPersist.step s a = some t) : s.standing ≤ t.standing := by
  rcases (step_cases hstep).target_cases with ht | ⟨i, v, ha, hi, ht⟩
  · rw [State.standing, State.standing, ht]
  · rw [State.standing_of_target ht]
    exact h.standing_le hi (hord i v ha hi)

theorem Inv.exists_target (h : Inv s) (hi : (s.saves i).snapshot = some v)
    (hle : v.generation ≤ t.standing) : ∃ w, t.target = some w ∧ v.generation ≤ w.generation :=
  State.exists_target (h.allocated i v hi).1 hle

end Steps

/-! ### Whole runs -/

section Runs

variable {s : State C} {as : List (Action C)}

/-- The condition on the steps of a run: the counter does not overflow, and the renames are in
order. -/
def Orderly (s : State C) (a : Action C) : Prop := NoOverflow s a ∧ InOrder s a

theorem inv_of_run (h : machine.Run Orderly init as s) : Inv s :=
  h.invariant (fun _ _ _ hs hok hstep => hs.step hok.1 hok.2 hstep) inv_init

/-- **The saves advance exactly in orderly runs.**  In every run of overlapping saves, with
whatever failures, what stands at the target never gets older and every save that returned `Ok`
finds something at least as new as its snapshot there, exactly when no save renames its snapshot
into place after a newer one whose directory fsync failed. -/
theorem advances_iff (h : machine.Run NoOverflow init as s) :
    (∀ bs a cs t u, as = bs ++ a :: cs → machine.Run NoOverflow init bs t →
      DnsPersist.step t a = some u → Advances t u) ↔ machine.Run Orderly init as s := by
  refine Machine.Run.forall_step_iff (R := Advances) ?_ ?_ h
  · intro bs t a u hrun hok hstep
    have ht := inv_of_run hrun
    have hu := inv_of_run (hrun.tail hok hstep)
    constructor
    · intro v hv
      obtain ⟨i, hi⟩ := ht.captured v hv
      refine ht.exists_target hi ?_
      rw [← State.standing_of_target hv]
      exact ht.standing_mono hok.2 hstep
    · intro i v hi
      have hfits := hu.fits i
      rw [hi] at hfits
      exact hu.exists_target (by rw [hi]; rfl) hfits
  · intro bs t a u hrun hcap hok hstep hadv
    -- The first step out of order is a rename over something newer.
    have hord : ¬ InOrder t a := fun hord => hok ⟨hcap, hord⟩
    simp only [InOrder, not_forall, not_le] at hord
    obtain ⟨i, v, rfl, hi, g, hg, hlt⟩ := hord
    have ht := inv_of_run hrun
    obtain ⟨w, hw, hle⟩ := State.exists_target (Nat.zero_lt_of_lt hlt) (ht.unsynced g hg)
    obtain ⟨w', hw', hle'⟩ := hadv.1 w hw
    have hcases : Step t (.rename i true) u := step_cases hstep
    cases hcases with
    | @renamed i v' hi' =>
      obtain rfl : v = v' := by simpa using hi.symm.trans hi'
      obtain rfl : v = w' := by simpa [State.move] using hw'
      omega

theorem nextGeneration_le (h : DnsPersist.step s a = some t) :
    t.nextGeneration ≤ s.nextGeneration + 1 := by
  cases step_cases h with
  | captured c hi => exact Nat.mod_le _ _
  | _ => exact Nat.le_succ _

/-- The counter does not overflow in fewer than `2 ^ 64` steps. -/
theorem noOverflow_of_exec : ∀ {as : List (Action C)} {s t : State C},
    machine.exec s as = some t → s.nextGeneration + as.length < generations →
      machine.Run NoOverflow s as t := by
  intro as
  induction as with
  | nil =>
    intro s t h _
    exact Option.some.inj h ▸ .refl s
  | cons a as ih =>
    intro s t h hlt
    rw [Machine.exec_cons, Option.bind_eq_some_iff] at h
    obtain ⟨m, hm, h⟩ := h
    have hle := nextGeneration_le hm
    rw [List.length_cons] at hlt
    refine Machine.Run.head (fun _ _ _ => ?_) hm (ih h ?_) <;> omega

end Runs

/-! ### A rollback -/

/-- A save up to the publication section. -/
def prepare (i : ℕ) : List (Action ℕ) :=
  [.create i true, .write i true, .fsync i true]

/-- A save in the publication section up to its rename. -/
def publish (i : ℕ) : List (Action ℕ) :=
  [.enter i, .compare i, .rename i true]

/-- Two saves overlap; the newer one renames its snapshot into place and the directory fsync
fails; the older one passes the gate. -/
def overlapping : List (Action ℕ) :=
  [.capture 0 10, .capture 1 20] ++ prepare 0 ++ prepare 1 ++ publish 1 ++
    [.fsyncDir 1 false, .leave 1, .enter 0, .compare 0]

theorem advances_iff_overlapping :
    ∃ s : State ℕ, machine.exec init overlapping = some s ∧ s.target = some ⟨2, 20⟩ ∧
      ((∀ bs a cs t u, overlapping = bs ++ a :: cs → machine.Run NoOverflow init bs t →
        DnsPersist.step t a = some u → Advances t u) ↔ machine.Run Orderly init overlapping s) :=
  ⟨_, rfl, rfl, advances_iff (noOverflow_of_exec rfl (by decide))⟩

/-- **A rollback.**  The older of two overlapping saves replaces the snapshot of the newer one,
whose directory fsync failed. -/
theorem failed_fsync_rolls_back :
    ∃ s t : State ℕ, machine.Run NoOverflow init overlapping s ∧
      DnsPersist.step s (.rename 0 true) = some t ∧
      s.target = some ⟨2, 20⟩ ∧ t.target = some ⟨1, 10⟩ ∧ ¬ Advances s t := by
  refine ⟨_, _, noOverflow_of_exec rfl (by decide), rfl, rfl, rfl, ?_⟩
  rintro ⟨hadv, -⟩
  obtain ⟨w, hw, hle⟩ := hadv _ rfl
  obtain rfl := Option.some.inj hw
  exact absurd hle (by decide)

end DnsPersist
