/-
**The rotation pool of the watchdog and the list it publishes.**

A tick of the watchdog may top the pool up with bridges that warm, and may replace it by what still
warms after a reset.  Both write the list of active bridges; but a reset in which bridges are
retired and none warms takes them out of the pool and leaves the list alone.
-/

import TorSocks5.Machine

set_option autoImplicit false

namespace RotationPool

open List

variable {B : Type}

def targetWarmPoolSize : ℕ := 30

def maxWarmBridges : ℕ := 16

def warmTopupBatch : ℕ := 10

def warmRefreshBatch : ℕ := 2

/-- In seconds. -/
def warmTopupInterval : ℕ := 2 * 60

def failuresBeforeReset : ℕ := 3

def resetCooldown : ℕ := 5 * 60

/-! ### Warming -/

/-- `WarmOutcome`, for the bridge of the task. -/
inductive Outcome
  | warm (elapsed : ℕ)
  | retired
  | failed
  deriving DecidableEq

/-- The results of the tasks, in the order in which they end.  A bridge is known by its line. -/
abbrev Results (B : Type) := List (B × Outcome)

/-- `WarmPool::warmed`, fastest first. -/
def warmed (results : Results B) : List (B × ℕ) :=
  (results.filterMap fun r => match r.2 with
    | .warm elapsed => some (r.1, elapsed)
    | _ => none).mergeSort fun a b => a.2 ≤ b.2

/-- `WarmPool::retired`. -/
def retired (results : Results B) : List B := (results.filter (·.2 = .retired)).map (·.1)

/-- The results of `warm_bridge_pool` for a list of candidates. -/
def ResultsOf (candidates : List B) (results : Results B) : Prop :=
  (results.map (·.1)).Perm (candidates.take maxWarmBridges)

theorem sorted_mergeSort (l : List (B × ℕ)) :
    (l.mergeSort fun a b => a.2 ≤ b.2).Pairwise fun a b => a.2 ≤ b.2 := by
  refine (@pairwise_mergeSort _ (fun a b : B × ℕ => a.2 ≤ b.2) ?_ ?_ l).imp (by simp)
  · simp only [decide_eq_true_eq]
    exact fun a b c => le_trans
  · exact fun a b => by simpa using le_total a.2 b.2

theorem mem_warmed {results : Results B} {b : B} {e : ℕ} :
    (b, e) ∈ warmed results ↔ (b, .warm e) ∈ results := by
  simp only [warmed, mem_mergeSort, mem_filterMap]
  constructor
  · rintro ⟨⟨b', o⟩, hr, ho⟩
    cases o <;> simp_all
  · exact fun h => ⟨_, h, rfl⟩

theorem warmed_sublist (results : Results B) :
    ∃ l, l.Sublist (results.map (·.1)) ∧ ((warmed results).map (·.1)).Perm l := by
  refine ⟨_, ?_, (mergeSort_perm _ _).map _⟩
  induction results with
  | nil => exact List.Sublist.refl _
  | cons r results ih =>
    obtain ⟨b, o⟩ := r
    cases o with
    | warm e => exact ih.cons_cons b
    | _ => exact ih.cons b

section Results

variable {candidates : List B} {results : Results B} (h : ResultsOf candidates results)
  (hnodup : candidates.Nodup)

include h hnodup in
theorem nodup_results : (results.map (·.1)).Nodup :=
  h.nodup_iff.mpr (hnodup.sublist (take_sublist _ _))

include h hnodup in
theorem nodup_warmed : ((warmed results).map (·.1)).Nodup := by
  obtain ⟨l, hl, hperm⟩ := warmed_sublist results
  exact hperm.nodup_iff.mpr ((nodup_results h hnodup).sublist hl)

include h in
theorem length_warmed_le : (warmed results).length ≤ maxWarmBridges := by
  obtain ⟨l, hl, hperm⟩ := warmed_sublist results
  have hlen := hperm.length_eq
  rw [length_map] at hlen
  rw [hlen]
  exact hl.length_le.trans (h.length_eq.trans_le (length_take_le _ _))

include h in
theorem mem_candidates_of_warmed {b : B} (hb : b ∈ (warmed results).map (·.1)) :
    b ∈ candidates := by
  obtain ⟨l, hl, hperm⟩ := warmed_sublist results
  exact mem_of_mem_take (h.subset (hl.subset (hperm.subset hb)))

include h hnodup in
theorem not_mem_retired {b : B} (hb : b ∈ (warmed results).map (·.1)) : b ∉ retired results := by
  obtain ⟨⟨b, e⟩, hwarm, rfl⟩ := mem_map.mp hb
  intro hretired
  obtain ⟨⟨b', o⟩, hr, rfl⟩ := mem_map.mp hretired
  obtain ⟨hr, ho⟩ := mem_filter.mp hr
  have := inj_on_of_nodup_map (nodup_results h hnodup) hr (mem_warmed.mp hwarm) rfl
  simp_all

end Results

variable [DecidableEq B]

/-- The outcomes of the last warm-ups of all bridges, after one more. -/
def note (tried : B → Option Outcome) (results : Results B) (b : B) : Option Outcome :=
  ((results.find? (·.1 = b)).map (·.2)).or (tried b)

theorem note_ne_retired {tried : B → Option Outcome} {results : Results B} {b : B}
    (h : b ∉ retired results) (hb : tried b ≠ some .retired ∨ b ∈ results.map (·.1)) :
    note tried results b ≠ some .retired := by
  unfold note
  cases hfind : results.find? (·.1 = b) with
  | none =>
    refine hb.resolve_right fun hmem => ?_
    obtain ⟨r, hr, rfl⟩ := mem_map.mp hmem
    simpa using find?_eq_none.mp hfind r hr
  | some r =>
    obtain rfl : r.1 = b := by simpa using find?_some hfind
    intro heq
    refine h (mem_map.mpr ⟨r, mem_filter.mpr ⟨mem_of_find?_eq_some hfind, ?_⟩, rfl⟩)
    simpa using heq

/-! ### The watchdog -/

structure State (B : Type) where
  rotationBridges : List (B × ℕ)
  warmSessionFailed : List B
  /-- The active-bridges file. -/
  file : List B
  lastTopup : Option ℕ
  lastReset : Option ℕ
  consecutiveFailures : ℕ
  stopped : Bool
  /-- For the statements: what the last warm-up of a bridge gave. -/
  tried : B → Option Outcome

/-- What a tick meets; no results of a warm-up means that the stop signal came during it. -/
structure Tick (B : Type) where
  now : ℕ
  /-- What `select_active_probe_bridges` gives. -/
  selection : List B
  topup : Option (Results B)
  probeOk : Bool
  resetAt : ℕ
  /-- `terminate_all_channels` succeeds. -/
  terminated : Bool
  rewarm : Option (Results B)

namespace State

def lines (s : State B) : List B := s.rotationBridges.map (·.1)

def topupDue (s : State B) (t : Tick B) : Bool :=
  match s.lastTopup with
  | none => true
  | some last => last + warmTopupInterval ≤ t.now

/-- The candidates of a top-up. -/
def batch (s : State B) (t : Tick B) : List B :=
  (t.selection.filter fun b => b ∉ s.lines ∧ b ∉ s.warmSessionFailed).take
    (if s.rotationBridges.length < targetWarmPoolSize then warmTopupBatch else warmRefreshBatch)

/-- The pool after a top-up: the retired go, the warmed come, and the slowest are dropped. -/
def merged (s : State B) (results : Results B) : List (B × ℕ) :=
  ((s.rotationBridges.filter (fun p => p.1 ∉ retired results) ++ warmed results).mergeSort
    fun a b => a.2 ≤ b.2).take targetWarmPoolSize

/-- The first part of a tick. -/
def topUp (s : State B) (t : Tick B) : State B :=
  if s.topupDue t then
    let s' := { s with lastTopup := some t.now }
    if s.batch t = [] then s'
    else
      match t.topup with
      | none => { s' with stopped := true }
      | some results =>
        { s' with
          warmSessionFailed := s.warmSessionFailed ++
            (s.batch t).filter (fun b => b ∉ (warmed results).map (·.1))
          rotationBridges := s.merged results
          file := (s.merged results).map (·.1)
          tried := note s.tried results }
  else s

/-- The tick gets to a reset. -/
def resets (s : State B) (t : Tick B) : Bool :=
  !s.stopped && !t.probeOk && failuresBeforeReset ≤ s.consecutiveFailures + 1 &&
    (match s.lastReset with
    | none => true
    | some last => last + resetCooldown ≤ t.resetAt)

/-- What is warmed after a reset. -/
def candidates (bridges : List B) (s : State B) : List B :=
  if s.rotationBridges = [] then bridges else s.lines

/-- The last part of a tick. -/
def reset (s : State B) (t : Tick B) : State B :=
  if s.stopped then s
  else if t.probeOk then { s with consecutiveFailures := 0 }
  else if s.resets t then
    let s := { s with warmSessionFailed := [] }
    if t.terminated then
      match t.rewarm with
      | none => { s with stopped := true }
      | some results =>
        let s := { s with
          tried := note s.tried results
          rotationBridges := s.rotationBridges.filter fun p => p.1 ∉ retired results
          lastReset := some t.resetAt
          consecutiveFailures := 0 }
        if warmed results = [] then s
        else { s with rotationBridges := warmed results, file := (warmed results).map (·.1) }
    else { s with lastReset := some t.resetAt, consecutiveFailures := 0 }
  else { s with consecutiveFailures := s.consecutiveFailures + 1 }

def tick (s : State B) (t : Tick B) : State B := (s.topUp t).reset t

end State

def machine (B : Type) [DecidableEq B] : Machine (State B) (Tick B) :=
  ⟨fun s t => if s.stopped then none else some (s.tick t)⟩

/-- The start, whatever is in the file.  A clock too young for the top-up to be due at once counts
from the start. -/
def start (file : List B) (lastTopup : Option ℕ) : State B :=
  ⟨[], [], file, lastTopup, none, 0, false, fun _ => none⟩

/-- What a tick can meet: distinct lines, and the results of its warm-ups. -/
def Meets (bridges : List B) (s : State B) (t : Tick B) : Prop :=
  t.selection.Nodup ∧ (∀ r ∈ t.topup, ResultsOf (s.batch t) r) ∧
    ∀ r ∈ t.rewarm, ResultsOf ((s.topUp t).candidates bridges) r

/-! ### The invariant -/

structure Inv (s : State B) : Prop where
  nodup : s.lines.Nodup
  sorted : s.rotationBridges.Pairwise fun a b => a.2 ≤ b.2
  length_le : s.rotationBridges.length ≤ max targetWarmPoolSize maxWarmBridges
  /-- The list may only have more bridges than the pool. -/
  listed : s.lines.Sublist s.file
  usable : ∀ b ∈ s.lines, s.tried b ≠ some .retired

omit [DecidableEq B] in
theorem inv_start (file : List B) (lastTopup : Option ℕ) : Inv (start file lastTopup) := by
  constructor <;> simp [start, State.lines]

/-- The lines that come with a warm-up are usable. -/
theorem usable_of_warmed {candidates : List B} {results : Results B}
    (h : ResultsOf candidates results) (hnodup : candidates.Nodup) (tried : B → Option Outcome) :
    ∀ b ∈ (warmed results).map (·.1), note tried results b ≠ some .retired := fun b hb => by
  obtain ⟨l, hl, hperm⟩ := warmed_sublist results
  exact note_ne_retired (not_mem_retired h hnodup hb) (.inr (hl.subset (hperm.subset hb)))

section Steps

variable {s : State B} {t : Tick B} {bridges : List B}

theorem nodup_batch (hselection : t.selection.Nodup) : (s.batch t).Nodup :=
  (hselection.filter _).sublist (take_sublist _ _)

theorem not_mem_of_batch {b : B} (hb : b ∈ s.batch t) : b ∉ s.lines ∧ b ∉ s.warmSessionFailed := by
  simpa using (mem_filter.mp (mem_of_mem_take hb)).2

theorem inv_topUp (h : Inv s) (hmeets : Meets bridges s t) : Inv (s.topUp t) := by
  unfold State.topUp
  split_ifs
  · exact ⟨h.1, h.2, h.3, h.4, h.5⟩
  · split
    · exact ⟨h.1, h.2, h.3, h.4, h.5⟩
    · next results hresults =>
      have hof := hmeets.2.1 results hresults
      have hbatch := nodup_batch (s := s) hmeets.1
      have hsub : (s.rotationBridges.filter fun p => p.1 ∉ retired results).Sublist
          s.rotationBridges := filter_sublist
      refine ⟨?_, (sorted_mergeSort _).sublist (take_sublist _ _),
        (length_take_le _ _).trans (le_max_left _ _), List.Sublist.refl _, ?_⟩
      · refine (((mergeSort_perm _ _).map _).nodup_iff.mpr ?_).sublist
          ((take_sublist _ _).map _)
        rw [map_append, nodup_append]
        refine ⟨h.nodup.sublist (hsub.map _), nodup_warmed hof hbatch, ?_⟩
        rintro b hb _ hwarm rfl
        exact (not_mem_of_batch (mem_candidates_of_warmed hof hwarm)).1 ((hsub.map _).subset hb)
      · intro b hb
        obtain ⟨p, hp, rfl⟩ := mem_map.mp hb
        rcases mem_append.mp (mem_mergeSort.mp (mem_of_mem_take hp)) with hp | hp
        · exact note_ne_retired (by simpa using (mem_filter.mp hp).2)
            (.inl (h.usable _ (mem_map_of_mem (hsub.subset hp))))
        · exact usable_of_warmed hof hbatch _ _ (mem_map_of_mem hp)
  · exact h

/-- What a reset does to the pool and the file. -/
theorem reset_cases (s : State B) (t : Tick B) :
    ((s.reset t).rotationBridges = s.rotationBridges ∧ (s.reset t).file = s.file ∧
      (s.reset t).tried = s.tried ∧ ∀ r ∈ t.rewarm, ¬ (s.resets t = true ∧ t.terminated = true)) ∨
    ∃ results ∈ t.rewarm, s.resets t = true ∧ t.terminated = true ∧
      (s.reset t).tried = note s.tried results ∧
      ((warmed results = [] ∧ (s.reset t).file = s.file ∧ (s.reset t).rotationBridges =
        s.rotationBridges.filter fun p => p.1 ∉ retired results) ∨
      (warmed results ≠ [] ∧ (s.reset t).rotationBridges = warmed results ∧
        (s.reset t).file = (warmed results).map (·.1))) := by
  unfold State.reset
  split_ifs with hstopped hprobe hresets hterminated
  · exact .inl ⟨rfl, rfl, rfl, by simp [State.resets, hstopped]⟩
  · exact .inl ⟨rfl, rfl, rfl, by simp [State.resets, hprobe]⟩
  · cases hrewarm : t.rewarm with
    | none => exact .inl ⟨rfl, rfl, rfl, by simp⟩
    | some results =>
      refine .inr ⟨results, rfl, hresets, hterminated, ?_⟩
      by_cases hnil : warmed results = [] <;> simp [hnil]
  · exact .inl ⟨rfl, rfl, rfl, fun _ _ h => hterminated h.2⟩
  · exact .inl ⟨rfl, rfl, rfl, fun _ _ h => hresets h.1⟩

theorem inv_reset (h : Inv s) (hbridges : bridges.Nodup)
    (hmeets : ∀ r ∈ t.rewarm, ResultsOf (s.candidates bridges) r) : Inv (s.reset t) := by
  rcases reset_cases s t with ⟨hpool, hfile, htried, -⟩ | ⟨results, hresults, -, -, htried, hcase⟩
  · constructor <;> simp only [State.lines, hpool, hfile, htried]
    exacts [h.nodup, h.sorted, h.length_le, h.listed, h.usable]
  · have hof := hmeets results hresults
    have hnodup : (s.candidates bridges).Nodup := by
      unfold State.candidates
      split_ifs
      · exact hbridges
      · exact h.nodup
    rcases hcase with ⟨-, hfile, hpool⟩ | ⟨-, hpool, hfile⟩
    · have hsub : (s.rotationBridges.filter fun p => p.1 ∉ retired results).Sublist
          s.rotationBridges := filter_sublist
      constructor <;> simp only [State.lines, hpool, hfile, htried]
      · exact h.nodup.sublist (hsub.map _)
      · exact h.sorted.sublist hsub
      · exact hsub.length_le.trans h.length_le
      · exact (hsub.map _).trans h.listed
      · intro b hb
        obtain ⟨p, hp, rfl⟩ := mem_map.mp hb
        exact note_ne_retired (by simpa using (mem_filter.mp hp).2)
          (.inl (h.usable _ (mem_map_of_mem (hsub.subset hp))))
    · constructor <;> simp only [State.lines, hpool, hfile, htried]
      · exact nodup_warmed hof hnodup
      · exact sorted_mergeSort _
      · exact (length_warmed_le hof).trans (le_max_right _ _)
      · exact List.Sublist.refl _
      · exact usable_of_warmed hof hnodup _

theorem inv_tick (hbridges : bridges.Nodup) (h : Inv s) (hmeets : Meets bridges s t) :
    Inv (s.tick t) := inv_reset (inv_topUp h hmeets) hbridges hmeets.2.2

theorem inv_of_run (hbridges : bridges.Nodup) {file : List B} {lastTopup : Option ℕ}
    {ts : List (Tick B)} (h : (machine B).Run (Meets bridges) (start file lastTopup) ts s) :
    Inv s := by
  refine h.invariant (fun u t v hu hmeets hstep => ?_) (inv_start file lastTopup)
  simp only [machine] at hstep
  split_ifs at hstep
  cases hstep
  exact inv_tick hbridges hu hmeets

/-! ### Publication -/

/-- The top-up or the reset of a tick changes the pool. -/
def Changes (s : State B) (t : Tick B) : Prop :=
  (s.topUp t).rotationBridges ≠ s.rotationBridges ∨
    (s.tick t).rotationBridges ≠ (s.topUp t).rotationBridges

/-- Bridges of the pool are retired in a reset, and none warms. -/
def RetiresOnly (s : State B) (t : Tick B) : Prop :=
  s.resets t = true ∧ t.terminated = true ∧
    ∃ r ∈ t.rewarm, warmed r = [] ∧ ∃ b ∈ s.lines, b ∈ retired r

theorem topUp_cases (s : State B) (t : Tick B) :
    (s.topUp t).rotationBridges = s.rotationBridges ∨ (s.topUp t).file = (s.topUp t).lines := by
  unfold State.topUp
  split_ifs
  · exact .inl rfl
  · split
    · exact .inl rfl
    · exact .inr rfl
  · exact .inl rfl

theorem file_eq_iff (h : Inv (s.topUp t)) (hchanges : Changes s t) :
    (s.tick t).file = (s.tick t).lines ↔ ¬ RetiresOnly (s.topUp t) t := by
  have htop := fun hsame =>
    (topUp_cases s t).resolve_left (hchanges.resolve_right (not_not.mpr hsame))
  unfold State.tick at htop ⊢
  generalize s.topUp t = u at *
  rcases reset_cases u t with
    ⟨hpool, hfile, -, hnone⟩ | ⟨results, hresults, hresets, hterm, -, hcase⟩
  · refine iff_of_true ?_ fun ⟨hresets, hterm, r, hr, _⟩ => hnone r hr ⟨hresets, hterm⟩
    rw [State.lines, hpool, hfile]
    exact htop hpool
  · have honly {r} (hr : r ∈ t.rewarm) : r = results := Option.some.inj (hr.symm.trans hresults)
    rcases hcase with ⟨hnil, hfile, hpool⟩ | ⟨hne, hpool, hfile⟩
    · by_cases hb : ∃ b ∈ u.lines, b ∈ retired results
      · refine iff_of_false (fun heq => ?_)
          (not_not.mpr ⟨hresets, hterm, results, hresults, hnil, hb⟩)
        obtain ⟨b, hmem, hretired⟩ := hb
        obtain ⟨p, hp, rfl⟩ := mem_map.mp hmem
        have hlt : (u.rotationBridges.filter fun p => p.1 ∉ retired results).length <
            u.rotationBridges.length :=
          length_filter_lt_length_iff_exists.mpr ⟨p, hp, by simpa using hretired⟩
        have hlen := congrArg length heq
        have hle := h.listed.length_le
        simp only [State.lines, hpool, hfile, length_map] at hlen hle
        omega
      · refine iff_of_true ?_ fun ⟨_, _, r, hr, _, hb'⟩ => hb (honly hr ▸ hb')
        have hsame : (u.reset t).rotationBridges = u.rotationBridges := by
          rw [hpool, filter_eq_self]
          exact fun p hp => by simpa using fun h => hb ⟨p.1, mem_map_of_mem hp, h⟩
        rw [State.lines, hsame, hfile]
        exact htop hsame
    · refine iff_of_true ?_ fun ⟨_, _, r, hr, hnil, _⟩ => hne (honly hr ▸ hnil)
      rw [State.lines, hpool, hfile]

/-! ### Failures -/

/-- A top-up tries a bridge. -/
def Tries (s : State B) (t : Tick B) (b : B) : Prop := s.topupDue t = true ∧ b ∈ s.batch t

/-- A bridge fails in a top-up. -/
def Fails (s : State B) (t : Tick B) (b : B) : Prop :=
  Tries s t b ∧ ∃ r ∈ t.topup, b ∉ (warmed r).map (·.1)

def NoReset (s : State B) (t : Tick B) : Prop := (s.topUp t).resets t = false

theorem mem_failed_topUp {b : B} (h : b ∈ s.warmSessionFailed ∨ Fails s t b) :
    b ∈ (s.topUp t).warmSessionFailed := by
  unfold State.topUp
  split_ifs with hdue hnil
  · rcases h with h | ⟨⟨-, hb⟩, -⟩
    · exact h
    · simp [hnil] at hb
  · rcases h with h | ⟨⟨-, hb⟩, r, hr, hnot⟩
    · split
      · exact h
      · exact mem_append_left _ h
    · rw [Option.mem_def.mp hr]
      exact mem_append_right _ (mem_filter.mpr ⟨hb, by simpa using hnot⟩)
  · exact h.resolve_right fun hfails => hdue hfails.1.1

theorem mem_failed_tick {b : B} (hno : NoReset s t) (h : b ∈ s.warmSessionFailed ∨ Fails s t b) :
    b ∈ (s.tick t).warmSessionFailed := by
  have hb := mem_failed_topUp h
  unfold NoReset at hno
  simp only [State.tick, State.reset, hno, Bool.false_eq_true, if_false]
  split_ifs <;> exact hb

end Steps

/-- **When the list is the pool.**  In every reachable state the pool has distinct lines, is sorted
by latency, is bounded, and has no bridge whose last warm-up retired it.  After a tick that changes
the pool the file lists the pool exactly unless the reset of the tick retires bridges of the pool
and warms none.  And a bridge that has failed in a top-up is not tried again before a reset. -/
theorem published_iff {bridges : List B} (hbridges : bridges.Nodup) {file : List B}
    {lastTopup : Option ℕ} {ts : List (Tick B)} {s : State B}
    (hrun : (machine B).Run (Meets bridges) (start file lastTopup) ts s) :
    (s.lines.Nodup ∧ (s.rotationBridges.Pairwise fun a b => a.2 ≤ b.2) ∧
      s.rotationBridges.length ≤ max targetWarmPoolSize maxWarmBridges ∧
      ∀ b ∈ s.lines, s.tried b ≠ some .retired) ∧
    (∀ t, Meets bridges s t → Changes s t →
      ((s.tick t).file = (s.tick t).lines ↔ ¬ RetiresOnly (s.topUp t) t)) ∧
    ∀ t b, Fails s t b → NoReset s t → ∀ us v, (machine B).Run NoReset (s.tick t) us v →
      ∀ t', ¬ Tries v t' b := by
  have h := inv_of_run hbridges hrun
  refine ⟨⟨h.nodup, h.sorted, h.length_le, h.usable⟩,
    fun t hmeets => file_eq_iff (inv_topUp h hmeets), ?_⟩
  intro t b hfails hno us v hrun' t' htries
  have hmem : b ∈ v.warmSessionFailed := by
    refine hrun'.invariant (I := fun v => b ∈ v.warmSessionFailed)
      (fun u t u' hu hno hstep => ?_) (mem_failed_tick hno (.inr hfails))
    simp only [machine] at hstep
    split_ifs at hstep
    cases hstep
    exact mem_failed_tick hno (.inl hu)
  exact (not_mem_of_batch htries.2).2 hmem

/-- A tick of the one bridge whose connectivity probe fails. -/
def failing (now : ℕ) (topup : Results Unit) (rewarm : Outcome) : Tick Unit :=
  ⟨now, [()], some topup, false, now, true, some [((), rewarm)]⟩

/-- The bridge warms in the first tick. -/
def warmRun : List (Tick Unit) := [failing 0 [((), .warm 5)] .failed, failing 45 [] .failed]

instance (candidates : List Unit) (results : Results Unit) :
    Decidable (ResultsOf candidates results) := by unfold ResultsOf; infer_instance

theorem meets_failing {s : State Unit} {now : ℕ} {a : Results Unit} {b : Outcome}
    (h : ResultsOf (s.batch (failing now a b)) a)
    (h' : ResultsOf ((s.topUp (failing now a b)).candidates [()]) [((), b)]) :
    Meets [()] s (failing now a b) :=
  ⟨by simp [failing], by rintro _ ⟨⟩; exact h, by rintro _ ⟨⟩; exact h'⟩

theorem warmRun_run : (machine Unit).Run (Meets [()]) (start [] none)
    warmRun ((machine Unit).after (start [] none) warmRun) :=
  ((Machine.Run.refl _).tail (meets_failing (by decide +kernel) (by decide +kernel)) rfl).tail
    (meets_failing (by decide +kernel) (by decide +kernel)) rfl

theorem published_iff_warmRun :
    ((machine Unit).after (start [] none) warmRun).rotationBridges.length ≤
      max targetWarmPoolSize maxWarmBridges :=
  (published_iff (List.nodup_singleton ()) warmRun_run).1.2.2.1

/-- **The list keeps a retired bridge.**  The reset of the third tick retires the only bridge of the
pool. -/
theorem retired_bridge_listed :
    (machine Unit).Run (Meets [()]) (start [] none) warmRun
      ((machine Unit).after (start [] none) warmRun) ∧
    Meets [()] ((machine Unit).after (start [] none) warmRun) (failing 90 [] .retired) ∧
    (((machine Unit).after (start [] none) warmRun).tick (failing 90 [] .retired)).lines = [] ∧
    (((machine Unit).after (start [] none) warmRun).tick (failing 90 [] .retired)).file = [()] ∧
    ((machine Unit).after (start [] none) warmRun).lines = [()] :=
  ⟨warmRun_run, meets_failing (by decide +kernel) (by decide +kernel), by decide +kernel,
    by decide +kernel, by decide +kernel⟩

end RotationPool
