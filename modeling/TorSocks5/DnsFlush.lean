/-
**A flush loses no answer that is worth saving.**

A flush empties the live cache and fills the fallback store, and the two stores have locks of their
own.  The flush gate is held over the whole transition and by every save from its first read to its
last, so a save sees the stores before a flush or after it.  The proof follows one answer: from the
moment the flush takes the mutex it is in what the flush has yet to merge, or the fallback store has
an answer for the host that is at least as new; and whatever is published for the host after the
bump was stamped after it.
-/

import TorSocks5.DnsGenerations

set_option autoImplicit false

namespace Dns

variable {Host Addr : Type*}

variable {s t : State Host Addr} {a : Action Host Addr} {as : List (Action Host Addr)} {i : ℕ}
  {p : Task Host Addr} {host : Host} {kept : List (Host × PersistedAnswer Addr)}
  {live : List (PersistSnapshot Host Addr)}

/-! ### Conditions on the clocks and the generation -/

/-- The steps at which the wall clock does not go back. -/
def WallForward (s : State Host Addr) (a : Action Host Addr) : Prop :=
  ∀ mono wall, a = .tick mono wall → s.wall ≤ wall

/-- The steps at which the wall clock does not go back and the generation does not wrap. -/
def Steady (s : State Host Addr) (a : Action Host Addr) : Prop :=
  WallForward s a ∧ GenerationFits s a

/-! ### What tasks carry -/

/-- The stamped answer a publish carries, with its host and the generation it captured. -/
def Task.pending : Task Host Addr → Option (Host × CachedAnswer Addr × ℕ)
  | .publishing host answer gen | .comparing host answer gen
  | .inserting _ host answer gen => some (host, answer, gen)
  | _ => none

/-- The entries a flush has yet to merge. -/
def Task.toMerge : Task Host Addr → Option (List (Host × PersistedAnswer Addr))
  | .flushing kept | .bumped kept | .merging kept => some kept
  | _ => none

/-- The live lines of a save that has not returned yet. -/
def Task.hasRead : Task Host Addr → Option (List (PersistSnapshot Host Addr))
  | .saveLive live | .saveWall live _ => some live
  | _ => none

theorem Task.holdsGate_of_toMerge (h : p.toMerge = some kept) : p.holdsGate = true := by
  cases p <;> first | rfl | cases h

theorem Task.holdsGate_of_hasRead (h : p.hasRead = some live) : p.holdsGate = true := by
  cases p <;> first | rfl | cases h

theorem Task.captured_of_pending {answer : CachedAnswer Addr}
    {gen : ℕ} (h : p.pending = some (host, answer, gen)) : p.captured = some gen := by
  cases p <;> simp_all [Task.pending, Task.captured]

variable [DecidableEq Host] [DecidableEq Addr]

section Moves

variable {s e : State Host Addr} {a : Action Host Addr} {i : ℕ} {p : Task Host Addr}

theorem Move.wall_eq (h : Move s a i p e) : e.wall = s.wall := by
  cases h <;> rfl

theorem Move.pending (h : Move s a i p e) {answer : CachedAnswer Addr} {gen : ℕ}
    (hp : p.pending = some (host, answer, gen)) :
    (s.tasks i).pending = some (host, answer, gen) ∨ answer.resolvedAtUnix = s.wall := by
  cases h
  case stamped _ | failStamped _ => cases hp; exact .inr rfl
  case answerLocked _ htask | answerCurrent _ htask => exact .inl (htask ▸ hp)
  all_goals cases hp

theorem Move.hasRead (h : Move s a i p e) (hp : p.hasRead = some live) :
    (s.tasks i).hasRead = some live ∨ ∃ nowInstant, live = liveSnapshot s.live nowInstant := by
  cases h
  case liveRead nowInstant _ _ => exact .inr ⟨nowInstant, (Option.some.inj hp).symm⟩
  case wallRead htask => exact .inl (htask ▸ hp)
  all_goals cases hp

theorem Move.fallback (h : Move s a i p e) :
    e.fallback = s.fallback ∨
      ∃ host entry, e.fallback = mergeDiskFallbackEntry s.fallback host entry := by
  cases h
  case flushMerged _ | seedMerged _ => exact .inr ⟨_, _, rfl⟩
  all_goals exact .inl rfl

/-- What a flush has yet to merge stays so at its next move, or is merged by it. -/
theorem Move.toMerge (h : Move s a i p e)
    (hkept : (s.tasks i).toMerge = some kept) {entry : PersistedAnswer Addr}
    (hmem : (host, entry) ∈ kept) :
    (∃ kept', p.toMerge = some kept' ∧ (host, entry) ∈ kept') ∨
      e.fallback = mergeDiskFallbackEntry s.fallback host entry := by
  cases h
  all_goals rw [‹s.tasks i = _›] at hkept; cases hkept
  case bumped | cleared => exact .inl ⟨_, rfl, hmem⟩
  case flushMerged =>
    rcases List.mem_cons.1 hmem with heq | hmem
    · cases heq
      exact .inr rfl
    · exact .inl ⟨_, rfl, hmem⟩
  case flushFinished => cases hmem

end Moves

/-! ### Stamps and the wall clock -/

/-- No stamp is ahead of the wall clock. -/
structure Stamped (s : State Host Addr) : Prop where
  live : ∀ host entry, s.live.get host = some entry → entry.resolvedAtUnix ≤ s.wall
  pending : ∀ i host answer gen, (s.tasks i).pending = some (host, answer, gen) →
    answer.resolvedAtUnix ≤ s.wall

omit [DecidableEq Addr] in
theorem stamped_init : Stamped (init : State Host Addr) := by
  exact ⟨by simp [init], nofun⟩

theorem stamped_step (hs : Stamped s) (hok : WallForward s a) (h : Step s a t) : Stamped t := by
  obtain ⟨hlive, hpending⟩ := hs
  cases h with
  | @moved _ i p e hm =>
    have hwall : (e.move i p).wall = s.wall := hm.wall_eq
    refine ⟨fun host entry hg => ?_, fun j host answer gen hj => ?_⟩
    · rw [hwall]
      rcases hm.get_live hg with hold | ⟨_, answer, gen, htask, rfl, -⟩
      · exact hlive host entry hold
      · exact hpending i host answer gen (htask ▸ rfl)
    · rw [hwall]
      rcases eq_or_ne j i with rfl | hji
      · rw [State.move_self] at hj
        exact (hm.pending hj).elim (hpending j host answer gen) Eq.le
      · rw [State.move_of_ne e hji, hm.tasks_eq] at hj
        exact hpending j host answer gen hj
  | ticked wall _ =>
    have hle : s.wall ≤ wall := hok _ _ rfl
    exact ⟨fun host entry hg => (hlive host entry hg).trans hle,
      fun i host answer gen hi => (hpending i host answer gen hi).trans hle⟩
  | rehashedLive hperm =>
    exact ⟨fun host entry hg => hlive host entry ((Table.get_of_perm hperm host).trans hg),
      hpending⟩
  | _ => exact ⟨hlive, hpending⟩

/-! ### Carrying an answer -/

/-- An answer of `host` that is at least as new as `stamp` is in the fallback store or in what a
flush has yet to merge; and nothing older stands for the host in the live cache or in what a save
has read, or can still be published. -/
structure Carried (host : Host) (stamp : ℕ) (s : State Host Addr) : Prop where
  wall : stamp ≤ s.wall
  live : ∀ entry, s.live.get host = some entry → stamp ≤ entry.resolvedAtUnix
  /-- Before its bump a flush keeps all publishes out by the mutex; after it, the publishes that can
  still pass the comparison were stamped late enough. -/
  pending : (∀ i kept, s.tasks i ≠ .flushing kept) → ∀ i answer,
    (s.tasks i).pending = some (host, answer, s.generation) → stamp ≤ answer.resolvedAtUnix
  read : ∀ i live, (s.tasks i).hasRead = some live →
    (live.filter fun l => l.host = host).length ≤ 1 ∧
      ∀ l ∈ live, l.host = host → stamp ≤ l.resolvedAtUnix
  kept : (∃ p, s.fallback.get host = some p ∧ stamp ≤ p.resolvedAtUnix) ∨
    ∃ i kept p, (s.tasks i).toMerge = some kept ∧ (host, p) ∈ kept ∧ stamp ≤ p.resolvedAtUnix

/-- A flush that takes the mutex carries every usable positive answer. -/
theorem carried_of_flushLock {entry : CachedAnswer Addr} (hl : Locks s) (hs : Stamped s)
    (h : step s (.flushLock i) = some t) (hg : s.live.get host = some entry)
    (hexport : exportable entry s.mono = true) : Carried host entry.resolvedAtUnix t := by
  have hcases := step_cases h
  cases hcases with
  | moved hm =>
    cases hm with
    | flushLocked htask _ =>
      have hgate : (s.tasks i).holdsGate = true := by
        rw [htask]
        rfl
      refine ⟨hs.live host entry hg, ?_, ?_, ?_, ?_⟩
      · exact fun entry' hg' => (congrArg _ (Option.some.inj (hg.symm.trans hg'))).le
      · exact fun hnone => absurd (State.move_self _ i _) (hnone i _)
      · intro j live hj
        rcases eq_or_ne j i with rfl | hji
        · rw [State.move_self] at hj
          cases hj
        · rw [State.move_of_ne _ hji] at hj
          exact absurd (hl.gate.unique (Task.holdsGate_of_hasRead hj) hgate) hji
      · refine .inr ⟨i, _, _, ?_, mem_preserved hg hexport, le_rfl⟩
        rw [State.move_self]
        rfl
  | missed hask => cases hask
  | found hask _ _ => cases hask

section Moves

variable {s e : State Host Addr} {a : Action Host Addr} {i : ℕ} {p : Task Host Addr} {host : Host}
  {stamp : ℕ}

theorem Carried.live_move (hl : Locks s) (hc : Current s) (hs : Carried host stamp s)
    (h : Move s a i p e) {entry : CachedAnswer Addr} (hg : e.live.get host = some entry) :
    stamp ≤ entry.resolvedAtUnix := by
  rcases h.get_live hg with hold | ⟨_, answer, gen, htask, rfl, -⟩
  · exact hs.live entry hold
  · obtain rfl : gen = s.generation := hc.agreed i gen (htask ▸ rfl)
    refine hs.pending (fun k kept hk => ?_) i answer (htask ▸ rfl)
    -- A flush before its bump holds the mutex, and so does the task that inserts.
    obtain rfl : k = i := hl.cache.unique (hk ▸ rfl) (htask ▸ rfl)
    rw [htask] at hk
    cases hk

theorem Carried.pending_move (hcap : CapturedLe s) (hs : Carried host stamp s)
    (h : Move s a i p e) (hok : GenerationFits s a)
    (hnone : ∀ k kept, (e.move i p).tasks k ≠ .flushing kept) (j : ℕ)
    {answer : CachedAnswer Addr}
    (hj : ((e.move i p).tasks j).pending = some (host, answer, e.generation)) :
    stamp ≤ answer.resolvedAtUnix := by
  by_cases hi : ∃ kept, s.tasks i = .flushing kept
  · -- The only way out of this point is the bump, which outdates all that was captured before.
    obtain ⟨kept, hi⟩ := hi
    cases h
    case bumped _ =>
      have hnew : (s.generation + 1) % counterSize = s.generation + 1 :=
        Nat.mod_eq_of_lt (hok i rfl)
      rcases eq_or_ne j i with rfl | hji
      · rw [State.move_self] at hj
        cases hj
      · rw [State.move_of_ne _ hji] at hj
        have hle : (s.generation + 1) % counterSize ≤ s.generation :=
          hcap j _ (Task.captured_of_pending hj)
        omega
    all_goals simp [hi] at *
  · have hbefore : ∀ k kept, s.tasks k ≠ .flushing kept := by
      intro k kept hk
      rcases eq_or_ne k i with rfl | hki
      · exact hi ⟨kept, hk⟩
      · exact hnone k kept (by rw [State.move_of_ne e hki, h.tasks_eq, hk])
    have hgen : e.generation = s.generation := by
      rcases h.effect with ⟨-, hgen, -⟩ | ⟨-, -, hgen, -⟩ | ⟨_, -, -, hgen, -⟩ | ⟨htask, -, -⟩ |
        ⟨-, rfl⟩
      exacts [hgen, hgen, hgen, absurd ⟨_, htask⟩ hi, rfl]
    rw [hgen] at hj
    rcases eq_or_ne j i with rfl | hji
    · rw [State.move_self] at hj
      exact (h.pending hj).elim (hs.pending hbefore j answer) fun hnew => hnew ▸ hs.wall
    · rw [State.move_of_ne e hji, h.tasks_eq] at hj
      exact hs.pending hbefore j answer hj

omit [DecidableEq Addr] in
/-- What a save reads of the live cache has at most one line for a host, and it is not older than
the entry of the host. -/
theorem liveSnapshot_lines {cache : Table Host (CachedAnswer Addr)} {nowInstant : ℕ}
    (h : ∀ entry, cache.get host = some entry → stamp ≤ entry.resolvedAtUnix) :
    ((liveSnapshot cache nowInstant).filter fun l => l.host = host).length ≤ 1 ∧
      ∀ l ∈ liveSnapshot cache nowInstant, l.host = host → stamp ≤ l.resolvedAtUnix := by
  have hlines := filter_liveSnapshot cache nowInstant host
  constructor
  · rw [hlines, List.length_map]
    cases (cache.get host).filter fun e => exportable e nowInstant <;> simp
  · intro l hl hhost
    have hmem : l ∈ (liveSnapshot cache nowInstant).filter fun l => l.host = host :=
      List.mem_filter.2 ⟨hl, by simpa using hhost⟩
    rw [hlines] at hmem
    obtain ⟨entry, hentry, rfl⟩ := List.mem_map.1 hmem
    exact h entry (Option.filter_eq_some_iff.1 (Option.mem_toList.1 hentry)).1

theorem Carried.read_move (hs : Carried host stamp s) (h : Move s a i p e) (j : ℕ)
    (hj : ((e.move i p).tasks j).hasRead = some live) :
    (live.filter fun l => l.host = host).length ≤ 1 ∧
      ∀ l ∈ live, l.host = host → stamp ≤ l.resolvedAtUnix := by
  rcases eq_or_ne j i with rfl | hji
  · rw [State.move_self] at hj
    rcases h.hasRead hj with hold | ⟨nowInstant, rfl⟩
    · exact hs.read j live hold
    · exact liveSnapshot_lines hs.live
  · rw [State.move_of_ne e hji, h.tasks_eq] at hj
    exact hs.read j live hj

theorem Carried.kept_move (hs : Carried host stamp s) (h : Move s a i p e) :
    (∃ q, e.fallback.get host = some q ∧ stamp ≤ q.resolvedAtUnix) ∨
      ∃ j kept q, ((e.move i p).tasks j).toMerge = some kept ∧ (host, q) ∈ kept ∧
        stamp ≤ q.resolvedAtUnix := by
  rcases hs.kept with ⟨q, hq, hle⟩ | ⟨j, kept, q, hkept, hmem, hle⟩
  · rcases h.fallback with heq | ⟨k, entry, heq⟩
    · exact .inl ⟨q, heq ▸ hq, hle⟩
    · obtain ⟨q', hq', hle'⟩ := le_stamp_merge hq k entry
      exact .inl ⟨q', heq ▸ hq', hle.trans hle'⟩
  · rcases eq_or_ne j i with rfl | hji
    · rcases h.toMerge hkept hmem with ⟨kept', hkept', hmem'⟩ | heq
      · exact .inr ⟨j, kept', q, by rwa [State.move_self], hmem', hle⟩
      · obtain ⟨q', hq', hle'⟩ := le_stamp_merge_self s.fallback host q
        exact .inl ⟨q', heq ▸ hq', hle.trans hle'⟩
    · exact .inr ⟨j, kept, q, by rwa [State.move_of_ne e hji, h.tasks_eq], hmem, hle⟩

end Moves

/-- **Every step goes on carrying the answer.** -/
theorem carried_step {stamp : ℕ}
    (hl : Locks s) (hc : Current s) (hcap : CapturedLe s) (hs : Carried host stamp s)
    (hok : Steady s a) (h : Step s a t) : Carried host stamp t := by
  cases h with
  | @moved _ i p e hm =>
    exact {
      wall := hs.wall.trans hm.wall_eq.symm.le
      live := fun _ hg => hs.live_move hl hc hm hg
      pending := fun hnone j _ hj => hs.pending_move hcap hm hok.2 hnone j hj
      read := fun j _ hj => hs.read_move hm j hj
      kept := hs.kept_move hm }
  | ticked wall _ => exact { hs with wall := hs.wall.trans (hok.1 _ _ rfl) }
  | rehashedLive hperm =>
    exact { hs with
      live := fun entry hg => hs.live entry ((Table.get_of_perm hperm host).trans hg) }
  | rehashedFallback hperm =>
    exact { hs with
      kept := hs.kept.imp_left fun ⟨p, hp, hle⟩ =>
        ⟨p, (Table.get_of_perm hperm host).symm.trans hp, hle⟩ }
  | missed _ => exact hs
  | found _ _ _ => exact { hs with }

theorem reached_of_run
    (h : machine.Run Steady init as s) : Locks s ∧ Current s ∧ CapturedLe s ∧ Stamped s := by
  refine h.invariant (I := fun s => Locks s ∧ Current s ∧ CapturedLe s ∧ Stamped s) ?_
    ⟨locks_init, current_init, capturedLe_init, stamped_init⟩
  rintro s a t ⟨hl, hc, hcap, hs⟩ hok hstep
  have h := step_cases hstep
  exact ⟨locks_step hl h, current_step hl hc h, capturedLe_step hcap hok.2 h,
    stamped_step hs hok.1 h⟩

theorem carried_of_run {stamp : ℕ} (h : machine.Run Steady s as t) (hl : Locks s) (hc : Current s)
    (hcap : CapturedLe s) (hs : Carried host stamp s) : Locks t ∧ Carried host stamp t := by
  have hall := h.invariant
    (I := fun s => Locks s ∧ Current s ∧ CapturedLe s ∧ Carried host stamp s) ?_ ⟨hl, hc, hcap, hs⟩
  · exact ⟨hall.1, hall.2.2.2⟩
  · rintro s a t ⟨hl, hc, hcap, hs⟩ hok hstep
    have h := step_cases hstep
    exact ⟨locks_step hl h, current_step hl hc h, capturedLe_step hcap hok.2 h,
      carried_step hl hc hcap hs hok h⟩

/-! ### What a save finds -/

omit [DecidableEq Addr] in
/-- A save that is about to read the fallback store finds one line for a carried host. -/
theorem Carried.lines {stamp j now : ℕ} (hl : Locks s) (hs : Carried host stamp s)
    (htask : s.tasks j = .saveWall live now)
    (hnow : now ≤ stamp + dnsStaleFallbackWindowSecs) :
    ∃ line, ((live ++ diskSnapshot s.fallback live now).filter fun l => l.host = host) = [line] ∧
      stamp ≤ line.resolvedAtUnix := by
  obtain ⟨hone, hstamps⟩ := hs.read j live (htask ▸ rfl)
  rw [List.filter_append, filter_diskSnapshot]
  by_cases hin : host ∈ live.map PersistSnapshot.host
  · rw [if_pos hin, List.append_nil]
    obtain ⟨l, hl', hhost⟩ := List.mem_map.1 hin
    have hmem : l ∈ live.filter fun l => l.host = host :=
      List.mem_filter.2 ⟨hl', by simpa using hhost⟩
    obtain ⟨line, hline⟩ := List.length_eq_one_iff.1
      (Nat.le_antisymm hone (List.length_pos_of_mem hmem))
    rw [hline] at hmem ⊢
    obtain rfl := List.mem_singleton.1 hmem
    exact ⟨l, rfl, hstamps l hl' hhost⟩
  · have hnil : (live.filter fun l => l.host = host) = [] := by
      rw [List.filter_eq_nil_iff]
      exact fun l hl' hhost => hin (List.mem_map.2 ⟨l, hl', by simpa using hhost⟩)
    rcases hs.kept with ⟨p, hp, hle⟩ | ⟨k, kept, p, hkept, -, -⟩
    · have hfresh : unexpired p now = true := decide_eq_true (by omega)
      refine ⟨⟨host, p.addrs, p.resolvedAtUnix⟩, ?_, hle⟩
      rw [hnil, if_neg hin, hp]
      simp [Option.filter, hfresh]
    · -- A flush that has something to merge holds the gate.
      obtain rfl : k = j :=
        hl.gate.unique (Task.holdsGate_of_toMerge hkept) (htask ▸ rfl)
      rw [htask] at hkept
      cases hkept

/-- **A flush loses no answer that is worth saving.**  If the wall clock does not go back and the
generation does not wrap: a host that has a usable positive answer when a flush takes the mutex has
exactly one line, with a stamp at least as new, in every save that reads the stores afterwards and
not later than the window after the stamp.  In every run, when a save is about to read either store
no flush is between clearing the cache and the end of its merges. -/
theorem flush_loses_no_answer {as bs : List (Action Host Addr)} {m n t u : State Host Addr}
    {i j now : ℕ} {host : Host} {entry : CachedAnswer Addr}
    {live : List (PersistSnapshot Host Addr)} (hrun : machine.Run Steady init as m)
    (hlock : step m (.flushLock i) = some n) (hget : m.live.get host = some entry)
    (hpos : entry.addrs ≠ []) (huse : liveEntryIsUsable entry m.mono = true)
    (hrest : machine.Run Steady n bs t) (htask : t.tasks j = .saveWall live now)
    (hread : step t (.readFallback j) = some u)
    (hnow : now ≤ entry.resolvedAtUnix + dnsStaleFallbackWindowSecs) :
    (∃ disk line, u.tasks j = .saved live disk ∧
      ((live ++ disk).filter fun l => l.host = host) = [line] ∧
      entry.resolvedAtUnix ≤ line.resolvedAtUnix) ∧
    ∀ (cs : List (Action Host Addr)) (x y : State Host Addr) (k l : ℕ)
      (kept : List (Host × PersistedAnswer Addr)), machine.Run Machine.anyStep init cs x →
      step x (.readLive k) = some y ∨ step x (.readFallback k) = some y →
      x.tasks l ≠ .bumped kept ∧ x.tasks l ≠ .merging kept := by
  constructor
  · obtain ⟨hl, hc, hcap, hstamped⟩ := reached_of_run hrun
    have hcases := step_cases hlock
    have hexport : exportable entry m.mono = true := by simp [exportable, hpos, huse]
    obtain ⟨hlt, hcarried⟩ := carried_of_run hrest (locks_step hl hcases)
      (current_step hl hc hcases) (capturedLe_step hcap (fun _ h => by cases h) hcases)
      (carried_of_flushLock hl hstamped hlock hget hexport)
    obtain ⟨line, hline, hle⟩ := hcarried.lines hlt htask hnow
    refine ⟨diskSnapshot t.fallback live now, line, ?_, hline, hle⟩
    simp only [step, htask, Option.some.injEq] at hread
    rw [← hread, State.move_self]
  · intro cs x y k l kept hx hstep
    have hl := locks_of_run hx
    have hsave : (x.tasks k).holdsGate = true ∧ (x.tasks k).toMerge = none := by
      rcases hstep with hstep | hstep
      all_goals
        cases step_cases hstep with
        | moved hm =>
          cases hm
          rw [‹x.tasks k = _›]
          exact ⟨rfl, rfl⟩
        | missed hask => cases hask
        | found hask _ _ => cases hask
    have hflush : (x.tasks l).toMerge ≠ some kept := by
      intro hmerge
      obtain rfl := hl.gate.unique (Task.holdsGate_of_toMerge hmerge) hsave.1
      rw [hsave.2] at hmerge
      cases hmerge
    exact ⟨fun h => hflush (by rw [h]; rfl), fun h => hflush (by rw [h]; rfl)⟩

/-! ### Runs without and with a wrap of the generation -/

theorem steady_of_length_lt {bs : List (Action Host Addr)}
    (h : machine.Run WallForward init as s) (h' : machine.Run WallForward s bs t)
    (hlen : as.length + bs.length + 1 < counterSize) : machine.Run Steady s bs t := by
  induction h' with
  | refl => exact .refl _
  | @tail t u bs a hrun hok hstep ih =>
    rw [List.length_append, List.length_singleton] at hlen
    have hcount := (counters_le_of_run (h.trans hrun)).1
    rw [List.length_append] at hcount
    exact (ih (by omega)).tail ⟨hok, fun _ _ => by omega⟩ hstep

/-- A publish at wall time `10`, up to the moment before a flush takes the mutex. -/
def publishedThenFlushed : List (Action ℕ ℕ) :=
  [.begin 0, .answer 0 5 [8] 0, .stamp 0, .lock 0, .compare 0,
    .insert 0, .flush 1]

/-- The rest of the flush with a failure published in its window, and a save. -/
def flushedThenSaved : List (Action ℕ ℕ) :=
  [.bump 1, .begin 2, .clear 1, .fail 2 5, .lock 2,
    .compare 2, .look 2, .expire 2, .stamp 2, .insert 2,
    .merge 1, .finish 1, .save 3, .readInstant 3, .readLive 3,
    .readWall 3]

theorem wallForward_of_exec
    (h : machine.exec s as = some t) (has : ∀ a ∈ as, a.mover.isSome = true) :
    machine.Run WallForward s as t := by
  refine Machine.Run.of_exec_mem (fun a ha _ mono wall heq => ?_) h
  have hmover := has a ha
  rw [heq] at hmover
  cases hmover

theorem flush_loses_no_answer_window :
    ∃ m n t u : State ℕ ℕ,
      machine.Run Steady init (.tick 0 10 :: publishedThenFlushed) m ∧
      step m (.flushLock 1) = some n ∧ machine.Run Steady n flushedThenSaved t ∧
      step t (.readFallback 3) = some u ∧
      ∃ disk line, u.tasks 3 = .saved [] disk ∧
        (disk.filter fun l => l.host = 5) = [line] ∧ 10 ≤ line.resolvedAtUnix := by
  let as := .tick 0 10 :: publishedThenFlushed
  let bs := as ++ [.flushLock 1]
  let cs := bs ++ flushedThenSaved
  have htick : WallForward (init : State ℕ ℕ) (.tick 0 10) := fun _ _ h => by cases h; decide
  have has : machine.Run WallForward (init : State ℕ ℕ) as (machine.after init as) := by
    refine Machine.Run.head htick rfl (wallForward_of_exec ?_ (by decide))
    exact Machine.exec_after init [Action.tick 0 10] publishedThenFlushed (by decide +kernel)
  have hlock := Machine.exec_after (M := machine) (init : State ℕ ℕ) as [.flushLock 1]
    (by decide +kernel)
  have hcs := Machine.exec_after (M := machine) (init : State ℕ ℕ) bs flushedThenSaved
    (by decide +kernel)
  have hread := Machine.exec_after (M := machine) (init : State ℕ ℕ) cs [.readFallback 3]
    (by decide +kernel)
  rw [Machine.exec_singleton] at hlock hread
  have hlock : step (machine.after init as) (.flushLock 1) = some (machine.after init bs) :=
    hlock
  have hread : step (machine.after init cs) (.readFallback 3) = some _ := hread
  have hbs : machine.Run WallForward (init : State ℕ ℕ) bs (machine.after init bs) :=
    has.tail (fun _ _ h => by cases h) hlock
  have hsteady := steady_of_length_lt (.refl _) has (by decide)
  have hrest := steady_of_length_lt hbs (wallForward_of_exec hcs (by decide)) (by decide)
  have hget : (machine.after (init : State ℕ ℕ) as).live.get 5 =
      some ⟨[8], secs 60, 10, 0, 1⟩ := by decide +kernel
  have huse : liveEntryIsUsable (⟨[8], secs 60, 10, 0, 1⟩ : CachedAnswer ℕ)
      (machine.after (init : State ℕ ℕ) as).mono = true := by decide +kernel
  have htask : (machine.after (init : State ℕ ℕ) cs).tasks 3 = .saveWall [] 10 := by
    decide +kernel
  obtain ⟨disk, line, hsaved, hline, hle⟩ := (flush_loses_no_answer hsteady hlock hget (by simp)
    huse hrest htask hread (by decide)).1
  exact ⟨_, _, _, _, hsteady, hlock, hrest, hread, disk, line, hsaved, hline, hle⟩

/-! ### A run in which the generation comes back -/

/-- A flush of an empty cache. -/
def emptyFlush (k : ℕ) : List (Action ℕ ℕ) :=
  [.flush k, .flushLock k, .bump k, .clear k, .finish k]

/-- Flushes one after the other, by the tasks `3` to `n + 2`. -/
def emptyFlushes : ℕ → List (Action ℕ ℕ)
  | 0 => []
  | n + 1 => emptyFlushes n ++ emptyFlush (n + 3)

/-- What a flush of an empty cache changes: the generation. -/
structure Flushed (g : ℕ) (s : State ℕ ℕ) : Prop where
  clocks : s.mono = 0 ∧ s.wall = 10
  locks : s.cacheLock = none ∧ s.gate = none
  live : s.live = ∅
  fallback : s.fallback.get 5 = some ⟨[8], 10⟩
  late : s.tasks 0 = .publishing 5 ⟨[7], secs 60, 0, 0, 0⟩ 0
  generation : s.generation = g

theorem run_emptyFlush {s : State ℕ ℕ} {g k : ℕ} (hs : Flushed g s) (hidle : s.tasks k = .idle)
    (hk : k ≠ 0) :
    ∃ t, machine.Run WallForward s (emptyFlush k) t ∧ Flushed ((g + 1) % counterSize) t := by
  obtain ⟨hclocks, ⟨hcache, hgate⟩, hlive, hfall, hlate, rfl⟩ := hs
  have hkept : preserved s.live s.mono = [] := by
    rw [hlive]
    rfl
  let gated := { s with gate := some k }.move k .flushGated
  let flushing := { gated with cacheLock := some k }.move k (.flushing [])
  let bumped := { flushing with generation := (s.generation + 1) % counterSize }.move k
    (.bumped [])
  let merging := { bumped with live := ∅, cacheLock := none }.move k (.merging [])
  let finished := { merging with gate := none }.move k .finished
  have hexec : machine.exec s (emptyFlush k) = some finished := by
    simp [emptyFlush, Machine.exec_cons, Machine.exec_nil, machine, step, hidle, hgate, hcache,
      hkept, finished, merging, bumped, flushing, gated]
  refine ⟨finished, wallForward_of_exec hexec (by simp [emptyFlush, Action.mover]), ?_⟩
  constructor <;> simp [finished, merging, bumped, flushing, gated, State.move_of_ne _ hk.symm, *]

theorem run_emptyFlushes {s : State ℕ ℕ} {g : ℕ} (hg : g < counterSize) (hs : Flushed g s)
    (hidle : ∀ k, 3 ≤ k → s.tasks k = .idle) (n : ℕ) :
    ∃ t, machine.Run WallForward s (emptyFlushes n) t ∧ Flushed ((g + n) % counterSize) t ∧
      ∀ k, n + 3 ≤ k → t.tasks k = .idle := by
  induction n with
  | zero => exact ⟨s, .refl _, by rwa [Nat.add_zero, Nat.mod_eq_of_lt hg], hidle⟩
  | succ n ih =>
    obtain ⟨t, ht, hflushed, htidle⟩ := ih
    obtain ⟨u, hu, hflushed'⟩ := run_emptyFlush hflushed (htidle (n + 3) le_rfl) (by omega)
    refine ⟨u, ht.trans hu, by rwa [Nat.mod_add_mod, Nat.add_assoc] at hflushed', fun k hk => ?_⟩
    rw [tasks_eq_of_run hu (by simp [emptyFlush, Action.mover, (show n + 3 ≠ k by omega)])]
    exact htidle k (by omega)

/-- The late publish and a save, once the generation has come back to `0`. -/
def lateThenSaved (j : ℕ) : List (Action ℕ ℕ) :=
  [.lock 0, .compare 0, .insert 0, .save j, .readInstant j,
    .readLive j, .readWall j]

theorem run_lateThenSaved {s : State ℕ ℕ} {j : ℕ} (hs : Flushed 0 s)
    (hidle : s.tasks j = .idle) (hj : j ≠ 0) :
    ∃ t, machine.Run WallForward s (lateThenSaved j) t ∧
      t.tasks j = .saveWall [⟨5, [7], 0⟩] 10 := by
  obtain ⟨⟨hmono, hwall⟩, ⟨hcache, hgate⟩, hlive, -, hlate, hgen⟩ := hs
  let answer : CachedAnswer ℕ := ⟨[7], secs 60, 0, 0, 0⟩
  let comparing := { s with cacheLock := some 0 }.move 0 (.comparing 5 answer 0)
  let inserting := comparing.move 0 (.inserting false 5 answer 0)
  let answered := (inserting.inserted 0 5 answer).returned 0 false 5 (inserting.issue answer)
  let gated := { answered with gate := some j }.move j .saveGated
  let snapped := (gated.move j (.saveTimed 0)).move j (.saveLive [⟨5, [7], 0⟩])
  have hinsert : machine.exec s [.lock 0, .compare 0, .insert 0] = some answered := by
    simp [Machine.exec_cons, Machine.exec_nil, machine, step, hlate, hcache, hgen, answered,
      inserting, comparing, answer]
  -- the insert has released the mutex and touched neither the gate nor the other tasks
  have hfields : answered.tasks j = .idle ∧ answered.gate = none ∧ answered.cacheLock = none ∧
      answered.mono = 0 ∧ answered.wall = 10 ∧
      answered.live = insertCapped ∅ 5 ⟨[7], secs 60, 0, 0, s.nextVersion⟩ 0 := by
    simp [answered, inserting, comparing, State.returned, State.observe, State.inserted,
      State.issue, State.move_of_ne _ hj, hidle, hgate, hmono, hwall, hlive, hgen, answer]
  obtain ⟨htask, hopen, hfree, hmono', hwall', hlive'⟩ := hfields
  have hline : liveSnapshot (insertCapped (∅ : Table ℕ (CachedAnswer ℕ)) 5
      ⟨[7], secs 60, 0, 0, s.nextVersion⟩ 0) 0 = [⟨5, [7], 0⟩] := rfl
  have hsave : machine.exec answered [.save j, .readInstant j, .readLive j, .readWall j] =
      some (snapped.move j (.saveWall [⟨5, [7], 0⟩] 10)) := by
    simp [Machine.exec_cons, Machine.exec_nil, machine, step, htask, hopen, hmono', hfree, hlive',
      hline, hwall', snapped, gated]
  exact ⟨_, (wallForward_of_exec hinsert (by simp [Action.mover])).trans
    (wallForward_of_exec hsave (by simp [Action.mover])), State.move_self _ _ _⟩

/-- A late publish is stamped at wall time `0`; another one is inserted at wall time `10`, and a
flush is about to take the mutex. -/
def stampedThenFlushed : List (Action ℕ ℕ) :=
  [.begin 0, .answer 0 5 [7] 0, .stamp 0, .tick 0 10, .begin 1,
    .answer 1 5 [8] 0, .stamp 1, .lock 1, .compare 1, .insert 1,
    .flush 2]

/-- The rest of that flush. -/
def firstFlush : List (Action ℕ ℕ) :=
  [.bump 2, .clear 2, .merge 2, .finish 2]

/-- **An older answer comes back.**  After `2 ^ 64` flushes the generation is what it was, a publish
that captured it before the first of them passes the comparison, and a save has its answer, which
is older than the one the first flush found in the cache. -/
theorem old_answer_returns :
    ∃ (as bs : List (Action ℕ ℕ)) (m n t u : State ℕ ℕ) (i j now : ℕ) (entry : CachedAnswer ℕ)
      (live disk : List (PersistSnapshot ℕ ℕ)) (line : PersistSnapshot ℕ ℕ),
      machine.Run WallForward init as m ∧ step m (.flushLock i) = some n ∧
      m.live.get 5 = some entry ∧ entry.addrs ≠ [] ∧ liveEntryIsUsable entry m.mono = true ∧
      machine.Run WallForward n bs t ∧ t.tasks j = .saveWall live now ∧
      step t (.readFallback j) = some u ∧
      now ≤ entry.resolvedAtUnix + dnsStaleFallbackWindowSecs ∧
      u.tasks j = .saved live disk ∧
      ((live ++ disk).filter fun l => l.host = 5) = [line] ∧
      line.resolvedAtUnix < entry.resolvedAtUnix := by
  let as := stampedThenFlushed
  let bs := as ++ [.flushLock 2]
  let cs := bs ++ firstFlush
  have hstart : machine.exec (init : State ℕ ℕ) (as.take 3) =
      some (machine.after init (as.take 3)) := Machine.exec_eq_after (by decide +kernel)
  have htick := Machine.exec_after (M := machine) (init : State ℕ ℕ) (as.take 3)
    [.tick 0 10] (by decide +kernel)
  have hrest := Machine.exec_after (M := machine) (init : State ℕ ℕ) (as.take 4) (as.drop 4)
    (by decide +kernel)
  have hlock := Machine.exec_after (M := machine) (init : State ℕ ℕ) as [.flushLock 2]
    (by decide +kernel)
  have hflush := Machine.exec_after (M := machine) (init : State ℕ ℕ) bs firstFlush
    (by decide +kernel)
  rw [Machine.exec_singleton] at htick hlock
  have hlock : step (machine.after init as) (.flushLock 2) = some (machine.after init bs) :=
    hlock
  have hwall : WallForward (machine.after (init : State ℕ ℕ) (as.take 3)) (.tick 0 10) := by
    intro mono wall heq
    cases heq
    decide +kernel
  have has : machine.Run WallForward (init : State ℕ ℕ) as (machine.after init as) :=
    ((wallForward_of_exec hstart (by decide)).tail hwall htick).trans
      (wallForward_of_exec hrest (by decide))
  have hcs : machine.Run WallForward (machine.after (init : State ℕ ℕ) bs) firstFlush
      (machine.after init cs) := wallForward_of_exec hflush (by decide)
  have hflushed : Flushed 1 (machine.after (init : State ℕ ℕ) cs) :=
    ⟨by decide +kernel, by decide +kernel, AList.ext (by decide +kernel), by decide +kernel,
      by decide +kernel, by decide +kernel⟩
  have hidle : ∀ k, 3 ≤ k → (machine.after (init : State ℕ ℕ) cs).tasks k = .idle := by
    intro k hk
    have hbs : machine.Run WallForward (init : State ℕ ℕ) bs (machine.after init bs) :=
      has.tail (fun _ _ h => by cases h) hlock
    have hne : k ≠ 0 ∧ k ≠ 1 ∧ k ≠ 2 := by omega
    refine tasks_eq_of_run (hbs.trans hcs) ?_
    simp [as, bs, stampedThenFlushed, firstFlush, Action.mover, Ne.symm hne.1, Ne.symm hne.2.1,
      Ne.symm hne.2.2]
  -- Together with the first flush these are `2 ^ 64`.
  obtain ⟨s, hs, hwrapped, hsidle⟩ := run_emptyFlushes (by decide) hflushed hidle (counterSize - 1)
  have hzero : Flushed 0 s := by
    have heq : (1 + (counterSize - 1)) % counterSize = 0 := by decide
    rwa [heq] at hwrapped
  let j := counterSize + 2
  obtain ⟨t, ht, htask⟩ := run_lateThenSaved hzero (hsidle j (by decide)) (by decide)
  have hread : step t (.readFallback j) = some ({ t with gate := none }.move j
      (.saved [⟨5, [7], 0⟩] (diskSnapshot t.fallback [⟨5, [7], 0⟩] 10))) := by
    simp [step, htask]
  refine ⟨as, _, _, _, t, _, 2, j, 10, ⟨[8], secs 60, 10, 0, 1⟩, _, _, ⟨5, [7], 0⟩, has, hlock,
    by decide +kernel, by simp, by decide +kernel, (hcs.trans hs).trans ht, htask, hread,
    by decide, State.move_self _ _ _, ?_, by decide⟩
  rw [List.filter_append, filter_diskSnapshot]
  rfl

end Dns
