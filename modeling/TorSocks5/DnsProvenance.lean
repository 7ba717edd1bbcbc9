/-
**Where the answers of the two stores come from.**

An answer enters the stores in one of two ways: a lookup publishes it under the reading of the wall
clock that the publish takes itself, or a hint brings it along with the stamp it was given
elsewhere.  From then on it is moved between the live cache, the fallback store and the file, over
any number of flushes, saves, restarts and loads.  Every move carries the stamp along: nothing in
the stores or in a file is younger than it was when it came in.
-/

import TorSocks5.DnsFile

set_option autoImplicit false

namespace Dns

variable {Addr : Type}

/-! ### What has come in -/

/-- A publish: the process and the task, the host, and the answer under its stamp. -/
structure Publish (Addr : Type) where
  process : ℕ
  task : ℕ
  host : List Char
  answer : PersistedAnswer Addr
  deriving DecidableEq

/-- The record of a history. -/
structure Log (Addr : Type) where
  /-- The number of the process that runs. -/
  process : ℕ
  /-- The publishes that have read the wall clock, each with its own reading. -/
  stamped : List (Publish Addr)
  /-- The publishes that have been inserted into the live cache. -/
  published : List (Publish Addr)
  /-- The hints that have been imported. -/
  hinted : List (List Char × PersistedAnswer Addr)

/-- The answer came in with these addresses and this stamp: with a hint, or with a publish that took
the stamp from the wall clock. -/
def Log.Introduced (log : Log Addr) (host : List Char) (answer : PersistedAnswer Addr) : Prop :=
  (host, answer) ∈ log.hinted ∨
    ∃ n i, ⟨n, i, host, answer⟩ ∈ log.stamped ∧ ⟨n, i, host, answer⟩ ∈ log.published

/-- The answer of a live entry. -/
def CachedAnswer.persisted (entry : CachedAnswer Addr) : PersistedAnswer Addr :=
  ⟨entry.addrs, entry.resolvedAtUnix⟩

/-- The answer of a line. -/
def PersistSnapshot.persisted {Host : Type} (line : PersistSnapshot Host Addr) :
    PersistedAnswer Addr :=
  ⟨line.addrs, line.resolvedAtUnix⟩

/-- The record after a step of the stores. -/
def Log.note (log : Log Addr) (s : State (List Char) Addr) : Action (List Char) Addr → Log Addr
  | .stamp i =>
    match s.tasks i with
    | .expiring host addrs _ _ =>
      { log with stamped := log.stamped ++ [⟨log.process, i, host, ⟨addrs, s.wall⟩⟩] }
    | _ => log
  | .insert i =>
    match s.tasks i with
    | .inserting false host answer _ =>
      { log with published := log.published ++ [⟨log.process, i, host, answer.persisted⟩] }
    | _ => log
  | _ => log

/-- One record has all that the other has. -/
structure Log.Le (log log' : Log Addr) : Prop where
  stamped : log.stamped ⊆ log'.stamped
  published : log.published ⊆ log'.published
  hinted : log.hinted ⊆ log'.hinted

theorem Log.Le.refl (log : Log Addr) : log.Le log :=
  ⟨List.Subset.refl _, List.Subset.refl _, List.Subset.refl _⟩

variable {log log' : Log Addr} {host : List Char} {a : Action (List Char) Addr}
  {fmt : AddrText Addr}
theorem Log.Introduced.mono (hle : log.Le log')
    {answer : PersistedAnswer Addr} (h : log.Introduced host answer) :
      log'.Introduced host answer := by
  rcases h with hhint | ⟨n, i, hstamped, hpublished⟩
  · exact .inl (hle.hinted hhint)
  · exact .inr ⟨n, i, hle.stamped hstamped, hle.published hpublished⟩

theorem Log.le_note (log : Log Addr) (s : State (List Char) Addr) (a : Action (List Char) Addr) :
    log.Le (log.note s a) := by
  cases a with
  | stamp i =>
    simp only [Log.note]
    split
    · exact ⟨List.subset_append_left _ _, List.Subset.refl _, List.Subset.refl _⟩
    · exact Log.Le.refl log
  | insert i =>
    simp only [Log.note]
    split
    · exact ⟨List.Subset.refl _, List.subset_append_left _ _, List.Subset.refl _⟩
    · exact Log.Le.refl log
  | _ => exact Log.Le.refl log

theorem Log.note_process (log : Log Addr) (s : State (List Char) Addr)
    (a : Action (List Char) Addr) :
    (log.note s a).process = log.process := by
  cases a with
  | stamp i | insert i =>
    simp only [Log.note]
    split <;> rfl
  | _ => rfl

/-! ### What the stores and the tasks hold -/

/-- An answer that has come in, for a host that a file can hold. -/
def Known (log : Log Addr) (host : List Char) (answer : PersistedAnswer Addr) : Prop :=
  Clean host ∧ log.Introduced host answer

/-- What a task has in hand has come in. -/
def TaskOk (log : Log Addr) (i : ℕ) : Task (List Char) Addr → Prop
  | .expiring host _ _ _ => Clean host
  | .publishing host answer _ | .comparing host answer _ | .inserting false host answer _ =>
    Clean host ∧ ⟨log.process, i, host, answer.persisted⟩ ∈ log.stamped
  | .inserting true _ answer _ => answer.addrs = []
  | .flushing kept | .bumped kept | .merging kept | .seeding kept =>
    ∀ e ∈ kept, Known log e.1 e.2
  | .saveLive live | .saveWall live _ => ∀ l ∈ live, Known log l.host l.persisted
  | .saved live disk => ∀ l ∈ live ++ disk, Known log l.host l.persisted
  | _ => True

/-- The positive answers of a live cache have come in. -/
def LiveOk (log : Log Addr) (live : Table (List Char) (CachedAnswer Addr)) : Prop :=
  ∀ host entry, live.get host = some entry → entry.addrs ≠ [] → Known log host entry.persisted

/-- The answers of a fallback store have come in. -/
def FallbackOk (log : Log Addr) (fallback : Table (List Char) (PersistedAnswer Addr)) : Prop :=
  ∀ host answer, fallback.get host = some answer → Known log host answer

/-- Everything that the stores and the tasks hold has come in. -/
structure StoresOk (log : Log Addr) (s : State (List Char) Addr) : Prop where
  live : LiveOk log s.live
  fallback : FallbackOk log s.fallback
  tasks : ∀ i, TaskOk log i (s.tasks i)

theorem Known.mono (hle : log.Le log')
    {answer : PersistedAnswer Addr} (h : Known log host answer) : Known log' host answer :=
  ⟨h.1, h.2.mono hle⟩

theorem TaskOk.mono (hle : log.Le log') (hprocess : log'.process = log.process)
    {i : ℕ} {p : Task (List Char) Addr} (h : TaskOk log i p) : TaskOk log' i p := by
  have hstamped : ∀ {host : List Char} {answer : PersistedAnswer Addr},
      ⟨log.process, i, host, answer⟩ ∈ log.stamped →
        ⟨log'.process, i, host, answer⟩ ∈ log'.stamped := by
    intro host answer hmem
    rw [hprocess]
    exact hle.stamped hmem
  cases p with
  | publishing host answer gen | comparing host answer gen => exact ⟨h.1, hstamped h.2⟩
  | inserting failure host answer gen =>
    cases failure with
    | true => exact h
    | false => exact ⟨h.1, hstamped h.2⟩
  | flushing kept | bumped kept | merging kept | seeding kept | saveLive kept | saveWall kept
  | saved kept => exact fun e he => (h e he).mono hle
  | _ => exact h

theorem LiveOk.mono (hle : log.Le log')
    {live : Table (List Char) (CachedAnswer Addr)} (h : LiveOk log live) : LiveOk log' live :=
  fun host entry hget hne => (h host entry hget hne).mono hle

theorem FallbackOk.mono (hle : log.Le log')
    {fallback : Table (List Char) (PersistedAnswer Addr)} (h : FallbackOk log fallback) :
    FallbackOk log' fallback :=
  fun host answer hget => (h host answer hget).mono hle

theorem storesOk_init (log : Log Addr) : StoresOk log init := by
  exact ⟨nofun, nofun, fun _ => trivial⟩

/-! ### What is moved between the stores -/

section Moves

variable {log : Log Addr} {live : Table (List Char) (CachedAnswer Addr)}
  {fallback : Table (List Char) (PersistedAnswer Addr)}

theorem LiveOk.known (h : LiveOk log live) {now : ℕ} {b : (_ : List Char) × CachedAnswer Addr}
    (hb : b ∈ (live.retain fun _ entry => exportable entry now).entries) :
    Known log b.1 ⟨b.2.addrs, b.2.resolvedAtUnix⟩ := by
  obtain ⟨hget, hexport⟩ := Table.get_of_get_retain (Table.mem_entries.1 hb)
  exact h b.1 b.2 hget (by simpa using (Bool.and_eq_true_iff.1 hexport).1)

theorem known_preserved (h : LiveOk log live) (now : ℕ) :
    ∀ e ∈ preserved live now, Known log e.1 e.2 := by
  intro e he
  obtain ⟨b, hb, rfl⟩ := List.mem_map.1 he
  exact h.known hb

theorem known_liveSnapshot (h : LiveOk log live) (now : ℕ) :
    ∀ l ∈ liveSnapshot live now, Known log l.host l.persisted := by
  intro l hl
  obtain ⟨b, hb, rfl⟩ := List.mem_map.1 hl
  exact h.known hb

theorem known_diskSnapshot (h : FallbackOk log fallback)
    (lines : List (PersistSnapshot (List Char) Addr)) (now : ℕ) :
    ∀ l ∈ diskSnapshot fallback lines now, Known log l.host l.persisted := by
  intro l hl
  obtain ⟨b, hb, rfl⟩ := List.mem_map.1 hl
  exact h b.1 b.2 (Table.get_of_get_retain (Table.mem_entries.1 hb)).1

/-- A merge adds what it is given. -/
theorem FallbackOk.merge (h : FallbackOk log fallback) {entry : PersistedAnswer Addr}
    (hentry : Known log host entry) : FallbackOk log (mergeDiskFallbackEntry fallback host entry)
    := by
  intro k answer hget
  rw [get_merge] at hget
  split_ifs at hget with hk
  · subst hk
    cases hget
    cases hold : fallback.get k with
    | none => exact hentry
    | some old =>
      simp only [newer]
      split_ifs
      · exact h k old hold
      · exact hentry
  · exact h k answer hget

theorem LiveOk.insert (h : LiveOk log live) {answer : CachedAnswer Addr} (now : ℕ)
    (hanswer : answer.addrs ≠ [] → Known log host answer.persisted) :
    LiveOk log (insertCapped live host answer now) := by
  intro k entry hget hne
  rcases eq_or_ne k host with rfl | hk
  · rw [get_insertCapped_self] at hget
    cases hget
    exact hanswer hne
  · exact h k entry (get_of_get_insertCapped hk hget) hne

end Moves

/-! ### Steps of the stores -/

/-- What an action brings in from outside: the host of a lookup is clean, and what is loaded or
imported has come in before. -/
def Arrives (log : Log Addr) : Action (List Char) Addr → Prop
  | .answer _ host _ _ => Clean host
  | .seed _ entries => ∀ e ∈ entries, Known log e.1 e.2
  | _ => True

variable [DecidableEq Addr]

/-- A task that moves holds, and leaves behind, what has come in. -/
theorem move_ok {s e : State (List Char) Addr} {i : ℕ}
    {p : Task (List Char) Addr} (hs : StoresOk log s) (ha : Arrives log a) (h : Move s a i p e) :
    TaskOk (log.note s a) i p ∧ LiveOk (log.note s a) e.live ∧
      FallbackOk (log.note s a) e.fallback := by
  have hle := log.le_note s a
  have htask := (hs.tasks i).mono hle (log.note_process s a)
  have hlive := hs.live.mono hle
  have hfallback := hs.fallback.mono hle
  cases h with
  | answered host addrs validFor _ => exact ⟨ha, hlive, hfallback⟩
  | answerLocked hat _ | answerCurrent hat _ | bumped hat | wallRead hat =>
    rw [hat] at htask
    exact ⟨htask, hlive, hfallback⟩
  | @stamped i gen expiresAt host addrs hat =>
    rw [hat] at htask
    refine ⟨⟨htask, ?_⟩, hlive, hfallback⟩
    simp [Log.note, hat, CachedAnswer.persisted]
  | failStamped _ => exact ⟨rfl, hlive, hfallback⟩
  | @failInserted i gen host answer hat =>
    rw [hat] at htask
    exact ⟨trivial, hlive.insert s.mono fun hne => absurd htask hne, hfallback⟩
  | @inserted i gen host answer hat =>
    rw [hat] at htask
    refine ⟨trivial, hlive.insert s.mono fun _ => ⟨htask.1, .inr ⟨_, i, htask.2, ?_⟩⟩, hfallback⟩
    simp [Log.note, hat, State.issue, CachedAnswer.persisted]
  | @removed i host observed triedAddrs entry _ _ _ _ =>
    exact ⟨trivial, fun k entry' hget => hlive k entry' (Table.get_of_get_remove hget), hfallback⟩
  | flushLocked _ _ => exact ⟨known_preserved hlive s.mono, hlive, hfallback⟩
  | cleared hat =>
    rw [hat] at htask
    exact ⟨htask, by rintro _ _ ⟨⟩, hfallback⟩
  | seeded entries _ => exact ⟨ha, hlive, hfallback⟩
  | flushMerged hat | seedMerged hat =>
    rw [hat] at htask
    obtain ⟨hfirst, hrest⟩ := List.forall_mem_cons.1 htask
    exact ⟨hrest, hlive, hfallback.merge hfirst⟩
  | liveRead _ _ => exact ⟨known_liveSnapshot hlive _, hlive, hfallback⟩
  | @fallbackRead i now live hat =>
    rw [hat] at htask
    exact ⟨List.forall_mem_append.2 ⟨htask, known_diskSnapshot hfallback live now⟩, hlive,
      hfallback⟩
  | _ => exact ⟨trivial, hlive, hfallback⟩

/-- **No step of the stores makes up an answer.** -/
theorem storesOk_step {s t : State (List Char) Addr}
    (hs : StoresOk log s) (ha : Arrives log a) (h : step s a = some t) :
    StoresOk (log.note s a) t := by
  have hle := log.le_note s a
  have hlive := hs.live.mono hle
  have hfallback := hs.fallback.mono hle
  have htasks : ∀ i, TaskOk (log.note s a) i (s.tasks i) := fun i =>
    (hs.tasks i).mono hle (log.note_process s a)
  cases step_cases h with
  | @moved _ i p e hmove =>
    obtain ⟨hp, hlive, hfallback⟩ := move_ok hs ha hmove
    refine ⟨hlive, hfallback, fun j => ?_⟩
    rcases eq_or_ne j i with rfl | hj
    · rwa [State.move_self]
    · rw [State.move_of_ne _ hj, hmove.tasks_eq]
      exact htasks j
  | @rehashedLive live hperm =>
    exact ⟨fun host entry hget => hlive host entry ((Table.get_of_perm hperm host).trans hget),
      hfallback, htasks⟩
  | @rehashedFallback fallback hperm =>
    exact ⟨hlive, fun host answer hget =>
      hfallback host answer ((Table.get_of_perm hperm host).trans hget), htasks⟩
  | _ => exact ⟨hlive, hfallback, htasks⟩

/-! ### Histories -/

/-- The process that runs, the files that have been written, and the record. -/
structure History (Addr : Type) where
  stores : State (List Char) Addr
  files : List (List Char)
  log : Log Addr

/-- Before the first process has done anything. -/
def History.start : History Addr := ⟨init, [], ⟨0, [], [], []⟩⟩

/-- What happens in a history. -/
inductive Event (Addr : Type)
  /-- A step of the stores, other than the beginning of a load or an import. -/
  | act (a : Action (List Char) Addr)
  /-- A save that has its snapshots writes a file. -/
  | write (i : ℕ)
  /-- The process ends and another one starts. -/
  | restart
  /-- The task `i` loads a file that was saved before. -/
  | load (i : ℕ) (text : List Char) (clock : ℕ → ℕ)
  /-- The task `i` imports hints. -/
  | importHints (i : ℕ) (hints : List (DnsHint (List Char) Addr))

/-- The successor of a history. -/
def History.next (fmt : AddrText Addr) (h : History Addr) : Event Addr → Option (History Addr)
  | .act (.seed _ _) => none
  | .act a => (step h.stores a).map fun t =>
    { h with stores := t, log := h.log.note h.stores a }
  | .write i =>
    match h.stores.tasks i with
    | .saved live disk => some { h with files := h.files ++ [persistedText fmt (live ++ disk)] }
    | _ => none
  | .restart => some { h with stores := init, log := { h.log with process := h.log.process + 1 } }
  | .load i text clock =>
    if h.files.contains text then
      (step h.stores (.seed i (fileEntries fmt clock text))).map fun t =>
        { h with stores := t }
    else none
  | .importHints i hints =>
    (step h.stores (.seed i (hints.map DnsHint.entry))).map fun t =>
      { h with
        stores := t
        log := { h.log with hinted := h.log.hinted ++ hints.map DnsHint.entry } }

/-- Histories as a machine. -/
def histories (fmt : AddrText Addr) : Machine (History Addr) (Event Addr) := ⟨History.next fmt⟩

/-- The hosts that come in have no tab and no line feed. -/
def CleanEvent (_ : History Addr) : Event Addr → Prop
  | .act (.answer _ host _ _) => Clean host
  | .importHints _ hints => ∀ hint ∈ hints, Clean hint.host
  | _ => True

/-- A saved file has lines of answers that have come in. -/
def FileOk (fmt : AddrText Addr) (log : Log Addr) (text : List Char) : Prop :=
  ∃ lines : List (PersistSnapshot (List Char) Addr), text = persistedText fmt lines ∧
    ∀ l ∈ lines, Known log l.host l.persisted

/-- Everything that the process and the files hold has come in. -/
structure Provenance (fmt : AddrText Addr) (h : History Addr) : Prop where
  stores : StoresOk h.log h.stores
  files : ∀ text ∈ h.files, FileOk fmt h.log text

theorem next_act {h h' : History Addr}
    (hnext : h.next fmt (.act a) = some h') : (∀ i entries, a ≠ .seed i entries) ∧
      ∃ t, step h.stores a = some t ∧ h' =
        { h with stores := t, log := h.log.note h.stores a } := by
  cases a with
  | seed i entries => cases hnext
  | _ =>
    obtain ⟨t, ht, rfl⟩ := Option.map_eq_some_iff.1 hnext
    exact ⟨fun i entries => by simp, t, ht, rfl⟩

omit [DecidableEq Addr] in
theorem FileOk.mono (hle : log.Le log') {text : List Char}
    (h : FileOk fmt log text) : FileOk fmt log' text := by
  obtain ⟨lines, htext, hlines⟩ := h
  exact ⟨lines, htext, fun l hl => (hlines l hl).mono hle⟩

omit [DecidableEq Addr] in
theorem FileOk.known (law : fmt.Law) {text : List Char} (h : FileOk fmt log text) (clock : ℕ → ℕ) :
      ∀ e ∈ fileEntries fmt clock text, Known log e.1 e.2 := by
  obtain ⟨lines, rfl, hlines⟩ := h
  rintro ⟨host, entry⟩ he
  exact hlines _ (mem_fileEntries law (fun l hl => (hlines l hl).1) he).2

/-- **Nothing that happens makes up an answer.** -/
theorem provenance_step (law : fmt.Law) {h h' : History Addr} {e : Event Addr}
    (hp : Provenance fmt h) (hclean : CleanEvent h e) (hnext : h.next fmt e = some h') :
    Provenance fmt h' := by
  cases e with
  | act a =>
    obtain ⟨hseed, t, ht, rfl⟩ := next_act hnext
    have ha : Arrives h.log a := by
      cases a with
      | answer i host addrs validFor => exact hclean
      | seed i entries => exact absurd rfl (hseed i entries)
      | _ => trivial
    exact ⟨storesOk_step hp.stores ha ht,
      fun text htext => (hp.files text htext).mono (h.log.le_note h.stores a)⟩
  | write i =>
    simp only [History.next] at hnext
    split at hnext <;> cases hnext
    rename_i live disk htask
    have hlines := hp.stores.tasks i
    rw [htask] at hlines
    refine ⟨hp.stores, ?_⟩
    intro text htext
    rcases List.mem_append.1 htext with htext | htext
    · exact hp.files text htext
    · exact ⟨live ++ disk, List.mem_singleton.1 htext, hlines⟩
  | restart =>
    cases hnext
    have hle : h.log.Le { h.log with process := h.log.process + 1 } :=
      ⟨List.Subset.refl _, List.Subset.refl _, List.Subset.refl _⟩
    exact ⟨storesOk_init _, fun text htext => (hp.files text htext).mono hle⟩
  | load i text clock =>
    simp only [History.next] at hnext
    split_ifs at hnext with hfile
    obtain ⟨t, ht, rfl⟩ := Option.map_eq_some_iff.1 hnext
    have ha : Arrives h.log (.seed i (fileEntries fmt clock text)) :=
      (hp.files text (List.contains_iff_mem.1 hfile)).known law clock
    exact ⟨storesOk_step hp.stores ha ht, hp.files⟩
  | importHints i hints =>
    obtain ⟨t, ht, rfl⟩ := Option.map_eq_some_iff.1 hnext
    -- the hints come in before they are merged
    have hle : h.log.Le { h.log with hinted := h.log.hinted ++ hints.map DnsHint.entry } :=
      ⟨List.Subset.refl _, List.Subset.refl _, List.subset_append_left _ _⟩
    have hstores : StoresOk { h.log with hinted := h.log.hinted ++ hints.map DnsHint.entry }
        h.stores :=
      ⟨hp.stores.live.mono hle, hp.stores.fallback.mono hle,
        fun i => (hp.stores.tasks i).mono hle rfl⟩
    refine ⟨storesOk_step hstores ?_ ht, fun text htext => (hp.files text htext).mono hle⟩
    intro entry hentry
    obtain ⟨hint, hhint, rfl⟩ := List.mem_map.1 hentry
    exact ⟨hclean hint hhint, .inl (List.mem_append_right _ hentry)⟩

theorem provenance_of_run (law : fmt.Law) {h : History Addr}
    {events : List (Event Addr)} (hrun : (histories fmt).Run CleanEvent History.start events h) :
    Provenance fmt h := by
  refine hrun.invariant (fun h e h' hp hclean hnext => provenance_step law hp hclean hnext) ?_
  exact ⟨storesOk_init _, fun text htext => absurd htext List.not_mem_nil⟩

/-! ### The last resort -/

/-- `disk_fallback_answer`. -/
def diskFallbackAnswer (store : Table (List Char) (PersistedAnswer Addr)) (host : List Char)
    (now : ℕ) :
    Option (List Addr) :=
  (store.get host).bind fun entry =>
    if dnsStaleFallbackWindowSecs < now - entry.resolvedAtUnix then none else some entry.addrs

omit [DecidableEq Addr] in
theorem diskFallbackAnswer_eq_some_iff {store : Table (List Char) (PersistedAnswer Addr)} {now : ℕ}
    {addrs : List Addr} :
    diskFallbackAnswer store host now = some addrs ↔
      ∃ stamp, store.get host = some ⟨addrs, stamp⟩ ∧ now ≤ stamp + dnsStaleFallbackWindowSecs := by
  rw [diskFallbackAnswer, Option.bind_eq_some_iff]
  constructor
  · rintro ⟨entry, hget, hentry⟩
    split_ifs at hentry with hold
    cases hentry
    exact ⟨entry.resolvedAtUnix, hget, by omega⟩
  · rintro ⟨stamp, hget, hfresh⟩
    exact ⟨_, hget, if_neg (show ¬ dnsStaleFallbackWindowSecs < now - stamp by omega)⟩

/-- **Persistence never rejuvenates an answer.**  After any history, every positive answer of the
live cache, every answer of the fallback store and every answer that can be read from a saved file
has come in with exactly its addresses and its stamp; so the last resort never has an answer that
came in longer ago than the window allows. -/
theorem no_rejuvenation (fmt : AddrText Addr) (law : fmt.Law) {h : History Addr}
    {events : List (Event Addr)} (hrun : (histories fmt).Run CleanEvent History.start events h) :
    (∀ host entry, h.stores.live.get host = some entry → entry.addrs ≠ [] →
      h.log.Introduced host ⟨entry.addrs, entry.resolvedAtUnix⟩) ∧
    (∀ host answer, h.stores.fallback.get host = some answer → h.log.Introduced host answer) ∧
    (∀ text ∈ h.files, ∀ clock host answer, (host, answer) ∈ fileEntries fmt clock text →
      h.log.Introduced host answer) ∧
    ∀ host now addrs, diskFallbackAnswer h.stores.fallback host now = some addrs →
      ∃ stamp, h.log.Introduced host ⟨addrs, stamp⟩ ∧ now ≤ stamp + dnsStaleFallbackWindowSecs := by
  obtain ⟨hstores, hfiles⟩ := provenance_of_run law hrun
  refine ⟨?_, ?_, ?_, ?_⟩
  · intro host entry hget hne
    exact (hstores.live host entry hget hne).2
  · intro host answer hget
    exact (hstores.fallback host answer hget).2
  · intro text htext clock host answer hread
    exact ((hfiles text htext).known law clock _ hread).2
  · intro host now addrs hanswer
    obtain ⟨stamp, hget, hfresh⟩ := diskFallbackAnswer_eq_some_iff.1 hanswer
    exact ⟨stamp, (hstores.fallback host _ hget).2, hfresh⟩

/-- Addresses written as numbers. -/
def decimalText : AddrText ℕ := ⟨Nat.toDigits 10, fun s => some (Nat.ofDigitChars 10 s 0)⟩

theorem decimalText_law : decimalText.Law := by
  have hdigit : ∀ (n : ℕ) {c : Char}, c.isDigit = false → c ∉ Nat.toDigits 10 n := by
    intro n c hc hmem
    simp [Nat.isDigit_of_mem_toDigits (by norm_num) (by norm_num) hmem] at hc
  exact ⟨fun n => congrArg some (Nat.ofDigitChars_toDigits (by norm_num) (by norm_num)),
    fun n => Nat.toDigits_ne_nil, fun n => hdigit n (by decide), fun n => hdigit n (by decide),
    fun n => hdigit n (by decide)⟩

/-- An answer of wall time `1000` is published and saved; the process ends; the next one loads the
file a day later. -/
def savedAndLoaded : List (Event ℕ) :=
  [.tick 0 1000, .begin 0, .answer 0 "a".toList [8] 0, .stamp 0,
    .lock 0, .compare 0, .insert 0, .save 1, .readInstant 1,
    .readLive 1, .readWall 1, .readFallback 1].map .act ++
  [.write 1, .restart, .load 0 "a\t8\t1000".toList (fun _ => 87400),
    .act (.merge 0), .act (.finish 0)]

/-- The last resort has the answer at the end of the window, under the stamp it came in with. -/
theorem no_rejuvenation_savedAndLoaded :
    ∃ h : History ℕ, (histories decimalText).Run CleanEvent History.start savedAndLoaded h ∧
      diskFallbackAnswer h.stores.fallback "a".toList 87400 = some [8] ∧
      ∃ stamp, h.log.Introduced "a".toList ⟨[8], stamp⟩ ∧
        87400 ≤ stamp + dnsStaleFallbackWindowSecs := by
  have hexec : (histories decimalText).exec History.start savedAndLoaded =
      some ((histories decimalText).after History.start savedAndLoaded) :=
    Machine.exec_eq_after (by decide +kernel)
  have hrun : (histories decimalText).Run CleanEvent History.start savedAndLoaded
      ((histories decimalText).after History.start savedAndLoaded) := by
    refine Machine.Run.of_exec_mem ?_ hexec
    intro e he h
    simp only [savedAndLoaded, List.map_cons, List.map_nil, List.cons_append, List.nil_append,
      List.mem_cons, List.not_mem_nil, or_false] at he
    rcases he with rfl | rfl | rfl | rfl | rfl | rfl | rfl | rfl | rfl | rfl | rfl | rfl | rfl | rfl |
      rfl | rfl | rfl <;> trivial
  have hanswer : diskFallbackAnswer ((histories decimalText).after History.start
      savedAndLoaded).stores.fallback "a".toList 87400 = some [8] := by decide +kernel
  exact ⟨_, hrun, hanswer,
    (no_rejuvenation decimalText decimalText_law hrun).2.2.2 _ _ _ hanswer⟩

end Dns
