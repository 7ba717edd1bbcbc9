/-
**The ledger is a sliding window over the events.**

The store expires rows a little at a time: in every batch, in every advance and when it is opened,
always against the mark of the moment.  The result is the same as if it kept every event and looked
at the last window of them: a row is there exactly for the valid events whose second lies in the
window that ends at the mark, and the mark is the greatest of the clock readings and the valid
seconds.  Neither depends on the order of the events, on how they came in batches, or on restarts.
-/

import TorSocks5.Machine
import TorSocks5.StatisticsStore

set_option autoImplicit false

namespace Statistics

variable {N : Type}

/-! ### The machine -/

/-- The database, the store if the process has opened it, and what it has processed: the events of
the batches that were saved and the clock readings that reached the ledger. -/
structure Ledger where
  db : Database
  store : Option Store
  events : List Event
  clocks : List ℤ

def Ledger.init : Ledger := ⟨.fresh, none, [], []⟩

/-- The operations on the ledger; the process may end at any time. -/
inductive Operation
  | openAt (now : ℤ)
  | close
  | advance (now : ℤ)
  | batch (events : List Event) (now : ℤ) (status : Status) (failure : Option String)
  | refresh (now : ℤ) (status : Status) (final : Bool) (outcome : RefreshOutcome)
  | release (generation : ℕ)

/-- The ledger after an opening. -/
def openLedger (names : Names N) (s : Ledger) (now : ℤ) : Ledger :=
  let (db, store) := openStore names s.db now
  ⟨db, store, s.events, if store.isSome then now :: s.clocks else s.clocks⟩

/-- The ledger after a batch; a batch is processed if it has an event and no error. -/
def batchLedger (names : Names N) (s : Ledger) (store : Store) (events : List Event) (now : ℤ)
    (status : Status) (failure : Option String) : Ledger :=
  let outcome := batch names s.db store events now status failure
  if outcome.error = none ∧ events ≠ [] then
    ⟨outcome.db, some outcome.store, events ++ s.events, now :: s.clocks⟩
  else ⟨outcome.db, some outcome.store, s.events, s.clocks⟩

/-- The ledger after a refresh; its clock reading is processed unless it is refused. -/
def refreshLedger (s : Ledger) (store : Store) (now : ℤ) (status : Status) (final : Bool)
    (outcome : RefreshOutcome) : Ledger :=
  let (_, db, store') := refresh s.db store now status final outcome
  ⟨db, some store', s.events,
    if (refused store final).isNone then now :: s.clocks else s.clocks⟩

def ledgerStep (names : Names N) (s : Ledger) : Operation → Option Ledger
  | .openAt now => if s.store.isNone then some (openLedger names s now) else none
  | .close => some { s with store := none }
  | .advance now => s.store.map fun store =>
    let (db, store) := advance s.db store now
    ⟨db, some store, s.events, now :: s.clocks⟩
  | .batch events now status failure => s.store.map fun store =>
    batchLedger names s store events now status failure
  | .refresh now status final outcome => s.store.map fun store =>
    refreshLedger s store now status final outcome
  | .release generation => s.store.map fun store =>
    { s with store := some { store with leases := store.leases.map fun lease =>
        if lease.1 = generation then (lease.1, false) else lease } }

def ledger (names : Names N) : Machine Ledger Operation := ⟨ledgerStep names⟩

/-! ### The window -/

/-- The clock readings and the valid seconds that have been processed. -/
def moments (names : Names N) (events : List Event) (clocks : List ℤ) : Set ℤ :=
  {x | x ∈ clocks ∨ ∃ e ∈ events, valid names e = true ∧ e.second = x}

/-- The rows are those of the window that ends at a mark. -/
def Counts (names : Names N) (rows : Table Event ℕ) (events : List Event) (mark : ℤ) : Prop :=
  ∀ e, Tally.total rows e = if counted names mark e then events.count e else 0

/-- The invariant. -/
structure Window (names : Names N) (s : Ledger) : Prop where
  /-- Nothing is processed before the first opening. -/
  start : s.clocks = [] → s.store = none ∧ s.events = [] ∧ s.db.highwater = 0
  greatest : s.clocks ≠ [] → IsGreatest (moments names s.events s.clocks) s.db.highwater
  counts : Counts names s.db.rows s.events s.db.highwater
  positive : Tally.Positive s.db.rows
  /-- The open store knows the mark and the generation of the database. -/
  stored : ∀ store, s.store = some store →
    store.highwater = s.db.highwater ∧ store.generation = s.db.generation
  generations : ∀ t n, s.db.popular.get t = some n → t.generation ≤ s.db.generation
  popularPositive : Tally.Positive s.db.popular

section Moves

variable {names : Names N} {rows : Table Event ℕ} {events : List Event} {clocks : List ℤ}
  {mark mark' : ℤ}

theorem counted_of_le (h : mark ≤ mark') {e : Event} (hc : counted names mark' e = true) :
    counted names mark e = true := by
  grind [counted]

/-- Deleting what has left the window of a later mark.  The deletion may keep anything as long as it
keeps what is counted there and drops what is too old. -/
theorem counts_retain (h : Counts names rows events mark) (hle : mark ≤ mark')
    {keep : Event → Bool}
    (hkeep : ∀ e ∈ events, counted names mark' e = true → keep e = true)
    (hdrop : ∀ e, keep e = true → mark' - windowSeconds < e.second) :
    Counts names (rows.retain fun e _ => keep e) events mark' := by
  intro e
  have hold := h e
  have hle' : counted names mark' e = true → counted names mark e = true := counted_of_le hle
  rw [Tally.total_retain]
  by_cases hmem : e ∈ events
  · grind [counted]
  · grind [List.count_eq_zero_of_not_mem]

theorem inWindow_of_counted (hbound : ∀ e ∈ events, valid names e = true → e.second ≤ mark) :
    ∀ e ∈ events, counted names mark e = true → inWindow mark e = true := by
  grind [counted, inWindow]

theorem lt_of_inWindow {e : Event} (h : inWindow mark e = true) :
    mark - windowSeconds < e.second := by
  grind [inWindow]

/-- The rows after a batch. -/
theorem counts_batchRows {batch : List Event} (h : Counts names rows events mark)
    (hle : mark ≤ mark') (hbound : ∀ e ∈ events, valid names e = true → e.second ≤ mark') :
    Counts names (batchRows names rows mark' batch) (batch ++ events) mark' := by
  have hold := counts_retain h hle (inWindow_of_counted hbound) fun e he => lt_of_inWindow he
  intro e
  have hones : ∀ l : List Event,
      Tally.weight (l.map fun e => (e, 1)) (fun e' => e' = e) = l.count e := by
    intro l
    induction l with
    | nil => rfl
    | cons first l ih => grind [Tally.weight_cons]
  have hnew := hones (batch.filter (counted names mark'))
  unfold batchRows
  rw [Tally.total_addAll, hold e, Tally.weight_pairs_eq, Tally.total_addAll, Tally.total_empty,
    hnew, List.count_append]
  by_cases hc : counted names mark' e = true
  · simp [hc, List.count_filter hc, Nat.add_comm]
  · grind [List.count_eq_zero_of_not_mem]

theorem positive_batchRows {batch : List Event} (h : Tally.Positive rows) :
    Tally.Positive (batchRows names rows mark batch) := by
  have hcounts : Tally.Positive
      (Tally.addAll ∅ ((batch.filter (counted names mark)).map fun e => (e, 1))) := by
    refine Tally.positive_addAll Tally.positive_empty ?_
    intro q hq
    obtain ⟨e, -, rfl⟩ := List.mem_map.1 hq
    exact Nat.one_pos
  exact Tally.positive_addAll (Tally.positive_retain h _) (Tally.pos_of_mem_pairs hcounts)

/-! ### The mark -/

/-- The greatest of some values and of a start. -/
theorem foldl_max_spec : ∀ (l : List Event) (mark : ℤ),
    mark ≤ l.foldl (fun m e => max m e.second) mark ∧
      (∀ e ∈ l, e.second ≤ l.foldl (fun m e => max m e.second) mark) ∧
      (l.foldl (fun m e => max m e.second) mark = mark ∨
        ∃ e ∈ l, l.foldl (fun m e => max m e.second) mark = e.second) := by
  intro l
  induction l with
  | nil => simp
  | cons first l ih =>
    intro mark
    have htail := ih (max mark first.second)
    grind

/-- One more clock reading. -/
theorem greatest_clock (hmark : IsGreatest (moments names events clocks) mark) (now : ℤ) :
    IsGreatest (moments names events (now :: clocks)) (max mark now) := by
  constructor
  · grind [moments, hmark.1]
  · rintro x (hx | hx)
    · have hle := fun hx => hmark.2 (.inl hx : x ∈ moments names events clocks)
      grind
    · exact (hmark.2 (.inr hx)).trans (le_max_left _ _)

/-- More events. -/
theorem greatest_events (hmark : IsGreatest (moments names events clocks) mark)
    (batch : List Event) :
    IsGreatest (moments names (batch ++ events) clocks)
      ((batch.filter (valid names)).foldl (fun m e => max m e.second) mark) := by
  obtain ⟨hstart, hall, hone⟩ := foldl_max_spec (batch.filter (valid names)) mark
  constructor
  · rcases hone with heq | ⟨e, he, heq⟩
    · rw [heq]
      rcases hmark.1 with hc | ⟨e, he, hv⟩
      · exact .inl hc
      · exact .inr ⟨e, List.mem_append_right batch he, hv⟩
    · obtain ⟨hmem, hv⟩ := List.mem_filter.1 he
      exact .inr ⟨e, List.mem_append_left events hmem, hv, heq.symm⟩
  · rintro x (hx | ⟨e, he, hv, rfl⟩)
    · exact (hmark.2 (.inl hx)).trans hstart
    · rcases List.mem_append.1 he with he | he
      · exact hall e (List.mem_filter.2 ⟨he, hv⟩)
      · exact (hmark.2 (.inr ⟨e, he, hv, rfl⟩)).trans hstart

end Moves

/-! ### What a step keeps -/

section Steps

variable {names : Names N} {s : Ledger}

theorem Window.bound (h : Window names s) :
    ∀ e ∈ s.events, valid names e = true → e.second ≤ s.db.highwater := by
  intro e he hv
  by_cases hc : s.clocks = []
  · simp [(h.start hc).2.1] at he
  · exact (h.greatest hc).2 (.inr ⟨e, he, hv, rfl⟩)

theorem window_init : Window names .init := by
  refine ⟨fun _ => ⟨rfl, rfl, rfl⟩, fun h => absurd rfl h, fun e => ?_, Tally.positive_empty,
    nofun, nofun, Tally.positive_empty⟩
  exact (ite_self 0).symm

theorem Window.clocks_ne (h : Window names s) {store : Store} (hs : s.store = some store) :
    s.clocks ≠ [] := by
  intro hc
  simp [(h.start hc).1] at hs

theorem counts_advance (h : Window names s) (now : ℤ) :
    Counts names (s.db.rows.retain fun e _ => inWindow (max s.db.highwater now) e) s.events
      (max s.db.highwater now) := by
  refine counts_retain h.counts (le_max_left _ _) (inWindow_of_counted ?_)
    fun e he => lt_of_inWindow he
  intro e he hv
  exact (h.bound e he hv).trans (le_max_left _ _)

theorem window_advance (h : Window names s) {store : Store} (hs : s.store = some store) (now : ℤ) :
    Window names ⟨(advance s.db store now).1, some (advance s.db store now).2, s.events,
      now :: s.clocks⟩ := by
  obtain ⟨hmark, hgen⟩ := h.stored store hs
  simp only [advance, hmark]
  refine ⟨fun hc => by simp at hc, fun _ => ?_, counts_advance h now,
    Tally.positive_retain h.positive _, ?_, h.generations, h.popularPositive⟩
  · exact greatest_clock (h.greatest (h.clocks_ne hs)) now
  · rintro _ ⟨⟩
    exact ⟨rfl, hgen⟩

theorem restorable_of_counted {mark now : ℤ} {e : Event} (hc : counted names mark e = true)
    (hmark : e.second ≤ mark) (hnow : e.second ≤ now) : restorable names mark now e = true := by
  grind [counted, valid, restorable]

theorem lt_of_restorable {mark now : ℤ} {e : Event} (h : restorable names mark now e = true) :
    mark - windowSeconds < e.second := by
  grind [restorable]

/-- The two deletions of an opening. -/
theorem counts_open (h : Window names s) {now : ℤ} (hnow : s.db.highwater ≤ now) :
    Counts names ((s.db.rows.retain fun e _ => restorable names now now e).retain
      fun e _ => inWindow now e) s.events now := by
  have hbound : ∀ e ∈ s.events, valid names e = true → e.second ≤ now := fun e he hv =>
    (h.bound e he hv).trans hnow
  have hrestore : Counts names (s.db.rows.retain fun e _ => restorable names now now e) s.events
      now := by
    refine counts_retain h.counts hnow ?_ fun e he => lt_of_restorable he
    intro e he hc
    have hv : valid names e = true := by
      simp only [counted, Bool.and_eq_true] at hc
      exact hc.1
    exact restorable_of_counted hc (hbound e he hv) (hbound e he hv)
  exact counts_retain hrestore (le_refl now) (inWindow_of_counted hbound)
    fun e he => lt_of_inWindow he

/-- An opening is refused, and then the ledger stays as it is, or it moves the mark to the time of
the opening. -/
theorem openStore_cases (names : Names N) (db : Database) (now : ℤ) :
    ((openStore names db now).2 = none ∧ (openStore names db now).1.rows = db.rows ∧
      (openStore names db now).1.highwater = db.highwater ∧
      (openStore names db now).1.generation = db.generation ∧
      (openStore names db now).1.popular = db.popular) ∨
    (0 ≤ db.highwater ∧ db.highwater ≤ now ∧
      (openStore names db now).2 = some ⟨now, db.generation, [], none⟩ ∧
      (openStore names db now).1.rows = (db.rows.retain fun e _ =>
        restorable names now now e).retain
        (fun e _ => inWindow now e) ∧
      (openStore names db now).1.highwater = now ∧
      (openStore names db now).1.generation = db.generation ∧
      (openStore names db now).1.popular = ∅) := by
  unfold openStore
  split
  · exact .inl ⟨rfl, rfl, rfl, rfl, rfl⟩
  · split
    · exact .inl ⟨rfl, rfl, rfl, rfl, rfl⟩
    · split
      · exact .inl ⟨rfl, rfl, rfl, rfl, rfl⟩
      · grind [advance, validateRestore]

theorem window_open (h : Window names s) (now : ℤ) :
    Window names (openLedger names s now) := by
  unfold openLedger
  have hbefore := h.start
  rcases openStore_cases names s.db now with
    ⟨hstore, hrows, hmark, hgen, hpop⟩ | ⟨hzero, hle, hstore, hrows, hmark, hgen, hpop⟩
  · constructor <;> simp only [hstore, hrows, hmark, hgen, hpop, Option.isSome_none,
      Bool.false_eq_true, if_false]
    all_goals grind [cases Window]
  · refine ⟨?_, ?_, ?_, ?_, ?_, ?_, ?_⟩ <;> simp only [hstore, hrows, hmark, hgen, hpop,
      Option.isSome_some, if_true]
    · simp
    · intro _
      by_cases hc : s.clocks = []
      · -- the first opening: nothing else has been processed
        rw [(h.start hc).2.1, hc]
        exact ⟨.inl List.mem_cons_self, by simp [moments, upperBounds]⟩
      · have hgreatest := greatest_clock (h.greatest hc) now
        rwa [max_eq_right hle] at hgreatest
    · exact counts_open h hle
    · exact Tally.positive_retain (Tally.positive_retain h.positive _) _
    · simp
    · simp
    · exact Tally.positive_empty

theorem Window.setStore (h : Window names s) {store store' : Store} (hs : s.store = some store)
    (hmark : store'.highwater = store.highwater) (hgen : store'.generation = store.generation) :
    Window names { s with store := some store' } := by
  obtain ⟨hold, hgold⟩ := h.stored store hs
  refine ⟨fun hc => absurd hc (h.clocks_ne hs), h.greatest, h.counts, h.positive, ?_,
    h.generations, h.popularPositive⟩
  rintro _ ⟨⟩
  exact ⟨hmark.trans hold, hgen.trans hgold⟩

theorem window_batch (h : Window names s) {store : Store} (hs : s.store = some store)
    (events : List Event) (now : ℤ) (status : Status) (failure : Option String) :
    Window names (batchLedger names s store events now status failure) := by
  obtain ⟨hmark, hgen⟩ := h.stored store hs
  have hne := h.clocks_ne hs
  -- a batch that is not processed changes nothing but the fault
  have hsame := fun store' => @Window.setStore _ _ _ h _ store' hs
  unfold batchLedger batch
  by_cases hnil : events = []
  · simpa [hnil] using hsame store rfl rfl
  · simp only [hnil, if_false]
    cases hfault : store.fault with
    | some fault => simpa using hsame store rfl rfl
    | none =>
      cases hsave : saveBatch names s.db store events now status failure with
      | error error => exact hsame _ rfl rfl
      | ok result =>
        obtain ⟨db', store', classes⟩ := result
        obtain ⟨hrows, hmark', hstore, hpop, hgen', -, -⟩ := saveBatch_ok hsave
        simp only [ne_eq, hnil, not_false_eq_true, and_self, if_true]
        have hgreatest := greatest_events (greatest_clock (h.greatest hne) now) events
        have hbatch : batchHighwater names store events now =
            (events.filter (valid names)).foldl (fun m e => max m e.second)
              (max s.db.highwater now) := by
          rw [batchHighwater, hmark]
        rw [← hbatch] at hgreatest
        have hle : s.db.highwater ≤ batchHighwater names store events now := by
          rw [hbatch]
          exact (le_max_left _ _).trans (foldl_max_spec _ _).1
        refine ⟨nofun, fun _ => ?_, ?_, ?_, ?_, ?_, ?_⟩
        · simpa only [hmark'] using hgreatest
        · simp only [hmark', hrows]
          exact counts_batchRows h.counts hle fun e he hv => (h.bound e he hv).trans hle
        · simpa only [hrows] using positive_batchRows h.positive
        · grind
        · simpa only [hpop, hgen'] using h.generations
        · simpa only [hpop] using h.popularPositive

/-! ### Refreshes -/

/-- The transaction of a refresh. -/
theorem writeGeneration_ok {db db' : Database} {store store' : Store} {status : Status}
    {final : Bool} (h : writeGeneration db store status final = .ok (db', store')) :
    db'.rows = db.rows ∧ db'.highwater = db.highwater ∧ db'.generation = store.generation + 1 ∧
      store'.highwater = store.highwater ∧ store'.generation = store.generation + 1 ∧
      store'.leases = store.leases ∧
      db'.popular = (if final then db.popular
        else Tally.addAll db.popular
          (Tally.pairs (popularTargets db.rows (store.generation + 1)))) := by
  unfold writeGeneration at h
  simp only [bind, Except.bind, pure, Except.pure, throw, throwThe, MonadExceptOf.throw] at h
  repeat' split at h
  all_goals cases h
  all_goals simp [*]

theorem Window.retainPopular (h : Window names s) (p : Target → ℕ → Bool) :
    Window names { s with db := { s.db with popular := s.db.popular.retain p } } := by
  refine ⟨h.start, h.greatest, h.counts, h.positive, h.stored, ?_,
    Tally.positive_retain h.popularPositive p⟩
  intro t n hget
  exact h.generations t n (Table.get_of_get_retain hget).1

theorem window_prune (h : Window names s) {store : Store} (hs : s.store = some store) :
    Window names { s with
      db := (pruneGenerations s.db store).1, store := some (pruneGenerations s.db store).2 } :=
  (h.retainPopular _).setStore (s := { s with db := (pruneGenerations s.db store).1 }) hs rfl rfl

theorem pos_of_mem_popularTargets {rows : Table Event ℕ} (h : Tally.Positive rows)
    (generation : ℕ) : ∀ q ∈ Tally.pairs (popularTargets rows generation), 0 < q.2 := by
  refine Tally.pos_of_mem_pairs (Tally.positive_group _ ?_)
  intro q hq
  exact Tally.pos_of_mem_pairs h q (List.mem_filter.1 hq).1

theorem generation_of_mem_popularTargets {rows : Table Event ℕ} {generation : ℕ} :
    ∀ q ∈ Tally.pairs (popularTargets rows generation), q.1.generation = generation := by
  intro q hq
  obtain ⟨b, hb, rfl⟩ := List.mem_map.1 hq
  obtain ⟨q', -, hq'⟩ := Tally.mem_of_get_group (Table.mem_entries.1 hb)
  exact (congrArg Target.generation hq').symm

theorem window_write (h : Window names s) {store : Store} (hs : s.store = some store)
    {status : Status} {final : Bool} {db' : Database} {store' : Store}
    (hwrite : writeGeneration s.db store status final = .ok (db', store')) :
    Window names { s with db := db', store := some store' } := by
  obtain ⟨hmark, hgen⟩ := h.stored store hs
  obtain ⟨hrows, hmark', hgen', hsmark, hsgen, -, hpop⟩ := writeGeneration_ok hwrite
  refine ⟨fun hc => absurd hc (h.clocks_ne hs), ?_, ?_, ?_, ?_, ?_, ?_⟩
  · simpa only [hmark'] using h.greatest
  · simpa only [hrows, hmark'] using h.counts
  · simpa only [hrows] using h.positive
  · grind
  · intro t n hget
    simp only [hpop] at hget
    simp only [hgen', hgen]
    split at hget
    · exact (h.generations t n hget).trans (Nat.le_succ _)
    · rcases Tally.mem_of_get_addAll hget with ⟨m, hm⟩ | ⟨q, hq, rfl⟩
      · exact (h.generations t m hm).trans (Nat.le_succ _)
      · rw [generation_of_mem_popularTargets q hq, hgen]
  · simp only [hpop]
    split
    · exact h.popularPositive
    · exact Tally.positive_addAll h.popularPositive (pos_of_mem_popularTargets h.positive _)

theorem refused_prune (db : Database) (store : Store) (final : Bool) :
    refused (pruneGenerations db store).2 final = refused store final := by
  simp [refused, pruneGenerations, List.filter_filter]

theorem window_refresh (h : Window names s) {store : Store} (hs : s.store = some store) (now : ℤ)
    (status : Status) (final : Bool) (outcome : RefreshOutcome) :
    Window names (refreshLedger s store now status final outcome) := by
  have hpruned := window_prune h hs
  have hadvanced := window_advance hpruned rfl now
  simp only [refreshLedger, refresh]
  split
  · next fault hfault =>
    simp only [refused, hfault, Option.isNone_some, Bool.false_eq_true, if_false]
    exact h.setStore hs rfl rfl
  · rw [refused_prune]
    cases href : refused store final with
    | some error => exact hpruned
    | none =>
      simp only [Option.isNone_none, if_true]
      split
      · exact hadvanced
      · next db₂ store₂ hwrite =>
        have hwritten := window_write hadvanced rfl hwrite
        split
        · exact hwritten.retainPopular _
        · split
          · exact hwritten
          · split
            · exact hwritten.setStore rfl rfl rfl
            · exact hwritten

/-- **The invariant holds after every step.** -/
theorem window_step {a : Operation} {t : Ledger} (h : Window names s)
    (hstep : ledgerStep names s a = some t) : Window names t := by
  cases a with simp only [ledgerStep] at hstep
  | openAt now =>
    split_ifs at hstep
    cases hstep
    exact window_open h now
  | close =>
    cases hstep
    exact ⟨fun hc => ⟨rfl, (h.start hc).2⟩, h.greatest, h.counts, h.positive, nofun,
      h.generations, h.popularPositive⟩
  | _ =>
    obtain ⟨store, hs, rfl⟩ := Option.map_eq_some_iff.1 hstep
    first
      | exact window_advance h hs _
      | exact window_batch h hs _ _ _ _
      | exact window_refresh h hs _ _ _ _
      | exact h.setStore hs rfl rfl

end Steps

/-- **The ledger is the window** after every run. -/
theorem window_of_run {names : Names N} {ok : Ledger → Operation → Prop} {as : List Operation}
    {s : Ledger} (h : (ledger names).Run ok .init as s) : Window names s :=
  h.invariant (fun _ _ _ hs _ hstep => window_step hs hstep) window_init

/-! ### What is published -/

/-- The number of processed events in the window that pass a test. -/
def Ledger.windowCount (names : Names N) (s : Ledger) (p : Event → Bool) : ℕ :=
  s.events.countP fun e => counted names s.db.highwater e && p e

/-- The event asks one question, at any second. -/
def asks (domain : Domain) (rrType dnsClass : UInt16) (event : Event) : Bool :=
  event.domain = domain && event.rrType = rrType && event.dnsClass = dnsClass

section Published

variable {names : Names N} {s : Ledger}

/-- The sum of the rows that pass a test. -/
theorem weight_rows (h : Window names s) (p : Event → Bool) :
    Tally.weight (Tally.pairs s.db.rows) p = s.windowCount names p := by
  have hcounts : ∀ e, Tally.total s.db.rows e =
      (s.events.filter (counted names s.db.highwater)).count e := by
    intro e
    grind [h.counts e, List.count_filter, List.count_eq_zero_of_not_mem]
  rw [Tally.weight_pairs hcounts, List.countP_filter, Ledger.windowCount]
  simp only [Bool.and_comm]

theorem total_summarize (h : Window names s) (domain : Domain) :
    Tally.total (summarize s.db.rows) domain = s.windowCount names fun e => e.domain = domain := by
  rw [summarize, Tally.total_group, weight_rows h]

/-- The count of a question in the popular ones: its own, if its domain has more than a hundred. -/
theorem total_popularTargets (h : Window names s) (generation : ℕ) (domain : Domain)
    (rrType dnsClass : UInt16) :
    Tally.total (popularTargets s.db.rows generation) ⟨generation, domain, rrType, dnsClass⟩ =
      if 100 < s.windowCount names fun e => e.domain = domain then
        s.windowCount names (asks domain rrType dnsClass) else 0 := by
  rw [popularTargets, Tally.total_group, Tally.weight_filter _ fun e : Event =>
    decide (100 < Tally.total (summarize s.db.rows) e.domain)]
  have htest : (fun e : Event => decide (100 < Tally.total (summarize s.db.rows) e.domain) &&
      decide (target generation e = ⟨generation, domain, rrType, dnsClass⟩)) =
      fun e => decide (100 < s.windowCount names fun e => e.domain = domain) &&
        asks domain rrType dnsClass e := by
    funext e
    grind [total_summarize, target, asks]
  rw [htest]
  split
  · next hmany => simpa [hmany] using weight_rows h _
  · next hfew =>
    simp only [hfew, decide_false, Bool.false_and]
    exact Tally.weight_false _

/-- The state of a refresh before its transaction. -/
def prepare (db : Database) (store : Store) (now : ℤ) : Database × Store :=
  advance (pruneGenerations db store).1 (pruneGenerations db store).2 now

/-- The ledger that the transaction of a refresh reads. -/
def Ledger.ready (s : Ledger) (store : Store) (now : ℤ) : Ledger :=
  ⟨(prepare s.db store now).1, some (prepare s.db store now).2, s.events, now :: s.clocks⟩

theorem window_ready (h : Window names s) {store : Store} (hs : s.store = some store) (now : ℤ) :
    Window names (s.ready store now) :=
  window_advance (window_prune h hs) rfl now

/-- A refresh that commits and whose file is written. -/
theorem refresh_of_commit {db : Database} {store : Store} {now : ℤ} {status : Status}
    {outcome : RefreshOutcome} {db' : Database} {store' : Store}
    (href : refused store false = none)
    (hwrite : writeGeneration (prepare db store now).1 (prepare db store now).2 status false =
      .ok (db', store')) (hpub : outcome.publishError = none) :
    (refresh db store now status false outcome).2.1 = db' ∧
      (outcome.owned = true →
        (refresh db store now status false outcome).1 = .ok (some store'.generation)) := by
  have hfault : store.fault = none := by grind [refused]
  unfold prepare at hwrite
  simp only [refresh, hfault, refused_prune, href, hwrite, hpub, Bool.false_eq_true, if_false]
  grind

/-- What a refresh publishes, under the generation that it makes. -/
theorem refresh_popular (h : Window names s) {store : Store} (hs : s.store = some store) {now : ℤ}
    {status : Status} {outcome : RefreshOutcome} {db' : Database} {store' : Store}
    (href : refused store false = none)
    (hwrite : writeGeneration (prepare s.db store now).1 (prepare s.db store now).2 status false =
      .ok (db', store')) (hpub : outcome.publishError = none) (domain : Domain)
    (rrType dnsClass : UInt16) :
    (refreshLedger s store now status false outcome).db.popular.get
        ⟨s.db.generation + 1, domain, rrType, dnsClass⟩ =
      if 100 < (refreshLedger s store now status false outcome).windowCount names
          (fun e => e.domain = domain) ∧
        0 < (refreshLedger s store now status false outcome).windowCount names
          (asks domain rrType dnsClass) then
        some ((refreshLedger s store now status false outcome).windowCount names
          (asks domain rrType dnsClass))
      else none := by
  have hready := window_ready h hs now
  have hwritten := window_write hready rfl hwrite
  obtain ⟨-, hmark, -, -, -, -, hpop⟩ := writeGeneration_ok hwrite
  have hdb : (refreshLedger s store now status false outcome).db = db' :=
    (refresh_of_commit href hwrite hpub).1
  have hgen : (prepare s.db store now).2.generation = s.db.generation := (h.stored store hs).2
  have hcount : ∀ p, (refreshLedger s store now status false outcome).windowCount names p =
      (s.ready store now).windowCount names p := by
    intro p
    simp only [Ledger.windowCount, hdb, hmark]
    rfl
  -- no row of the new generation was there before
  have hnew : Tally.total (prepare s.db store now).1.popular
      ⟨s.db.generation + 1, domain, rrType, dnsClass⟩ = 0 := by
    unfold Tally.total
    cases hget : (prepare s.db store now).1.popular.get
        ⟨s.db.generation + 1, domain, rrType, dnsClass⟩ with
    | none => rfl
    | some n => exact absurd (hready.generations _ n hget) (Nat.not_succ_le_self _)
  have htotal : Tally.total db'.popular ⟨s.db.generation + 1, domain, rrType, dnsClass⟩ =
      Tally.total (popularTargets (s.ready store now).db.rows (s.db.generation + 1))
        ⟨s.db.generation + 1, domain, rrType, dnsClass⟩ := by
    rw [hpop, if_neg Bool.false_ne_true, Tally.total_addAll, hnew, zero_add, hgen,
      Tally.weight_pairs_eq]
    rfl
  rw [total_popularTargets hready] at htotal
  rw [hdb, Tally.get_of_positive hwritten.popularPositive, htotal, hcount, hcount]
  grind

end Published

/-! ### The whole ledger -/

section Ledgers

variable {names : Names N} {s t : Ledger}

/-- What has been processed stays processed. -/
theorem history_step {a : Operation} (hstep : ledgerStep names s a = some t) :
    s.clocks ⊆ t.clocks ∧ s.events ⊆ t.events := by
  cases a with simp only [ledgerStep] at hstep
  | openAt now => grind [openLedger]
  | close => grind
  | _ =>
    obtain ⟨store, -, rfl⟩ := Option.map_eq_some_iff.1 hstep
    grind [batchLedger, refreshLedger]

theorem moments_subset {events events' : List Event} {clocks clocks' : List ℤ}
    (hevents : events ⊆ events') (hclocks : clocks ⊆ clocks') :
    moments names events clocks ⊆ moments names events' clocks' := by
  rintro x (hx | ⟨e, he, hv⟩)
  · exact .inl (hclocks hx)
  · exact .inr ⟨e, hevents he, hv⟩

/-- The mark never decreases. -/
theorem highwater_step {a : Operation} (h : Window names s)
    (hstep : ledgerStep names s a = some t) : s.db.highwater ≤ t.db.highwater := by
  have ht := window_step h hstep
  by_cases hc : s.clocks = []
  · -- before the first opening there is nothing but an opening
    obtain ⟨hstore, -, -⟩ := h.start hc
    cases a with simp only [ledgerStep, hstore] at hstep
    | openAt now => grind [openLedger, openStore_cases names s.db now]
    | close => grind
    | _ => cases hstep
  · obtain ⟨hclocks, hevents⟩ := history_step hstep
    have hne : t.clocks ≠ [] := fun ht' => hc (List.subset_nil.1 (ht' ▸ hclocks))
    exact (ht.greatest hne).2 (moments_subset hevents hclocks (h.greatest hc).1)

theorem total_eq_windowCount (h : Window names s) (e : Event) :
    Tally.total s.db.rows e = s.windowCount names fun e' => e' = e := by
  rw [← weight_rows h, Tally.weight_pairs_eq]

/-- Two histories with the same events and clock readings, in any order, have the same ledger. -/
theorem ledger_unique (h : Window names s) (h' : Window names t) (hne : s.clocks ≠ [])
    (hevents : t.events.Perm s.events) (hclocks : ∀ x, x ∈ t.clocks ↔ x ∈ s.clocks) :
    t.db.highwater = s.db.highwater ∧ ∀ e, t.db.rows.get e = s.db.rows.get e := by
  have hne' : t.clocks ≠ [] := by
    obtain ⟨x, hx⟩ := List.exists_mem_of_ne_nil _ hne
    exact List.ne_nil_of_mem ((hclocks x).2 hx)
  have hmoments : moments names t.events t.clocks = moments names s.events s.clocks := by
    simp only [moments, hclocks, hevents.mem_iff]
  have hmark : t.db.highwater = s.db.highwater :=
    (hmoments ▸ h'.greatest hne').unique (h.greatest hne)
  refine ⟨hmark, fun e => ?_⟩
  rw [Tally.get_of_positive h.positive, Tally.get_of_positive h'.positive, h.counts e,
    h'.counts e, hmark, hevents.count_eq]

/-- **The ledger is the sliding window of the valid events.**  After every run: the mark is the
greatest of the clock readings and valid seconds that were processed, and no step lowers it; every
key has the number of its events in the window, whatever their order, their batches and the restarts
were; a refresh that is not refused, commits and is written to its file publishes, and hands out if
anybody is there to take it, exactly the questions of the domains with more than a hundred events in
the window, each with its own count; and a batch that fails leaves ledger and mark as they were. -/
theorem ledger_is_sliding_window {as : List Operation}
    (h : (ledger names).Run Machine.anyStep .init as s) :
    ((s.clocks ≠ [] → IsGreatest (moments names s.events s.clocks) s.db.highwater) ∧
      (∀ store, s.store = some store →
        store.highwater = s.db.highwater ∧ s.clocks ≠ []) ∧
      ∀ a t, ledgerStep names s a = some t → s.db.highwater ≤ t.db.highwater) ∧
    ((∀ e, Tally.total s.db.rows e = s.windowCount names fun e' => e' = e) ∧
      ∀ bs t, (ledger names).Run Machine.anyStep .init bs t → s.clocks ≠ [] →
        t.events.Perm s.events → (∀ x, x ∈ t.clocks ↔ x ∈ s.clocks) →
        t.db.highwater = s.db.highwater ∧ ∀ e, t.db.rows.get e = s.db.rows.get e) ∧
    (∀ store now status outcome db' store', s.store = some store → refused store false = none →
      writeGeneration (prepare s.db store now).1 (prepare s.db store now).2 status false =
        .ok (db', store') → outcome.publishError = none →
      (outcome.owned = true → (refresh s.db store now status false outcome).1 =
        .ok (some (s.db.generation + 1))) ∧
      ∀ domain rrType dnsClass,
        (refreshLedger s store now status false outcome).db.popular.get
            ⟨s.db.generation + 1, domain, rrType, dnsClass⟩ =
          if 100 < (refreshLedger s store now status false outcome).windowCount names
              (fun e => e.domain = domain) ∧
            0 < (refreshLedger s store now status false outcome).windowCount names
              (asks domain rrType dnsClass) then
            some ((refreshLedger s store now status false outcome).windowCount names
              (asks domain rrType dnsClass))
          else none) ∧
    ∀ store events now status failure error, s.store = some store →
      (batch names s.db store events now status failure).error = some error →
      (batchLedger names s store events now status failure).db = s.db ∧
        (batch names s.db store events now status failure).store.highwater = store.highwater := by
  have hwindow := window_of_run h
  refine ⟨⟨hwindow.greatest, ?_, ?_⟩, ⟨total_eq_windowCount hwindow, ?_⟩, ?_, ?_⟩
  · intro store hs
    exact ⟨(hwindow.stored store hs).1, hwindow.clocks_ne hs⟩
  · intro a t hstep
    exact highwater_step hwindow hstep
  · intro bs t ht hne hevents hclocks
    exact ledger_unique hwindow (window_of_run ht) hne hevents hclocks
  · intro store now status outcome db' store' hs href hwrite hpub
    refine ⟨?_, fun domain rrType dnsClass =>
      refresh_popular hwindow hs href hwrite hpub domain rrType dnsClass⟩
    intro howned
    have hgen : store'.generation = s.db.generation + 1 := by
      obtain ⟨-, -, -, -, hgen, -, -⟩ := writeGeneration_ok hwrite
      rw [hgen]
      exact congrArg (· + 1) (hwindow.stored store hs).2
    rw [(refresh_of_commit href hwrite hpub).2 howned, hgen]
  · intro store events now status failure error hs herror
    obtain ⟨hdb, hmark, -⟩ := batch_error herror
    refine ⟨?_, hmark⟩
    simp only [batchLedger, herror, reduceCtorEq, false_and, if_false]
    exact hdb

end Ledgers

/-! ### A small ledger -/

/-- Names that are all canonical. -/
def sampleNames : Names Domain := ⟨some, id⟩

def sampleStatus : Status := ⟨0, 0, 0, none⟩

/-- A hundred and one questions for one domain, at one second. -/
def sampleEvents (label : UInt8) (second : ℤ) : List Event :=
  List.replicate 101 ⟨[label], 1, 1, second⟩

def sampleOutcome : RefreshOutcome := ⟨none, true⟩

/-- Two refreshes whose generations are kept, and a domain that becomes popular after them. -/
def sampleOperations : List Operation :=
  [.openAt 1000, .batch (sampleEvents 97 1000) 1000 sampleStatus none,
    .refresh 1001 sampleStatus false sampleOutcome, .refresh 1002 sampleStatus false sampleOutcome,
    .batch (sampleEvents 98 1003) 1003 sampleStatus none]

theorem sampleOperations_exec : (ledger sampleNames).exec .init sampleOperations =
    some ((ledger sampleNames).after .init sampleOperations) :=
  Machine.exec_eq_after (by decide +kernel)

theorem ledger_is_sliding_window_sampleOperations :
    ((ledger sampleNames).after .init sampleOperations).db.highwater = 1003 ∧
      Tally.total ((ledger sampleNames).after .init sampleOperations).db.rows ⟨[98], 1, 1, 1003⟩ =
        ((ledger sampleNames).after .init sampleOperations).windowCount sampleNames
          fun e => e = ⟨[98], 1, 1, 1003⟩ := by
  have hrun : (ledger sampleNames).Run Machine.anyStep .init sampleOperations
      ((ledger sampleNames).after .init sampleOperations) :=
        Machine.Run.of_exec sampleOperations_exec
  exact ⟨by decide +kernel, (ledger_is_sliding_window hrun).2.1.1 _⟩

/-- With two generations leased, a refresh publishes nothing: a domain with a hundred and one
questions in the window has no popular row. -/
theorem leased_refresh_publishes_nothing : ∃ s store,
    (ledger sampleNames).exec .init sampleOperations = some s ∧ s.store = some store ∧
    (refreshLedger s store 1004 sampleStatus false sampleOutcome).windowCount sampleNames
      (fun e => e.domain = [98]) = 101 ∧
    ∀ t ∈ (refreshLedger s store 1004 sampleStatus false sampleOutcome).db.popular.keys,
      t.domain ≠ [98] := by
  refine ⟨_, ⟨1003, 2, [(1, true), (2, true)], none⟩, sampleOperations_exec, ?_, ?_, ?_⟩
  all_goals decide +kernel

end Statistics
