/-
**Paging through the popular questions.**

The prefetcher reads the questions of a generation page by page and asks each of them.  The pages
are read at different times, and the store may have refreshed in between; but it deletes no
generation that is leased, so every question of the generation is asked once.
-/

import TorSocks5.Keyset
import TorSocks5.StatisticsLedger
import Mathlib

set_option autoImplicit false

namespace Statistics

open List

/-! ### The cycle -/

/-- `cycle`: the questions that it asks, the pages that it requests, and whether it has returned;
`page` answers the request with a given number. -/
def cycle {C T Q : Type} (page : ℕ → Option C → Option (List T)) (cursor : T → C)
    (question : T → Q) : ℕ → ℕ → Option C → List Q × ℕ × Bool
  | 0, _, _ => ([], 0, false)
  | fuel + 1, i, after =>
    match page i after with
    | none => ([], 1, true)
    | some [] => ([], 1, true)
    | some targets =>
      let r := cycle page cursor question fuel (i + 1) (targets.getLast?.map cursor)
      (targets.map question ++ r.1, r.2.1 + 1, r.2.2)

structure PopularCursor where
  domain : Domain
  rrType : UInt16
  dnsClass : UInt16

/-- The order of the database: text by its bytes, then the numbers. -/
def PopularCursor.key (c : PopularCursor) : List ℕ ×ₗ ℕ ×ₗ ℕ :=
  toLex (c.domain.map (·.toNat), toLex (c.rrType.toNat, c.dnsClass.toNat))

/-- The types of the DNS library, with numbers that come back. -/
structure Wire (N T C : Type) extends Names N where
  recordType : UInt16 → T
  typeCode : T → UInt16
  dnsClass : UInt16 → C
  classCode : C → UInt16
  typeCode_recordType : ∀ n, typeCode (recordType n) = n
  classCode_dnsClass : ∀ n, classCode (dnsClass n) = n
  /-- A normalized name ends in a dot. -/
  normalizedName_ne : ∀ name, normalizedName name ≠ []

variable {N T C : Type}

structure Query (N T C : Type) where
  name : N
  queryType : T
  queryClass : C

structure PopularTarget (N T C : Type) where
  question : Query N T C
  count : ℕ

def PopularTarget.cursor (w : Wire N T C) (t : PopularTarget N T C) : PopularCursor :=
  ⟨w.normalizedName t.question.name, w.typeCode t.question.queryType,
    w.classCode t.question.queryClass⟩

/-- A row of the table of popular questions. -/
abbrev Row := Target × ℕ

def Row.cursor (r : Row) : PopularCursor := ⟨r.1.domain, r.1.rrType, r.1.dnsClass⟩

def Row.key (r : Row) : List ℕ ×ₗ ℕ ×ₗ ℕ := (Row.cursor r).key

/-- What the loop over the rows makes of one. -/
def decode (w : Wire N T C) (r : Row) : Option (PopularTarget N T C) :=
  (w.fromAscii r.1.domain).map fun name =>
    ⟨⟨name, w.recordType r.1.rrType, w.dnsClass r.1.dnsClass⟩, r.2⟩

/-- The rows of a generation. -/
def content (generation : ℕ) (db : Database) : List Row :=
  (Tally.pairs db.popular).filter fun r => r.1.generation = generation

def pageSize : ℕ := 128

/-- `Store::page`. -/
def page (w : Wire N T C) (db : Database) (generation : ℕ) (after : Option PopularCursor) :
    Option (List (PopularTarget N T C)) :=
  (Keyset.page Row.key pageSize (content generation db)
    (after.getD ⟨[], 0, 0⟩).key).mapM (decode w)

/-- A row comes back from the question that is made of it. -/
def Decodes (w : Wire N T C) (r : Row) : Prop :=
  ∃ t, decode w r = some t ∧ t.cursor w = Row.cursor r

theorem mapM_decode {w : Wire N T C} {l : List Row} (h : ∀ r ∈ l, Decodes w r) :
    ∃ ts, l.mapM (decode w) = some ts ∧ ts.map some = l.map (decode w) ∧
      ts.map (PopularTarget.cursor w) = l.map Row.cursor := by
  induction l with
  | nil => exact ⟨[], rfl, rfl, rfl⟩
  | cons r l ih =>
    obtain ⟨t, ht, hcursor⟩ := h r (by simp)
    obtain ⟨ts, hts, hsome, hcursors⟩ := ih fun r' hr' => h r' (by simp [hr'])
    exact ⟨t :: ts, by simp [ht, hts], by simp [ht, hsome], by simp [hcursor, hcursors]⟩

/-- **Every row is asked once, in order**: `l` are the rows in order, `rest` those that are left. -/
theorem cycle_spec {w : Wire N T C} {l : List Row} (hl : Keyset.Ascending Row.key l)
    (hdecode : ∀ r ∈ l, Decodes w r)
    {pages : ℕ → Option PopularCursor → Option (List (PopularTarget N T C))}
    (hpages : ∀ i after, pages i after = ((l.filter fun r => (after.getD ⟨[], 0, 0⟩).key <
      Row.key r).take pageSize).mapM (decode w)) (fuel : ℕ) :
    ∀ (i : ℕ) (after : Option PopularCursor) (rest : List Row),
      (l.filter fun r => (after.getD ⟨[], 0, 0⟩).key < Row.key r) = rest →
      (rest.length + 127) / 128 < fuel →
      ∃ calls requests, cycle pages (PopularTarget.cursor w) PopularTarget.question fuel i after =
          (calls, requests, true) ∧ requests ≤ (rest.length + 127) / 128 + 1 ∧
        calls.map some = rest.map fun r => (decode w r).map PopularTarget.question := by
  induction fuel with
  | zero => intro _ _ _ _ hfuel; omega
  | succ fuel ih =>
    intro i after rest hrest hfuel
    have hsub : ∀ r ∈ rest.take pageSize, r ∈ l := fun r hr =>
      mem_of_mem_filter (hrest ▸ mem_of_mem_take hr)
    obtain ⟨ts, hts, hsome, hcursors⟩ := mapM_decode fun r hr => hdecode r (hsub r hr)
    simp only [cycle, hpages, hrest, hts]
    cases hlast : (rest.take pageSize).getLast? with
    | none =>
      have hnil : rest = [] := by simpa [pageSize] using hlast
      obtain rfl : ts = [] := by simpa [hnil] using hcursors
      exact ⟨[], 1, rfl, by omega, by simp [hnil]⟩
    | some x =>
      have hcursor : ts.getLast?.map (PopularTarget.cursor w) = some (Row.cursor x) := by
        rw [← getLast?_map, hcursors, getLast?_map, hlast]
        rfl
      have hne : rest ≠ [] := fun h => by simp [h] at hlast
      have hpos := length_pos_iff.mpr hne
      have hlen : (rest.drop pageSize).length = rest.length - 128 := length_drop
      obtain ⟨calls, requests, hcycle, hrequests, hcalls⟩ := ih (i + 1) (some (Row.cursor x))
        (rest.drop pageSize) (Keyset.filter_eq_drop hl hrest hlast) (by omega)
      obtain ⟨t, ts', rfl⟩ := exists_cons_of_ne_nil (l := ts) fun h => by
        simp [h] at hcursor
      simp only [hcursor, hcycle]
      refine ⟨_, _, rfl, by omega, ?_⟩
      have hsplit : rest.map (fun r => (decode w r).map PopularTarget.question) =
          ((rest.take pageSize).map (decode w)).map (Option.map PopularTarget.question) ++
            (rest.drop pageSize).map fun r => (decode w r).map PopularTarget.question := by
        rw [map_map, ← Function.comp_def, ← map_append, take_append_drop]
      rw [map_append, hcalls, hsplit, ← hsome]
      simp [Function.comp_def]

/-! ### Leases -/

/-- Somebody holds the generation. -/
def Ledger.Held (generation : ℕ) (s : Ledger) : Prop :=
  ∃ store, s.store = some store ∧ (generation, true) ∈ store.leases

/-- What the leases and the popular questions of a reachable ledger are like. -/
structure Leased (names : Names N) (s : Ledger) : Prop where
  window : Window names s
  spelled : ∀ t n, s.db.popular.get t = some n → canonical names t.domain = true
  nodup : ∀ store, s.store = some store → (store.leases.map Prod.fst).Nodup
  bound : ∀ store, s.store = some store → ∀ l ∈ store.leases, l.1 ≤ store.generation

/-- What an operation of the open store does to the leases and the popular questions. -/
structure Effect (names : Names N) (db db' : Database) (store store' : Store) : Prop where
  /-- Old questions go only with a lease that nobody holds. -/
  kept : ∀ t, t.generation ≤ store.generation →
    db'.popular.get t = db.popular.get t ∨ (t.generation, false) ∈ store.leases
  spelled : (∀ t n, db.popular.get t = some n → canonical names t.domain = true) →
    ∀ t n, db'.popular.get t = some n → canonical names t.domain = true
  generation : store.generation ≤ store'.generation
  leases : store'.leases = store.leases ∨ store'.leases = store.leases.filter (·.2) ∨
    (store'.leases = store.leases.filter (·.2) ++ [(store.generation + 1, true)] ∧
      store'.generation = store.generation + 1)

section Steps

variable {names : Names N} {s t : Ledger} {db db' : Database} {store store' : Store}

theorem Effect.of_eq (hpop : db'.popular = db.popular) (hleases : store'.leases = store.leases)
    (hgen : store'.generation = store.generation) : Effect names db db' store store' where
  kept t _ := .inl (by rw [hpop])
  spelled h := by rwa [hpop]
  generation := hgen.ge
  leases := .inl hleases

theorem effect_batch (events : List Event) (now : ℤ) (status : Status) (failure : Option String) :
    Effect names db (batch names db store events now status failure).db store
      (batch names db store events now status failure).store := by
  unfold batch
  split_ifs
  · exact .of_eq rfl rfl rfl
  · split
    · exact .of_eq rfl rfl rfl
    · split
      · next hsave =>
        obtain ⟨-, -, rfl, hpop, -⟩ := saveBatch_ok hsave
        exact .of_eq hpop rfl rfl
      · exact .of_eq rfl rfl rfl

theorem get_prune (db : Database) (store : Store) (t : Target) :
    (pruneGenerations db store).1.popular.get t = db.popular.get t ∨
      (t.generation, false) ∈ store.leases := by
  refine or_iff_not_imp_right.2 fun hdead => Table.get_retain_of fun _ => ?_
  simp only [Bool.not_eq_true', any_eq_false, Bool.and_eq_true, decide_eq_true_eq, not_and,
    Bool.not_eq_false]
  rintro ⟨g, _ | _⟩ hl rfl
  · exact absurd hl hdead
  · rfl

theorem get_addAll_of_not_mem {K : Type} [DecidableEq K] {k : K} {l : List (K × ℕ)} :
    ∀ {m : Table K ℕ}, (∀ q ∈ l, q.1 ≠ k) → (Tally.addAll m l).get k = m.get k := by
  induction l with
  | nil => exact fun _ => rfl
  | cons q l ih =>
    intro m h
    obtain ⟨hq, h⟩ := forall_mem_cons.1 h
    exact (ih h).trans (Table.get_insert_of_ne m hq.symm _)

theorem canonical_of_mem_popularTargets {rows : Table Event ℕ} {generation : ℕ}
    (h : ∀ e n, rows.get e = some n → canonical names e.domain = true) :
    ∀ q ∈ Tally.pairs (popularTargets rows generation), canonical names q.1.domain = true := by
  intro q hq
  obtain ⟨b, hb, rfl⟩ := mem_map.1 hq
  obtain ⟨q', hq', htarget⟩ := Tally.mem_of_get_group (Table.mem_entries.1 hb)
  obtain ⟨c, hc, rfl⟩ := mem_map.1 (mem_filter.1 hq').1
  rw [← congrArg Target.domain htarget]
  exact h _ _ (Table.mem_entries.1 hc)

/-- The table after the transaction of a refresh. -/
theorem effect_write {status : Status} {final : Bool}
    (hrows : ∀ e n, db.rows.get e = some n → canonical names e.domain = true)
    (hwrite : writeGeneration db store status final = .ok (db', store')) :
    (∀ t, t.generation ≤ store.generation → db'.popular.get t = db.popular.get t) ∧
      ((∀ t n, db.popular.get t = some n → canonical names t.domain = true) →
        ∀ t n, db'.popular.get t = some n → canonical names t.domain = true) ∧
      store'.generation = store.generation + 1 ∧ store'.leases = store.leases := by
  obtain ⟨-, -, -, -, hgen, hleases, hpop⟩ := writeGeneration_ok hwrite
  refine ⟨fun t ht => ?_, fun h t n hget => ?_, hgen, hleases⟩
  · rw [hpop]
    split_ifs
    · rfl
    · refine get_addAll_of_not_mem fun q hq heq => ?_
      have := heq ▸ generation_of_mem_popularTargets q hq
      omega
  · rw [hpop] at hget
    split_ifs at hget
    · exact h t n hget
    · rcases Tally.mem_of_get_addAll hget with ⟨m, hm⟩ | ⟨q, hq, rfl⟩
      · exact h t m hm
      · exact canonical_of_mem_popularTargets hrows q hq

theorem effect_refresh (now : ℤ) (status : Status) (final : Bool) (outcome : RefreshOutcome)
    (hrows : ∀ e n, db.rows.get e = some n → canonical names e.domain = true) :
    Effect names db (refresh db store now status final outcome).2.1 store
      (refresh db store now status final outcome).2.2 := by
  have hprune := get_prune db store
  have hspelled : ∀ {t n}, (pruneGenerations db store).1.popular.get t = some n →
      db.popular.get t = some n := fun h => (Table.get_of_get_retain h).1
  have hpruned : ∀ {db' : Database} {store' : Store},
      db'.popular = (pruneGenerations db store).1.popular →
      store'.leases = store.leases.filter (·.2) → store'.generation = store.generation →
      Effect names db db' store store' := fun hpop hleases hgen =>
    ⟨fun t _ => by rw [hpop]; exact hprune t, fun h t n hget => h t n (hspelled (hpop ▸ hget)),
      hgen.ge, .inr (.inl hleases)⟩
  unfold refresh
  split
  · exact .of_eq rfl rfl rfl
  · simp only
    split
    · exact hpruned rfl rfl rfl
    · split
      · exact hpruned rfl rfl rfl
      · next db₂ store₂ hwrite =>
        obtain ⟨hkept, hnew, hgen, hleases⟩ := effect_write
          (fun e n h => hrows e n (Table.get_of_get_retain h).1) hwrite
        have hkept' : ∀ t, t.generation ≤ store.generation → db₂.popular.get t = db.popular.get t ∨
            (t.generation, false) ∈ store.leases := fun t ht => by
          rw [hkept t ht]
          exact hprune t
        have hnew' : (∀ t n, db.popular.get t = some n → canonical names t.domain = true) → _ :=
          fun h => hnew fun t n hget => h t n (hspelled hget)
        split
        · refine ⟨fun t ht => ?_, fun h t n hget => hnew' h t n (Table.get_of_get_retain hget).1,
            hgen ▸ Nat.le_succ _, .inr (.inl hleases)⟩
          have hne : t.generation ≠ store₂.generation := by
            rw [hgen]
            exact (Nat.lt_succ_of_le ht).ne
          simp only [Table.get_retain_of (m := db₂.popular)
            (p := fun t _ => t.generation ≠ store₂.generation) fun _ => decide_eq_true hne]
          exact hkept' t ht
        · split
          · exact ⟨hkept', hnew', hgen ▸ Nat.le_succ _, .inr (.inl hleases)⟩
          · split
            · refine ⟨hkept', hnew', hgen ▸ Nat.le_succ _, .inr (.inr ⟨?_, hgen⟩)⟩
              simp only [hleases, hgen]
              rfl
            · exact ⟨hkept', hnew', hgen ▸ Nat.le_succ _, .inr (.inl hleases)⟩

theorem canonical_of_window (h : Window names s) {e : Event} {n : ℕ}
    (hget : s.db.rows.get e = some n) : canonical names e.domain = true := by
  have hcounts := h.counts e
  have hpos := h.positive e n hget
  rw [Tally.total, hget, Option.getD_some] at hcounts
  split_ifs at hcounts with hcounted
  · simp only [counted, valid, Bool.and_eq_true] at hcounted
    exact hcounted.1.2
  · omega

/-- The leases after an operation. -/
theorem Effect.leases_ok (h : Effect names db db' store store')
    (hnodup : (store.leases.map Prod.fst).Nodup)
    (hbound : ∀ l ∈ store.leases, l.1 ≤ store.generation) :
    (store'.leases.map Prod.fst).Nodup ∧ (∀ l ∈ store'.leases, l.1 ≤ store'.generation) ∧
      ∀ g, (g, true) ∈ store.leases → (g, true) ∈ store'.leases := by
  have hsub : (store.leases.filter (·.2)).Sublist store.leases := filter_sublist
  have hgen := h.generation
  rcases h.leases with heq | heq | ⟨heq, hnew⟩ <;> rw [heq]
  · exact ⟨hnodup, fun l hl => (hbound l hl).trans hgen, fun _ => id⟩
  · exact ⟨hnodup.sublist (hsub.map _), fun l hl => (hbound l (hsub.subset hl)).trans hgen,
      fun g hg => mem_filter.mpr ⟨hg, rfl⟩⟩
  · refine ⟨?_, ?_, fun g hg => mem_append_left _ (mem_filter.mpr ⟨hg, rfl⟩)⟩
    · rw [map_append, nodup_append]
      refine ⟨hnodup.sublist (hsub.map _), by simp, ?_⟩
      rintro _ hmem _ hg rfl
      obtain ⟨l, hl, rfl⟩ := mem_map.mp hmem
      have := hbound l (hsub.subset hl)
      simp at hg
      omega
    · rw [forall_mem_append, forall_mem_singleton, hnew]
      exact ⟨fun l hl => (hbound l (hsub.subset hl)).trans (Nat.le_succ _), le_rfl⟩

/-- A run that does not give up a generation and does not end the process. -/
def Keeps (generation : ℕ) (_ : Ledger) (a : Operation) : Prop :=
  a ≠ .close ∧ a ≠ .release generation

/-- **What a step does to a reachable ledger**: it is as before, and a generation that is held and
not given up stays held with its rows. -/
theorem leased_step (h : Leased names s) {a : Operation} (hstep : ledgerStep names s a = some t) :
    Leased names t ∧ ∀ g, s.Held g → Keeps g s a →
      t.Held g ∧ ∀ k, k.generation = g → t.db.popular.get k = s.db.popular.get k := by
  have hwindow := window_step h.window hstep
  -- the operations of the open store that do not touch who holds what
  have heffect : ∀ {store db' store'}, s.store = some store → t.db = db' → t.store = some store' →
      Effect names s.db db' store store' → Leased names t ∧ ∀ g, s.Held g → Keeps g s a →
        t.Held g ∧ ∀ k, k.generation = g → t.db.popular.get k = s.db.popular.get k := by
    rintro store db' store' hs rfl ht heffect
    obtain ⟨hnodup, hbound, hheld⟩ := heffect.leases_ok (h.nodup store hs) (h.bound store hs)
    refine ⟨⟨hwindow, heffect.spelled h.spelled, ?_, ?_⟩, ?_⟩
    · rintro _ hst
      cases ht.symm.trans hst
      exact hnodup
    · rintro _ hst
      cases ht.symm.trans hst
      exact hbound
    · rintro g ⟨_, hst, hg⟩ -
      cases hs.symm.trans hst
      refine ⟨⟨store', ht, hheld g hg⟩, ?_⟩
      rintro k rfl
      refine (heffect.kept k (h.bound store hs _ hg)).resolve_right fun hdead => ?_
      have := inj_on_of_nodup_map (h.nodup store hs) hg hdead rfl
      cases this
  cases a with
  | openAt now =>
    simp only [ledgerStep] at hstep
    split_ifs at hstep with hnone
    cases hstep
    have hno : ∀ g, ¬ s.Held g := by
      rintro g ⟨store, hs, -⟩
      simp [hs] at hnone
    refine ⟨?_, fun g hg => absurd hg (hno g)⟩
    rcases openStore_cases names s.db now with ⟨hs, -, -, -, hpop⟩ | ⟨-, -, hs, -, -, -, hpop⟩
    · refine ⟨hwindow, ?_, ?_, ?_⟩ <;> simp only [openLedger, hs, hpop]
      · exact h.spelled
      · simp
      · simp
    · refine ⟨hwindow, ?_, ?_, ?_⟩ <;> simp only [openLedger, hs, hpop] <;> simp
  | close =>
    cases hstep
    exact ⟨⟨hwindow, h.spelled, by simp, by simp⟩, fun g _ hkeeps => absurd rfl hkeeps.1⟩
  | advance now =>
    obtain ⟨store, hs, rfl⟩ := Option.map_eq_some_iff.1 hstep
    exact heffect hs rfl rfl (.of_eq rfl rfl rfl)
  | batch events now status failure =>
    obtain ⟨store, hs, rfl⟩ := Option.map_eq_some_iff.1 hstep
    refine heffect hs ?_ ?_ (effect_batch events now status failure) <;>
      · simp only [batchLedger]
        split <;> rfl
  | refresh now status final outcome =>
    obtain ⟨store, hs, rfl⟩ := Option.map_eq_some_iff.1 hstep
    exact heffect hs rfl rfl (effect_refresh now status final outcome
      fun e n => canonical_of_window h.window)
  | release generation =>
    obtain ⟨store, hs, rfl⟩ := Option.map_eq_some_iff.1 hstep
    have hfst : ∀ l : ℕ × Bool, (if l.1 = generation then (l.1, false) else l).1 = l.1 := by
      intro l
      split <;> rfl
    refine ⟨⟨hwindow, h.spelled, ?_, ?_⟩, ?_⟩
    · rintro _ ⟨⟩
      simpa [Function.comp_def, hfst] using h.nodup store hs
    · rintro _ ⟨⟩ _ hmem
      obtain ⟨l, hl, rfl⟩ := mem_map.mp hmem
      rw [hfst]
      exact h.bound store hs l hl
    · rintro g ⟨_, hst, hg⟩ hkeeps
      cases hs.symm.trans hst
      have hne : g ≠ generation := fun heq => hkeeps.2 (heq ▸ rfl)
      exact ⟨⟨_, rfl, mem_map.mpr ⟨_, hg, by simp [hne]⟩⟩, fun _ _ => rfl⟩

theorem leased_of_run {ok : Ledger → Operation → Prop} {as : List Operation}
    (h : (ledger names).Run ok .init as s) : Leased names s :=
  h.invariant (fun _ _ _ hs _ hstep => (leased_step hs hstep).1)
    ⟨window_init, by simp [Ledger.init, Database.fresh], by simp [Ledger.init],
      by simp [Ledger.init]⟩

/-- **A generation that is held stays**, whatever else the store does. -/
theorem held_of_run {g : ℕ} {as : List Operation} (h : Leased names s) (hheld : s.Held g)
    (hrun : (ledger names).Run (Keeps g) s as t) : Leased names t ∧ t.Held g ∧
      ∀ k, k.generation = g → t.db.popular.get k = s.db.popular.get k := by
  refine hrun.invariant (I := fun t => Leased names t ∧ t.Held g ∧
    ∀ k, k.generation = g → t.db.popular.get k = s.db.popular.get k) ?_ ⟨h, hheld, fun _ _ => rfl⟩
  rintro u a v ⟨hu, hg, hrows⟩ hkeeps hstep
  obtain ⟨hv, hnext⟩ := leased_step hu hstep
  obtain ⟨hg', hrows'⟩ := hnext g hg hkeeps
  exact ⟨hv, hg', fun k hk => (hrows' k hk).trans (hrows k hk)⟩

/-! ### All pages -/

theorem mem_content {g : ℕ} {k : Target} {n : ℕ} :
    (k, n) ∈ content g db ↔ db.popular.get k = some n ∧ k.generation = g := by
  rw [← Table.mem_entries (b := ⟨k, n⟩)]
  simp [content, Tally.pairs]

theorem nodup_content (g : ℕ) (db : Database) : (content g db).Nodup := by
  refine List.Nodup.filter _ (List.Nodup.of_map Prod.fst ?_)
  rw [Tally.pairs, map_map]
  exact db.popular.nodupKeys

theorem content_perm {g : ℕ} (h : ∀ k, k.generation = g → db'.popular.get k = db.popular.get k) :
    (content g db').Perm (content g db) := by
  rw [perm_ext_iff_of_nodup (nodup_content g db') (nodup_content g db)]
  rintro ⟨k, n⟩
  rw [mem_content, mem_content]
  exact and_congr_left fun hk => by rw [h k hk]

theorem nodup_keys_content (g : ℕ) (db : Database) : ((content g db).map Row.key).Nodup := by
  refine List.Nodup.map_on ?_ (nodup_content g db)
  rintro ⟨k, n⟩ hk ⟨k', n'⟩ hk' hkey
  rw [mem_content] at hk hk'
  obtain ⟨generation, domain, rrType, dnsClass⟩ := k
  obtain ⟨generation', domain', rrType', dnsClass'⟩ := k'
  have hbytes : Function.Injective (map fun b : UInt8 => b.toNat) :=
    map_injective_iff.mpr fun _ _ => UInt8.toNat_inj.mp
  simp only [Row.key, Row.cursor, PopularCursor.key, EmbeddingLike.apply_eq_iff_eq, Prod.mk.injEq,
    hbytes.eq_iff, UInt16.toNat_inj] at hkey
  obtain ⟨rfl, rfl, rfl⟩ := hkey
  obtain rfl : generation = generation' := hk.2.trans hk'.2.symm
  rw [Option.some.inj (hk.1.symm.trans hk'.1)]

end Steps

theorem decodes_of_leased {w : Wire N T C} {s : Ledger} (h : Leased w.toNames s) {g : ℕ} :
    ∀ r ∈ content g s.db, Decodes w r ∧ (⟨[], 0, 0⟩ : PopularCursor).key < Row.key r := by
  rintro ⟨k, n⟩ hr
  have hspelled := h.spelled k n (mem_content.mp hr).1
  unfold canonical at hspelled
  split at hspelled
  · next name hname =>
    have hdomain : w.normalizedName name = k.domain := by simpa using hspelled
    refine ⟨⟨_, by rw [decode, hname]; rfl, ?_⟩, ?_⟩
    · simp only [PopularTarget.cursor, Row.cursor, hdomain, w.typeCode_recordType,
        w.classCode_dnsClass]
    · have hne : k.domain ≠ [] := hdomain ▸ w.normalizedName_ne name
      obtain ⟨b, bs, hb⟩ := exists_cons_of_ne_nil hne
      simp only [Row.key, Row.cursor, PopularCursor.key, hb]
      exact Prod.Lex.toLex_lt_toLex.mpr (.inl (nil_lt_cons _ _))
  · cases hspelled

/-- **Paging visits every question once.**  Let a generation be held in a reachable state, let each
page be read in a later state, and let the store do anything in between but give up the generation
or end.  Then the generation stays held with its rows; and the cycle returns after at most
`n / 128 + 2` requests for `n` rows, having asked for every row once and in ascending order. -/
theorem paging_visits_once (w : Wire N T C) {g : ℕ} {states : ℕ → Ledger} {as : List Operation}
    (hinit : (ledger w.toNames).Run Machine.anyStep .init as (states 0))
    (hheld : (states 0).Held g)
    (hruns : ∀ i, ∃ bs, (ledger w.toNames).Run (Keeps g) (states i) bs (states (i + 1))) :
    (∀ i, (states i).Held g ∧ (content g (states i).db).Perm (content g (states 0).db)) ∧
    ∃ rows : List Row, rows.Perm (content g (states 0).db) ∧ Keyset.Ascending Row.key rows ∧
      ∀ fuel, rows.length / pageSize + 2 ≤ fuel → ∃ calls requests,
        cycle (fun i => page w (states i).db g) (PopularTarget.cursor w) PopularTarget.question
          fuel 0 none = (calls, requests, true) ∧ requests ≤ rows.length / pageSize + 2 ∧
        calls.map some = rows.map fun r => (decode w r).map PopularTarget.question := by
  have hall : ∀ i, Leased w.toNames (states i) ∧ (states i).Held g ∧ ∀ k, k.generation = g →
      (states i).db.popular.get k = (states 0).db.popular.get k := by
    intro i
    induction i with
    | zero => exact ⟨leased_of_run hinit, hheld, fun _ _ => rfl⟩
    | succ i ih =>
      obtain ⟨bs, hrun⟩ := hruns i
      obtain ⟨hleased, hheld', hrows⟩ := held_of_run ih.1 ih.2.1 hrun
      exact ⟨hleased, hheld', fun k hk => (hrows k hk).trans (ih.2.2 k hk)⟩
  have hperm := fun i => content_perm (hall i).2.2
  refine ⟨fun i => ⟨(hall i).2.1, hperm i⟩, ?_⟩
  set rows := (content g (states 0).db).mergeSort fun a b => Row.key a ≤ Row.key b
  have hrows : rows.Perm (content g (states 0).db) := List.mergeSort_perm _ _
  have hasc : Keyset.Ascending Row.key rows := Keyset.ascending_mergeSort (nodup_keys_content g _)
  have hdecode := fun r (hr : r ∈ rows) => decodes_of_leased (hall 0).1 r (hrows.subset hr)
  have hpages : ∀ i after, page w (states i).db g after = ((rows.filter fun r =>
      (after.getD ⟨[], 0, 0⟩).key < Row.key r).take pageSize).mapM (decode w) := fun i after => by
    rw [page, Keyset.page_eq hasc ((hperm i).trans hrows.symm)]
  have hfirst : (rows.filter fun r =>
      ((none : Option PopularCursor).getD ⟨[], 0, 0⟩).key < Row.key r) = rows :=
    List.filter_eq_self.mpr fun r hr => by simpa using (hdecode r hr).2
  refine ⟨rows, hrows, hasc, fun fuel hfuel => ?_⟩
  simp only [pageSize] at hfuel ⊢
  obtain ⟨calls, requests, hcycle, hrequests, hcalls⟩ := cycle_spec hasc
    (fun r hr => (hdecode r hr).1) hpages fuel 0 none rows hfirst (by omega)
  exact ⟨calls, requests, hcycle, by omega, hcalls⟩

/-- Names that are their own text, and numbers that are their own types. -/
def plainWire : Wire Domain UInt16 UInt16 where
  fromAscii := some
  normalizedName domain := if domain = [] then [46] else domain
  recordType := id
  typeCode := id
  dnsClass := id
  classCode := id
  typeCode_recordType _ := rfl
  classCode_dnsClass _ := rfl
  normalizedName_ne domain := by split <;> simp_all

/-- The ledger after the first refresh of the sample. -/
def sampleLedger : Ledger := (ledger plainWire.toNames).after .init (sampleOperations.take 3)

theorem paging_visits_once_sample : ∃ calls requests,
    cycle (fun _ => page plainWire sampleLedger.db 1) (PopularTarget.cursor plainWire)
      PopularTarget.question 2 0 none = (calls, requests, true) ∧ requests ≤ 2 := by
  have hrun : (ledger plainWire.toNames).Run Machine.anyStep .init (sampleOperations.take 3)
      sampleLedger := Machine.Run.of_exec (Machine.exec_eq_after (by decide +kernel))
  have hheld : sampleLedger.Held 1 := ⟨⟨1001, 1, [(1, true)], none⟩, by decide +kernel, by simp⟩
  obtain ⟨-, rows, hperm, -, hcycle⟩ := @paging_visits_once _ _ _ plainWire 1
    (fun _ => sampleLedger) _ hrun hheld fun _ => ⟨[], .refl _⟩
  have hlen : rows.length = 1 := hperm.length_eq.trans (by decide +kernel)
  rw [hlen] at hcycle
  obtain ⟨calls, requests, h, hle, -⟩ := hcycle 2 (by decide)
  exact ⟨calls, requests, h, hle⟩

end Statistics
