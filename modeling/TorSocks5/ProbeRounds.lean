/-
**Probe rounds.**

A probe round tells the store which bridges answered and which were tried and did not, and then
removes the bridges that have failed too often.  An entry is changed by many hands in between:
circuits and channels report, sources are noted, and each of these may move the times that the
failure counters are limited by.
-/

import Mathlib
import TorSocks5.BridgeRanking

set_option autoImplicit false

namespace BridgeStore

open List

variable {B K : Type}

/-! ### Operations taken apart -/

section Updates

variable [DecidableEq K] (f : BridgeFormat B K)

/-- A change of one entry, or the pruning that ends a round. -/
inductive Update (B : Type)
  | record (bridge : B) (latency : ℕ) (now : ℤ)
  | failure (bridge : B) (now : ℤ)
  | circuitFailure (bridge : B) (now : ℤ)
  | permanentFailure (bridge : B) (now : ℤ)
  | source (bridge : B) (source : List Char) (now : ℤ)
  | circuitSuccess (bridge : B) (now : ℤ)
  | channelSuccess (bridge : B) (now : ℤ)
  | circuitVerified (bridge : B) (now : ℤ)
  | verificationAttempt (bridge : B) (now : ℤ)
  | prune (now : ℤ) (maxFails maxCircuitFails : ℕ)

def Update.now : Update B → ℤ
  | .record _ _ now | .failure _ now | .circuitFailure _ now | .permanentFailure _ now
  | .source _ _ now | .circuitSuccess _ now | .channelSuccess _ now | .circuitVerified _ now
  | .verificationAttempt _ now | .prune now _ _ => now

/-- The update resets the circuit failures of a bridge. -/
def Update.Clears (k : K) : Update B → Prop
  | .circuitSuccess bridge _ => f.key bridge = k
  | _ => False

/-- One update, with the window that limits both failure counters. -/
def update (window : ℕ) (s : Store B K) : Update B → Store B K
  | .record bridge latency now => recordAt f s bridge latency now
  | .failure bridge now => (noteFailureAt f s bridge now window).1
  | .circuitFailure bridge now => (noteCircuitFailureAt f s bridge now window).1
  | .permanentFailure bridge now => notePermanentFailureAt f s bridge now
  | .source bridge source now => noteSourceAt f s bridge source now
  | .circuitSuccess bridge now => noteCircuitSuccessAt f s bridge now
  | .channelSuccess bridge now => noteChannelSuccessAt f s bridge now
  | .circuitVerified bridge now => noteCircuitVerifiedAt f s bridge now
  | .verificationAttempt bridge now => noteVerificationAttemptAt f s bridge now
  | .prune _ maxFails maxCircuitFails => (prune s maxFails maxCircuitFails).1

namespace Observation

def now : Observation B → ℤ
  | .record _ _ now | .probeRound _ _ now _ _ _ | .failure _ now _ | .circuitFailure _ now _
  | .permanentFailure _ now | .source _ _ now | .circuitSuccess _ now | .channelSuccess _ now
  | .circuitVerified _ now | .verificationAttempt _ now => now

/-- The window of the operation, if it has one, is the given one. -/
def Windowed (window : ℕ) : Observation B → Prop
  | .probeRound _ _ _ failWindow _ _ => failWindow = window
  | .failure _ _ w | .circuitFailure _ _ w => w = window
  | _ => True

/-- The operation resets the circuit failures of a bridge. -/
def Clears (k : K) : Observation B → Prop
  | .circuitSuccess bridge _ => f.key bridge = k
  | _ => False

/-- The updates an operation consists of. -/
def updates : Observation B → List (Update B)
  | .probeRound probed alive now _ maxFails maxCircuitFails =>
    (alive.map fun a => .record a.1 a.2 now) ++
      (probed.filter fun bridge => decide (f.key bridge ∉ alive.map fun a => f.key a.1)).map
        (fun bridge => .failure bridge now) ++ [.prune now maxFails maxCircuitFails]
  | .record bridge latency now => [.record bridge latency now]
  | .failure bridge now _ => [.failure bridge now]
  | .circuitFailure bridge now _ => [.circuitFailure bridge now]
  | .permanentFailure bridge now => [.permanentFailure bridge now]
  | .source bridge origin now => [.source bridge origin now]
  | .circuitSuccess bridge now => [.circuitSuccess bridge now]
  | .channelSuccess bridge now => [.channelSuccess bridge now]
  | .circuitVerified bridge now => [.circuitVerified bridge now]
  | .verificationAttempt bridge now => [.verificationAttempt bridge now]

end Observation

/-- The updates of a run of operations. -/
def updatesOf (os : List (Observation B)) : List (Update B) := os.flatMap (Observation.updates f)

variable {f} {window : ℕ}

theorem recorded_eq (s : Store B K) (probed : List B) (alive : List (B × ℕ)) (now : ℤ) :
    recorded f s probed alive now window =
      ((alive.map fun a => Update.record a.1 a.2 now) ++
        (probed.filter fun bridge => decide (f.key bridge ∉ alive.map fun a => f.key a.1)).map
          (fun bridge => Update.failure bridge now)).foldl (update f window) s := by
  rw [foldl_append, foldl_map, foldl_map, foldl_filter, recorded]
  congr 1
  funext s bridge
  by_cases hmem : f.key bridge ∈ alive.map fun a => f.key a.1
  · simp only [hmem, if_true, not_true, decide_false, Bool.false_eq_true, if_false]
  · simp only [hmem, if_false, not_false_iff, decide_true, if_true, update]

theorem observe_eq_updates {o : Observation B} (ho : o.Windowed window) (s : Store B K) :
    observe f s o = (o.updates f).foldl (update f window) s := by
  cases o with
  | probeRound probed alive now failWindow maxFails maxCircuitFails =>
    obtain rfl : failWindow = window := ho
    rw [Observation.updates, foldl_append, observe, noteProbeRound_eq, recorded_eq]
    rfl
  | failure bridge now w | circuitFailure bridge now w =>
    obtain rfl : w = window := ho
    rfl
  | _ => rfl

theorem observeAll_eq_updates {os : List (Observation B)} (hos : ∀ o ∈ os, o.Windowed window) :
    ∀ s : Store B K, observeAll f s os = (updatesOf f os).foldl (update f window) s := by
  induction os with
  | nil => exact fun s => rfl
  | cons o os ih =>
    intro s
    obtain ⟨ho, hos⟩ := forall_mem_cons.1 hos
    rw [updatesOf, flatMap_cons, foldl_append, ← observe_eq_updates ho]
    exact ih hos (observe f s o)

theorem now_of_mem_updates {o : Observation B} {u : Update B} (hu : u ∈ o.updates f) :
    u.now = o.now := by
  cases o <;> simp only [Observation.updates, mem_append, mem_map, mem_singleton]
    at hu <;> grind [Update.now, Observation.now]

theorem clears_of_mem_updates {o : Observation B} {u : Update B} {k : K} (hu : u ∈ o.updates f)
    (hclears : u.Clears f k) : o.Clears f k := by
  cases o <;> simp only [Observation.updates, mem_append, mem_map, mem_singleton]
    at hu <;> grind [Update.Clears, Observation.Clears]

theorem pairwise_updatesOf {os : List (Observation B)} (h : os.Pairwise fun a b => a.now ≤ b.now) :
    (updatesOf f os).Pairwise fun a b => a.now ≤ b.now := by
  refine pairwise_flatMap.2 ⟨fun o _ => ?_, h.imp fun hle u hu u' hu' => ?_⟩
  · refine pairwise_of_forall_mem_list fun u hu u' hu' => ?_
    rw [now_of_mem_updates hu, now_of_mem_updates hu']
  · rwa [now_of_mem_updates hu, now_of_mem_updates hu']

end Updates

/-! ### What an update does to an entry -/

/-- The two layers on which a bridge can fail. -/
inductive Layer
  | probe
  | circuit
  deriving DecidableEq

/-- The time that limits the failure counter of a layer. -/
def Entry.observed (e : Entry B) : Layer → ℤ
  | .probe => e.lastAttempt
  | .circuit => e.lastCircuitObservation

/-- A failure is counted on a layer. -/
def Entry.count (now : ℤ) (e : Entry B) : Layer → Entry B
  | .probe => { e with fails := bump e.fails, lastAttempt := now }
  | .circuit => { e with circuitFails := bump e.circuitFails, lastCircuitObservation := now }

/-- What the entry of a bridge has become: its times stand still or are those of the update, and it
stays retired unless the update clears it. -/
structure Entry.Follows (clears : Prop) (now : ℤ) (e e' : Entry B) : Prop where
  observed : ∀ layer, e'.observed layer = e.observed layer ∨ e'.observed layer = now
  retired : ¬clears → e.isRetired → e'.isRetired

theorem Entry.Follows.refl (clears : Prop) (now : ℤ) (e : Entry B) : e.Follows clears now e :=
  ⟨fun _ => .inl rfl, fun _ h => h⟩

theorem Entry.observed_count (now : ℤ) (e : Entry B) (layer : Layer) :
    (e.count now layer).observed layer = now := by
  cases layer <;> rfl

variable {clears : Prop} {now t : ℤ} {layer : Layer} {bridge : B} {us : List (Update B)} {c m : ℕ}
theorem Entry.follows_count (clears : Prop) (now : ℤ) (e : Entry B) (layer : Layer) :
    e.Follows clears now (e.count now layer) := by
  constructor
  · rintro (_ | _) <;> cases layer <;> simp [Entry.observed, Entry.count]
  · intro _ hretired
    cases layer with
    | probe => exact hretired
    | circuit =>
      have hmax : e.circuitFails = u32Max := by simpa [Entry.isRetired] using hretired
      simp [Entry.isRetired, Entry.count, bump, hmax]

section Effects

variable [DecidableEq K] {f : BridgeFormat B K}

/-- The last observation of a bridge on a layer is at least a window ago, or there is none. -/
def Due (s : Store B K) (layer : Layer) (k : K) (now : ℤ) (window : ℕ) : Prop :=
  ∀ e ∈ Table.get s k, window ≤ now - e.observed layer

instance (s : Store B K) (layer : Layer) (k : K) (now : ℤ) (window : ℕ) :
    Decidable (Due s layer k now window) :=
  inferInstanceAs (Decidable (∀ e ∈ Table.get s k, window ≤ now - e.observed layer))

/-- A failure on a layer is counted if it is due. -/
def countAt (f : BridgeFormat B K) (layer : Layer) (s : Store B K) (bridge : B) (now : ℤ)
    (window : ℕ) : Store B K × Bool :=
  if Due s layer (f.key bridge) now window then
    (upsert f s bridge (.fresh bridge 0 now) fun e => e.count now layer, true)
  else (s, false)

theorem noteFailureAt_eq (s : Store B K) (bridge : B) (now : ℤ) (window : ℕ) :
    noteFailureAt f s bridge now window = countAt f .probe s bridge now window := by
  by_cases hdue : Due s .probe (f.key bridge) now window
  · rw [countAt, if_pos hdue, upsert, noteFailureAt]
    cases hget : Table.get s (f.key bridge) with
    | none => rfl
    | some e => exact if_pos (hdue e hget)
  · obtain ⟨e, hget, hlt⟩ : ∃ e, Table.get s (f.key bridge) = some e ∧
        ¬(window : ℤ) ≤ now - e.observed .probe := by simpa [Due] using hdue
    rw [countAt, if_neg hdue, noteFailureAt, hget]
    exact if_neg hlt

theorem noteCircuitFailureAt_eq (s : Store B K) (bridge : B) (now : ℤ) (window : ℕ) :
    noteCircuitFailureAt f s bridge now window = countAt f .circuit s bridge now window := by
  by_cases hdue : Due s .circuit (f.key bridge) now window
  · rw [countAt, if_pos hdue, upsert, noteCircuitFailureAt]
    cases hget : Table.get s (f.key bridge) with
    | none => rfl
    | some e => exact if_pos (hdue e hget)
  · obtain ⟨e, hget, hlt⟩ : ∃ e, Table.get s (f.key bridge) = some e ∧
        ¬(window : ℤ) ≤ now - e.observed .circuit := by simpa [Due] using hdue
    rw [countAt, if_neg hdue, noteCircuitFailureAt, hget]
    exact if_neg hlt

/-- What a run reports: a failure was counted, or an entry was removed. -/
inductive Event (K : Type)
  | counted (layer : Layer) (k : K) (time : ℤ)
  | removed (k : K)
  deriving DecidableEq

/-- What an update reports.  The two operations that note a failure say whether they counted it. -/
def events (f : BridgeFormat B K) (window : ℕ) (s : Store B K) : Update B → List (Event K)
  | .failure bridge now =>
    if (noteFailureAt f s bridge now window).2 then [.counted .probe (f.key bridge) now] else []
  | .circuitFailure bridge now =>
    if (noteCircuitFailureAt f s bridge now window).2 then
      [.counted .circuit (f.key bridge) now]
    else []
  | .prune _ maxFails maxCircuitFails =>
    (s.entries.filter fun b => dead maxFails maxCircuitFails b.2).map fun b => .removed b.1
  | _ => []

/-- What a run of updates reports. -/
def history (f : BridgeFormat B K) (window : ℕ) : Store B K → List (Update B) → List (Event K)
  | _, [] => []
  | s, u :: us => events f window s u ++ history f window (update f window s u) us

variable {s : Store B K} {k : K} {e : Entry B} {window : ℕ}

theorem exists_of_upsert (bridge : B) (fresh : Entry B) {change : Entry B → Entry B}
    (hget : Table.get s k = some e)
    (hchange : k = f.key bridge → e.Follows clears now (change e)) :
    ∃ e', Table.get (upsert f s bridge fresh change) k = some e' ∧ e.Follows clears now e' := by
  rw [get_upsert]
  split_ifs with hk
  · rw [hget]
    exact ⟨_, rfl, hchange hk⟩
  · exact ⟨e, hget, .refl clears now e⟩

theorem exists_of_modify (bridge : B) {change : Entry B → Entry B} (hget : Table.get s k = some e)
    (hchange : k = f.key bridge → e.Follows clears now (change e)) :
    ∃ e', Table.get (modify f s bridge change) k = some e' ∧ e.Follows clears now e' := by
  rw [get_modify]
  split_ifs with hk
  · rw [hget]
    exact ⟨_, rfl, hchange hk⟩
  · exact ⟨e, hget, .refl clears now e⟩

theorem exists_of_countAt (layer : Layer) (bridge : B) (hget : Table.get s k = some e) :
    ∃ e', Table.get (countAt f layer s bridge now window).1 k = some e' ∧
      e.Follows clears now e' := by
  unfold countAt
  split
  · exact exists_of_upsert bridge _ hget fun _ => Entry.follows_count _ _ _ _
  · exact ⟨e, hget, .refl clears now e⟩

theorem get_prune (s : Store B K) (maxFails maxCircuitFails : ℕ) (k : K) :
    Table.get (prune s maxFails maxCircuitFails).1 k =
      (Table.get s k).filter fun e => !dead maxFails maxCircuitFails e :=
  Table.get_retain s _ k

/-- **What an update does to an entry.**  It is removed, and the update says so, or it follows. -/
theorem exists_of_update (hget : Table.get s k = some e) (u : Update B)
    (hstays : .removed k ∉ events f window s u) :
    ∃ e', Table.get (update f window s u) k = some e' ∧ e.Follows (u.Clears f k) u.now e' := by
  cases u with
  | record bridge latency now =>
    exact exists_of_upsert bridge _ hget fun _ =>
      ⟨fun layer => by cases layer <;> simp [Entry.observed, Update.now], fun _ h => h⟩
  | failure bridge now =>
    rw [update, noteFailureAt_eq]
    exact exists_of_countAt .probe bridge hget
  | circuitFailure bridge now =>
    rw [update, noteCircuitFailureAt_eq]
    exact exists_of_countAt .circuit bridge hget
  | permanentFailure bridge now =>
    exact exists_of_upsert bridge _ hget fun _ =>
      ⟨fun layer => by cases layer <;> simp [Entry.observed, Update.now],
        fun _ _ => by simp [Entry.isRetired]⟩
  | source bridge source now =>
    exact exists_of_upsert bridge _ hget fun _ =>
      ⟨fun layer => .inl (by cases layer <;> rfl), fun _ h => h⟩
  | circuitSuccess bridge now =>
    exact exists_of_modify bridge hget fun hk =>
      ⟨fun layer => by cases layer <;> simp [Entry.observed, Update.now],
        fun hclears => absurd hk.symm hclears⟩
  | channelSuccess bridge now | circuitVerified bridge now | verificationAttempt bridge now =>
    exact exists_of_modify bridge hget fun _ =>
      ⟨fun layer => .inl (by cases layer <;> rfl), fun _ h => h⟩
  | prune now maxFails maxCircuitFails =>
    have halive : dead maxFails maxCircuitFails e = false := by
      by_contra hdead
      refine hstays (mem_map.2 ⟨⟨k, e⟩, mem_filter.2 ⟨?_, by simpa using hdead⟩, rfl⟩)
      exact Table.mem_entries.2 hget
    refine ⟨e, ?_, .refl _ _ e⟩
    simp [update, get_prune, hget, halive]

theorem counted_of_countAt (hcounted : (countAt f layer s bridge now window).2 = true) :
    Due s layer (f.key bridge) now window ∧
      ∃ e, Table.get (countAt f layer s bridge now window).1 (f.key bridge) = some e ∧
        e.observed layer = now := by
  unfold countAt at hcounted ⊢
  split_ifs at hcounted ⊢ with hdue
  rw [get_upsert, if_pos rfl]
  exact ⟨hdue, _, rfl, Entry.observed_count _ _ _⟩

/-- An update that reports a counted failure. -/
theorem counted_of_mem_events {u : Update B} (h : .counted layer k t ∈ events f window s u) :
    events f window s u = [.counted layer k t] ∧ t = u.now ∧ Due s layer k t window ∧
      ∃ e, Table.get (update f window s u) k = some e ∧ e.observed layer = t := by
  cases u with
  | failure bridge now | circuitFailure bridge now =>
    simp only [events, update, noteFailureAt_eq, noteCircuitFailureAt_eq] at h ⊢
    split_ifs at h ⊢ with hcounted
    · obtain ⟨rfl, rfl, rfl⟩ := Event.counted.inj (mem_singleton.1 h)
      exact ⟨rfl, rfl, counted_of_countAt hcounted⟩
    · exact absurd h not_mem_nil
  | prune now maxFails maxCircuitFails => simp [events] at h
  | _ => exact absurd h not_mem_nil

/-! ### Whole runs -/

/-- After a time that an entry bears, a failure is counted only when the window is over. -/
theorem window_le_of_history {t' : ℤ} {a b : List (Event K)}
    (hget : Table.get s k = some e) (ht : t ≤ e.observed layer) (hlater : ∀ u ∈ us, t ≤ u.now)
    (h : history f window s us = a ++ .counted layer k t' :: b) (hstays : .removed k ∉ a) :
    t + window ≤ t' := by
  induction us generalizing s e a with
  | nil => exact absurd h (by simp [history])
  | cons u us ih =>
    obtain ⟨hu, hlater⟩ := forall_mem_cons.1 hlater
    -- the first update leaves an entry that bears a time no earlier than `t`
    have hnext : .removed k ∉ events f window s u → ∃ e',
        Table.get (update f window s u) k = some e' ∧ t ≤ e'.observed layer := by
      intro hremoved
      obtain ⟨e', hget', hfollows⟩ := exists_of_update hget u hremoved
      exact ⟨e', hget', (hfollows.observed layer).elim (fun heq => heq ▸ ht) fun heq => heq ▸ hu⟩
    rcases append_eq_append_iff.1 h with ⟨c, rfl, hrest⟩ | ⟨c, hevents, hrest⟩
    · obtain ⟨hremoved, hstays'⟩ := not_or.1 (fun hmem => hstays (mem_append.2 hmem))
      obtain ⟨e', hget', ht'⟩ := hnext hremoved
      exact ih hget' ht' hlater hrest hstays'
    · cases c with
      | nil =>
        obtain ⟨e', hget', ht'⟩ := hnext (by rwa [hevents, append_nil])
        exact ih (a := []) hget' ht' hlater hrest.symm not_mem_nil
      | cons event c =>
        obtain ⟨rfl, -⟩ := cons.inj hrest
        have hmem : Event.counted layer k t' ∈ events f window s u := by simp [hevents]
        have hwindow := (counted_of_mem_events hmem).2.2.1 e hget
        omega

/-- **A failure is counted at most once in a window**, as long as the entry lives. -/
theorem window_le_of_counted {t' : ℤ}
    {a b c : List (Event K)} (horder : us.Pairwise fun u u' => u.now ≤ u'.now)
    (h : history f window s us = a ++ .counted layer k t :: (b ++ .counted layer k t' :: c))
    (hstays : .removed k ∉ b) : t + window ≤ t' := by
  induction us generalizing s a with
  | nil => exact absurd h (by simp [history])
  | cons u us ih =>
    obtain ⟨hlater, horder'⟩ := pairwise_cons.1 horder
    rcases append_eq_append_iff.1 h with ⟨d, rfl, hrest⟩ | ⟨d, hevents, hrest⟩
    · exact ih horder' hrest
    · cases d with
      | nil => exact ih (a := []) horder' hrest.symm
      | cons event d =>
        obtain ⟨rfl, hrest'⟩ := cons.inj hrest
        obtain ⟨hsingle, rfl, -, e, hget, hobserved⟩ :=
          counted_of_mem_events (by rw [hevents]; exact mem_append_right a mem_cons_self)
        obtain ⟨-, -, rfl⟩ := append_eq_singleton_iff.1 (hevents.symm.trans hsingle) |>.elim
          id (by simp)
        exact window_le_of_history hget hobserved.ge hlater hrest'.symm hstays

/-- **A retired bridge stays so** until it is cleared or removed. -/
theorem isRetired_of_history (hget : Table.get s k = some e)
    (hretired : e.isRetired) (hclears : ∀ u ∈ us, ¬u.Clears f k)
    (hstays : .removed k ∉ history f window s us) :
    ∃ e', Table.get (us.foldl (update f window) s) k = some e' ∧ e'.isRetired := by
  induction us generalizing s e with
  | nil => exact ⟨e, hget, hretired⟩
  | cons u us ih =>
    obtain ⟨hu, hclears⟩ := forall_mem_cons.1 hclears
    obtain ⟨hremoved, hstays'⟩ := not_or.1 (fun hmem => hstays (mem_append.2 hmem))
    obtain ⟨e', hget', hfollows⟩ := exists_of_update hget u hremoved
    exact ih hget' (hfollows.retired hu hretired) hclears hstays'

/-! ### What a round removes -/

theorem lt_of_get_prune (hget : Table.get (prune s m c).1 k = some e) :
    Table.get s k = some e ∧ e.fails < m ∧ e.circuitFails < c := by
  rw [get_prune, Option.filter_eq_some_iff] at hget
  obtain ⟨hget, halive⟩ := hget
  refine ⟨hget, ?_⟩
  simpa [dead] using halive

theorem get_prune_of_lt (hget : Table.get s k = some e) (hfails : e.fails < m)
    (hcircuit : e.circuitFails < c) : Table.get (prune s m c).1 k = some e := by
  rw [get_prune, Option.filter_eq_some_iff]
  refine ⟨hget, ?_⟩
  simp [dead, hfails, hcircuit]

/-- The bridges that are returned are those of the entries that are gone. -/
theorem mem_prune : bridge ∈ (prune s m c).2 ↔
    ∃ k e, Table.get s k = some e ∧ Table.get (prune s m c).1 k = none ∧ e.bridge = bridge := by
  simp only [get_prune]
  constructor
  · intro hmem
    obtain ⟨b, hb, rfl⟩ := mem_map.1 hmem
    obtain ⟨hentry, hdead⟩ := mem_filter.1 hb
    have hget := Table.mem_entries.1 hentry
    exact ⟨b.1, b.2, hget, by simp [hget, hdead], rfl⟩
  · rintro ⟨k, e, hget, hgone, rfl⟩
    refine mem_map.2 ⟨⟨k, e⟩, mem_filter.2 ⟨Table.mem_entries.2 hget, ?_⟩, rfl⟩
    simpa [hget] using hgone

theorem nodup_prune (h : WellKept f s) (m c : ℕ) : ((prune s m c).2.map f.key).Nodup := by
  have hkeys : (prune s m c).2.map f.key =
      (s.entries.filter fun b => dead m c b.2).map Sigma.fst := by
    rw [prune, map_map]
    refine map_congr_left fun b hb => ?_
    exact (h b.1 b.2 (Table.mem_entries.1 (mem_of_mem_filter hb))).1
  rw [hkeys]
  exact s.nodupKeys.sublist filter_sublist

theorem get_recorded {probed : List B} {alive : List (B × ℕ)} (now : ℤ)
    (hprobed : k ∉ probed.map f.key) (halive : k ∉ alive.map fun a => f.key a.1) :
    Table.get (recorded f s probed alive now window) k = Table.get s k := by
  have hupsert : ∀ (s' : Store B K) (bridge : B) (fresh : Entry B) (change : Entry B → Entry B),
      k ≠ f.key bridge → Table.get (upsert f s' bridge fresh change) k = Table.get s' k :=
    fun s' bridge fresh change hk => by rw [get_upsert, if_neg hk]
  refine foldlRecOn probed _ (motive := fun s' => Table.get s' k = Table.get s k)
    (foldlRecOn alive _ (motive := fun s' => Table.get s' k = Table.get s k) rfl ?_) ?_
  · intro s' hs' a ha
    have hk : k ≠ f.key a.1 := fun heq => halive (heq ▸ mem_map_of_mem ha)
    rw [recordAt, get_upsert, if_neg hk, hs']
  · intro s' hs' bridge hbridge
    have hk : k ≠ f.key bridge := fun heq => hprobed (heq ▸ mem_map_of_mem hbridge)
    rw [noteFailureAt_eq, countAt]
    split_ifs
    · exact hs'
    · rw [get_upsert, if_neg hk, hs']
    · exact hs'

/-- Recording a round leaves every entry in place, with its circuit failures. -/
theorem exists_of_recorded (probed : List B) (alive : List (B × ℕ)) (now : ℤ) (window : ℕ)
    (hget : Table.get s k = some e) :
    ∃ e', Table.get (recorded f s probed alive now window) k = some e' ∧
      e'.circuitFails = e.circuitFails := by
  let Kept (s' : Store B K) : Prop :=
    ∃ e', Table.get s' k = some e' ∧ e'.circuitFails = e.circuitFails
  have hupsert : ∀ (s' : Store B K) (bridge : B) (fresh : Entry B) (change : Entry B → Entry B),
      (∀ e, (change e).circuitFails = e.circuitFails) → Kept s' →
        Kept (upsert f s' bridge fresh change) := by
    rintro s' bridge fresh change hchange ⟨e', hget', heq⟩
    simp only [Kept, get_upsert, hget']
    split_ifs
    · exact ⟨_, rfl, (hchange e').trans heq⟩
    · exact ⟨e', rfl, heq⟩
  change Kept _
  refine foldlRecOn probed _ (foldlRecOn alive _ ⟨e, hget, rfl⟩ ?_) ?_
  · exact fun s' hs' a _ => hupsert s' a.1 _ _ (fun _ => rfl) hs'
  · intro s' hs' bridge _
    rw [noteFailureAt_eq, countAt]
    split_ifs
    · exact hs'
    · exact hupsert s' bridge _ _ (fun _ => rfl) hs'
    · exact hs'

end Effects

section Results

variable [LinearOrder K] {f : BridgeFormat B K} {s : Store B K}

theorem mem_takeRanked {rank : Entry B → Entry B → Ordering} [Std.TransCmp rank]
    {entries : List (Entry B)} {limit : ℕ}
      (h : bridge ∈ takeRanked rank entries limit) :
    ∃ e ∈ entries, e.bridge = bridge := by
  rw [takeRanked_eq, mem_map] at h
  obtain ⟨e, he, heq⟩ := h
  exact ⟨e, mem_mergeSort.1 (mem_of_mem_take he), heq⟩

/-- A retired bridge is not selected from the entries that are not retired. -/
theorem not_mem_takeRanked (h : WellKept f s) {k : K} {e : Entry B} (hget : Table.get s k = some e)
    (hretired : e.isRetired) (rank : Entry B → Entry B → Ordering) [Std.TransCmp rank]
    {p : Entry B → Bool} (hp : ∀ e : Entry B, p e → e.isRetired = false) (limit : ℕ) :
    k ∉ (takeRanked rank ((values s).filter p) limit).map f.key := by
  intro hmem
  obtain ⟨bridge, hbridge, rfl⟩ := mem_map.1 hmem
  obtain ⟨e', he', rfl⟩ := mem_takeRanked hbridge
  obtain ⟨hvalue, hpe⟩ := mem_filter.1 he'
  obtain ⟨⟨k', e''⟩, hentry, rfl⟩ := mem_map.1 hvalue
  have hget' := mem_inOrder.1 hentry
  rw [(h k' e'' hget').1, hget'] at hget
  cases hget
  simp [hp _ hpe] at hretired

/-- **A retired bridge is selected by no question.** -/
theorem not_selected_of_isRetired (h : WellKept f s) {k : K} {e : Entry B}
    (hget : Table.get s k = some e) (hretired : e.isRetired) (limit : ℕ) :
    k ∉ (healthiestBridges s limit).map f.key ∧
      (∀ candidates, k ∉ (healthiestAmong f s candidates limit).map f.key) ∧
      k ∉ (channelProvenBridges s limit).map f.key ∧
      ∀ now maxAge filter, k ∉ (needingCircuitVerification s now maxAge limit filter).map f.key
    := by
  have hproven : ∀ e : Entry B, e.isProvenAlive → e.isRetired = false := by
    simp +contextual [Entry.isProvenAlive]
  refine ⟨not_mem_takeRanked h hget hretired rankCmp hproven limit, fun candidates => ?_,
    not_mem_takeRanked h hget hretired channelProvenCmp (by simp +contextual) limit,
    fun now maxAge filter =>
      not_mem_takeRanked h hget hretired dueCmp (by simp +contextual [Entry.isDue]) limit⟩
  rw [healthiestAmong, filter_inOrder h, filter_filter]
  exact not_mem_takeRanked h hget hretired rankCmp
    (fun e he => hproven e (Bool.and_eq_true _ _ ▸ he).2) limit

end Results

end BridgeStore
