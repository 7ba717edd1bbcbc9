/-
**What the guards of the tunnel report.**

The Tor client reports on its guards by their fingerprints.  The reports wait in a bounded queue,
and from time to time they are drained into the bridge store: a report is applied to every
configured bridge line that has the fingerprint, since the lines of one guard share its fate.
-/

import Mathlib
import TorSocks5.LocalUpdates
import TorSocks5.ProbeRounds

set_option autoImplicit false

namespace GuardObservations

open List

open BridgeStore

/-! ### The queue -/

/-- A report on a guard, by its fingerprint in upper case. -/
structure GuardObservation where
  fingerprint : List Char
  usable : Bool
  deriving DecidableEq

def observationQueueCap : ℕ := 1024

/-- The queue of reports.  The recovery notifier, if there is one and it is alive, keeps whether it
was notified. -/
structure Sink where
  inner : List GuardObservation
  recovery : Option Bool

def Sink.new : Sink := ⟨[], none⟩

/-- The oldest reports are shed until the rest fits. -/
def shed : List GuardObservation → List GuardObservation
  | [] => []
  | o :: queue => if observationQueueCap < (o :: queue).length then shed queue else o :: queue

/-- A report is queued; one of a failure wakes the recovery. -/
def Sink.push (sink : Sink) (obs : GuardObservation) : Sink where
  inner := shed (sink.inner ++ [obs])
  recovery := sink.recovery.map fun notified => notified || !obs.usable

/-- Everything that is queued is taken. -/
def Sink.drain (sink : Sink) : List GuardObservation × Sink :=
    (sink.inner, { sink with inner := [] })

theorem shed_eq (queue : List GuardObservation) :
    shed queue = queue.drop (queue.length - observationQueueCap) := by
  induction queue with
  | nil => rfl
  | cons o queue ih =>
    rw [shed]
    split_ifs with hlong
    · rw [ih, length_cons, Nat.succ_sub (by simp at hlong; omega), drop_succ_cons]
    · rw [Nat.sub_eq_zero_of_le (by omega), drop_zero]

/-- **The queue is the end of what was pushed.** -/
theorem inner_foldl_push (pushed : List GuardObservation) (recovery : Option Bool) :
    (pushed.foldl Sink.push ⟨[], recovery⟩).inner =
      pushed.drop (pushed.length - observationQueueCap) := by
  induction pushed using reverseRecOn with
  | nil => rfl
  | append_singleton pushed obs ih =>
    rw [foldl_append, foldl_cons, foldl_nil]
    change shed (_ ++ [obs]) = _
    rw [ih, shed_eq]
    generalize observationQueueCap = cap
    rw [← drop_append_of_le_length (by omega), drop_drop]
    congr 1
    simp
    omega

/-! ### Draining -/

variable {B K : Type} [DecidableEq K] (f : BridgeFormat B K) (fingerprint : B → Option (List Char))

/-- The fingerprint of a line, in upper case. -/
def upperFingerprint (bridge : B) : Option (List Char) :=
  (fingerprint bridge).map fun fp => fp.map Char.toUpper

/-- The configured lines by their fingerprints, each group in the order of the configuration. -/
def byFingerprint (known : List B) : Table (List Char) (List B) :=
  known.foldl (fun groups bridge =>
    match upperFingerprint fingerprint bridge with
    | some fp => groups.insert fp ((groups.get fp).getD [] ++ [bridge])
    | none => groups) ∅

/-- A store into which reports are drained, and how many failures were counted, how many successes
there were, and how many reports matched no line. -/
structure Drained (B K : Type) where
  store : Store B K
  failures : ℕ
  successes : ℕ
  unmatched : ℕ

/-- One report is applied to every line that has its fingerprint. -/
def drainOne (groups : Table (List Char) (List B)) (now : ℤ) (window : ℕ) (d : Drained B K)
    (obs : GuardObservation) : Drained B K :=
  match groups.get obs.fingerprint with
  | none => { d with unmatched := d.unmatched + 1 }
  | some group =>
    if obs.usable then
      { d with
        store := group.foldl (fun s bridge => noteCircuitSuccessAt f s bridge now) d.store
        successes := d.successes + 1 }
    else
      let counted := Table.sweep (fun s bridge => noteCircuitFailureAt f s bridge now window) group
        d.store
      { d with
        store := counted.1
        failures := if counted.2 then d.failures + 1 else d.failures }

def drainAll (known : List B) (now : ℤ) (window : ℕ) (d : Drained B K)
    (queue : List GuardObservation) : Drained B K :=
  queue.foldl (drainOne f (byFingerprint fingerprint known) now window) d

/-- The queue is drained into the store. -/
def drainIntoStore (sink : Sink) (s : Store B K) (known : List B) (now : ℤ) (window : ℕ) :
    Sink × Drained B K :=
  (sink.drain.2, drainAll f fingerprint known now window ⟨s, 0, 0, 0⟩ sink.drain.1)

/-! ### A report on one bridge -/

/-- A report on one bridge alone, and whether it counted a failure. -/
def observeEndpoint (now : ℤ) (window : ℕ) (usable : Bool) (s : Store B K) (bridge : B) :
    Store B K × Bool :=
  if usable then (noteCircuitSuccessAt f s bridge now, false)
  else noteCircuitFailureAt f s bridge now window

/-- What a report does to the entry of a bridge. -/
def act (now : ℤ) (window : ℕ) (usable : Bool) (bridge : B) (e : Option (Entry B)) :
    Option (Entry B) × Bool :=
  if usable then
    (e.map fun e => { e with circuitFails := 0, lastCircuitObservation := now }, false)
  else if ∀ e' ∈ e, (window : ℤ) ≤ now - e'.observed .circuit then
    (some ((e.getD (.fresh bridge 0 now)).count now .circuit), true)
  else (e, false)

variable {f fingerprint}

/-- **A report acts on one entry.** -/
theorem isLocal_observeEndpoint (now : ℤ) (window : ℕ) (usable : Bool) :
    Table.Local (observeEndpoint f now window usable) f.key (act now window usable) := by
  constructor
  · intro s bridge k
    cases usable with
    | true =>
      rw [observeEndpoint, if_pos rfl, act, if_pos rfl]
      exact get_modify s bridge _ k
    | false =>
      rw [observeEndpoint, if_neg Bool.false_ne_true, noteCircuitFailureAt_eq, countAt, act,
        if_neg Bool.false_ne_true]
      by_cases hk : k = f.key bridge
      · subst hk
        rw [if_pos rfl]
        by_cases hdue : ∀ e ∈ Table.get s (f.key bridge), (window : ℤ) ≤ now - e.observed .circuit
        · rw [if_pos (show Due s .circuit (f.key bridge) now window from hdue), if_pos hdue,
            get_upsert, if_pos rfl]
        · rw [if_neg (show ¬Due s .circuit (f.key bridge) now window from hdue), if_neg hdue]
      · rw [if_neg hk]
        split
        · rw [get_upsert, if_neg hk]
        · rfl
  · intro s bridge
    cases usable with
    | true => rfl
    | false =>
      rw [observeEndpoint, if_neg Bool.false_ne_true, noteCircuitFailureAt_eq, countAt, act,
        if_neg Bool.false_ne_true]
      by_cases hdue : ∀ e ∈ Table.get s (f.key bridge), (window : ℤ) ≤ now - e.observed .circuit
      · rw [if_pos (show Due s .circuit (f.key bridge) now window from hdue), if_pos hdue]
      · rw [if_neg (show ¬Due s .circuit (f.key bridge) now window from hdue), if_neg hdue]

/-! ### The lines of a guard -/

variable (fingerprint) in
/-- The lines that have a fingerprint, in the order of the configuration. -/
def group (known : List B) (fp : List Char) : List B :=
  known.filter fun bridge => decide (upperFingerprint fingerprint bridge = some fp)

theorem mem_group {known : List B} {fp : List Char} {bridge : B} :
    bridge ∈ group fingerprint known fp ↔
      bridge ∈ known ∧ upperFingerprint fingerprint bridge = some fp := by
  rw [group, mem_filter, decide_eq_true_iff]

omit [DecidableEq K] in
theorem nodup_group {known : List B} (hnd : (known.map f.key).Nodup) (fp : List Char) :
    ((group fingerprint known fp).map f.key).Nodup :=
  hnd.sublist (filter_sublist.map f.key)

theorem get_byFingerprint (known : List B) (fp : List Char) :
    (byFingerprint fingerprint known).get fp =
      if group fingerprint known fp = [] then none else some (group fingerprint known fp) := by
  induction known using reverseRecOn with
  | nil => rfl
  | append_singleton known bridge ih =>
    have hgroup : group fingerprint (known ++ [bridge]) fp = group fingerprint known fp ++
        if upperFingerprint fingerprint bridge = some fp then [bridge] else [] := by
      simp [group, filter_append, filter_cons]
    rw [byFingerprint, foldl_append, foldl_cons, foldl_nil, ← byFingerprint,
      hgroup]
    cases hfp : upperFingerprint fingerprint bridge with
    | none => simpa using ih
    | some fp' =>
      rcases eq_or_ne fp' fp with rfl | hne
      · have hgetD : ((byFingerprint fingerprint known).get fp').getD [] =
            group fingerprint known fp' := by
          rw [ih]
          split_ifs with hnil
          · exact hnil.symm
          · rfl
        simp [Table.get_insert_self, hgetD]
      · simpa [hne, ← ih] using Table.get_insert_of_ne _ hne.symm _

/-! ### One report -/

section Reports

variable {known : List B} {now : ℤ} {window : ℕ} {d : Drained B K} {obs : GuardObservation}

theorem sweep_success (window : ℕ) (bridges : List B) (s : Store B K) :
    (Table.sweep (observeEndpoint f now window true) bridges s).1 =
      bridges.foldl (fun s bridge => noteCircuitSuccessAt f s bridge now) s := by
  induction bridges generalizing s with
  | nil => rfl
  | cons bridge bridges ih => exact ih _

/-- A report sweeps over the lines that have its fingerprint. -/
theorem drainOne_eq (obs : GuardObservation) :
    let lines := group fingerprint known obs.fingerprint
    let swept := Table.sweep (observeEndpoint f now window obs.usable) lines d.store
    drainOne f (byFingerprint fingerprint known) now window d obs =
      { store := swept.1
        failures := d.failures + if lines ≠ [] ∧ obs.usable = false ∧ swept.2 then 1 else 0
        successes := d.successes + if lines ≠ [] ∧ obs.usable then 1 else 0
        unmatched := d.unmatched + if lines = [] then 1 else 0 } := by
  intro lines swept
  have hget : (byFingerprint fingerprint known).get obs.fingerprint =
      if lines = [] then none else some lines := get_byFingerprint known obs.fingerprint
  by_cases hnil : lines = []
  · have hswept : swept.1 = d.store := by simp [swept, hnil, Table.sweep]
    rw [drainOne, hget, if_pos hnil, hswept]
    simp [hnil]
  · rw [drainOne, hget, if_neg hnil]
    cases husable : obs.usable with
    | true =>
      have hswept : swept.1 =
          lines.foldl (fun s bridge => noteCircuitSuccessAt f s bridge now) d.store := by
        rw [← sweep_success window lines d.store, ← husable]
      simp [hnil, hswept]
    | false =>
      have hswept : swept =
          Table.sweep (fun s bridge => noteCircuitFailureAt f s bridge now window) lines d.store := by
        simp only [swept, husable]
        rfl
      rw [hswept]
      cases hcounted : (Table.sweep (fun s bridge => noteCircuitFailureAt f s bridge now window) lines
        d.store).2 <;> simp [hnil, hcounted]

/-- One report changes an entry as it would alone, if its bridge has the fingerprint. -/
theorem get_drainOne (hnd : (known.map f.key).Nodup) {bridge : B} (hbridge : bridge ∈ known) :
    Table.get (drainOne f (byFingerprint fingerprint known) now window d obs).store (f.key bridge) =
      if upperFingerprint fingerprint bridge = some obs.fingerprint then
        (act now window obs.usable bridge (Table.get d.store (f.key bridge))).1
      else Table.get d.store (f.key bridge) := by
  have hlocal := isLocal_observeEndpoint (f := f) now window obs.usable
  rw [drainOne_eq]
  by_cases hfp : upperFingerprint fingerprint bridge = some obs.fingerprint
  · rw [if_pos hfp]
    exact hlocal.get_sweep (nodup_group hnd _) (mem_group.2 ⟨hbridge, hfp⟩)
  · rw [if_neg hfp]
    refine hlocal.get_sweep_of_not_mem fun hmem => hfp ?_
    obtain ⟨bridge', hbridge', hkey⟩ := mem_map.1 hmem
    obtain ⟨hknown, hfp'⟩ := mem_group.1 hbridge'
    rwa [← inj_on_of_nodup_map hnd hknown hbridge hkey]

theorem get_drainOne_of_not_mem {k : K} (hk : k ∉ known.map f.key) :
    Table.get (drainOne f (byFingerprint fingerprint known) now window d obs).store k =
      Table.get d.store k := by
  rw [drainOne_eq]
  refine (isLocal_observeEndpoint now window obs.usable).get_sweep_of_not_mem fun hmem => hk ?_
  obtain ⟨bridge, hbridge, rfl⟩ := mem_map.1 hmem
  exact mem_map_of_mem (mem_group.1 hbridge).1

/-- The same reports so far, in stores with the same entries. -/
structure Drained.Alike (d d' : Drained B K) : Prop where
  store : Table.Alike d.store d'.store
  failures : d.failures = d'.failures
  successes : d.successes = d'.successes
  unmatched : d.unmatched = d'.unmatched

theorem drainOne_perm {known' : List B} {d' : Drained B K} (hnd : (known.map f.key).Nodup)
    (hperm : known.Perm known') (h : d.Alike d') :
    (drainOne f (byFingerprint fingerprint known) now window d obs).Alike
      (drainOne f (byFingerprint fingerprint known') now window d' obs) := by
  have hgroup : (group fingerprint known obs.fingerprint).Perm
      (group fingerprint known' obs.fingerprint) := hperm.filter _
  have hnil : group fingerprint known obs.fingerprint = [] ↔
      group fingerprint known' obs.fingerprint = [] :=
    ⟨fun heq => List.Perm.eq_nil (heq ▸ hgroup.symm), fun heq => List.Perm.eq_nil (heq ▸ hgroup)⟩
  obtain ⟨hstore, hcounted⟩ := (isLocal_observeEndpoint (f := f) now window obs.usable).alike_sweep
    (nodup_group hnd _) hgroup h.store
  rw [drainOne_eq, drainOne_eq]
  refine ⟨hstore, ?_, ?_, ?_⟩
  · simp only [h.failures, hnil, hcounted, ne_eq]
  · simp only [h.successes, hnil, ne_eq]
  · simp only [h.unmatched, hnil]

end Reports

/-! ### A whole drain -/

section Drains

variable {known : List B} {now : ℤ} {window : ℕ} {queue : List GuardObservation}

variable (f) in
/-- A report is applied to one bridge, and to no other. -/
def observeAlone (bridge : B) (now : ℤ) (window : ℕ) (s : Store B K) (obs : GuardObservation) :
    Store B K :=
  (observeEndpoint f now window obs.usable s bridge).1

variable (fingerprint) in
/-- The reports on a bridge, in the order of the queue. -/
def reportsOn (bridge : B) (queue : List GuardObservation) : List GuardObservation :=
  queue.filter fun obs => decide (upperFingerprint fingerprint bridge = some obs.fingerprint)

/-- **A drain acts on each bridge alone.** -/
theorem get_drainAll (hnd : (known.map f.key).Nodup) {bridge : B} (hbridge : bridge ∈ known)
    {d : Drained B K} {s : Store B K}
    (h : Table.get d.store (f.key bridge) = Table.get s (f.key bridge)) :
    Table.get (drainAll f fingerprint known now window d queue).store (f.key bridge) =
      Table.get ((reportsOn fingerprint bridge queue).foldl (observeAlone f bridge now window) s)
        (f.key bridge) := by
  induction queue generalizing d s with
  | nil => exact h
  | cons obs queue ih =>
    have hstep : Table.get (drainOne f (byFingerprint fingerprint known) now window d obs).store
        (f.key bridge) = _ := get_drainOne hnd hbridge
    rw [drainAll, foldl_cons, ← drainAll, reportsOn, filter_cons]
    split_ifs with hfp
    · rw [if_pos (of_decide_eq_true hfp)] at hstep
      refine ih (hstep.trans ?_)
      rw [h]
      exact ((isLocal_observeEndpoint now window obs.usable).get_op_self s bridge).symm
    · rw [if_neg (by simpa using hfp)] at hstep
      exact ih (hstep.trans h)

theorem get_drainAll_of_not_mem {k : K} (hk : k ∉ known.map f.key) (d : Drained B K) :
    Table.get (drainAll f fingerprint known now window d queue).store k = Table.get d.store k := by
  induction queue generalizing d with
  | nil => rfl
  | cons obs queue ih => exact (ih _).trans (get_drainOne_of_not_mem hk)

/-- **The order of the lines does not matter.** -/
theorem drainAll_perm {known' : List B} {d d' : Drained B K} (hnd : (known.map f.key).Nodup)
    (hperm : known.Perm known') (h : d.Alike d') :
    (drainAll f fingerprint known now window d queue).Alike
      (drainAll f fingerprint known' now window d' queue) := by
  induction queue generalizing d d' with
  | nil => exact h
  | cons obs queue ih => exact ih (drainOne_perm hnd hperm h)

/-! ### The counter grows once -/

/-- How many circuit failures are counted for a bridge. -/
def circuitFailsOf (s : Store B K) (k : K) : ℕ :=
  ((Table.get s k).map fun e => e.circuitFails).getD 0

/-- The count has not grown over a bound, or it has grown by one and is not due again. -/
def Bounded (now : ℤ) (bound : ℕ) (e : Option (Entry B)) : Prop :=
  (e.map fun e => e.circuitFails).getD 0 ≤ bound ∨
    ∃ e', e = some e' ∧ e'.circuitFails ≤ bound + 1 ∧ e'.lastCircuitObservation = now

omit [DecidableEq K] in
theorem bounded_act {bound : ℕ} {e : Option (Entry B)} (hwindow : 0 < window) (usable : Bool)
    (bridge : B) (h : Bounded now bound e) :
    Bounded now bound (act now window usable bridge e).1 := by
  cases usable with
  | true =>
    rw [act, if_pos rfl]
    cases e <;> exact .inl (Nat.zero_le bound)
  | false =>
    rw [act, if_neg Bool.false_ne_true]
    split_ifs with hdue
    · rcases h with hle | ⟨e', rfl, -, hnow⟩
      · refine .inr ⟨_, rfl, ?_, rfl⟩
        have hbump : ∀ n, bump n ≤ n + 1 := fun n => min_le_left _ _
        cases e with
        | none => exact (hbump 0).trans (by omega)
        | some e => exact (hbump _).trans (Nat.succ_le_succ hle)
      · have hlate := hdue e' rfl
        rw [Entry.observed, hnow] at hlate
        omega
    · exact h

theorem circuitFailsOf_foldl_le (now : ℤ) (hwindow : 0 < window) (bridge : B) (s : Store B K)
    (reports : List GuardObservation) :
    circuitFailsOf (reports.foldl (observeAlone f bridge now window) s) (f.key bridge) ≤
      circuitFailsOf s (f.key bridge) + 1 := by
  have hbounded : Bounded now (circuitFailsOf s (f.key bridge))
      (Table.get (reports.foldl (observeAlone f bridge now window) s) (f.key bridge)) := by
    refine foldlRecOn reports _ (motive := fun s' => Bounded now
      (circuitFailsOf s (f.key bridge)) (Table.get s' (f.key bridge))) (.inl le_rfl) ?_
    intro s' hs' obs _
    rw [observeAlone, (isLocal_observeEndpoint now window obs.usable).get_op_self]
    exact bounded_act hwindow obs.usable bridge hs'
  rw [circuitFailsOf]
  rcases hbounded with hle | ⟨e, he, hle, -⟩
  · exact hle.trans (Nat.le_succ _)
  · rw [he]
    exact hle

end Drains

/-- **Guard reports act on each bridge alone, whatever the order of the lines.**  After a drain the
entry of a configured bridge is what the reports on its fingerprint make of it alone, in the order
of the queue; other entries are as they were; the order of the configuration changes neither the
entries nor the counts; and with a window the failures of a bridge grow by one at most.  The queue
holds the last reports that were pushed, as many as it has room for. -/
theorem guard_observations {B K : Type} [DecidableEq K] {f : BridgeFormat B K}
    {fingerprint : B → Option (List Char)} {known : List B} (hnd : (known.map f.key).Nodup)
    (sink : Sink) (s : Store B K) (now : ℤ) (window : ℕ) :
    let drained := (drainIntoStore f fingerprint sink s known now window).2
    (∀ bridge ∈ known, Table.get drained.store (f.key bridge) =
      Table.get ((sink.inner.filter fun obs =>
          decide (upperFingerprint fingerprint bridge = some obs.fingerprint)).foldl
        (fun s obs => if obs.usable then noteCircuitSuccessAt f s bridge now
          else (noteCircuitFailureAt f s bridge now window).1) s) (f.key bridge)) ∧
    (∀ k, k ∉ known.map f.key → Table.get drained.store k = Table.get s k) ∧
    (∀ known', known.Perm known' →
      let drained' := (drainIntoStore f fingerprint sink s known' now window).2
      (∀ k, Table.get drained'.store k = Table.get drained.store k) ∧
        drained'.failures = drained.failures ∧ drained'.successes = drained.successes ∧
        drained'.unmatched = drained.unmatched) ∧
    (0 < window → ∀ bridge ∈ known, circuitFailsOf drained.store (f.key bridge) ≤
      circuitFailsOf s (f.key bridge) + 1) ∧
    ∀ pushed : List GuardObservation, (pushed.foldl Sink.push Sink.new).inner <:+ pushed ∧
      (pushed.foldl Sink.push Sink.new).inner.length = min pushed.length observationQueueCap := by
  intro drained
  have halone : ∀ bridge ∈ known, Table.get drained.store (f.key bridge) =
      Table.get ((reportsOn fingerprint bridge sink.inner).foldl (observeAlone f bridge now window) s)
        (f.key bridge) := fun bridge hbridge => get_drainAll hnd hbridge rfl
  refine ⟨?_, ?_, ?_, ?_, ?_⟩
  · intro bridge hbridge
    rw [halone bridge hbridge]
    congr 2
    funext s obs
    rw [observeAlone, observeEndpoint]
    split <;> rfl
  · intro k hk
    exact get_drainAll_of_not_mem hk _
  · intro known' hperm drained'
    have halike : drained.Alike drained' :=
      drainAll_perm hnd hperm ⟨fun _ => rfl, rfl, rfl, rfl⟩
    exact ⟨fun k => (halike.store k).symm, halike.failures.symm, halike.successes.symm,
      halike.unmatched.symm⟩
  · intro hwindow bridge hbridge
    have hle := circuitFailsOf_foldl_le (f := f) now hwindow bridge s
      (reportsOn fingerprint bridge sink.inner)
    rwa [circuitFailsOf, ← halone bridge hbridge, ← circuitFailsOf] at hle
  · intro pushed
    rw [Sink.new, inner_foldl_push]
    generalize observationQueueCap = cap
    refine ⟨List.drop_suffix _ _, ?_⟩
    rw [List.length_drop]
    omega

theorem guard_observations_shared :
    (drainIntoStore numberFormat (fun _ => some ['a']) ⟨[⟨['A'], false⟩, ⟨['B'], true⟩], none⟩ ∅
        [1, 2] 0 5).2.failures = 1 ∧
      (drainIntoStore numberFormat (fun _ => some ['a']) ⟨[⟨['A'], false⟩, ⟨['B'], true⟩], none⟩ ∅
        [2, 1] 0 5).2.failures =
      (drainIntoStore numberFormat (fun _ => some ['a']) ⟨[⟨['A'], false⟩, ⟨['B'], true⟩], none⟩ ∅
        [1, 2] 0 5).2.failures := by
  refine ⟨by decide, ?_⟩
  have hnd : (([1, 2] : List ℕ).map numberFormat.key).Nodup := by decide
  obtain ⟨-, -, hperm, -⟩ := @guard_observations _ _ _ numberFormat (fun _ => some ['a']) [1, 2] hnd
    ⟨[⟨['A'], false⟩, ⟨['B'], true⟩], none⟩ ∅ 0 5
  exact (hperm [2, 1] (List.Perm.swap 2 1 [])).2.1

end GuardObservations
