/-
**The sweep of the lookups in flight.**

A key stands in the queue of the sweep once, and a sweep takes a bounded number of keys from its
front: those of live cells go to the back, the others go.  A dead entry therefore only moves towards
the front, by the budget of a sweep at a time, and goes when it is reached.
-/

import Mathlib
import TorSocks5.InflightLookups

set_option autoImplicit false

namespace Inflight

open List

variable {H : Type} [DecidableEq H]

/-! ### The sweep as the code runs it -/

namespace Registry

/-- The loop of `sweep_inflight_dead_entries`, with the number of keys visited. -/
def sweepLoop (alive : ℕ → Bool) : ℕ → Registry H × ℕ → Registry H × ℕ
  | 0, s => s
  | rounds + 1, (r, visited) =>
    if r.sweepQueue = [] then (r, visited)
    else sweepLoop alive rounds (r.visit alive, visited + 1)

def sweepInflightDeadEntries (alive : ℕ → Bool) (r : Registry H) : Registry H × ℕ :=
  sweepLoop alive (min sweepBudget r.sweepQueue.length) (r, 0)

variable {alive : ℕ → Bool} {r : Registry H} {k : Key H} {x : ℕ}

/-- A visit takes the key at the front away, or puts it to the back if its cell lives. -/
theorem visit_cases (alive : ℕ → Bool) {front : Key H} {queue : List (Key H)}
    (h : r.sweepQueue = front :: queue) :
    ((r.visit alive).sweepQueue = queue ∧ (r.visit alive).queuedKeys = r.queuedKeys.erase front ∧
      ∀ k, (r.visit alive).entries.get k = if k = front then none else r.entries.get k) ∨
    ((r.visit alive).sweepQueue = queue ++ [front] ∧
      (r.visit alive).queuedKeys = insert front (r.queuedKeys.erase front) ∧
      (r.visit alive).entries = r.entries ∧
      ∃ y, r.entries.get front = some y ∧ alive y = true) := by
  unfold visit
  rw [h]
  cases hy : r.entries.get front with
  | none =>
    refine .inl ⟨by simp [hy], by simp [hy], fun k => ?_⟩
    simp only [hy]
    split_ifs with hk
    · rw [hk, hy]
    · rfl
  | some y =>
    simp only [hy]
    split_ifs with halive
    · exact .inr (by simp [queueKey, halive])
    · exact .inl ⟨rfl, rfl, Table.get_remove _ _⟩

theorem length_le_visit (alive : ℕ → Bool) (h : r.sweepQueue ≠ []) :
    r.sweepQueue.length ≤ (r.visit alive).sweepQueue.length + 1 := by
  obtain ⟨front, queue, hq⟩ := exists_cons_of_ne_nil h
  rcases visit_cases alive hq with ⟨hv, -⟩ | ⟨hv, -⟩ <;> simp [hq, hv]

theorem sweepLoop_eq (n visited : ℕ) (hn : n ≤ r.sweepQueue.length) :
    sweepLoop alive n (r, visited) = ((visit alive)^[n] r, visited + n) := by
  induction n generalizing r visited with
  | zero => rfl
  | succ n ih =>
    have hne : r.sweepQueue ≠ [] := ne_nil_of_length_pos (by omega)
    have hlen := length_le_visit alive hne
    rw [sweepLoop, if_neg hne, ih _ (by omega), Function.iterate_succ_apply, Nat.add_right_comm]
    rfl

/-- The loop is the sweep, and visits as many keys as the budget and the queue allow. -/
theorem sweepInflightDeadEntries_eq (alive : ℕ → Bool) (r : Registry H) :
    r.sweepInflightDeadEntries alive = (r.sweep alive, min sweepBudget r.sweepQueue.length) := by
  rw [sweepInflightDeadEntries, sweepLoop_eq _ _ (min_le_right _ _), Nat.zero_add]
  rfl

/-! ### The queue is exact -/

/-- The queue, the set of queued keys and the entries agree. -/
structure Exact (r : Registry H) : Prop where
  nodup : r.sweepQueue.Nodup
  queued : ∀ k, k ∈ r.sweepQueue ↔ k ∈ r.queuedKeys
  covers : ∀ k x, r.entries.get k = some x → k ∈ r.sweepQueue

theorem Exact.empty : Exact (⟨∅, [], ∅⟩ : Registry H) := ⟨nodup_nil, by simp, by simp⟩

theorem Exact.visit (h : Exact r) : Exact (r.visit alive) := by
  cases hq : r.sweepQueue with
  | nil =>
    rw [Registry.visit, hq]
    exact h
  | cons front queue =>
    have hnodup := h.nodup
    have hqueued := h.queued
    have hcovers := h.covers
    rw [hq] at hnodup hqueued hcovers
    obtain ⟨hfront, hqueue⟩ := nodup_cons.mp hnodup
    have herase : ∀ k, k ∈ queue ↔ k ∈ r.queuedKeys.erase front := by
      intro k
      rw [Finset.mem_erase, ← hqueued, mem_cons]
      refine ⟨fun hk => ⟨fun heq => hfront (heq ▸ hk), .inr hk⟩, fun hk => hk.2.resolve_left hk.1⟩
    rcases visit_cases alive hq with ⟨hv, hset, hget⟩ | ⟨hv, hset, hget, -⟩
    · constructor <;> rw [hv]
      · exact hqueue
      · rwa [hset]
      · intro k x hk
        rw [hget] at hk
        split_ifs at hk with hne
        exact (mem_cons.mp (hcovers k x hk)).resolve_left hne
    · constructor <;> rw [hv]
      · exact nodup_append_comm.mp (nodup_cons.mpr ⟨hfront, hqueue⟩)
      · intro k
        rw [hset, Finset.mem_insert, ← herase, mem_append, mem_singleton, or_comm]
      · intro k x hk
        rw [hget] at hk
        rw [mem_append, mem_singleton, or_comm]
        exact mem_cons.mp (hcovers k x hk)

theorem Exact.sweep (h : Exact r) : Exact (r.sweep alive) := by
  unfold Registry.sweep
  generalize min sweepBudget r.sweepQueue.length = n
  induction n with
  | zero => exact h
  | succ n ih =>
    rw [Function.iterate_succ_apply']
    exact ih.visit

/-- An insertion of the code: the entry is written, and its key queued. -/
theorem Exact.insert (h : Exact r) (k : Key H) (x : ℕ) :
    Exact ({ r with entries := r.entries.insert k x }.queueKey k) := by
  have hcovers : ∀ k' y, (r.entries.insert k x).get k' = some y → k' = k ∨ k' ∈ r.sweepQueue := by
    intro k' y hy
    rw [Table.get_insert] at hy
    split_ifs at hy with hk
    · exact .inl hk
    · exact .inr (h.covers k' y hy)
  unfold queueKey
  split_ifs with hk
  · refine ⟨h.nodup, h.queued, fun k' y hy => (hcovers k' y hy).elim (fun heq => ?_) id⟩
    exact heq ▸ (h.queued k).mpr hk
  · refine ⟨?_, fun k' => ?_, fun k' y hy => ?_⟩
    · refine nodup_append_comm.mp (nodup_cons.mpr ⟨?_, h.nodup⟩)
      exact fun hmem => hk ((h.queued k).mp hmem)
    · simp [h.queued, or_comm]
    · simpa [or_comm] using hcovers k' y hy

theorem removeFinished_cases (r : Registry H) (k : Key H) (x : ℕ) :
    r.removeFinished k x = ⟨∅, [], ∅⟩ ∨ (r.removeFinished k x).sweepQueue = r.sweepQueue ∧
      (r.removeFinished k x).queuedKeys = r.queuedKeys := by
  unfold removeFinished clearIfEmpty
  split_ifs
  · exact .inl rfl
  · exact .inr ⟨rfl, rfl⟩
  · exact .inr ⟨rfl, rfl⟩

theorem Exact.removeFinished (h : Exact r) (k : Key H) (x : ℕ) : Exact (r.removeFinished k x) := by
  rcases removeFinished_cases r k x with heq | ⟨hqueue, hset⟩
  · rw [heq]
    exact .empty
  · refine ⟨hqueue ▸ h.nodup, fun k' => by rw [hqueue, hset, h.queued], fun k' y hy => ?_⟩
    rw [get_removeFinished] at hy
    split_ifs at hy
    exact hqueue ▸ h.covers k' y hy

/-! ### A dead entry moves to the front -/

/-- The entry of `k` is gone, or its key is among the first `n` of the queue. -/
def GoneWithin (k : Key H) (n : ℕ) (r : Registry H) : Prop :=
  r.entries.get k = none ∨ k ∈ r.sweepQueue.take n

theorem GoneWithin.visit {n : ℕ} (h : GoneWithin k n r)
    (hdead : ∀ x, r.entries.get k = some x → alive x = false) :
    GoneWithin k (n - 1) (r.visit alive) := by
  rcases h with hnone | hmem
  · refine .inl ?_
    rcases get_visit alive r k with hget | ⟨hget, -⟩
    · rw [hget, hnone]
    · exact hget
  · cases hq : r.sweepQueue with
    | nil => simp [hq] at hmem
    | cons front queue =>
      cases n with
      | zero => simp at hmem
      | succ n =>
        rw [hq, take_succ_cons, mem_cons] at hmem
        rcases visit_cases alive hq with ⟨hv, -, hget⟩ | ⟨hv, -, -, y, hy, halive⟩
        · rcases hmem with rfl | hmem
          · exact .inl (by rw [hget, if_pos rfl])
          · exact .inr (by rwa [hv])
        · rcases hmem with rfl | hmem
          · cases (hdead y hy).symm.trans halive
          · refine .inr ?_
            rw [hv, Nat.add_sub_cancel, take_append]
            exact mem_append_left _ hmem

theorem GoneWithin.iterate {n : ℕ} (h : GoneWithin k n r)
    (hdead : ∀ x, r.entries.get k = some x → alive x = false) (m : ℕ) :
    GoneWithin k (n - m) ((Registry.visit alive)^[m] r) := by
  induction m generalizing n r with
  | zero => exact h
  | succ m ih =>
    rw [Function.iterate_succ_apply, Nat.sub_succ', Nat.sub_right_comm]
    refine ih (h.visit hdead) fun x hx => ?_
    rcases get_visit alive r k with hget | ⟨hget, -⟩
    · exact hdead x (hget ▸ hx)
    · cases hget.symm.trans hx

theorem GoneWithin.sweep {n : ℕ} (h : GoneWithin k n r)
    (hdead : ∀ x, r.entries.get k = some x → alive x = false) :
    GoneWithin k (n - sweepBudget) (r.sweep alive) := by
  unfold Registry.sweep
  rcases le_total sweepBudget r.sweepQueue.length with hle | hle
  · rw [min_eq_left hle]
    exact h.iterate hdead _
  · -- the whole queue is visited
    have hall : GoneWithin k r.sweepQueue.length r :=
      h.imp_right fun hmem => by rw [take_length]; exact mem_of_mem_take hmem
    rw [min_eq_right hle]
    have hgone := hall.iterate hdead r.sweepQueue.length
    rw [Nat.sub_self] at hgone
    exact .inl (hgone.resolve_right (by simp))

end Registry

/-! ### Sequences of uses -/

/-- The registry, the cells that somebody holds, and the address of the next cell.  An entry keeps
the address of its cell from being given away again. -/
structure Usage (H : Type) where
  registry : Registry H
  live : Finset ℕ
  fresh : ℕ

inductive Use (H : Type)
  | insert (k : Key H)
  /-- `remove_finished_inflight_entry`. -/
  | remove (k : Key H) (cell : ℕ)
  /-- The last holder of a cell goes. -/
  | die (cell : ℕ)
  | sweep
  deriving DecidableEq

/-- The number of keys that a use may move. -/
def Use.reach : Use H → ℕ
  | .sweep => sweepBudget
  | _ => 0

namespace Usage

def alive (s : Usage H) (x : ℕ) : Bool := x ∈ s.live

def use (s : Usage H) : Use H → Usage H
  | .insert k =>
    { registry := { s.registry with entries := s.registry.entries.insert k s.fresh }.queueKey k
      live := insert s.fresh s.live
      fresh := s.fresh + 1 }
  | .remove k x => { s with registry := s.registry.removeFinished k x }
  | .die x => { s with live := s.live.erase x }
  | .sweep => { s with registry := (s.registry.sweepInflightDeadEntries s.alive).1 }

def empty : Usage H := ⟨⟨∅, [], ∅⟩, ∅, 0⟩

end Usage

def uses (H : Type) [DecidableEq H] : Machine (Usage H) (Use H) := ⟨fun s a => some (s.use a)⟩

namespace Usage

variable {s : Usage H} {k : Key H}

structure Inv (s : Usage H) : Prop where
  exact : s.registry.Exact
  /-- The addresses have been given away. -/
  old : ∀ k x, s.registry.entries.get k = some x → x < s.fresh

theorem Inv.use (h : Inv s) (a : Use H) : Inv (s.use a) := by
  cases a with
  | insert k =>
    refine ⟨h.exact.insert k s.fresh, fun k' x hx => ?_⟩
    simp only [Usage.use, Registry.entries_queueKey, Table.get_insert] at hx ⊢
    split_ifs at hx
    · cases hx
      exact Nat.lt_succ_self _
    · exact Nat.lt_succ_of_lt (h.old k' x hx)
  | remove k x =>
    refine ⟨h.exact.removeFinished k x, fun k' y hy => ?_⟩
    simp only [Usage.use, Registry.get_removeFinished] at hy
    split_ifs at hy
    exact h.old k' y hy
  | die x => exact ⟨h.exact, h.old⟩
  | sweep =>
    simp only [Usage.use, Registry.sweepInflightDeadEntries_eq]
    refine ⟨h.exact.sweep, fun k' x hx => ?_⟩
    rcases Registry.get_sweep s.alive s.registry k' with hget | ⟨hget, -⟩
    · exact h.old k' x (hget ▸ hx)
    · cases hget.symm.trans hx

theorem inv_of_run {us : List (Use H)} (h : (uses H).Run Machine.anyStep empty us s) : Inv s := by
  refine h.invariant (fun s a t hs _ hstep => ?_) ⟨.empty, by simp [empty]⟩
  cases hstep
  exact hs.use a

/-- The entry of `k` is dead, and goes within `n` keys of the queue. -/
structure Dying (k : Key H) (n : ℕ) (s : Usage H) : Prop where
  within : s.registry.GoneWithin k n
  dead : ∀ x, s.registry.entries.get k = some x → x < s.fresh ∧ x ∉ s.live

theorem Dying.use {n : ℕ} (h : Dying k n s) {a : Use H} (ha : a ≠ .insert k) :
    Dying k (n - a.reach) (s.use a) := by
  cases a with
  | insert k' =>
    have hk : k ≠ k' := fun heq => ha (heq ▸ rfl)
    have hget : (s.use (.insert k')).registry.entries.get k = s.registry.entries.get k := by
      rw [Usage.use, Registry.entries_queueKey, Table.get_insert, if_neg hk]
    refine ⟨h.within.imp (hget.trans ·) fun hmem => ?_, fun x hx => ?_⟩
    · simp only [Usage.use, Registry.queueKey]
      split_ifs
      · exact hmem
      · exact (take_append ..).symm ▸ mem_append_left _ hmem
    · obtain ⟨hlt, hlive⟩ := h.dead x (hget ▸ hx)
      refine ⟨Nat.lt_succ_of_lt hlt, ?_⟩
      simp [Usage.use, hlive, hlt.ne]
  | remove k' x =>
    have hget := Registry.get_removeFinished s.registry k' k x
    refine ⟨?_, fun y hy => ?_⟩
    · rcases Registry.removeFinished_cases s.registry k' x with heq | ⟨hqueue, -⟩
      · exact .inl (by rw [Usage.use, heq]; rfl)
      · refine h.within.imp (fun hnone => ?_) fun hmem => by rw [Usage.use, hqueue]; exact hmem
        rw [Usage.use, hget, hnone, ite_self]
    · simp only [Usage.use, hget] at hy
      split_ifs at hy
      exact h.dead y hy
  | die x =>
    refine ⟨h.within, fun y hy => ⟨(h.dead y hy).1, fun hmem => ?_⟩⟩
    exact (h.dead y hy).2 (Finset.mem_of_mem_erase hmem)
  | sweep =>
    simp only [Usage.use, Registry.sweepInflightDeadEntries_eq]
    refine ⟨h.within.sweep fun x hx => by simpa [alive] using (h.dead x hx).2, fun x hx => ?_⟩
    rcases Registry.get_sweep s.alive s.registry k with hget | ⟨hget, -⟩
    · exact h.dead x (hget ▸ hx)
    · cases hget.symm.trans hx

/-- Every sweep brings a dead entry nearer to its end by the budget. -/
theorem Dying.run {n : ℕ} {us : List (Use H)} {t : Usage H} (h : Dying k n s)
    (hrun : (uses H).Run (fun _ a => a ≠ .insert k) s us t) :
    Dying k (n - sweepBudget * us.count .sweep) t := by
  induction hrun with
  | refl => exact h
  | @tail t u us a hrun ha hstep ih =>
    cases hstep
    have hreach : a.reach = sweepBudget * [a].count .sweep := by
      cases a <;> simp [Use.reach]
    rw [count_append, Nat.mul_add, ← hreach, ← Nat.sub_sub]
    exact ih.use ha

end Usage

/-- **The sweep queue is exact, and the work of a sweep is bounded.**  After every sequence of
insertions, removals, deaths and sweeps no key is queued twice, the queue and the set of queued keys
have the same keys, and every entry is queued.  A sweep visits no more keys than its budget and
removes only entries of dead cells; and a dead entry at the place `q` of the queue, counted from
one, is gone after `q / sweepBudget` further sweeps, rounded up, unless it is inserted again. -/
theorem sweep_queue_exact {us : List (Use H)} {s : Usage H}
    (hrun : (uses H).Run Machine.anyStep .empty us s) :
    (s.registry.sweepQueue.Nodup ∧
      (∀ k, k ∈ s.registry.sweepQueue ↔ k ∈ s.registry.queuedKeys) ∧
      ∀ k x, s.registry.entries.get k = some x → k ∈ s.registry.sweepQueue) ∧
    ((s.registry.sweepInflightDeadEntries s.alive).2 ≤ sweepBudget ∧
      ∀ k, (s.use .sweep).registry.entries.get k = s.registry.entries.get k ∨
        (s.use .sweep).registry.entries.get k = none ∧
          ∀ x, s.registry.entries.get k = some x → x ∉ s.live) ∧
    ∀ k x, s.registry.entries.get k = some x → x ∉ s.live →
      ∀ us' t, (uses H).Run (fun _ a => a ≠ .insert k) s us' t →
        (s.registry.sweepQueue.idxOf k + 1) ⌈/⌉ sweepBudget ≤ us'.count .sweep →
        t.registry.entries.get k = none := by
  have h := Usage.inv_of_run hrun
  refine ⟨⟨h.exact.nodup, h.exact.queued, h.exact.covers⟩, ⟨?_, fun k => ?_⟩, ?_⟩
  · rw [Registry.sweepInflightDeadEntries_eq]
    exact min_le_left _ _
  · simp only [Usage.use, Registry.sweepInflightDeadEntries_eq]
    simpa [Usage.alive] using Registry.get_sweep s.alive s.registry k
  · intro k x hx hdead us' t hrun' hcount
    have hdying : Usage.Dying k (s.registry.sweepQueue.idxOf k + 1) s := by
      refine ⟨.inr ?_, fun y hy => ?_⟩
      · exact (List.mem_take_iff_idxOf_lt (h.exact.covers k x hx)).mpr (Nat.lt_succ_self _)
      · cases hx.symm.trans hy
        exact ⟨h.old k x hx, hdead⟩
    have hgone := (hdying.run hrun').within
    rw [Nat.sub_eq_zero_of_le ((ceilDiv_le_iff_le_mul (by decide)).mp hcount)] at hgone
    exact hgone.resolve_right (by simp)

/-- One entry, whose cell has died. -/
def oneDead : List (Use Unit) := [.insert ((), 0), .die 0]

theorem sweep_queue_exact_oneDead :
    (((uses Unit).after .empty oneDead).use .sweep).registry.entries.get ((), 0) = none :=
  (sweep_queue_exact (Machine.Run.of_exec
    (show (uses Unit).exec .empty oneDead = _ from Machine.exec_eq_after rfl))).2.2 ((), 0) 0 rfl
    (by decide) [.sweep] _ (.single nofun rfl) (by decide)

end Inflight
