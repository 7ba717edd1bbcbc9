/-
**Operations on one key of a table.**

An operation that reads and writes the binding of one key acts on a table cell by cell.  Carried out
for several keys in turn, it does to each what it would do to it alone, and so neither the bindings
that result nor what is reported depend on the order of the keys.
-/

import TorSocks5.Table

set_option autoImplicit false

namespace Table

variable {K V A : Type*} [DecidableEq K]

/-- Two tables have the same bindings, in whatever order. -/
def Alike (m m' : Table K V) : Prop := ∀ k, m.get k = m'.get k

/-- An operation that reads and writes the binding of one key, and reports on it. -/
structure Local (op : Table K V → A → Table K V × Bool) (key : A → K)
    (act : A → Option V → Option V × Bool) : Prop where
  get_op : ∀ m a k, get (op m a).1 k = if k = key a then (act a (get m k)).1 else get m k
  report : ∀ m a, (op m a).2 = (act a (get m (key a))).2

/-- The operation for several keys in turn; it reports whether one of them reported. -/
def sweep (op : Table K V → A → Table K V × Bool) : List A → Table K V → Table K V × Bool
  | [], m => (m, false)
  | a :: as, m => ((sweep op as (op m a).1).1, (op m a).2 || (sweep op as (op m a).1).2)

namespace Local

variable {op : Table K V → A → Table K V × Bool} {key : A → K}
  {act : A → Option V → Option V × Bool} {as as' : List A} {m m' : Table K V} {k : K}

theorem get_op_self (h : Local op key act) (m : Table K V) (a : A) :
    get (op m a).1 (key a) = (act a (get m (key a))).1 := by
  rw [h.get_op, if_pos rfl]

theorem get_op_of_ne (h : Local op key act) (m : Table K V) {a : A} (hk : k ≠ key a) :
    get (op m a).1 k = get m k := by
  rw [h.get_op, if_neg hk]

theorem get_sweep_of_not_mem (h : Local op key act) (hk : k ∉ as.map key) :
    get (sweep op as m).1 k = get m k := by
  induction as generalizing m with
  | nil => rfl
  | cons a as ih =>
    rw [List.map_cons, List.mem_cons, not_or] at hk
    rw [sweep, ih hk.2, h.get_op_of_ne m hk.1]

/-- **A sweep acts on each key alone.** -/
theorem get_sweep (h : Local op key act) (hnd : (as.map key).Nodup) {a : A} (ha : a ∈ as) :
    get (sweep op as m).1 (key a) = (act a (get m (key a))).1 := by
  induction as generalizing m with
  | nil => exact absurd ha List.not_mem_nil
  | cons x as ih =>
    rw [List.map_cons, List.nodup_cons] at hnd
    rw [sweep]
    rcases List.mem_cons.1 ha with rfl | ha
    · rw [h.get_sweep_of_not_mem hnd.1, h.get_op_self]
    · have hne : key a ≠ key x := fun heq => hnd.1 (heq ▸ List.mem_map_of_mem ha)
      rw [ih hnd.2 ha, h.get_op_of_ne m hne]

/-- A sweep reports if one of its keys does, as it was at the start. -/
theorem sweep_snd (h : Local op key act) (hnd : (as.map key).Nodup) :
    (sweep op as m).2 = as.any fun a => (act a (get m (key a))).2 := by
  induction as generalizing m with
  | nil => rfl
  | cons x as ih =>
    rw [List.map_cons, List.nodup_cons] at hnd
    have hrest : (as.any fun a => (act a (get (op m x).1 (key a))).2) =
        as.any fun a => (act a (get m (key a))).2 := by
      rw [Bool.eq_iff_iff, List.any_eq_true, List.any_eq_true]
      refine exists_congr fun a => and_congr_right fun ha => ?_
      have hne : key a ≠ key x := fun heq => hnd.1 (heq ▸ List.mem_map_of_mem ha)
      rw [h.get_op_of_ne m hne]
    rw [sweep, ih hnd.2, h.report, List.any_cons, hrest]

/-- **The order of the keys does not matter**, and neither does that of the tables. -/
theorem alike_sweep (h : Local op key act) (hnd : (as.map key).Nodup) (hperm : as.Perm as')
    (halike : Alike m m') : Alike (sweep op as m).1 (sweep op as' m').1 ∧
      (sweep op as m).2 = (sweep op as' m').2 := by
  have hnd' : (as'.map key).Nodup := (hperm.map key).nodup_iff.1 hnd
  refine ⟨fun k => ?_, ?_⟩
  · by_cases hk : k ∈ as.map key
    · obtain ⟨a, ha, rfl⟩ := List.mem_map.1 hk
      rw [h.get_sweep hnd ha, h.get_sweep hnd' (hperm.mem_iff.1 ha), halike]
    · have hk' : k ∉ as'.map key := fun hmem => hk ((hperm.map key).mem_iff.2 hmem)
      rw [h.get_sweep_of_not_mem hk, h.get_sweep_of_not_mem hk', halike]
  · rw [h.sweep_snd hnd, h.sweep_snd hnd', hperm.any_eq]
    simp only [halike _]

end Local

end Table
