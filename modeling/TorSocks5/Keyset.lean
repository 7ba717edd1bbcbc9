/-
**Reading rows page by page behind a key.**

The rows are read in the order of their keys, a page at a time: the next page begins behind the key
of the last row of the page before.  As long as the rows stay, the pages are what is left of the
ordered rows.
-/

import Mathlib

set_option autoImplicit false

namespace Keyset

variable {α K : Type*} [LinearOrder K] (key : α → K)

/-- The first rows behind a key, in the order of their keys. -/
def page (size : ℕ) (rows : List α) (after : K) : List α :=
  ((rows.filter fun a => after < key a).mergeSort fun a b => key a ≤ key b).take size

def Ascending (l : List α) : Prop := l.Pairwise fun a b => key a < key b

variable {key}

theorem Ascending.eq_of_perm {l l' : List α} (h : Ascending key l) (h' : Ascending key l')
    (hperm : l.Perm l') : l = l' :=
  List.Perm.eq_of_pairwise (fun _ _ _ _ hab hba => absurd (hab.trans hba) (lt_irrefl _)) h h' hperm

theorem ascending_mergeSort {rows : List α} (h : (rows.map key).Nodup) :
    Ascending key (rows.mergeSort fun a b => key a ≤ key b) := by
  have hperm := List.mergeSort_perm rows fun a b => key a ≤ key b
  have hnodup := List.pairwise_map.mp ((hperm.map key).nodup_iff.mpr h)
  have hsorted := @List.pairwise_mergeSort α (fun a b => key a ≤ key b)
    (fun a b c hab hbc => by simp only [decide_eq_true_eq] at *; exact hab.trans hbc)
    (fun a b => by simpa using le_total (key a) (key b)) rows
  exact hsorted.imp₂ (fun a b hle hne => lt_of_le_of_ne (by simpa using hle) hne) hnodup

/-- A page of rows in any order is the beginning of what is left of them in order. -/
theorem page_eq {rows l : List α} (hl : Ascending key l) (hperm : rows.Perm l) (size : ℕ)
    (after : K) : page key size rows after = (l.filter fun a => after < key a).take size := by
  have hkeys : (rows.map key).Nodup :=
    (hperm.map key).nodup_iff.mpr (List.pairwise_map.mpr (hl.imp fun h => h.ne))
  have hsub : ((rows.filter fun a => after < key a).map key).Nodup :=
    hkeys.sublist (List.filter_sublist.map key)
  rw [page, (ascending_mergeSort hsub).eq_of_perm (hl.filter _)
    ((List.mergeSort_perm _ _).trans (hperm.filter _))]

/-- Behind the last row of a page there is what the page has left. -/
theorem filter_eq_drop {l rest : List α} {after : K} {size : ℕ} {x : α} (hl : Ascending key l)
    (hrest : (l.filter fun a => after < key a) = rest) (hx : (rest.take size).getLast? = some x) :
    (l.filter fun a => key x < key a) = rest.drop size := by
  have hmem : x ∈ rest.take size := List.mem_of_getLast? hx
  have hafter : after < key x := by
    have := List.mem_of_mem_take hmem
    rw [← hrest] at this
    simpa using (List.mem_filter.mp this).2
  have hagain : (l.filter fun a => key x < key a) = rest.filter fun a => key x < key a := by
    rw [← hrest, List.filter_filter]
    refine List.filter_congr fun a _ => Bool.eq_iff_iff.2 ?_
    simpa using fun h => hafter.trans h
  have hasc : Ascending key (rest.take size ++ rest.drop size) := by
    rw [List.take_append_drop, ← hrest]
    exact hl.filter _
  obtain ⟨hfirst, -, hcross⟩ := List.pairwise_append.mp hasc
  obtain ⟨init, hinit⟩ := List.getLast?_eq_some_iff.mp hx
  have htake : ∀ a ∈ rest.take size, ¬ key x < key a := by
    rw [hinit] at hfirst ⊢
    refine List.forall_mem_append.2 ⟨fun a ha => ?_, by simp⟩
    exact ((List.pairwise_append.mp hfirst).2.2 a ha x (by simp)).not_gt
  rw [hagain]
  nth_rewrite 1 [← List.take_append_drop size rest]
  rw [List.filter_append, List.filter_eq_nil_iff.mpr (by simpa using htake), List.nil_append,
    List.filter_eq_self.mpr]
  exact fun a ha => by simpa using hcross x hmem a ha

end Keyset
