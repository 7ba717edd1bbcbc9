/-
**Insertion-ordered sets.**

A list in which no key occurs twice is a set that remembers in which order its elements came.
Elements are added at the end, if their keys are new; elements leave without changing the order of
the others; and the set may be partitioned, with the order kept in either part.
-/

import Mathlib

set_option autoImplicit false

variable {α κ : Type*}

/-- A list without repeated keys. -/
@[ext]
structure OrderedSet (key : α → κ) where
  items : List α
  nodup : (items.map key).Nodup

namespace OrderedSet

open List

/-! ### The first of each key -/

section Firsts

variable [DecidableEq κ] (key : α → κ)

/-- The first element of each key, in order. -/
def firsts : List α → List α
  | [] => []
  | a :: l => a :: (firsts l).filter fun b => decide (key b ≠ key a)

theorem firsts_sublist (l : List α) : (firsts key l).Sublist l := by
  induction l with
  | nil => exact List.Sublist.slnil
  | cons a l ih => exact (filter_sublist.trans ih).cons_cons a

theorem nodup_firsts (l : List α) : ((firsts key l).map key).Nodup := by
  induction l with
  | nil => exact nodup_nil
  | cons a l ih =>
    rw [firsts, map_cons, nodup_cons]
    exact ⟨by simp, ih.sublist (filter_sublist.map key)⟩

/-- To select by keys and to take the first of each commute. -/
theorem firsts_filter (r : κ → Bool) (l : List α) :
    firsts key (l.filter fun a => r (key a)) = (firsts key l).filter fun a => r (key a) := by
  induction l with
  | nil => rfl
  | cons a l ih =>
    cases hr : r (key a) with
    | true =>
      rw [filter_cons, hr, if_pos rfl, firsts, firsts, filter_cons, hr,
        if_pos rfl, ih,
        filter_comm]
    | false =>
      have hskip : ∀ b : α, (r (key b) && decide (key b ≠ key a)) = r (key b) := by
        intro b
        by_cases hb : key b = key a
        · rw [hb, hr, Bool.false_and]
        · rw [decide_eq_true hb, Bool.and_true]
      rw [filter_cons, hr, if_neg Bool.false_ne_true, firsts, filter_cons, hr,
        if_neg Bool.false_ne_true, ih, filter_filter]
      simp only [hskip]

theorem firsts_of_nodup {l : List α} (hnd : (l.map key).Nodup) : firsts key l = l := by
  induction l with
  | nil => rfl
  | cons a l ih =>
    rw [map_cons, nodup_cons] at hnd
    rw [firsts, ih hnd.2, filter_eq_self.2]
    exact fun b hb => decide_eq_true fun heq => hnd.1 (heq ▸ mem_map_of_mem hb)

/-- A last element is the first of its key if the key is new. -/
theorem firsts_concat (l : List α) (a : α) :
    firsts key (l ++ [a]) = if key a ∈ l.map key then firsts key l else firsts key l ++ [a] := by
  induction l with
  | nil => simp [firsts]
  | cons b l ih => grind [firsts]

theorem mem_map_firsts {l : List α} {k : κ} : k ∈ (firsts key l).map key ↔ k ∈ l.map key := by
  induction l using reverseRecOn with
  | nil => rfl
  | append_singleton l a ih => grind [firsts_concat]

end Firsts

/-! ### Stable partitions -/

theorem eq_filter_append_of_pairwise (p : α → Bool) {l : List α}
    (h : l.Pairwise fun a b => p a ≤ p b) : l = (l.filter fun a => !p a) ++ l.filter p := by
  induction l with
  | nil => rfl
  | cons a l ih =>
    obtain ⟨ha, hl⟩ := pairwise_cons.1 h
    cases hp : p a with
    | false => simpa [hp] using ih hl
    | true =>
      -- from here on there is nothing of the first kind
      have hall : ∀ b ∈ l, p b = true := fun b hb => Bool.eq_true_of_true_le (hp ▸ ha b hb)
      have hnone : l.filter (fun b => !p b) = [] :=
        filter_eq_nil_iff.2 fun b hb => by simp [hall b hb]
      simp [hp, hnone, filter_eq_self.2 hall]

/-- **A stable sort by a Boolean is a stable partition.** -/
theorem mergeSort_decide_le (p : α → Bool) (l : List α) :
    l.mergeSort (fun a b => decide (p a ≤ p b)) = (l.filter fun a => !p a) ++ l.filter p := by
  have htrans : ∀ a b c : α, decide (p a ≤ p b) = true → decide (p b ≤ p c) = true →
      decide (p a ≤ p c) = true := by simpa using fun a b c => le_trans (a := p a)
  have htotal : ∀ a b : α, (decide (p a ≤ p b) || decide (p b ≤ p a)) = true := by
    simpa using fun a b => le_total (p a) (p b)
  -- the sort is stable: elements that are told alike stay in order
  have hstable : ∀ q : α → Bool, (∀ a b, q a → q b → p a ≤ p b) →
      (l.mergeSort fun a b => decide (p a ≤ p b)).filter q = l.filter q := by
    intro q hq
    have hsorted : (l.filter q).Pairwise fun a b => decide (p a ≤ p b) = true := by
      refine pairwise_of_forall_mem_list fun a ha b hb => ?_
      exact decide_eq_true (hq a b (mem_filter.1 ha).2 (mem_filter.1 hb).2)
    have hsub := (sublist_mergeSort htrans htotal hsorted filter_sublist).filter q
    simp only [filter_filter, Bool.and_self] at hsub
    exact (hsub.eq_of_length ((mergeSort_perm l _).filter q).length_eq.symm).symm
  have hsorted := (pairwise_mergeSort htrans htotal l).imp fun h => of_decide_eq_true h
  rw [eq_filter_append_of_pairwise p hsorted, hstable, hstable]
  · exact fun a b ha hb => (Bool.eq_iff_iff.2 ⟨fun _ => hb, fun _ => ha⟩).le
  · intro a b ha _
    simp_all

/-! ### Operations -/

section Operations

variable {key : α → κ}

theorem nodup_filter (s : OrderedSet key) (p : α → Bool) : ((s.items.filter p).map key).Nodup :=
  s.nodup.sublist (filter_sublist.map key)

theorem perm_partition (s : OrderedSet key) (p : α → Bool) :
    (s.items.filter p ++ s.items.filter fun a => !p a).Perm s.items :=
  filter_append_perm p s.items

/-- The elements of one kind come first; the order is kept in either part. -/
def partition (s : OrderedSet key) (p : α → Bool) : OrderedSet key :=
  ⟨s.items.filter p ++ s.items.filter fun a => !p a,
    ((s.perm_partition p).map key).nodup_iff.2 s.nodup⟩

variable [DecidableEq κ]

/-- The elements whose keys are new are added at the end, the first of each key. -/
def addAll (s : OrderedSet key) (new : List α) : OrderedSet key :=
  ⟨s.items ++ firsts key (new.filter fun a => decide (key a ∉ s.items.map key)), by
    rw [List.map_append]
    refine List.nodup_append.2 ⟨s.nodup, nodup_firsts key _, ?_⟩
    rintro k hk k' hk' rfl
    obtain ⟨a, ha, rfl⟩ := List.mem_map.1 hk'
    have hnew := (List.mem_filter.1 ((firsts_sublist key _).subset ha)).2
    exact of_decide_eq_true hnew hk⟩

/-- The elements with the given keys leave, and are counted. -/
def without (s : OrderedSet key) (ks : List κ) : OrderedSet key × ℕ :=
  (⟨s.items.filter fun a => decide (key a ∉ ks), s.nodup_filter _⟩,
    (s.items.filter fun a => decide (key a ∈ ks)).length)

/-- The first elements of a kind leave. -/
def takeFirst (s : OrderedSet key) (n : ℕ) (p : α → Bool) : List α × OrderedSet key :=
  ((s.items.filter p).take n, (s.without (((s.items.filter p).take n).map key)).1)

end Operations

/-! ### Who is ahead -/

section Ahead

variable [DecidableEq α] {p : α → Bool} {x : α}

/-- The elements of a kind that come before an element. -/
def ahead (p : α → Bool) (x : α) (l : List α) : List α :=
  (l.takeWhile fun a => decide (a ≠ x)).filter p

theorem ahead_cons_self (l : List α) : ahead p x (x :: l) = [] := by
  simp [ahead]

theorem ahead_cons_of_ne {a : α} (h : a ≠ x) (l : List α) :
    ahead p x (a :: l) = if p a then a :: ahead p x l else ahead p x l := by
  simp [ahead, h, filter_cons]

theorem ahead_sublist (l : List α) : (ahead p x l).Sublist l :=
  filter_sublist.trans (takeWhile_sublist _)

theorem ahead_append {l : List α} (hx : x ∈ l) (m : List α) :
    ahead p x (l ++ m) = ahead p x l := by
  induction l with
  | nil => simp at hx
  | cons a l ih =>
    rcases eq_or_ne a x with rfl | ha
    · rw [cons_append, ahead_cons_self, ahead_cons_self]
    · have hl : x ∈ l := (mem_cons.1 hx).resolve_left (Ne.symm ha)
      rw [cons_append, ahead_cons_of_ne ha, ahead_cons_of_ne ha, ih hl]

/-- When others leave, those who stay are ahead as before. -/
theorem ahead_filter {q : α → Bool} (hq : q x = true) (l : List α) :
    ahead p x (l.filter q) = (ahead p x l).filter q := by
  induction l with
  | nil => rfl
  | cons a l ih =>
    rcases eq_or_ne a x with rfl | ha
    · rw [filter_cons_of_pos hq, ahead_cons_self, ahead_cons_self, filter_nil]
    · rw [ahead_cons_of_ne ha, filter_cons]
      split_ifs <;> simp_all [ahead_cons_of_ne]

theorem ahead_rotate {ks l : List α} (hx : x ∈ l) (hk : x ∉ ks) :
    ahead p x ((l.filter fun a => decide (a ∉ ks)) ++ l.filter fun a => decide (a ∈ ks)) =
      (ahead p x l).filter fun a => decide (a ∉ ks) := by
  have hstay : decide (x ∉ ks) = true := decide_eq_true hk
  rw [ahead_append (mem_filter.2 ⟨hx, hstay⟩)]
  exact ahead_filter (q := fun a => decide (a ∉ ks)) hstay l

/-- An element that nobody of its kind is ahead of is the first of its kind. -/
theorem filter_eq_cons_of_ahead {l : List α} (hx : x ∈ l) (hp : p x = true)
    (h : ahead p x l = []) : ∃ rest, l.filter p = x :: rest := by
  induction l with
  | nil => simp at hx
  | cons a l ih =>
    rcases eq_or_ne a x with rfl | ha
    · exact ⟨l.filter p, filter_cons_of_pos hp⟩
    · have hl : x ∈ l := (mem_cons.1 hx).resolve_left (Ne.symm ha)
      rw [ahead_cons_of_ne ha] at h
      split_ifs at h with hpa
      rw [filter_cons_of_neg hpa]
      exact ih hl h

end Ahead

end OrderedSet
