/-
**Keeping the latest of what arrives.**

A cell keeps the value of the greatest rank it has seen.  A newcomer replaces what is there only if
its rank is strictly greater, so among values of one rank the first to arrive stays.  What is left
after all of them have arrived does not depend on their order exactly if the greatest rank belongs
to one value only.
-/

import Mathlib

set_option autoImplicit false

namespace Latest

variable {α R : Type*} [LinearOrder R] {rank : α → R}

/-- An arrival: the newcomer stays if its rank is greater than the one of what is there. -/
def keep (rank : α → R) (kept : Option α) (a : α) : Option α :=
  match kept with
  | some b => if rank a ≤ rank b then some b else some a
  | none => some a

/-- What is kept of a list of arrivals. -/
def latest (rank : α → R) (l : List α) : Option α := l.foldl (keep rank) none

/-- A value of the greatest rank. -/
def IsLatest (rank : α → R) (l : List α) (a : α) : Prop := a ∈ l ∧ ∀ b ∈ l, rank b ≤ rank a

@[simp] theorem latest_nil : latest rank [] = none := rfl

theorem latest_concat (l : List α) (a : α) :
    latest rank (l ++ [a]) = keep rank (latest rank l) a := by
  rw [latest, List.foldl_append]
  rfl

/-- Something is kept unless nothing arrives. -/
theorem exists_isLatest (rank : α → R) {l : List α} (h : l ≠ []) :
    ∃ a, latest rank l = some a ∧ IsLatest rank l a := by
  induction l using List.reverseRecOn with
  | nil => exact absurd rfl h
  | append_singleton l a ih =>
    rw [latest_concat]
    rcases eq_or_ne l [] with rfl | hl
    · exact ⟨a, rfl, by simp [IsLatest]⟩
    · obtain ⟨b, hb, hmem, hle⟩ := ih hl
      rw [hb, keep]
      split_ifs with hrank
      · exact ⟨b, rfl, List.mem_append_left _ hmem,
          List.forall_mem_append.2 ⟨hle, by simpa using hrank⟩⟩
      · exact ⟨a, rfl, by simp, List.forall_mem_append.2
          ⟨fun c hc => (hle c hc).trans (not_le.1 hrank).le, by simp⟩⟩

theorem isLatest_latest {l : List α} {a : α} (h : latest rank l = some a) : IsLatest rank l a := by
  obtain ⟨b, hb, hlatest⟩ := exists_isLatest rank (l := l) (by rintro rfl; cases h)
  rw [hb] at h
  exact Option.some.inj h ▸ hlatest

theorem latest_eq_of_first {l : List α} {a : α} (h : ∀ b ∈ l, rank b ≤ rank a) :
    latest rank (a :: l) = some a := by
  induction l using List.reverseRecOn with
  | nil => rfl
  | append_singleton l b ih =>
    rw [← List.cons_append, latest_concat, ih fun c hc => h c (List.mem_append_left _ hc), keep,
      if_pos (h b (by simp))]

theorem IsLatest.of_perm {l l' : List α} {a : α} (h : IsLatest rank l a) (hl : l'.Perm l) :
    IsLatest rank l' a :=
  ⟨hl.mem_iff.2 h.1, fun b hb => h.2 b (hl.mem_iff.1 hb)⟩

theorem latest_eq_some_iff {l : List α} (h : ∀ a b, IsLatest rank l a → IsLatest rank l b → a = b)
    {a : α} : latest rank l = some a ↔ IsLatest rank l a := by
  refine ⟨isLatest_latest, fun ha => ?_⟩
  obtain ⟨b, hb, hlatest⟩ := exists_isLatest rank (List.ne_nil_of_mem ha.1)
  rw [hb, h a b ha hlatest]

/-- **Every order gives the same exactly if there is one value of the greatest rank.** -/
theorem forall_perm_iff {l : List α} :
    (∀ l', l'.Perm l → latest rank l' = latest rank l) ↔
      ∀ a b, IsLatest rank l a → IsLatest rank l b → a = b := by
  constructor
  · intro h
    -- a value of the greatest rank can be made to come first
    have hkept : ∀ a, IsLatest rank l a → latest rank l = some a := by
      rintro a ⟨hmem, hle⟩
      obtain ⟨s, t, rfl⟩ := List.append_of_mem hmem
      rw [← h (a :: (s ++ t)) List.perm_middle.symm]
      exact latest_eq_of_first fun b hb => hle b (by grind)
    exact fun a b ha hb => Option.some.inj ((hkept a ha).symm.trans (hkept b hb))
  · intro h l' hl'
    have h' : ∀ a b, IsLatest rank l' a → IsLatest rank l' b → a = b := fun a b ha hb =>
      h a b (ha.of_perm hl'.symm) (hb.of_perm hl'.symm)
    refine Option.ext fun a => ?_
    rw [latest_eq_some_iff h', latest_eq_some_iff h]
    exact ⟨fun ha => ha.of_perm hl'.symm, fun ha => ha.of_perm hl'⟩

end Latest
