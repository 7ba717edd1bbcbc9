/-
**Taking texts apart.**

A text is cut at the first place of a pattern, or at the last place of a character.  Where a list of
pieces is joined by a separator, the pieces are not empty and the separator is not in them, the
separator never stands twice in a row; so the first place where it does stand twice is where it was
doubled on purpose.
-/

import Mathlib
import TorSocks5.Text

set_option autoImplicit false

namespace Text

open List

/-- `str::split_once`: the parts around the first place of a pattern. -/
def splitAround (pat : List Char) : List Char → Option (List Char × List Char)
  | [] => if pat = [] then some ([], []) else none
  | c :: s =>
    if pat.isPrefixOf (c :: s) then some ([], (c :: s).drop pat.length)
    else (splitAround pat s).map fun p => (c :: p.1, p.2)

/-- `str::rsplit_once`: the parts around the last place of a character. -/
def rsplitOnce (c : Char) : List Char → Option (List Char × List Char)
  | [] => none
  | a :: s =>
    match rsplitOnce c s with
    | some (l, r) => some (a :: l, r)
    | none => if a = c then some ([], s) else none

theorem eq_of_splitAround {pat : List Char} : ∀ {s l r : List Char},
    splitAround pat s = some (l, r) → s = l ++ pat ++ r := by
  intro s
  induction s with
  | nil => grind [splitAround]
  | cons c s ih =>
    intro l r h
    rw [splitAround] at h
    split at h
    · next hprefix =>
      cases h
      obtain ⟨rest, hrest⟩ := isPrefixOf_iff_prefix.1 hprefix
      rw [← hrest, drop_left, nil_append]
    · obtain ⟨⟨l', r'⟩, hsplit, heq⟩ := Option.map_eq_some_iff.1 h
      cases heq
      rw [ih hsplit]
      rfl

theorem splitAround_singleton {c : Char} {l : List Char} (h : c ∉ l) (r : List Char) :
    splitAround [c] (l ++ c :: r) = some (l, r) := by
  induction l with
  | nil => simp [splitAround]
  | cons a l ih =>
    obtain ⟨hne, hl⟩ := not_or.1 (mem_cons.not.1 h)
    simp [splitAround, ih hl, hne]

theorem splitAround_of_not_mem {c : Char} {s : List Char} (h : c ∉ s) :
    splitAround [c] s = none := by
  refine Option.eq_none_iff_forall_ne_some.2 fun p hs => h ?_
  simp [eq_of_splitAround hs]

theorem rsplitOnce_eq_none_iff {c : Char} {s : List Char} : rsplitOnce c s = none ↔ c ∉ s := by
  induction s <;> grind [rsplitOnce]

theorem rsplitOnce_eq_some_iff {c : Char} : ∀ {s l r : List Char},
    rsplitOnce c s = some (l, r) ↔ s = l ++ c :: r ∧ c ∉ r := by
  intro s
  induction s with
  | nil => simp [rsplitOnce]
  | cons a s ih =>
    intro l r
    have hnone := rsplitOnce_eq_none_iff (c := c) (s := s)
    cases l <;> grind [rsplitOnce]

/-! ### Separators that stand apart -/

/-- The character stands neither at the end nor before itself. -/
def Apart (c : Char) : List Char → Prop
  | [] => True
  | a :: s => (a = c → ∃ d t, s = d :: t ∧ d ≠ c) ∧ Apart c s

section Apart

variable {c : Char}

theorem apart_of_not_mem {s : List Char} (h : c ∉ s) : Apart c s := by
  induction s <;> grind [Apart]

theorem apart_append {p s : List Char} (hp : c ∉ p) (hs : Apart c s)
    (hhead : ∃ d t, s = d :: t ∧ d ≠ c) : Apart c (p ++ c :: s) := by
  induction p <;> grind [Apart]

theorem head_intercalate {p : List Char} {ps : List (List Char)} (hne : p ≠ []) (hp : c ∉ p) :
    ∃ d t, [c].intercalate (p :: ps) = d :: t ∧ d ≠ c := by
  obtain ⟨d, t, rfl⟩ := exists_cons_of_ne_nil hne
  have hd : d ≠ c := fun heq => hp (heq ▸ mem_cons_self)
  cases ps with
  | nil => exact ⟨d, t, intercalate_singleton, hd⟩
  | cons q qs =>
    refine ⟨d, t ++ [c] ++ [c].intercalate (q :: qs), ?_, hd⟩
    rw [intercalate_cons_cons]
    rfl

/-- **Joined pieces keep the separators apart.** -/
theorem apart_intercalate : ∀ {ps : List (List Char)}, (∀ p ∈ ps, p ≠ [] ∧ c ∉ p) →
    Apart c ([c].intercalate ps)
  | [], _ => trivial
  | [p], h => by
      rw [List.intercalate_singleton]
      exact apart_of_not_mem (h p List.mem_cons_self).2
  | p :: q :: qs, h => by
      have htail : ∀ p' ∈ q :: qs, p' ≠ [] ∧ c ∉ p' := fun p' hp' =>
          h p' (mem_cons_of_mem p hp')
      obtain ⟨hne, hq⟩ := htail q mem_cons_self
      rw [intercalate_cons_cons, append_assoc, singleton_append]
      exact apart_append (h p mem_cons_self).2 (apart_intercalate htail)
        (head_intercalate hne hq)

/-- **A doubled separator is found where it is**, when the separators before it stand apart. -/
theorem splitAround_double {l : List Char} (hl : Apart c l) (r : List Char) :
    splitAround [c, c] (l ++ c :: c :: r) = some (l, r) := by
  induction l with
  | nil => simp [splitAround]
  | cons a l ih =>
    have hprefix : ([c, c] : List Char).isPrefixOf (a :: (l ++ c :: c :: r)) = false := by
      have := hl.1
      grind [isPrefixOf]
    simp [splitAround, hprefix, ih hl.2]

theorem splitAround_none_of_prefix {pat : List Char} {s : List Char}
    (h : ∀ t, t <:+ s → pat.isPrefixOf t = false) : splitAround pat s = none := by
  induction s with
  | nil =>
    have hpat := h [] (suffix_refl [])
    cases pat <;> simp_all [splitAround]
  | cons a s ih =>
    have hrest := ih fun t ht => h t (ht.trans (suffix_cons a s))
    simp [splitAround, h _ (suffix_refl _), hrest]

theorem Apart.of_suffix {s t : List Char} (h : Apart c s) (ht : t <:+ s) : Apart c t := by
  induction s with
  | nil => rwa [suffix_nil.1 ht]
  | cons a s ih => rcases suffix_cons_iff.1 ht with rfl | ht <;> grind [Apart]

theorem isPrefixOf_of_apart {s : List Char} (hs : Apart c s) (rest : List Char) :
    (c :: c :: rest).isPrefixOf s = false := by
  cases s with
  | nil => rfl
  | cons a s => grind [Apart, isPrefixOf]

theorem splitAround_double_none {s : List Char} (hs : Apart c s) (rest : List Char) :
    splitAround (c :: c :: rest) s = none :=
  splitAround_none_of_prefix fun _ ht => isPrefixOf_of_apart (hs.of_suffix ht) rest

/-- **A doubled separator between others that stand apart is not tripled.** -/
theorem splitAround_triple_none {l r : List Char} (hl : Apart c l) (hr : Apart c r)
    (hhead : r.head? ≠ some c) : splitAround [c, c, c] (l ++ c :: c :: r) = none := by
  induction l with
  | nil =>
    have hnone := splitAround_double_none hr [c]
    cases r with
    | nil => simp [splitAround]
    | cons a r =>
      have hac : c ≠ a := fun heq => hhead (by rw [heq]; rfl)
      simp [splitAround, hac] at hnone ⊢
      simp [hnone]
  | cons a l ih =>
    have hprefix : ([c, c, c] : List Char).isPrefixOf (a :: (l ++ c :: c :: r)) = false := by
      have := hl.1
      grind [isPrefixOf]
    simp [splitAround, hprefix, ih hl.2]

end Apart

theorem intercalate_concat {c : Char} : ∀ {ps : List (List Char)} (q : List Char), ps ≠ [] →
    [c].intercalate (ps ++ [q]) = [c].intercalate ps ++ c :: q
  | [], _, h => absurd rfl h
  | [p], q, _ => by simp
  | p :: p' :: ps, q, _ => by
      have ih := intercalate_concat (c := c) q (cons_ne_nil p' ps)
      simp_all [intercalate_cons_cons]

end Text
