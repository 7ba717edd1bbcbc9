/-
**Patterns with stars.**

A pattern is a word in which one letter, the star, stands for any word.  A text fills a pattern if
each star can be replaced by some word, each on its own, such that the text comes out.
-/

import Mathlib

set_option autoImplicit false

namespace Glob

variable {α : Type*} {star : α} {p t : List α}

/-- A text that comes out when each star of a pattern is replaced by some word. -/
inductive Fills (star : α) : List α → List α → Prop
  | nil : Fills star [] []
  | keep {c : α} {p t : List α} (hc : c ≠ star) (rest : Fills star p t) :
      Fills star (c :: p) (c :: t)
  | fill {p t : List α} (s : List α) (rest : Fills star p t) : Fills star (star :: p) (s ++ t)

/-! ### One letter of the pattern -/

theorem fills_nil_iff : Fills star [] t ↔ t = [] := by
  constructor
  · intro h
    cases h
    rfl
  · rintro rfl
    exact Fills.nil

theorem fills_cons_iff {c : α} (hc : c ≠ star) :
    Fills star (c :: p) t ↔ ∃ t', t = c :: t' ∧ Fills star p t' := by
  refine ⟨fun h => ?_, fun ⟨t', heq, rest⟩ => heq ▸ Fills.keep hc rest⟩
  cases h with
  | keep _ rest => exact ⟨_, rfl, rest⟩
  | fill s rest => exact absurd rfl hc

theorem fills_star_iff : Fills star (star :: p) t ↔ ∃ s t', t = s ++ t' ∧ Fills star p t' := by
  refine ⟨fun h => ?_, fun ⟨s, t', heq, rest⟩ => heq ▸ Fills.fill s rest⟩
  cases h with
  | keep hc rest => exact absurd rfl hc
  | fill s rest => exact ⟨s, _, rfl, rest⟩

/-- The empty text fills the patterns of stars. -/
theorem fills_empty_iff : Fills star p [] ↔ ∀ c ∈ p, c = star := by
  induction p with
  | nil => simp [fills_nil_iff]
  | cons c p ih =>
    rw [List.forall_mem_cons, ← ih]
    rcases eq_or_ne c star with rfl | hc
    · simp [fills_star_iff]
    · simp [fills_cons_iff hc, hc]

/-! ### Letters that stand for themselves -/

theorem fills_append_iff {l : List α} (hl : star ∉ l) :
    Fills star (l ++ p) t ↔ ∃ t', t = l ++ t' ∧ Fills star p t' := by
  induction l generalizing t with
  | nil => simp
  | cons c l ih =>
    rw [List.mem_cons, not_or] at hl
    simp only [List.cons_append, fills_cons_iff (Ne.symm hl.1), ih hl.2]
    grind

theorem fills_star_of_suffix {t' : List α} (hfills : Fills star (star :: p) t)
    (hsuffix : t <:+ t') :
    Fills star (star :: p) t' := by
  obtain ⟨s, t'', rfl, rest⟩ := fills_star_iff.1 hfills
  obtain ⟨s', rfl⟩ := hsuffix
  exact fills_star_iff.2 ⟨s' ++ s, t'', (List.append_assoc s' s t'').symm, rest⟩

/-! ### Later positions -/

/-- The pattern is filled by the text from some later position on. -/
def Later (star : α) (p t : List α) : Prop := ∃ t', t' <:+ t ∧ t'.length < t.length ∧
    Fills star p t'

theorem later_cons_iff {b : α} : Later star p (b :: t) ↔ Fills star p t ∨ Later star p t := by
  constructor
  · rintro ⟨t', hsuffix, hlt, hfills⟩
    rcases List.suffix_cons_iff.1 hsuffix with rfl | hsuffix
    · exact absurd hlt (lt_irrefl _)
    · rcases eq_or_lt_of_le hsuffix.length_le with heq | hlt
      · exact .inl (hsuffix.eq_of_length heq ▸ hfills)
      · exact .inr ⟨t', hsuffix, hlt, hfills⟩
  · rintro (hfills | ⟨t', hsuffix, hlt, hfills⟩)
    · exact ⟨t, List.suffix_cons b t, Nat.lt_succ_self _, hfills⟩
    · exact ⟨t', hsuffix.trans (List.suffix_cons b t), Nat.lt_succ_of_lt hlt, hfills⟩

/-- A star takes in nothing, or something. -/
theorem fills_star_iff_later : Fills star (star :: p) t ↔ Fills star p t ∨ Later star p t := by
  rw [fills_star_iff]
  constructor
  · rintro ⟨_ | ⟨b, s⟩, t', rfl, rest⟩
    · exact .inl rest
    · exact .inr ⟨t', List.suffix_append _ _, by simp, rest⟩
  · rintro (rest | ⟨t', ⟨s, rfl⟩, -, rest⟩)
    · exact ⟨[], t, rfl, rest⟩
    · exact ⟨s, t', rfl, rest⟩

/-- **A later star takes in what an earlier one would.**  Between the two stars there are only
letters, which the text has at the first position where they are looked for. -/
theorem fills_of_later {l : List α} (hl : star ∉ l) (h : Later star (l ++ star :: p) (l ++ t)) :
    Fills star (star :: p) t := by
  obtain ⟨t', hsuffix, hlt, hfills⟩ := h
  obtain ⟨t'', rfl, hrest⟩ := (fills_append_iff hl).1 hfills
  refine fills_star_of_suffix hrest ?_
  -- both texts are ends of one text, and this one is the shorter
  have hend : t'' <:+ l ++ t := (List.suffix_append l t'').trans hsuffix
  refine List.suffix_of_suffix_length_le hend (List.suffix_append l t) ?_
  rw [List.length_append, List.length_append] at hlt
  omega

theorem not_later_of_plain {l : List α} (hl : star ∉ l) : ¬ Later star (l ++ p) l := by
  rintro ⟨t', -, hlt, hfills⟩
  obtain ⟨t'', rfl, -⟩ := (fills_append_iff hl).1 hfills
  rw [List.length_append] at hlt
  omega

end Glob
