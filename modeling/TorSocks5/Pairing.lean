/-
**Lists that correspond element by element.**

What `List.Forall₂` says about the elements of two lists, about their ends and about lists that are
put together, and minima of lists of numbers that correspond.
-/

import Mathlib

set_option autoImplicit false

namespace Pairing

variable {α β : Type*} {R : α → β → Prop}

variable {l : List α} {l' : List β}
theorem forall₂_getLast? (h : List.Forall₂ R l l') :
    (∀ a, l.getLast? = some a → ∃ b, l'.getLast? = some b ∧ R a b) ∧
      ∀ b, l'.getLast? = some b → ∃ a, l.getLast? = some a ∧ R a b := by
  induction h with
  | nil => simp
  | cons hab hrest ih => cases hrest <;> simp_all [List.getLast?_cons_cons]

theorem forall₂_append_left {l₁ l₂ : List α} {bs : List β} (h : List.Forall₂ R (l₁ ++ l₂) bs) :
    ∃ b₁ b₂, bs = b₁ ++ b₂ ∧ List.Forall₂ R l₁ b₁ ∧ List.Forall₂ R l₂ b₂ := by
  induction l₁ generalizing bs with
  | nil => exact ⟨[], bs, rfl, List.Forall₂.nil, h⟩
  | cons a l₁ ih =>
    obtain ⟨b, bs, hab, hrest, rfl⟩ := List.forall₂_cons_left_iff.1 h
    obtain ⟨b₁, b₂, rfl, h₁, h₂⟩ := ih hrest
    exact ⟨b :: b₁, b₂, rfl, List.Forall₂.cons hab h₁, h₂⟩

theorem forall₂_concat_left {a : α} {bs : List β}
    (h : List.Forall₂ R (l ++ [a]) bs) : ∃ l' b, bs = l' ++ [b] ∧ List.Forall₂ R l l' ∧ R a b := by
  obtain ⟨l', last, rfl, hl, hlast⟩ := forall₂_append_left h
  obtain ⟨b, _, hab, hnil, rfl⟩ := List.forall₂_cons_left_iff.1 hlast
  rw [List.forall₂_nil_left_iff.1 hnil]
  exact ⟨l', b, rfl, hl, hab⟩

theorem forall₂_exists (h : ∀ a ∈ l, ∃ b, R a b) : ∃ l', List.Forall₂ R l l' := by
  induction l with
  | nil => exact ⟨[], .nil⟩
  | cons a l ih =>
    obtain ⟨b, hb⟩ := h a List.mem_cons_self
    obtain ⟨l', hl'⟩ := ih fun a' ha' => h a' (List.mem_cons_of_mem a ha')
    exact ⟨b :: l', .cons hb hl'⟩

theorem forall₂_exists_right (h : List.Forall₂ R l l') : ∀ a ∈ l, ∃ b ∈ l', R a b := by
  induction h <;> grind

theorem forall₂_exists_left (h : List.Forall₂ R l l') : ∀ b ∈ l', ∃ a ∈ l, R a b :=
  forall₂_exists_right (List.Forall₂.flip h)

theorem forall₂_forall_left {P : α → Prop} (h : List.Forall₂ R l l')
    (hP : ∀ a b, R a b → P a) : ∀ a ∈ l, P a := by
  intro a ha
  obtain ⟨b, -, hab⟩ := forall₂_exists_right h a ha
  exact hP a b hab

/-- Bringing numbers down, but not below a bound, does not change their minimum once it is cut at
the bound. -/
theorem min?_map_min {n : ℕ} {l l' : List ℕ}
    (h : List.Forall₂ (fun a a' => a' ≤ a ∧ (a' = a ∨ n ≤ a')) l l') :
    l'.min?.map (min n) = l.min?.map (min n) := by
  have hto := forall₂_exists_right h
  have hfrom := forall₂_exists_left h
  cases hmin : l.min? <;> cases hmin' : l'.min? <;>
    grind [List.min?_eq_none_iff, List.min?_eq_some_iff]

end Pairing
