/-
**Chains of links.**

From each place at most one link leads on, and a link leads to one place whatever it was found from.
A chain follows the links until there is none.  If it ends it uses no link twice: after the second
use it would go on as after the first.  So it is no longer than a list that has all the links, and a
walk with one more round than that finds its end.
-/

import Mathlib

set_option autoImplicit false

namespace Chain

variable {α ι : Type*} (link : α → Option ι) (target : ι → α)

/-- The chain from a place uses these links and ends there. -/
inductive Ends : α → List ι → α → Prop
  | stop {a : α} (none : link a = none) : Ends a [] a
  | follow {a b : α} {i : ι} {is : List ι} (some : link a = some i) (rest : Ends (target i) is b) :
      Ends a (i :: is) b

/-- The end of the chain, if it is reached in fewer rounds. -/
def walk : ℕ → α → Option α
  | 0, _ => none
  | rounds + 1, a =>
    match link a with
    | none => some a
    | some i => walk rounds (target i)

variable {link target}

theorem Ends.unique {a b b' : α} {is is' : List ι} (h : Ends link target a is b)
    (h' : Ends link target a is' b') : is = is' ∧ b = b' := by
  induction h generalizing is' with
  | stop hnone =>
    cases h' with
    | stop _ => exact ⟨rfl, rfl⟩
    | follow hsome _ => cases hnone.symm.trans hsome
  | follow hsome _ ih =>
    cases h' with
    | stop hnone => cases hnone.symm.trans hsome
    | follow hsome' hrest' =>
      cases hsome.symm.trans hsome'
      obtain ⟨rfl, rfl⟩ := ih hrest'
      exact ⟨rfl, rfl⟩

theorem Ends.tail {a b : α} {i : ι} {front rest : List ι}
    (h : Ends link target a (front ++ i :: rest) b) : Ends link target (target i) rest b := by
  induction front generalizing a with
  | nil =>
    cases h
    assumption
  | cons j front ih =>
    cases h with
    | follow _ hrest => exact ih hrest

/-- **A chain that ends uses no link twice.** -/
theorem Ends.nodup {a b : α} {is : List ι} (h : Ends link target a is b) : is.Nodup := by
  induction h with
  | stop _ => exact List.nodup_nil
  | @follow a b i is hsome hrest ih =>
    refine List.nodup_cons.2 ⟨fun hmem => ?_, ih⟩
    -- after the second use of the link the chain would be as long as after the first
    obtain ⟨front, rest, rfl⟩ := List.append_of_mem hmem
    obtain ⟨heq, -⟩ := hrest.unique hrest.tail
    have hlength := congrArg List.length heq
    rw [List.length_append, List.length_cons] at hlength
    omega

theorem Ends.length_le {a b : α} {is links : List ι} (h : Ends link target a is b)
    (hlinks : ∀ a i, link a = some i → i ∈ links) : is.length ≤ links.length := by
  have hsubset : is ⊆ links := by
    induction h with
    | stop _ => exact List.nil_subset links
    | follow hsome _ ih => exact List.cons_subset.2 ⟨hlinks _ _ hsome, ih⟩
  exact (h.nodup.subperm hsubset).length_le

theorem walk_eq_some_iff {rounds : ℕ} {a b : α} : walk link target rounds a = some b ↔
    ∃ is, Ends link target a is b ∧ is.length < rounds := by
  induction rounds generalizing a with
  | zero => simp [walk]
  | succ rounds ih =>
    rw [walk]
    cases hlink : link a with
    | none =>
      constructor
      · rintro ⟨⟩
        exact ⟨[], Ends.stop hlink, Nat.succ_pos _⟩
      · rintro ⟨is, h, -⟩
        rw [(h.unique (Ends.stop hlink)).2]
    | some i =>
      refine ih.trans ⟨?_, ?_⟩
      · rintro ⟨is, hends, hlt⟩
        exact ⟨i :: is, Ends.follow hlink hends, Nat.succ_lt_succ hlt⟩
      · rintro ⟨is, hends, hlt⟩
        cases hends with
        | stop hnone => cases hnone.symm.trans hlink
        | follow hsome hrest =>
          cases hlink.symm.trans hsome
          exact ⟨_, hrest, Nat.lt_of_succ_lt_succ hlt⟩

/-- **A chain without an end goes on forever.** -/
theorem endless_iff {a : α} : (¬ ∃ is b, Ends link target a is b) ↔
    ∃ place : ℕ → α, place 0 = a ∧
      ∀ n, ∃ i, link (place n) = some i ∧ place (n + 1) = target i := by
  constructor
  · intro hendless
    let Endless (a : α) : Prop := ¬ ∃ is b, Ends link target a is b
    have hnext : ∀ a, Endless a → ∃ i, link a = some i ∧ Endless (target i) := by
      intro a ha
      cases hlink : link a with
      | none => exact absurd ⟨[], a, Ends.stop hlink⟩ ha
      | some i =>
        exact ⟨i, rfl, fun ⟨is, b, hends⟩ => ha ⟨i :: is, b, Ends.follow hlink hends⟩⟩
    let onward (a : α) : α := (link a).elim a target
    have honward {a i} (hlink : link a = some i) : onward a = target i := by simp [onward, hlink]
    have hplace : ∀ n, Endless (onward^[n] a) := by
      intro n
      induction n with
      | zero => exact hendless
      | succ n ih =>
        obtain ⟨i, hlink, hkeeps⟩ := hnext _ ih
        rwa [Function.iterate_succ_apply', honward hlink]
    refine ⟨fun n => onward^[n] a, rfl, fun n => ?_⟩
    obtain ⟨i, hlink, -⟩ := hnext _ (hplace n)
    exact ⟨i, hlink, (Function.iterate_succ_apply' onward n a).trans (honward hlink)⟩
  · rintro ⟨place, rfl, hplace⟩ ⟨is, b, hends⟩
    -- the end would have a link
    have hnever {a b : α} {is : List ι} (h : Ends link target a is b) : ∀ n, place n ≠ a := by
      induction h with
      | stop hnone =>
        rintro n rfl
        obtain ⟨i, hsome, -⟩ := hplace n
        cases hnone.symm.trans hsome
      | follow hsome _ ih =>
        rintro n rfl
        obtain ⟨i, hsome', hnext⟩ := hplace n
        cases hsome.symm.trans hsome'
        exact ih (n + 1) hnext
    exact hnever hends 0 rfl

end Chain
