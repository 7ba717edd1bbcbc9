/-
**Machines: executable transition systems, their runs, their invariants and what is inevitable.**

Every concurrent component of this development is given as a *machine*: a type of states, a type
of labels (one for each atomic step some party may take) and a partial step function.  A label
that is not enabled in a state has no successor there, so an interleaving of the parties is
nothing but a list of labels, and a statement about every interleaving is a statement about every
run.
-/

import Mathlib

set_option autoImplicit false

/-- A transition system with an executable step; `none` says that the label is not enabled. -/
structure Machine (σ α : Type*) where
  /-- The successor of a state under a label. -/
  step : σ → α → Option σ

namespace Machine

variable {σ α : Type*} {M : Machine σ α}

/-! ### Execution -/

/-- The state reached over a list of labels, if every one of them is enabled in its turn. -/
def exec (M : Machine σ α) : σ → List α → Option σ
  | s, [] => some s
  | s, a :: as => (M.step s a).bind fun t => exec M t as

@[simp] theorem exec_nil (s : σ) : M.exec s [] = some s := rfl

theorem exec_cons (s : σ) (a : α) (as : List α) :
    M.exec s (a :: as) = (M.step s a).bind fun t => M.exec t as := rfl

@[simp] theorem exec_singleton (s : σ) (a : α) : M.exec s [a] = M.step s a := by
  rw [exec_cons]
  cases M.step s a <;> rfl

theorem exec_append (s : σ) (as bs : List α) :
    M.exec s (as ++ bs) = (M.exec s as).bind fun t => M.exec t bs := by
  induction as generalizing s with
  | nil => rfl
  | cons a as ih => simp [exec_cons, Option.bind_assoc, ih]

/-- The state after a list of labels; the starting state if one of them is not enabled. -/
def after (M : Machine σ α) (s : σ) (as : List α) : σ := (M.exec s as).getD s

theorem exec_eq_after {s : σ} {as : List α} (h : (M.exec s as).isSome = true) :
    M.exec s as = some (M.after s as) := by
  rw [after, ← Option.some_get h]
  rfl

theorem exec_after (s : σ) (as bs : List α) (h : (M.exec s (as ++ bs)).isSome = true) :
    M.exec (M.after s as) bs = some (M.after s (as ++ bs)) := by
  obtain ⟨u, hu⟩ := Option.isSome_iff_exists.1 h
  obtain ⟨t, ht, hrest⟩ := Option.bind_eq_some_iff.1 (exec_append s as bs ▸ hu)
  simp [after, hu, ht, hrest]

/-- What the steps of an execution give, one after the other; each is in the state it is taken
in. -/
def outputs {β : Type*} (M : Machine σ α) (g : σ → α → List β) : σ → List α → List β
  | _, [] => []
  | s, a :: as => g s a ++ (M.step s a).elim [] fun t => outputs M g t as

theorem outputs_singleton {β : Type*} (g : σ → α → List β) (s : σ) (a : α) :
    M.outputs g s [a] = g s a := by
  rw [outputs]
  cases M.step s a <;> simp [outputs]

/-- The condition that excludes no step. -/
def anyStep : σ → α → Prop := fun _ _ => True

/-! ### Runs -/

/-- `M.Run ok s as t`: the labels `as` lead from `s` to `t`, and each step meets the condition
`ok` in the state it is taken in. -/
inductive Run (M : Machine σ α) (ok : σ → α → Prop) : σ → List α → σ → Prop
  | refl (s : σ) : Run M ok s [] s
  | tail {s t u : σ} {as : List α} {a : α} :
      Run M ok s as t → ok t a → M.step t a = some u → Run M ok s (as ++ [a]) u

namespace Run

variable {ok : σ → α → Prop} {s t u : σ} {as bs : List α} {a : α}

theorem single (hok : ok s a) (h : M.step s a = some t) : M.Run ok s [a] t :=
  (Run.refl s).tail hok h

theorem of_nil (h : M.Run ok s [] t) : s = t := by
  generalize hl : ([] : List α) = l at h
  cases h with
  | refl => rfl
  | tail _ _ _ => simp at hl

theorem of_concat (h : M.Run ok s (as ++ [a]) u) :
    ∃ t, M.Run ok s as t ∧ ok t a ∧ M.step t a = some u := by
  generalize hl : as ++ [a] = l at h
  cases h with
  | refl => simp at hl
  | tail hrun hok hstep =>
    obtain ⟨rfl, ha⟩ := List.append_inj' hl rfl
    obtain rfl : a = _ := List.singleton_inj.1 ha
    exact ⟨_, hrun, hok, hstep⟩

theorem of_singleton (h : M.Run ok s [a] t) : ok s a ∧ M.step s a = some t := by
  obtain ⟨m, hnil, hstep⟩ := of_concat (show M.Run ok s ([] ++ [a]) t from h)
  exact hnil.of_nil ▸ hstep

theorem trans (h : M.Run ok s as t) (h' : M.Run ok t bs u) : M.Run ok s (as ++ bs) u := by
  induction h' with
  | refl => simpa using h
  | tail _ hok hstep ih =>
    rw [← List.append_assoc]
    exact ih.tail hok hstep

theorem head (hok : ok s a) (hstep : M.step s a = some t) (h : M.Run ok t as u) :
    M.Run ok s (a :: as) u := (single hok hstep).trans h

/-- An execution is a run under every condition that its labels meet in all states. -/
theorem of_exec_mem : ∀ {as : List α} {s t : σ}, (∀ a ∈ as, ∀ s, ok s a) →
    M.exec s as = some t → M.Run ok s as t := by
  intro as
  induction as with
  | nil =>
    rintro s t - h
    cases h
    exact .refl s
  | cons a as ih =>
    intro s t hok h
    obtain ⟨m, hm, h⟩ := Option.bind_eq_some_iff.1 h
    exact .head (hok a (by simp) s) hm (ih (fun b hb => hok b (by simp [hb])) h)

theorem of_exec (h : M.exec s as = some t) : M.Run anyStep s as t :=
  of_exec_mem (fun _ _ _ => trivial) h

/-- **The induction over a run.**  A property that every step of the run keeps holds at its end
if it holds at its start. -/
theorem invariant {I : σ → Prop}
    (hstep : ∀ s a t, I s → ok s a → M.step s a = some t → I t)
    (h : M.Run ok s as t) (hs : I s) : I t := by
  induction h with
  | refl => exact hs
  | tail _ hok hst ih => exact hstep _ _ _ ih hok hst

theorem relation {R : σ → σ → Prop} (hrefl : ∀ s, R s s)
    (htrans : ∀ s t u, R s t → R t u → R s u)
    (hstep : ∀ s a t, ok s a → M.step s a = some t → R s t) (h : M.Run ok s as t) : R s t := by
  induction h with
  | refl => exact hrefl _
  | tail _ hok hst ih => exact htrans _ _ _ ih (hstep _ _ _ hok hst)

/-- A run over `as ++ bs` is a run over `as` followed by one over `bs`. -/
theorem split : ∀ {bs : List α} {s u : σ}, M.Run ok s (as ++ bs) u →
    ∃ t, M.Run ok s as t ∧ M.Run ok t bs u := by
  intro bs
  induction bs using List.reverseRecOn with
  | nil => exact fun h => ⟨_, by simpa using h, .refl _⟩
  | append_singleton bs b ih =>
    intro s u h
    rw [← List.append_assoc] at h
    obtain ⟨m, hrun, hok, hstep⟩ := h.of_concat
    obtain ⟨t, ht, ht'⟩ := ih hrun
    exact ⟨t, ht, ht'.tail hok hstep⟩

theorem of_cons (h : M.Run ok s (a :: as) t) :
    ∃ m, ok s a ∧ M.step s a = some m ∧ M.Run ok m as t := by
  obtain ⟨m, hm, hrest⟩ := (show M.Run ok s ([a] ++ as) t from h).split
  obtain ⟨hok, hstep⟩ := of_singleton hm
  exact ⟨m, hok, hstep, hrest⟩

theorem outputs_append {β : Type*} (g : σ → α → List β) (bs : List α) :
    ∀ {as : List α} {s : σ}, M.Run ok s as t →
      M.outputs g s (as ++ bs) = M.outputs g s as ++ M.outputs g t bs := by
  intro as
  induction as with
  | nil => exact fun h => by rw [h.of_nil]; rfl
  | cons a as ih =>
    intro s h
    obtain ⟨m, -, hstep, hrest⟩ := h.of_cons
    simp [outputs, hstep, ih hrest]

theorem outputs_tail {β : Type*} (g : σ → α → List β) (h : M.Run ok s as t) (a : α) :
    M.outputs g s (as ++ [a]) = M.outputs g s as ++ g t a := by
  rw [outputs_append g [a] h, outputs_singleton]

theorem exists_crossing {Q : σ → Prop} (h : M.Run ok s as t) (hs : ¬ Q s) (ht : Q t) :
    ∃ bs a cs m u, as = bs ++ a :: cs ∧ M.Run ok s bs m ∧ ok m a ∧ M.step m a = some u ∧
      ¬ Q m ∧ Q u := by
  induction h with
  | refl => exact absurd ht hs
  | @tail m u as a hrun hok hstep ih =>
    by_cases hm : Q m
    · obtain ⟨bs, b, cs, n, v, rfl, hbs⟩ := ih hm
      exact ⟨bs, b, cs ++ [a], n, v, by simp, hbs⟩
    · exact ⟨as, a, [], m, u, rfl, hrun, hok, hstep, hm, ht⟩

/-- A list of labels leads to one state at most. -/
theorem deterministic {ok' : σ → α → Prop} (h : M.Run ok s as t) :
    ∀ {u : σ}, M.Run ok' s as u → t = u := by
  induction h with
  | refl => exact of_nil
  | tail _ _ hstep ih =>
    intro u h'
    obtain ⟨m, hm, -, hstep'⟩ := h'.of_concat
    obtain rfl := ih hm
    exact Option.some.inj (hstep.symm.trans hstep')

theorem tail_iff {ok' : σ → α → Prop} (h : M.Run ok' s as t) (hstep : M.step t a = some u) :
    M.Run ok s (as ++ [a]) u ↔ M.Run ok s as t ∧ ok t a := by
  refine ⟨fun hrun => ?_, fun ⟨hrun, hok⟩ => hrun.tail hok hstep⟩
  obtain ⟨m, hm, hok, -⟩ := hrun.of_concat
  exact h.deterministic hm ▸ ⟨hm, hok⟩

/-- **An exact condition.**  If a property holds in every state that runs of good steps reach, and
fails right after the first step that is not good, then it holds throughout a run exactly when all
the steps of the run are good. -/
theorem forall_iff {P : σ → Prop} (hgood : ∀ as t, M.Run ok s as t → P t)
    (hbad : ∀ as t a u, M.Run ok s as t → ¬ ok t a → M.step t a = some u → ¬ P u)
    (h : M.Run anyStep s as t) :
    (∀ bs u, bs <+: as → M.Run anyStep s bs u → P u) ↔ M.Run ok s as t := by
  constructor
  · intro hP
    induction h with
    | refl => exact Run.refl _
    | @tail m u as a hrun _ hstep ih =>
      have hm := ih fun bs v hbs hv => hP bs v (hbs.trans (List.prefix_append _ _)) hv
      by_cases hok : ok m a
      · exact hm.tail hok hstep
      · have hu : P u := hP _ u (List.prefix_refl _) (hrun.tail trivial hstep)
        exact absurd hu (hbad _ _ _ _ hm hok hstep)
  · rintro hrun bs u ⟨cs, rfl⟩ hu
    obtain ⟨v, hv, -⟩ := hrun.split
    obtain rfl := hu.deterministic hv
    exact hgood bs u hv

/-- **An exact condition on steps.**  If every good step after good steps is related to what it
leads to, and the first step that is not good is not, then all steps of a run are related exactly
when all of them are good. -/
theorem forall_step_iff {base : σ → α → Prop} {R : σ → σ → Prop}
    (hgood : ∀ as t a u, M.Run ok s as t → ok t a → M.step t a = some u → R t u)
    (hbad : ∀ as t a u, M.Run ok s as t → base t a → ¬ ok t a → M.step t a = some u → ¬ R t u)
    (h : M.Run base s as t) :
    (∀ bs a cs m u, as = bs ++ a :: cs → M.Run base s bs m → M.step m a = some u → R m u) ↔
      M.Run ok s as t := by
  constructor
  · intro hR
    induction h with
    | refl => exact Run.refl _
    | @tail m u as a hrun hbase hstep ih =>
      have hm := ih fun bs b cs n v has hn hv => hR bs b (cs ++ [a]) n v (by simp [has]) hn hv
      by_cases hok : ok m a
      · exact hm.tail hok hstep
      · exact absurd (hR as a [] m u rfl hrun hstep) (hbad _ _ _ _ hm hbase hok hstep)
  · rintro hrun bs a cs m u rfl hm hstep
    obtain ⟨v, hv, hrest⟩ := hrun.split
    obtain rfl := hm.deterministic hv
    obtain ⟨w, hok, -⟩ := hrest.of_cons
    exact hgood bs m a u hv hok hstep

end Run

/-! ### What is inevitable -/

/-- Whichever of the steps allowed by `may` are taken, as long as one can be taken, a state with
the property `P` is reached. -/
inductive Inevitable (M : Machine σ α) (may : σ → α → Prop) (P : σ → Prop) : σ → Prop
  | now {s : σ} : P s → Inevitable M may P s
  | later {s : σ} : (∃ a t, may s a ∧ M.step s a = some t) →
      (∀ a t, may s a → M.step s a = some t → Inevitable M may P t) → Inevitable M may P s

/-- **A decreasing measure.**  If in every state of the invariant `I` the goal is reached, or an
allowed step can be taken and every allowed step keeps `I` and decreases the measure, then the
goal is inevitable. -/
theorem Inevitable.of_measure {may : σ → α → Prop} {P I : σ → Prop} (m : σ → ℕ)
    (h : ∀ s, I s → P s ∨ (∃ a t, may s a ∧ M.step s a = some t) ∧
      ∀ a t, may s a → M.step s a = some t → I t ∧ m t < m s)
    {s : σ} (hs : I s) : M.Inevitable may P s := by
  induction hn : m s using Nat.strong_induction_on generalizing s with
  | _ n ih =>
    rcases h s hs with hp | ⟨hex, hall⟩
    · exact Inevitable.now hp
    · refine Inevitable.later hex fun a t hmay hstep => ?_
      obtain ⟨ht, hlt⟩ := hall a t hmay hstep
      exact ih (m t) (hn ▸ hlt) ht rfl

end Machine
