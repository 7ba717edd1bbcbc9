/-
**Symbols that arrive in pieces.**

A stream delivers its symbols by reads: a read asks for some number of symbols and gets a part of
the next piece, never an empty one before the end.  What a reader makes of the symbols should not
depend on the pieces.  To show that, the reader is compared with one over the plain list of the
symbols to come: a computation *simulates* another one if, under a view of its state, it gives the
same result and leaves the same state.  Simulations compose as the computations do, so that they
have to be shown for the basic reads only.
-/

import Mathlib

set_option autoImplicit false

namespace Fragments

/-! ### Streams -/

/-- The pieces to come, none of them empty; after them, the stream ends, or it is broken and a read
fails. -/
structure Stream (β : Type*) where
  pieces : List (List β)
  nonempty : ∀ piece ∈ pieces, piece ≠ []
  broken : Bool

namespace Stream

variable {β : Type*}

/-- The symbols to come. -/
def rest (s : Stream β) : List β := s.pieces.flatten

/-- A stream of one piece. -/
def single (symbols : List β) (broken : Bool) : Stream β where
  pieces := [symbols].filter fun piece => !piece.isEmpty
  nonempty := by simp
  broken := broken

theorem rest_single (symbols : List β) (broken : Bool) :
    (single symbols broken).rest = symbols := by
  cases symbols <;> simp [rest, single]

/-- A read of at most `n` symbols. -/
def read (n : ℕ) : Stream β → Option (List β × Stream β)
  | ⟨[], h, broken⟩ => if broken then none else some ([], ⟨[], h, broken⟩)
  | ⟨piece :: pieces, h, broken⟩ =>
    have hpieces : ∀ p ∈ pieces, p ≠ [] := fun p hp => h p (List.mem_cons_of_mem piece hp)
    if hn : piece.length ≤ n then some (piece, ⟨pieces, hpieces, broken⟩)
    else
      have hdrop : piece.drop n ≠ [] := by simpa using hn
      some (piece.take n, ⟨piece.drop n :: pieces, by simpa [hdrop] using hpieces, broken⟩)

/-- **What a read can be**: the end of the stream, or some symbols of it. -/
theorem read_cases {n : ℕ} (hn : 0 < n) (s : Stream β) :
    (s.rest = [] ∧ s.read n = if s.broken then none else some ([], s)) ∨
      ∃ block s', s.read n = some (block, s') ∧ block ≠ [] ∧ block.length ≤ n ∧
        s.rest = block ++ s'.rest ∧ s'.broken = s.broken := by
  obtain ⟨pieces, hpieces, broken⟩ := s
  cases pieces with
  | nil => exact .inl ⟨rfl, rfl⟩
  | cons piece pieces =>
    have hpiece : piece ≠ [] := hpieces piece List.mem_cons_self
    right
    simp only [read]
    split
    · next hle => exact ⟨piece, _, rfl, hpiece, hle, by simp [rest], rfl⟩
    · next hle =>
      refine ⟨piece.take n, _, rfl, ?_, by simp, by simp [rest, ← List.append_assoc], rfl⟩
      simp [hpiece, hn.ne']

end Stream

/-! ### Simulation -/

section Simulation

universe u v

variable {σ τ α γ : Type u} {ε : Type v}

/-- A computation agrees with another one under a view of its state. -/
def Simulates (view : σ → τ) (m : StateT σ (Except ε) α) (m' : StateT τ (Except ε) α) : Prop :=
  ∀ s, (m s).map (fun r => (r.1, view r.2)) = m' (view s)

variable {view : σ → τ} {m : StateT σ (Except ε) α} {m' : StateT τ (Except ε) α}

theorem simulates_pure (a : α) : Simulates (ε := ε) view (pure a) (pure a) := fun _ => rfl

variable {f : α → StateT σ (Except ε) γ} {s : σ}
/-- **Simulations compose.** -/
theorem Simulates.bind {f' : α → StateT τ (Except ε) γ}
    (hm : Simulates view m m') (hf : ∀ a, Simulates view (f a) (f' a)) :
    Simulates view (m >>= f) (m' >>= f') := by
  intro s
  have hs := hm s
  change (Except.bind (m s) fun r => f r.1 r.2).map _ = Except.bind (m' (view s)) fun r =>
    f' r.1 r.2
  rw [← hs]
  cases m s with
  | error e => rfl
  | ok r => exact hf r.1 r.2

theorem bind_of_ok {t : σ} {a : α} (h : m s = .ok (a, t)) : (m >>= f) s = f a t := by
  change Except.bind (m s) (fun r => f r.1 r.2) = f a t
  rw [h]
  rfl

theorem bind_of_error {e : ε} (h : m s = .error e) : (m >>= f) s = .error e := by
  change Except.bind (m s) (fun r => f r.1 r.2) = .error e
  rw [h]
  rfl

theorem exists_of_bind_ok {r : γ × σ}
    (h : (m >>= f) s = .ok r) : ∃ a t, m s = .ok (a, t) ∧ f a t = .ok r := by
  cases hm : m s with
  | error e =>
    rw [bind_of_error hm] at h
    cases h
  | ok q =>
    rw [bind_of_ok hm] at h
    exact ⟨q.1, q.2, rfl, h⟩

theorem result_bind_pure (b : γ) (s : σ) :
    ((m >>= fun _ => pure b) s).map Prod.fst = ((m s).map Prod.fst).map fun _ => b := by
  cases h : m s with
  | error e =>
    rw [bind_of_error h]
    rfl
  | ok r =>
    rw [bind_of_ok h]
    rfl

/-- Errors may be reworded. -/
def mapError (f : ε → ε) (m : StateT σ (Except ε) α) : StateT σ (Except ε) α :=
  fun s => (m s).mapError f

theorem ok_of_mapError {f : ε → ε} {r : α × σ} (h : mapError f m s = .ok r) : m s = .ok r := by
  unfold mapError at h
  cases hm : m s with
  | error e =>
    rw [hm] at h
    cases h
  | ok q =>
    rw [hm] at h
    exact h

theorem Simulates.mapError (f : ε → ε) (hm : Simulates view m m') :
    Simulates view (mapError f m) (mapError f m') := by
  intro s
  simp only [Fragments.mapError, ← hm s]
  cases m s <;> rfl

theorem Simulates.result (hm : Simulates view m m') (s : σ) :
    (m s).map Prod.fst = (m' (view s)).map Prod.fst := by
  rw [← hm s]
  cases m s <;> rfl

end Simulation

/-! ### What a computation yields -/

section Yields

universe u v

variable {σ α γ : Type u} {ε : Type v} {good : ε → Prop} {s : σ}

/-- A computation ends with a result and a state of some kind, or with a good error. -/
def Yields (good : ε → Prop) (m : StateT σ (Except ε) α) (s : σ) (Q : α → σ → Prop) : Prop :=
  match m s with
  | .ok r => Q r.1 r.2
  | .error e => good e

theorem Yields.of_eq {m m' : StateT σ (Except ε) α} {Q : α → σ → Prop} (h : m s = m' s)
    (hm' : Yields good m' s Q) : Yields good m s Q := by
  unfold Yields
  rw [h]
  exact hm'

theorem Yields.ok {m : StateT σ (Except ε) α} {P : α → Prop} {a : α}
    (hm : Yields good m s fun a _ => P a) (h : (m s).map Prod.fst = .ok a) : P a := by
  unfold Yields at hm
  cases hms : m s with
  | error e =>
    rw [hms] at h
    cases h
  | ok r =>
    rw [hms] at h hm
    cases h
    exact hm

theorem Yields.error {m : StateT σ (Except ε) α} {Q : α → σ → Prop} {e : ε}
    (hm : Yields good m s Q) (h : (m s).map Prod.fst = .error e) : good e := by
  unfold Yields at hm
  cases hms : m s with
  | error e' =>
    rw [hms] at h hm
    cases h
    exact hm
  | ok r =>
    rw [hms] at h
    cases h

/-- **The rule of sequence.** -/
theorem Yields.bind {m : StateT σ (Except ε) α} {f : α → StateT σ (Except ε) γ}
    {R : α → σ → Prop} {Q : γ → σ → Prop} (hm : Yields good m s R)
    (hf : ∀ a t, R a t → Yields good (f a) t Q) : Yields good (m >>= f) s Q := by
  unfold Yields at hm ⊢
  change match Except.bind (m s) fun r => f r.1 r.2 with
    | .ok r => Q r.1 r.2
    | .error e => good e
  cases hms : m s with
  | error e =>
    rw [hms] at hm
    exact hm
  | ok r =>
    rw [hms] at hm
    exact hf r.1 r.2 hm

end Yields

end Fragments
