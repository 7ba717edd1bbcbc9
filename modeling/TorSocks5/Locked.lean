/-
**A value behind an exclusive lock.**

Several parties change a shared value in transactions: a party takes the lock, reads the value,
computes a new one and writes it while it still holds the lock.  The changes themselves are the
labels of a machine on the values.  Since only the holder writes, what a party has read stays
true until it drops the lock, and the list of the changes written so far is a run of that machine:
the parties together do what they would do if each change were made in one step.
-/

import TorSocks5.Machine

set_option autoImplicit false

/-- A value with its lock, and the changes written to it. -/
structure Locked (V H C : Type*) where
  value : V
  holder : Option H
  history : List C

namespace Locked

variable {V H C : Type*}

/-- The lock is taken. -/
def take (x : Locked V H C) (h : H) : Locked V H C := { x with holder := some h }

/-- The lock is dropped. -/
def drop (x : Locked V H C) : Locked V H C := { x with holder := none }

/-- A new value is written. -/
def write (x : Locked V H C) (v : V) (c : C) : Locked V H C :=
  { x with value := v, history := x.history ++ [c] }

@[simp] theorem take_value (x : Locked V H C) (h : H) : (x.take h).value = x.value := rfl

@[simp] theorem take_holder (x : Locked V H C) (h : H) : (x.take h).holder = some h := rfl

@[simp] theorem take_history (x : Locked V H C) (h : H) : (x.take h).history = x.history := rfl

@[simp] theorem drop_value (x : Locked V H C) : x.drop.value = x.value := rfl

@[simp] theorem drop_holder (x : Locked V H C) : x.drop.holder = none := rfl

@[simp] theorem drop_history (x : Locked V H C) : x.drop.history = x.history := rfl

@[simp] theorem write_value (x : Locked V H C) (v : V) (c : C) : (x.write v c).value = v := rfl

@[simp] theorem write_holder (x : Locked V H C) (v : V) (c : C) :
    (x.write v c).holder = x.holder := rfl

@[simp] theorem write_history (x : Locked V H C) (v : V) (c : C) :
    (x.write v c).history = x.history ++ [c] := rfl

/-- The moves of party `h`: it writes only under the lock, and only what the change makes of the
current value. -/
inductive Move (M : Machine V C) (ok : V → C → Prop) (h : H) (x : Locked V H C) :
    Locked V H C → Prop
  | stay : Move M ok h x x
  | take : x.holder = none → Move M ok h x (x.take h)
  | drop : x.holder = some h → Move M ok h x x.drop
  | write {v : V} {c : C} : x.holder = some h → ok x.value c → M.step x.value c = some v →
      Move M ok h x (x.write v c)

namespace Move

variable {M : Machine V C} {ok : V → C → Prop} {h h' : H} {x y : Locked V H C} {v₀ : V}

/-- **Exclusion.**  Nothing changes while another party holds the lock. -/
theorem eq_of_held (hm : Move M ok h x y) (hx : x.holder = some h') (hne : h' ≠ h) : y = x := by
  cases hm with
  | stay => rfl
  | take hfree =>
    rw [hx] at hfree
    cases hfree
  | drop hmine =>
    rw [hx] at hmine
    exact absurd (Option.some.inj hmine) hne
  | write hmine _ _ =>
    rw [hx] at hmine
    exact absurd (Option.some.inj hmine) hne

/-- **Serialisation.**  The changes written so far lead from the first value to the current
one. -/
theorem run (hm : Move M ok h x y) (hx : M.Run ok v₀ x.history x.value) :
    M.Run ok v₀ y.history y.value := by
  cases hm with
  | stay => exact hx
  | take _ => exact hx
  | drop _ => exact hx
  | write _ hok hstep => exact hx.tail hok hstep

theorem history_prefix (hm : Move M ok h x y) : x.history <+: y.history := by
  cases hm with
  | stay => exact List.prefix_refl _
  | take _ => exact List.prefix_refl _
  | drop _ => exact List.prefix_refl _
  | write _ _ _ => exact List.prefix_append _ _

end Move

end Locked

/-! ### Who holds a lock -/

namespace Lock

variable {H : Type*} {lock lock' : Option H} {holds : H → Bool} {i j : H}

/-- The lock is held by the party that is at a point where it holds it, and by no other. -/
def Held (lock : Option H) (holds : H → Bool) : Prop := ∀ i, lock = some i ↔ holds i = true

/-- What party `i` may do with a lock on its way from one point to the next; the Booleans say
whether it holds the lock at either point. -/
inductive Pass (i : H) : Bool → Bool → Option H → Option H → Prop
  | keep (b : Bool) (l : Option H) : Pass i b b l l
  | take : Pass i false true none (some i)
  | drop (l : Option H) : Pass i true false l none

theorem Held.unique (h : Held lock holds) (hi : holds i = true) (hj : holds j = true) : i = j :=
  Option.some.inj (((h i).2 hi).symm.trans ((h j).2 hj))

theorem Held.not_of_free (h : Held lock holds) (hfree : lock = none) (i : H) : holds i = false := by
  by_contra hi
  have hlock := (h i).2 (by simpa using hi)
  rw [hfree] at hlock
  cases hlock

/-- **The discipline of a lock.**  A party that goes from one point to the next, taking the lock
only when it is free and dropping only what it holds, leaves the lock with the party that holds it.
-/
theorem Held.update [DecidableEq H] {b : Bool} (h : Held lock holds)
    (hp : Pass i (holds i) b lock lock') : Held lock' (Function.update holds i b) := by
  generalize hb : holds i = b' at hp
  cases hp with
  | keep =>
    rw [← hb, Function.update_eq_self]
    exact h
  | take =>
    intro j
    by_cases hj : j = i
    · subst hj
      simp
    · have hnot := h.not_of_free rfl j
      simp [hj, hnot, Ne.symm hj]
  | drop =>
    intro j
    by_cases hj : j = i
    · subst hj
      simp
    · have hnot : holds j ≠ true := fun hh => hj (h.unique hh hb)
      simp [hj, hnot]

end Lock
