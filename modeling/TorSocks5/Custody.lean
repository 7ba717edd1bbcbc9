/-
**A single thing in a slot behind a lock.**

Several parties share a slot that holds at most one thing: a thread, a connection, a file.  The slot
is behind a lock, but dealing with the thing takes long, so a party takes it *out* of the slot,
drops the lock, and deals with it; the slot remembers that the thing is out.  Later the party puts
the thing back, or sees that it is dead and empties the slot.  A party that finds the slot empty, or
holding a dead thing, may make a new one; it keeps the lock while it does.
-/

import Mathlib
import TorSocks5.Locked

set_option autoImplicit false

namespace Custody

/-- The slot: nothing, a thing, or the mark that the thing is out. -/
inductive Slot (H : Type*)
  | empty
  | held (h : H)
  | out

/-- What a party is at. -/
inductive Role (H : Type*)
  | bystander
  /-- It has the lock of an empty slot. -/
  | maker
  /-- It has made a thing and still has the lock. -/
  | made (h : H)
  /-- It has the thing that is out. -/
  | owner (h : H)
  /-- The thing that was out is dead. -/
  | disposed
  /-- It has the lock and has emptied the slot. -/
  | clearing

namespace Role

variable {H : Type*}

/-- The roles with the lock. -/
def locks : Role H → Bool
  | maker | made _ | clearing => true
  | _ => false

/-- The roles for which the thing is out. -/
def out : Role H → Bool
  | owner _ | disposed => true
  | _ => false

end Role

structure State (ι H : Type*) where
  slot : Slot H
  lock : Option ι
  role : ι → Role H
  live : Set H

variable {ι H : Type*} [DecidableEq ι]

/-- A party takes up a role. -/
def State.become (s : State ι H) (i : ι) (r : Role H) : ι → Role H := Function.update s.role i r

/-- The moves of the protocol. -/
inductive Move (s : State ι H) : State ι H → Prop
  | stay : Move s s
  | die {live : Set H} : live ⊆ s.live → Move s { s with live := live }
  | enter {i : ι} : s.role i = .bystander → s.lock = none →
      (s.slot = .empty ∨ ∃ h, s.slot = .held h ∧ h ∉ s.live) →
      Move s { s with slot := .empty, lock := some i, role := s.become i .maker }
  | make {i : ι} (h : H) : s.role i = .maker →
      Move s { s with role := s.become i (.made h), live := insert h s.live }
  | store {i : ι} {h : H} : s.role i = .made h →
      Move s { s with slot := .held h, lock := none, role := s.become i .bystander }
  | leave {i : ι} : s.role i = .maker ∨ s.role i = .clearing →
      Move s { s with lock := none, role := s.become i .bystander }
  | checkOut {i : ι} {h : H} : s.role i = .bystander → s.lock = none → s.slot = .held h →
      Move s { s with slot := .out, role := s.become i (.owner h) }
  | dispose {i : ι} {h : H} : s.role i = .owner h → h ∉ s.live →
      Move s { s with role := s.become i .disposed }
  | clear {i : ι} : s.role i = .disposed → s.lock = none →
      Move s { s with slot := .empty, lock := some i, role := s.become i .clearing }
  | giveBack {i : ι} {h : H} : s.role i = .owner h → s.lock = none →
      Move s { s with slot := .held h, role := s.become i .bystander }

/-- What the protocol keeps. -/
structure Kept (s : State ι H) : Prop where
  lock : Lock.Held s.lock fun i => (s.role i).locks
  empty : ∀ i, (s.role i).locks = true → s.slot = .empty
  out : ∀ i, (s.role i).out = true → s.slot = .out
  owner : s.slot = .out → ∃ i, (s.role i).out = true
  unique : ∀ i j, (s.role i).out = true → (s.role j).out = true → i = j
  live : ∀ h ∈ s.live, s.slot = .held h ∨ (∃ i, s.role i = .owner h) ∨ ∃ i, s.role i = .made h

section Kept

variable {s t : State ι H} {i j : ι} {h h' : H} {r : Role H}

@[grind =] theorem become_apply (s : State ι H) (i : ι) (r : Role H) (j : ι) :
    s.become i r j = if j = i then r else s.role j := by
  simp [State.become, Function.update_apply]

@[simp] theorem become_self (s : State ι H) (i : ι) (r : Role H) : s.become i r i = r := by
  simp [State.become]

theorem become_of_ne (s : State ι H) (r : Role H) (hj : j ≠ i) : s.become i r j = s.role j := by
  simp [State.become, hj]

theorem exists_become {x : Role H} (hj : ∃ j, s.role j = x) (hne : s.role i ≠ x) :
    ∃ j, s.become i r j = x := by
  obtain ⟨j, rfl⟩ := hj
  exact ⟨j, become_of_ne s r fun h => hne (h ▸ rfl)⟩

theorem held_become {lock : Option ι} (hs : Kept s)
    (hp : Lock.Pass i (s.role i).locks r.locks s.lock lock) :
    Lock.Held lock fun j => (s.become i r j).locks := by
  have hcomp : (fun j => (s.become i r j).locks) =
      Function.update (fun j => (s.role j).locks) i r.locks := by
    funext j
    rcases eq_or_ne j i with rfl | hj
    · simp
    · simp [become_of_ne s r hj, hj]
  exact hcomp ▸ hs.lock.update hp

omit [DecidableEq ι] in
theorem Kept.not_out (hs : Kept s) (hslot : s.slot ≠ .out) (i : ι) : (s.role i).out = false := by
  by_contra hout
  exact hslot (hs.out i (Bool.eq_true_of_not_eq_false hout))

omit [DecidableEq ι] in
theorem Kept.not_locks (hs : Kept s) (hslot : s.slot ≠ .empty) (i : ι) :
    (s.role i).locks = false := by
  by_contra hlocks
  exact hslot (hs.empty i (Bool.eq_true_of_not_eq_false hlocks))

omit [DecidableEq ι] in
theorem Kept.live_of_held (hs : Kept s) (hslot : s.slot = .held h) (hlive : h' ∈ s.live) :
    h' = h := by
  rcases hs.live h' hlive with hheld | ⟨j, hj⟩ | ⟨j, hj⟩
  · exact Slot.held.inj (hheld.symm.trans hslot)
  · simpa [hj, Role.out] using hs.not_out (by simp [hslot]) j
  · simpa [hj, Role.locks] using hs.not_locks (by simp [hslot]) j

omit [DecidableEq ι] in
theorem Kept.live_of_out (hs : Kept s) (hi : (s.role i).out = true) (hlive : h' ∈ s.live) :
    s.role i = .owner h' := by
  have hslot := hs.out i hi
  rcases hs.live h' hlive with hheld | ⟨j, hj⟩ | ⟨j, hj⟩
  · cases hslot.symm.trans hheld
  · rwa [← hs.unique j i (by simp [hj, Role.out]) hi]
  · simpa [hj, Role.locks] using hs.not_locks (by simp [hslot]) j

omit [DecidableEq ι] in
theorem Kept.live_of_empty (hs : Kept s) (hslot : s.slot = .empty) (hlive : h' ∈ s.live) :
    ∃ j, s.role j = .made h' := by
  rcases hs.live h' hlive with hheld | ⟨j, hj⟩ | hmade
  · cases hslot.symm.trans hheld
  · simpa [hj, Role.out] using hs.not_out (by simp [hslot]) j
  · exact hmade

omit [DecidableEq ι] in
theorem Kept.not_live_of_maker (hs : Kept s) (hi : s.role i = .maker) : h ∉ s.live := by
  intro hlive
  obtain ⟨j, hj⟩ := hs.live_of_empty (hs.empty i (by simp [hi, Role.locks])) hlive
  obtain rfl := hs.lock.unique (i := i) (j := j) (by simp [hi, Role.locks])
    (by simp [hj, Role.locks])
  cases hi.symm.trans hj

omit [DecidableEq ι] in
/-- **At most one thing is alive.** -/
theorem Kept.eq_of_live (hs : Kept s) (hlive : h ∈ s.live) (hlive' : h' ∈ s.live) : h = h' := by
  cases hslot : s.slot with
  | empty =>
    obtain ⟨i, hi⟩ := hs.live_of_empty hslot hlive
    obtain ⟨j, hj⟩ := hs.live_of_empty hslot hlive'
    obtain rfl := hs.lock.unique (i := i) (j := j) (by simp [hi, Role.locks])
      (by simp [hj, Role.locks])
    exact Role.made.inj (hi.symm.trans hj)
  | held k => rw [hs.live_of_held hslot hlive, hs.live_of_held hslot hlive']
  | out =>
    obtain ⟨i, hi⟩ := hs.owner hslot
    exact Role.owner.inj ((hs.live_of_out hi hlive).symm.trans (hs.live_of_out hi hlive'))

omit [DecidableEq ι] in
/-- **While the lock is free, a live thing is in the slot or with exactly one party.** -/
theorem Kept.place (hs : Kept s) (hfree : s.lock = none) (hlive : h ∈ s.live) :
    (s.slot = .held h ∧ ∀ i k, s.role i ≠ .owner k) ∨
      (s.slot = .out ∧ ∃ i, s.role i = .owner h ∧ ∀ j k, s.role j = .owner k → j = i) := by
  cases hslot : s.slot with
  | empty =>
    obtain ⟨i, hi⟩ := hs.live_of_empty hslot hlive
    simpa [hfree] using (hs.lock i).2 (by simp [hi, Role.locks])
  | held k =>
    obtain rfl := hs.live_of_held hslot hlive
    refine .inl ⟨rfl, fun i k hi => ?_⟩
    simpa [hi, Role.out] using hs.not_out (by simp [hslot]) i
  | out =>
    obtain ⟨i, hi⟩ := hs.owner hslot
    exact .inr ⟨rfl, i, hs.live_of_out hi hlive,
      fun j k hj => hs.unique j i (by simp [hj, Role.out]) hi⟩

/-! ### Every move keeps it -/

theorem kept_enter (hs : Kept s) (hi : s.role i = .bystander) (hfree : s.lock = none)
    (hslot : s.slot = .empty ∨ ∃ h, s.slot = .held h ∧ h ∉ s.live) :
    Kept { s with slot := .empty, lock := some i, role := s.become i .maker } := by
  have hout := hs.not_out (by rcases hslot with hslot | ⟨h, hslot, -⟩ <;> simp [hslot])
  constructor
  case lock => exact held_become hs (by rw [hi, hfree]; exact .take)
  case live =>
    intro h' hlive
    rcases hs.live h' hlive with hheld | howner | hmade
    · -- what is in the slot is dead
      rcases hslot with hslot | ⟨h, hslot, hdead⟩
      · simp [hslot] at hheld
      · cases hslot.symm.trans hheld
        exact absurd hlive hdead
    · exact .inr (.inl (exists_become howner (by simp [hi])))
    · exact .inr (.inr (exists_become hmade (by simp [hi])))
  all_goals grind [Role.out]

theorem kept_make (hs : Kept s) (hi : s.role i = .maker) :
    Kept { s with role := s.become i (.made h), live := insert h s.live } := by
  have hslot := hs.empty i (by simp [hi, Role.locks])
  have hout := hs.not_out (by simp [hslot])
  constructor
  case lock => exact held_become hs (by rw [hi]; exact .keep true _)
  case live =>
    rintro h' (rfl | hlive)
    · exact .inr (.inr ⟨i, become_self s i _⟩)
    · exact absurd hlive (hs.not_live_of_maker hi)
  all_goals grind [Role.out]

theorem kept_store (hs : Kept s) (hi : s.role i = .made h) :
    Kept { s with slot := .held h, lock := none, role := s.become i .bystander } := by
  have hlock : s.lock = some i := (hs.lock i).2 (by simp [hi, Role.locks])
  have hslot := hs.empty i (by simp [hi, Role.locks])
  have hout := hs.not_out (by simp [hslot])
  -- there is one maker
  have hmaker : ∀ j, (s.role j).locks = true → j = i := fun j hj =>
    Option.some.inj (((hs.lock j).2 hj).symm.trans hlock)
  constructor
  case lock => exact held_become hs (by rw [hi, hlock]; exact .drop _)
  case live =>
    intro h' hlive
    obtain ⟨j, hj⟩ := hs.live_of_empty hslot hlive
    obtain rfl := hmaker j (by simp [hj, Role.locks])
    exact .inl (by rw [Role.made.inj (hi.symm.trans hj)])
  all_goals grind [Role.out, Role.locks]

theorem kept_leave (hs : Kept s) (hi : s.role i = .maker ∨ s.role i = .clearing) :
    Kept { s with lock := none, role := s.become i .bystander } := by
  have hlocks : (s.role i).locks = true := by
    rcases hi with hi | hi <;> simp [hi, Role.locks]
  have hslot := hs.empty i hlocks
  have hout := hs.not_out (by simp [hslot])
  constructor
  case lock => exact held_become hs (by rw [hlocks]; exact .drop _)
  case live =>
    intro h' hlive
    rcases hs.live h' hlive with hheld | howner | hmade
    · exact .inl hheld
    · exact .inr (.inl (exists_become howner (by rcases hi with hi | hi <;> simp [hi])))
    · exact .inr (.inr (exists_become hmade (by rcases hi with hi | hi <;> simp [hi])))
  all_goals grind [Role.out, Role.locks]

theorem kept_checkOut (hs : Kept s) (hi : s.role i = .bystander) (hslot : s.slot = .held h) :
    Kept { s with slot := .out, role := s.become i (.owner h) } := by
  have hout := hs.not_out (by simp [hslot])
  have hlocks := hs.not_locks (by simp [hslot])
  constructor
  case lock => exact held_become hs (by rw [hi]; exact .keep false _)
  case owner => exact fun _ => ⟨i, by simp [Role.out]⟩
  case live =>
    intro h' hlive
    obtain rfl := hs.live_of_held hslot hlive
    exact .inr (.inl ⟨i, become_self s i _⟩)
  all_goals grind [Role.out, Role.locks]

theorem kept_dispose (hs : Kept s) (hi : s.role i = .owner h) (hdead : h ∉ s.live) :
    Kept { s with role := s.become i .disposed } := by
  have hout : (s.role i).out = true := by simp [hi, Role.out]
  have hslot := hs.out i hout
  have hlocks := hs.not_locks (by simp [hslot])
  have hunique := hs.unique
  constructor
  case lock =>
      refine held_become hs ?_
      rw [hi]
      exact .keep false _
  case owner => exact fun _ => ⟨i, by simp [Role.out]⟩
  case live =>
      intro h' hlive
      have := hs.live_of_out hout hlive
      rw [hi] at this
      cases this
      exact absurd hlive hdead
  all_goals grind [Role.out, Role.locks]

theorem kept_clear (hs : Kept s) (hi : s.role i = .disposed) (hfree : s.lock = none) :
    Kept { s with slot := .empty, lock := some i, role := s.become i .clearing } := by
  have hout : (s.role i).out = true := by simp [hi, Role.out]
  have hunique := hs.unique
  constructor
  case lock => exact held_become hs (by rw [hi, hfree]; exact .take)
  case live =>
    intro h' hlive
    cases hi.symm.trans (hs.live_of_out hout hlive)
  all_goals grind [Role.out, Role.locks]

theorem kept_giveBack (hs : Kept s) (hi : s.role i = .owner h) :
    Kept { s with slot := .held h, role := s.become i .bystander } := by
  have hout : (s.role i).out = true := by simp [hi, Role.out]
  have hlocks := hs.not_locks (by simp [hs.out i hout])
  have hunique := hs.unique
  constructor
  case lock => exact held_become hs (by rw [hi]; exact .keep false _)
  case live =>
    intro h' hlive
    cases hi.symm.trans (hs.live_of_out hout hlive)
    exact .inl rfl
  all_goals grind [Role.out, Role.locks]

/-- **Every move keeps it.** -/
theorem kept_move (hs : Kept s) (hmove : Move s t) : Kept t := by
  cases hmove with
  | stay => exact hs
  | die hlive =>
    exact ⟨hs.lock, hs.empty, hs.out, hs.owner, hs.unique, fun h hh => hs.live h (hlive hh)⟩
  | enter hi hfree hslot => exact kept_enter hs hi hfree hslot
  | make h hi => exact kept_make hs hi
  | store hi => exact kept_store hs hi
  | leave hi => exact kept_leave hs hi
  | checkOut hi _ hslot => exact kept_checkOut hs hi hslot
  | dispose hi hdead => exact kept_dispose hs hi hdead
  | clear hi hfree => exact kept_clear hs hi hfree
  | giveBack hi _ => exact kept_giveBack hs hi

end Kept

end Custody
