/-
**The permits of the DNS backend.**

Foreground queries take one permit each, or are refused.  The background refresher wants to leave
the last permit to them: it takes two permits in one step, and gives one back in another.  Between
the two steps it has both, and a query may be refused although all but two permits are free of
queries.
-/

import TorSocks5.Machine

set_option autoImplicit false

namespace BackendPermits

/-- Where `refresh_question_until` is. -/
inductive Refresher
  | idle
  /-- In the local probe, or asleep before the next look at the semaphore. -/
  | waiting
  /-- `available_permits() > 1` has been seen. -/
  | looked
  /-- `try_acquire_many_owned(2)` has succeeded, and the second permit is not dropped yet. -/
  | reserved
  /-- In `resolve_miss`, with one permit. -/
  | resolving
  deriving DecidableEq

def Refresher.permits : Refresher → ℕ
  | .reserved => 2
  | .resolving => 1
  | _ => 0

structure State (ι : Type) where
  available : ℕ
  /-- The foreground queries that hold a permit. -/
  holders : Finset ι
  refresher : Refresher

/-- How a refresh ends: at an await it may also time out or be cancelled. -/
inductive Exit
  | answer
  | failure
  | timeout
  | cancelled

inductive Action (ι : Type)
  /-- `try_acquire_owned` of a foreground query. -/
  | tryAcquire (query : ι)
  | release (query : ι)
  | begin
  | look
  | reserve
  | dropReserved
  | exit (how : Exit)

variable {ι : Type} [DecidableEq ι]

/-- `try_acquire_owned` would be refused. -/
def State.Refuses (s : State ι) : Prop := s.available = 0

def step (s : State ι) : Action ι → Option (State ι)
  | .tryAcquire q =>
    if q ∈ s.holders then none
    else if s.available = 0 then some s
    else some { s with available := s.available - 1, holders := insert q s.holders }
  | .release q =>
    if q ∈ s.holders then
      some { s with available := s.available + 1, holders := s.holders.erase q }
    else none
  | .begin => if s.refresher = .idle then some { s with refresher := .waiting } else none
  | .look =>
    if s.refresher = .waiting then
      some { s with refresher := if 1 < s.available then .looked else .waiting }
    else none
  | .reserve =>
    if s.refresher = .looked then
      if 2 ≤ s.available then
        some { s with available := s.available - 2, refresher := .reserved }
      else some { s with refresher := .waiting }
    else none
  | .dropReserved =>
    if s.refresher = .reserved then
      some { s with available := s.available + 1, refresher := .resolving }
    else none
  | .exit _ =>
    -- there is no await between the reservation and the drop
    if s.refresher = .waiting ∨ s.refresher = .resolving then
      some { s with available := s.available + s.refresher.permits, refresher := .idle }
    else none

def machine (ι : Type) [DecidableEq ι] : Machine (State ι) (Action ι) := ⟨step⟩

def start (permits : ℕ) : State ι := ⟨permits, ∅, .idle⟩

/-- Every permit is free or in somebody's hands. -/
def Accounted (permits : ℕ) (s : State ι) : Prop :=
  s.available + s.holders.card + s.refresher.permits = permits

theorem accounted_step {permits : ℕ} {s t : State ι} {a : Action ι} (h : Accounted permits s)
    (hstep : step s a = some t) : Accounted permits t := by
  unfold Accounted at h ⊢
  cases a with
  | tryAcquire q =>
    simp only [step] at hstep
    split_ifs at hstep with hq hfree <;> cases hstep
    · exact h
    · simp only [Finset.card_insert_of_notMem hq]
      omega
  | release q =>
    simp only [step] at hstep
    split_ifs at hstep with hq
    cases hstep
    have hcard := Finset.card_erase_add_one hq
    simp only
    omega
  | look =>
    simp only [step] at hstep
    split_ifs at hstep with hr hmany <;> cases hstep
    all_goals
      rw [hr] at h
      exact h
  | reserve =>
    simp only [step] at hstep
    split_ifs at hstep with hr hmany <;> cases hstep
    all_goals
      simp only [hr, Refresher.permits] at h ⊢
      omega
  | _ =>
    simp only [step] at hstep
    split_ifs at hstep with hr
    cases hstep
    simp only [hr, Refresher.permits] at h ⊢
    omega

theorem accounted_of_run {permits : ℕ} {as : List (Action ι)} {s : State ι}
    (hrun : (machine ι).Run Machine.anyStep (start permits) as s) : Accounted permits s :=
  hrun.invariant (fun _ _ _ h _ hstep => accounted_step h hstep) (by simp [Accounted, start,
    Refresher.permits])

/-- **Who is refused.**  In every run a query is refused only while the queries hold all permits but
two, and they hold all but one exactly unless the refresher has not dropped the second permit; and
however a refresh ends, the refresher has no permit afterwards. -/
theorem refused_iff_reserved {permits : ℕ} {as : List (Action ι)} {s : State ι}
    (hrun : (machine ι).Run Machine.anyStep (start permits) as s) :
    (s.Refuses → permits - 2 ≤ s.holders.card ∧
      (permits - 1 ≤ s.holders.card ↔ s.refresher ≠ .reserved)) ∧
    ∀ how t, step s (.exit how) = some t → t.refresher.permits = 0 ∧
      t.available + t.holders.card = permits := by
  have h := accounted_of_run hrun
  constructor
  · intro hrefuses
    unfold Accounted at h
    rw [show s.available = 0 from hrefuses] at h
    cases hr : s.refresher <;> simp only [hr, Refresher.permits] at h <;> simp <;> omega
  · intro how t hstep
    have ht : Accounted permits t := accounted_step h hstep
    have hidle : t.refresher = .idle := by
      simp only [step] at hstep
      split_ifs at hstep
      cases hstep
      rfl
    rw [Accounted, hidle] at ht
    exact ⟨by rw [hidle]; rfl, ht⟩

/-- The refresher has taken both permits. -/
def reservedRun : List (Action Bool) := [.begin, .look, .reserve]

theorem refused_iff_reserved_reservedRun :
    ((machine Bool).after (start 2) reservedRun).Refuses ∧
      (2 - 1 ≤ ((machine Bool).after (start 2) reservedRun).holders.card ↔
        ((machine Bool).after (start 2) reservedRun).refresher ≠ .reserved) := by
  have hrun := Machine.Run.of_exec
    (show (machine Bool).exec (start 2) reservedRun = _ from Machine.exec_eq_after rfl)
  exact ⟨rfl, ((refused_iff_reserved hrun).1 rfl).2⟩

/-- **A query is refused although no query holds a permit.** -/
theorem refused_without_queries :
    (machine Bool).Run Machine.anyStep (start 2) reservedRun
      ((machine Bool).after (start 2) reservedRun) ∧
    ((machine Bool).after (start 2) reservedRun).Refuses ∧
    ((machine Bool).after (start 2) reservedRun).holders.card = 0 :=
  ⟨Machine.Run.of_exec (Machine.exec_eq_after rfl), rfl, rfl⟩

end BackendPermits
