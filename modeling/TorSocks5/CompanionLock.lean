/-
**Ownership of names by the locks of companion files.**

A pattern for directories shared by processes that can die at any moment.  The owner of a name
holds the lock of a companion file that stands beside the name.  Whoever finds that lock free may
remove the name.  Since a companion is itself a name, which can be removed and made again while
somebody has the old inode open, all changes of names go through one more lock, the *section*, whose
file is never removed; only an owner may go without it, when it gives up what it owns.
-/

import Mathlib

set_option autoImplicit false

namespace CompanionLock

variable {P N : Type}

/-! ### The directory -/

/-- Names, the inodes of their companions, and the locks.  The field `home` is a ghost: the name an
inode was made for. -/
structure Dir (P N : Type) where
  present : N → Bool
  companion : N → Option ℕ
  holder : ℕ → Option P
  section_ : Option P
  nextInode : ℕ
  home : ℕ → Option N

namespace Dir

/-- A directory with some files, no companions and no locks. -/
def init (present : N → Bool) : Dir P N where
  present := present
  companion := fun _ => none
  holder := fun _ => none
  section_ := none
  nextInode := 0
  home := fun _ => none

/-- Taking the section. -/
def enter (p : P) (d : Dir P N) : Dir P N :=
  { d with section_ := some p }

/-- Leaving the section. -/
def leave (d : Dir P N) : Dir P N :=
  { d with section_ := none }

/-- The inode that opening the companion of `n` finds: the one under the name, or a new one. -/
def inodeOf (n : N) (d : Dir P N) : ℕ :=
  (d.companion n).getD d.nextInode

/-- Locking the inode `i`. -/
def lock (i : ℕ) (p : P) (d : Dir P N) : Dir P N :=
  { d with holder := Function.update d.holder i (some p) }

/-- Closing a handle that holds the lock of the inode `i`. -/
def unlock (i : ℕ) (d : Dir P N) : Dir P N :=
  { d with holder := Function.update d.holder i none }

/-- The kernel releases every lock of a party that dies. -/
def releaseAll [DecidableEq P] (p : P) (d : Dir P N) : Dir P N :=
  { d with
    holder := fun i => if d.holder i = some p then none else d.holder i
    section_ := if d.section_ = some p then none else d.section_ }

theorem holder_lock (i : ℕ) (p : P) (d : Dir P N) (j : ℕ) :
    (d.lock i p).holder j = if j = i then some p else d.holder j :=
  Function.update_apply ..

theorem holder_unlock (i : ℕ) (d : Dir P N) (j : ℕ) :
    (d.unlock i).holder j = if j = i then none else d.holder j :=
  Function.update_apply ..

variable [DecidableEq N]

/-- Opening the companion of `n`, creating it if need be. -/
def openCompanion (n : N) (d : Dir P N) : Dir P N :=
  { d with
    companion := Function.update d.companion n (some (d.inodeOf n))
    home := Function.update d.home (d.inodeOf n) (some n)
    nextInode := max d.nextInode (d.inodeOf n + 1) }

/-- Removing the companion of `n`; a failure leaves it. -/
def removeCompanion (n : N) (ok : Bool) (d : Dir P N) : Dir P N :=
  { d with companion := if ok then Function.update d.companion n none else d.companion }

/-- Removing `n`, or renaming it away; a failure leaves it. -/
def removeFile (n : N) (ok : Bool) (d : Dir P N) : Dir P N :=
  { d with present := if ok then Function.update d.present n false else d.present }

/-- Creating, or truncating, `n`. -/
def createFile (n : N) (d : Dir P N) : Dir P N :=
  { d with present := Function.update d.present n true }

theorem companion_openCompanion (n : N) (d : Dir P N) (m : N) :
    (d.openCompanion n).companion m = if m = n then some (d.inodeOf n) else d.companion m :=
  Function.update_apply ..

theorem home_openCompanion (n : N) (d : Dir P N) (i : ℕ) :
    (d.openCompanion n).home i = if i = d.inodeOf n then some n else d.home i :=
  Function.update_apply ..

theorem companion_removeCompanion (n : N) (ok : Bool) (d : Dir P N) (m : N) :
    (d.removeCompanion n ok).companion m = if ok ∧ m = n then none else d.companion m := by
  cases ok <;> simp [removeCompanion, Function.update_apply]

theorem present_removeFile (n : N) (ok : Bool) (d : Dir P N) (m : N) :
    (d.removeFile n ok).present m = if ok ∧ m = n then false else d.present m := by
  cases ok <;> simp [removeFile, Function.update_apply]

theorem present_createFile (n : N) (d : Dir P N) (m : N) :
    (d.createFile n).present m = if m = n then true else d.present m :=
  Function.update_apply ..

end Dir

/-! ### Stances and calls -/

/-- What a party relies on and what it has found out. -/
structure Stance (N : Type) where
  /-- The name it has claimed. -/
  key : Option N
  /-- It is in the section. -/
  inSection : Bool
  /-- The inode whose lock it holds. -/
  locks : Option ℕ
  /-- The inode it relies on to stand under the companion of its name. -/
  backs : Option ℕ
  /-- It relies on its file to exist. -/
  hasFile : Bool
  /-- A companion it has open to see whether it is locked, and the inode. -/
  examines : Option (N × ℕ)
  /-- A name it has found ownerless. -/
  condemns : Option N

namespace Stance

/-- The stance of a party that is not there. -/
def absent : Stance N where
  key := none
  inSection := false
  locks := none
  backs := none
  hasFile := false
  examines := none
  condemns := none

/-- **What every stance keeps**: an owner has the lock it relies on, or is in the section; whoever
judges a name is in the section and claims none; a lock is held for one of the two reasons. -/
structure WF (q : Stance N) : Prop where
  locks : q.locks ≠ none → q.key ≠ none ∨ q.examines ≠ none
  backs : ∀ i, q.backs = some i → q.locks = some i ∨ q.inSection = true
  hasFile : q.hasFile = true → q.backs ≠ none
  examines : q.examines ≠ none → q.inSection = true ∧ q.key = none
  condemns : q.condemns ≠ none → q.inSection = true ∧ q.key = none

/-- The stance `q'` relies on nothing that `q` does not rely on. -/
structure OwnsLess (q' q : Stance N) : Prop where
  key : q'.key = q.key ∨ q'.key = none
  backs : q'.backs = q.backs ∨ q'.backs = none
  hasFile : q'.hasFile = true → q.hasFile = true

/-- The stance `q'` relies on no more than `q`, and judges no more names. -/
structure Weaker (q' q : Stance N) : Prop extends OwnsLess q' q where
  examines : q'.examines = q.examines ∨ q'.examines = none
  condemns : q'.condemns = q.condemns ∨ q'.condemns = none

section Less

variable {q' q : Stance N}

theorem Weaker.absent (q : Stance N) : Stance.absent.Weaker q :=
  ⟨⟨.inr rfl, .inr rfl, nofun⟩, .inr rfl, .inr rfl⟩

end Less

end Stance

/-- One system call of the party `p`, with the stance it takes. -/
inductive Call [DecidableEq P] [DecidableEq N] (d : Dir P N) (st : P → Stance N) (p : P) :
    Dir P N → Stance N → Prop
  /-- A name nobody has claimed is claimed. -/
  | claim (n : N) (hn : ∀ p', (st p').key ≠ some n) (hp : st p = Stance.absent) :
      Call d st p d { Stance.absent with key := some n }
  /-- Nothing on the directory. -/
  | move {q : Stance N} (hq : q.Weaker (st p)) (hsec : q.inSection = (st p).inSection)
      (hlocks : q.locks = (st p).locks) : Call d st p d q
  | enter {q : Stance N} (hfree : d.section_ = none) (hq : q.Weaker (st p))
      (hsec : q.inSection = true) (hlocks : q.locks = (st p).locks) :
      Call d st p (d.enter p) q
  | leave {q : Stance N} (hin : (st p).inSection = true) (hq : q.Weaker (st p))
      (hsec : q.inSection = false) (hlocks : q.locks = (st p).locks) : Call d st p d.leave q
  /-- The companion of the claimed name is opened, in the section. -/
  | openOwn {n : N} (hkey : (st p).key = some n) (hin : (st p).inSection = true)
      (hlocks : (st p).locks = none) :
      Call d st p (d.openCompanion n) { st p with backs := some (d.inodeOf n) }
  /-- The companion that is open is locked. -/
  | lock {i : ℕ} (hfree : d.holder i = none) (hlocks : (st p).locks = none)
      (hi : (∃ n, (st p).key = some n ∧ (st p).backs = some i) ∨
        ∃ n, (st p).examines = some (n, i)) :
      Call d st p (d.lock i p) { st p with locks := some i }
  /-- The file is created, under the lock. -/
  | create {n : N} (hkey : (st p).key = some n) (hbacks : (st p).backs ≠ none) :
      Call d st p (d.createFile n) { st p with hasFile := true }
  /-- An owner removes its own file, or anybody a name it has condemned. -/
  | removeFile {n : N} {q : Stance N} {ok : Bool}
      (hn : (st p).key = some n ∧ q.hasFile = false ∨ (st p).condemns = some n)
      (hq : q.Weaker (st p)) (hsec : q.inSection = (st p).inSection)
      (hlocks : q.locks = (st p).locks) : Call d st p (d.removeFile n ok) q
  /-- An owner removes its own companion, or anybody that of a name it has condemned. -/
  | removeCompanion {n : N} {q : Stance N} {ok : Bool}
      (hn : (st p).key = some n ∧ q.backs = none ∨ (st p).condemns = some n)
      (hq : q.Weaker (st p)) (hsec : q.inSection = (st p).inSection)
      (hlocks : q.locks = (st p).locks) : Call d st p (d.removeCompanion n ok) q
  /-- A companion is opened to see whether it is locked. -/
  | examine {n : N} {i : ℕ} {q : Stance N} (hin : (st p).inSection = true)
      (hi : d.companion n = some i) (hexam : q.examines = some (n, i)) (hcond : q.condemns = none)
      (hq : q.OwnsLess (st p)) (hsec : q.inSection = true) (hnone : (st p).locks = none)
      (hlocks : q.locks = none) : Call d st p d q
  /-- There is no companion: the name has no owner. -/
  | vacant {n : N} {q : Stance N} (hin : (st p).inSection = true) (hi : d.companion n = none)
      (hcond : q.condemns = some n) (hexam : q.examines = none) (hq : q.OwnsLess (st p))
      (hsec : q.inSection = true) (hnone : (st p).locks = none) (hlocks : q.locks = none) :
      Call d st p d q
  /-- An owner gives its lock up. -/
  | unlock {i : ℕ} {q : Stance N} (hi : (st p).locks = some i) (hq : q.Weaker (st p))
      (hbacks : q.backs = none) (hsec : q.inSection = (st p).inSection) (hlocks : q.locks = none) :
      Call d st p (d.unlock i) q
  /-- The lock of the companion under examination could be had: the name has no owner. -/
  | condemn {n : N} {i : ℕ} {q : Stance N} (hi : (st p).locks = some i)
      (hold : (st p).examines = some (n, i)) (hcond : q.condemns = some n)
      (hexam : q.examines = none) (hq : q.OwnsLess (st p))
      (hsec : q.inSection = (st p).inSection) (hlocks : q.locks = none) :
      Call d st p (d.unlock i) q
  /-- The party dies. -/
  | crash : Call d st p (d.releaseAll p) Stance.absent

section Call

variable [DecidableEq P] [DecidableEq N] {d d' : Dir P N} {st : P → Stance N} {p : P}
  {q : Stance N} {n : N} {i : ℕ}

theorem Call.openOwn' (hkey : (st p).key = some n) (hin : (st p).inSection = true)
    (hlocks : (st p).locks = none) (hq : q = { st p with backs := some (d.inodeOf n) }) :
    Call d st p (d.openCompanion n) q :=
  hq ▸ .openOwn hkey hin hlocks

theorem Call.lock' (hfree : d.holder i = none) (hlocks : (st p).locks = none)
    (hi : (∃ n, (st p).key = some n ∧ (st p).backs = some i) ∨ ∃ n, (st p).examines = some (n, i))
    (hq : q = { st p with locks := some i }) : Call d st p (d.lock i p) q :=
  hq ▸ .lock hfree hlocks hi

theorem Call.create' (hkey : (st p).key = some n) (hbacks : (st p).backs ≠ none)
    (hq : q = { st p with hasFile := true }) : Call d st p (d.createFile n) q :=
  hq ▸ .create hkey hbacks

theorem Call.section_cases (h : Call d st p d' q) :
    d'.section_ = d.section_ ∨ d'.section_ = some p ∨ d'.section_ = none := by
  cases h with
  | enter _ _ _ _ => exact .inr (.inl rfl)
  | leave _ _ _ _ => exact .inr (.inr rfl)
  | crash =>
    by_cases hp : d.section_ = some p
    · exact .inr (.inr (by simp [Dir.releaseAll, hp]))
    · exact .inl (by simp [Dir.releaseAll, hp])
  | _ => exact .inl rfl

end Call

/-! ### The locks -/

/-- Who has which lock, and what the stances of the parties keep. -/
structure Locks (d : Dir P N) (st : P → Stance N) : Prop where
  wf : ∀ p, (st p).WF
  section_ : ∀ p, d.section_ = some p ↔ (st p).inSection = true
  holder : ∀ p i, d.holder i = some p ↔ (st p).locks = some i

section Locks

variable [DecidableEq P] {d d' : Dir P N} {st : P → Stance N} {p : P} {q : Stance N}

theorem Locks.call [DecidableEq N] (h : Locks d st) (hwf : q.WF) (hc : Call d st p d' q) :
    Locks d' (Function.update st p q) := by
  refine ⟨by grind [h.wf], fun p' => ?_, fun p' i => ?_⟩
  · have hp := h.section_ p
    have hp' := h.section_ p'
    cases hc <;> grind -ring -linarith [Dir.enter, Dir.leave, Dir.openCompanion, Dir.lock, Dir.createFile,
      Dir.removeFile, Dir.removeCompanion, Dir.unlock, Dir.releaseAll, Stance.absent]
  · have hp := h.holder p
    have hp' := h.holder p' i
    cases hc <;> grind -ring -linarith [Dir.enter, Dir.leave, Dir.openCompanion, Dir.holder_lock, Dir.createFile,
      Dir.removeFile, Dir.removeCompanion, Dir.holder_unlock, Dir.releaseAll, Stance.absent]

end Locks

variable {d : Dir P N} {st : P → Stance N} {p p' : P} {i : ℕ} {n : N}
theorem Locks.alone (h : Locks d st)
    (hp : (st p).inSection = true) (hp' : (st p').inSection = true) : p = p' := by
  have hs := (h.section_ p).2 hp
  rw [(h.section_ p').2 hp'] at hs
  exact (Option.some.inj hs).symm

theorem Locks.locks_of_backs (h : Locks d st)
    (hp : (st p).inSection = true) (hne : p' ≠ p) (hb : (st p').backs = some i) :
    (st p').locks = some i := by
  rcases (h.wf p').backs i hb with hl | hin
  · exact hl
  · exact absurd (h.alone hin hp) hne

/-! ### The owners -/

/-- **What an owner relies on is so, and what a judge has found out is so.** -/
structure Owners (d : Dir P N) (st : P → Stance N) : Prop where
  distinct : ∀ p p' n, (st p).key = some n → (st p').key = some n → p = p'
  backs : ∀ p n i, (st p).key = some n → (st p).backs = some i → d.companion n = some i
  hasFile : ∀ p n, (st p).key = some n → (st p).hasFile = true → d.present n = true
  examines : ∀ p n i, (st p).examines = some (n, i) → ∀ p' j, (st p').key = some n →
    (st p').backs = some j → j = i
  condemns : ∀ p n, (st p).condemns = some n → ∀ p', (st p').key = some n →
    (st p').backs = none

/-- The lock of a companion under examination could be had: nobody relies on it. -/
theorem Owners.unowned_of_lock (h : Owners d st) (hl : Locks d st)
    (hi : (st p).locks = some i) (hx : (st p).examines = some (n, i)) (p' : P)
    (hk : (st p').key = some n) : (st p').backs = none := by
  obtain ⟨hin, hnone⟩ := (hl.wf p).examines (by simp [hx])
  by_contra hb
  obtain ⟨j, hb⟩ := Option.ne_none_iff_exists'.1 hb
  have hne : p' ≠ p := by
    rintro rfl
    rw [hnone] at hk
    cases hk
  -- the owner would have the lock, on the very inode that `p` has locked
  have hj : j = i := h.examines p n i hx p' j hk hb
  subst hj
  have hheld := (hl.holder p' j).2 (hl.locks_of_backs hin hne hb)
  rw [(hl.holder p j).2 hi] at hheld
  exact hne (Option.some.inj hheld).symm

section Owners

variable [DecidableEq P] {d d' : Dir P N} {st : P → Stance N} {p : P} {q : Stance N}

theorem Owners.call [DecidableEq N] (h : Owners d st) (hl : Locks d st)
    (hc : Call d st p d' q) : Owners d' (Function.update st p q) := by
  -- whoever judges a name has found out that nobody relies on its companion
  have hvacant : ∀ n, d.companion n = none → ∀ p', (st p').key = some n →
      (st p').backs = none := fun n hn p' hk =>
    Option.eq_none_iff_forall_ne_some.2 fun j hb => by simp [h.backs p' n j hk hb] at hn
  have hcondemn := fun n i => h.unowned_of_lock hl (p := p) (n := n) (i := i)
  obtain ⟨hdistinct, hbacks, hfile, hexamines, hcondemns⟩ := h
  obtain ⟨hwfs, hsection, hholder⟩ := hl
  cases hc <;> constructor <;> grind -ring -linarith [Dir.enter, Dir.leave, Dir.lock, Dir.unlock,
    Dir.releaseAll, Dir.openCompanion, Dir.companion_openCompanion, Dir.createFile,
    Dir.present_createFile, Dir.removeFile, Dir.present_removeFile, Dir.removeCompanion,
    Dir.companion_removeCompanion, Stance.absent, cases Stance.WF, cases Stance.OwnsLess,
    cases Stance.Weaker]

end Owners

/-! ### The inodes -/

/-- Every inode in use was made for the name it is used for. -/
structure Homes (d : Dir P N) (st : P → Stance N) : Prop where
  companion : ∀ n i, d.companion n = some i → d.home i = some n
  fresh : ∀ i n, d.home i = some n → i < d.nextInode
  examines : ∀ p n i, (st p).examines = some (n, i) → d.home i = some n
  locks : ∀ p i, (st p).locks = some i →
    ∃ n, d.home i = some n ∧ ((st p).key = some n ∨ (st p).examines = some (n, i))

section Homes

variable [DecidableEq P] {d d' : Dir P N} {st : P → Stance N} {p : P} {q : Stance N}

end Homes

section Call

variable [DecidableEq N] {d d' : Dir P N} {st : P → Stance N} {p : P} {q : Stance N}

variable [DecidableEq P]

theorem Homes.call (h : Homes d st) (hl : Locks d st) (ho : Owners d st) (hwf : q.WF)
    (hc : Call d st p d' q) : Homes d' (Function.update st p q) := by
  have hown := ho.backs p
  have hwfp := hl.wf p
  have hfresh := h.fresh
  have hcompanion := h.companion
  have hexamines := h.examines
  have hlocks := h.locks
  cases hc with
  | @openOwn n hkey hin hfree =>
    -- opening a companion gives no inode another home
    have hkept : ∀ i m, d.home i = some m → (d.openCompanion n).home i = some m := by
      intro i m hi
      have hlt := hfresh i m hi
      cases hcomp : d.companion n <;> grind -ring -linarith [Dir.home_openCompanion, Dir.inodeOf]
    constructor <;> grind -ring -linarith [Dir.openCompanion, Dir.companion_openCompanion,
      Dir.home_openCompanion]
  | removeCompanion =>
    refine ⟨?_, hfresh, ?_, ?_⟩ <;> grind -ring -linarith [Dir.removeCompanion, Dir.companion_removeCompanion,
      cases Stance.WF, cases Stance.OwnsLess, cases Stance.Weaker]
  | _ =>
    refine ⟨hcompanion, hfresh, ?_, ?_⟩ <;> grind -ring -linarith [Dir.enter, Dir.leave, Dir.lock, Dir.unlock,
      Dir.releaseAll, Dir.createFile, Dir.removeFile, Stance.absent, cases Stance.WF,
      cases Stance.OwnsLess, cases Stance.Weaker]

end Call

/-! ### The invariant -/

/-- **The invariant of the pattern.** -/
structure Guarded (d : Dir P N) (st : P → Stance N) : Prop where
  locks : Locks d st
  owners : Owners d st
  homes : Homes d st

theorem guarded_init (present : N → Bool) :
    Guarded (Dir.init present : Dir P N) (fun _ => Stance.absent) where
  locks := ⟨fun _ => ⟨nofun, nofun, nofun, nofun, nofun⟩, by simp [Dir.init, Stance.absent],
    by simp [Dir.init, Stance.absent]⟩
  owners := ⟨nofun, nofun, nofun, nofun, nofun⟩
  homes := ⟨nofun, nofun, nofun, nofun⟩

/-- Nobody has locked or opened the companion of `n` as its owner. -/
def Unowned (n : N) (st : P → Stance N) : Prop :=
  ∀ p, (st p).key = some n → (st p).locks = none ∧ (st p).backs = none

namespace Guarded

variable {d d' : Dir P N} {st : P → Stance N} {p : P} {q : Stance N}

/-- **Every call keeps the invariant.** -/
theorem call [DecidableEq P] [DecidableEq N] (h : Guarded d st) (hwf : q.WF)
    (hc : Call d st p d' q) : Guarded d' (Function.update st p q) where
  locks := h.locks.call hwf hc
  owners := h.owners.call h.locks hc
  homes := h.homes.call h.locks h.owners hwf hc

/-- **A call leaves the companion and the file of every other owner alone.** -/
theorem frame_of_call [DecidableEq P] [DecidableEq N] (h : Guarded d st) (hc : Call d st p d' q)
    (hne : p' ≠ p) (hk : (st p').key = some n)
    (hb : (st p').backs = some i) :
    d'.companion n = d.companion n ∧ d'.present n = d.present n := by
  have hdistinct := h.owners.distinct p' p n hk
  have hcondemns := h.owners.condemns p n
  cases hc <;> grind -ring -linarith [Dir.enter, Dir.leave, Dir.lock, Dir.unlock, Dir.releaseAll,
    Dir.openCompanion, Dir.companion_openCompanion, Dir.createFile, Dir.present_createFile,
    Dir.removeFile, Dir.present_removeFile, Dir.removeCompanion, Dir.companion_removeCompanion]

/-- **The companion of a name that nobody owns is not locked**, as seen by the party in the
section. -/
theorem holder_none (h : Guarded d st) (hhome : d.home i = some n)
    (hin : (st p).inSection = true) (hp : (st p).locks = none)
    (hun : Unowned n st) : d.holder i = none := by
  by_contra hheld
  obtain ⟨p', hp'⟩ := Option.ne_none_iff_exists'.1 hheld
  have hl := (h.locks.holder p' i).1 hp'
  have hexamines := (h.locks.wf p').examines
  grind [h.homes.locks p' i hl, h.locks.alone, hun p']

/-- **A name stays unowned** as long as whoever claims it is kept out of the section. -/
theorem unowned_of_call [DecidableEq P] [DecidableEq N] (h : Guarded d st)
    (hc : Call d st p d' q) (hun : Unowned n st)
    (hout : (st p).key = some n → (st p).inSection = false) :
    Unowned n (Function.update st p q) := by
  have hexamines := (h.locks.wf p).examines
  have hp := hun p
  intro p'
  have hp' := hun p'
  cases hc <;> grind -ring -linarith [Stance.absent, cases Stance.OwnsLess, cases Stance.Weaker]

/-- An unowned file does not come into being. -/
theorem present_of_call [DecidableEq P] [DecidableEq N] (hc : Call d st p d' q)
    (hun : Unowned n st) (hpres : d'.present n = true) : d.present n = true := by
  have hp := hun p
  cases hc <;> grind -ring -linarith [Dir.enter, Dir.leave, Dir.lock, Dir.unlock, Dir.releaseAll,
    Dir.openCompanion, Dir.present_createFile, Dir.present_removeFile, Dir.removeCompanion]

end Guarded

end CompanionLock
