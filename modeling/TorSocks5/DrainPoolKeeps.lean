/-
**Draining loses no candidate.**

What matters about a party of the drain machine, at each moment, is a small *stance*: which locks
it is in, the bridge lines it has read and will write back, the pool it is about to save, and the
identities it takes to be accounted for, dead or put into the bridges file.  Each step of a party
is one of a few *calls* on the files, and the invariant is proved call by call.  The candidates are
then safe because an identity leaves the pool only through a draft that some drain saves, and a
draft leaves out nothing but what is accounted for.
-/

import TorSocks5.DrainPool

set_option autoImplicit false

namespace DrainPool

section Lines

variable {B K : Type*} {f : BridgeFormat B K}

/-! ### Identities in the files -/

/-- Some line holds a bridge of the identity `k`. -/
def HasKey (f : BridgeFormat B K) (lines : List (List Char)) (k : K) : Prop :=
  ∃ line ∈ lines, f.lineKey line = some k

theorem HasKey.mono {lines lines' : List (List Char)} {k : K} (h : HasKey f lines k)
    (hsub : ∀ line ∈ lines, line ∈ lines') : HasKey f lines' k := by
  obtain ⟨line, hline, hkey⟩ := h
  exact ⟨line, hsub line hline, hkey⟩

theorem hasKey_save [DecidableEq K] (hf : f.Faithful) (pool : CandidatePool f) (k : K) :
    HasKey f pool.save k ↔ k ∈ pool.keys := by
  rw [← CandidatePool.keys_load_save hf pool, CandidatePool.mem_keys_load]
  rfl

/-! ### Promotion -/

theorem promoteLines_cons (lines : List (List Char)) (b : B) (promoted : List B) :
    promoteLines f lines (b :: promoted) = promoteLines f
      (if f.display b ∈ lines then lines else lines ++ [f.display b]) promoted := by
  simp [promoteLines]

theorem promoteLines_extends (lines : List (List Char)) (promoted : List B) :
    lines <+: promoteLines f lines promoted := by
  induction promoted generalizing lines with
  | nil => exact List.prefix_refl _
  | cons b promoted ih =>
    rw [promoteLines_cons]
    refine List.IsPrefix.trans ?_ (ih _)
    split
    · exact List.prefix_refl _
    · exact List.prefix_append _ _

/-- The line of every promoted bridge is there. -/
theorem mem_promoteLines (lines : List (List Char)) {promoted : List B} {b : B}
    (hb : b ∈ promoted) : f.display b ∈ promoteLines f lines promoted := by
  induction promoted generalizing lines with
  | nil => cases hb
  | cons b' promoted ih =>
    rw [promoteLines_cons]
    rcases List.mem_cons.1 hb with rfl | hb
    · exact (promoteLines_extends _ promoted).subset (by grind)
    · exact ih _ hb

theorem promoteLines_eq {lines : List (List Char)} {promoted : List B}
    (h : ¬ 0 < (promoteLines f lines promoted).length - lines.length) :
    promoteLines f lines promoted = lines := by
  have hextends := promoteLines_extends (f := f) lines promoted
  have hle := hextends.length_le
  exact (hextends.eq_of_length (by omega)).symm

/-! ### Locks -/

theorem release_poolLock {d : Files K} {p q : Party} (h : d.poolLock = some q) (hq : q ≠ p) :
    (d.release p).poolLock = some q := by grind [Files.release]

end Lines

variable {B K : Type*} [DecidableEq K] {f : BridgeFormat B K}

/-! ### Stances -/

/-- What matters about a party. -/
structure Stance (f : BridgeFormat B K) where
  /-- It is in the pool lock. -/
  inPool : Bool
  /-- It is in the config lock. -/
  inConfig : Bool
  /-- The bridge lines it has read and will write back. -/
  snapshot : Option (List (List Char))
  /-- The pool it is about to save. -/
  draft : Option (CandidatePool f)
  /-- Identities it has probed unreachable. -/
  dead : List K
  /-- Identities it has put into the bridges file. -/
  settled : List K

/-- A party that has not begun, or is gone. -/
def Stance.absent : Stance f := ⟨false, false, none, none, [], []⟩

/-- A stance outside both locks. -/
def Stance.outside (x : Stance f) : Stance f :=
  { x with inPool := false, inConfig := false, snapshot := none, draft := none }

/-- The snapshot and the draft are held under their locks. -/
structure Stance.WF (x : Stance f) : Prop where
  snapshot : x.snapshot.isSome = true → x.inConfig = true
  draft : x.draft.isSome = true → x.inPool = true

/-- `x` holds no more than `y`. -/
structure Stance.Weaker (x y : Stance f) : Prop where
  inPool : x.inPool = true → y.inPool = true
  inConfig : x.inConfig = true → y.inConfig = true
  snapshot : x.snapshot = none ∨ x.snapshot = y.snapshot
  draft : x.draft = none ∨ x.draft = y.draft ∧ x.dead = y.dead ∧ x.settled = y.settled
  dead : ∀ k ∈ x.dead, k ∈ y.dead
  settled : ∀ k ∈ x.settled, k ∈ y.settled

/-! ### Calls -/

/-- What a party can do to the files, and what it holds afterwards. -/
inductive Call (d : Files K) (st : Party → Stance f) (p : Party) : Files K → Stance f → Prop
  | stay : Call d st p d (st p)
  | lockPool : d.poolLock = none →
      Call d st p { d with poolLock := some p } { st p with inPool := true }
  | lockConfig : d.configLock = none →
      Call d st p { d with configLock := some p } { st p with inConfig := true }
  | release : Call d st p (d.release p) (st p).outside
  | probe (k : K) : (st p).draft = none →
      Call d st p { d with unreachable := k :: d.unreachable }
        { st p with dead := k :: (st p).dead }
  | loadConfig : (st p).inConfig = true →
      Call d st p d { st p with snapshot := some d.config }
  | writeConfig {lines new : List (List Char)} (ks : List K) : (st p).snapshot = some lines →
      (∀ line ∈ lines, line ∈ new) → (∀ k ∈ ks, HasKey f new k) →
      Call d st p ({ d with config := new }.release p)
        { (st p).outside with settled := ks ++ (st p).settled }
  | keepConfig {lines : List (List Char)} (ks : List K) : (st p).snapshot = some lines →
      (∀ k ∈ ks, HasKey f lines k) →
      Call d st p (d.release p) { (st p).outside with settled := ks ++ (st p).settled }
  | loadPool (pool : CandidatePool f) : (st p).inPool = true →
      (∀ k, HasKey f d.pool k → k ∈ pool.keys ∨ k ∈ (st p).dead ∨ k ∈ (st p).settled) →
      Call d st p d { st p with draft := some pool }
  | savePool {pool : CandidatePool f} : (st p).draft = some pool →
      Call d st p ({ d with pool := pool.save }.release p) (st p).outside

/-! ### The invariant -/

/-- The identity `k` is in the bridges file and in everything that may be written over it. -/
def Settled (d : Files K) (st : Party → Stance f) (k : K) : Prop :=
  HasKey f d.config k ∧ ∀ p lines, (st p).snapshot = some lines → HasKey f lines k

/-- **The invariant.** -/
structure Inv (d : Files K) (st : Party → Stance f) : Prop where
  wf : ∀ p, (st p).WF
  poolLock : ∀ p, (st p).inPool = true → d.poolLock = some p
  configLock : ∀ p, (st p).inConfig = true → d.configLock = some p
  /-- The lines that were read are still there. -/
  snapshot : ∀ p lines, (st p).snapshot = some lines → ∀ line ∈ lines, line ∈ d.config
  dead : ∀ p, ∀ k ∈ (st p).dead, k ∈ d.unreachable
  settled : ∀ p, ∀ k ∈ (st p).settled, Settled d st k
  /-- A draft leaves out nothing but what is accounted for. -/
  draft : ∀ p pool, (st p).draft = some pool → ∀ k, HasKey f d.pool k →
    k ∈ pool.keys ∨ k ∈ (st p).dead ∨ k ∈ (st p).settled

/-- The identity `k` is pooled, probed unreachable, or in the bridges file for good. -/
def Secure (d : Files K) (st : Party → Stance f) (k : K) : Prop :=
  HasKey f d.pool k ∨ k ∈ d.unreachable ∨ Settled d st k

section Calls

variable {d d' : Files K} {st st' : Party → Stance f} {p : Party} {x : Stance f} {k : K}

theorem Inv.snapshot_none (h : Inv d st) (hp : (st p).inConfig = true) {q : Party} (hq : q ≠ p) :
    (st q).snapshot = none := by
  by_contra hne
  have hin := (h.wf q).snapshot (Option.isSome_iff_ne_none.2 hne)
  cases (h.configLock q hin).symm.trans (h.configLock p hp)
  exact hq rfl

theorem Inv.draft_none (h : Inv d st) (hp : (st p).inPool = true) {q : Party} (hq : q ≠ p) :
    (st q).draft = none := by
  by_contra hne
  have hin := (h.wf q).draft (Option.isSome_iff_ne_none.2 hne)
  cases (h.poolLock q hin).symm.trans (h.poolLock p hp)
  exact hq rfl

/-- Holding less keeps the invariant. -/
theorem Inv.weaken (h : Inv d st) (hx : x.Weaker (st p)) (hwf : x.WF) :
    Inv d (Function.update st p x) := by
  constructor <;> grind -ring -linarith [cases Inv, cases Stance.Weaker, Settled]

/-- **Every call keeps the invariant.** -/
theorem Inv.call (h : Inv d st) (hcall : Call d st p d' x) : Inv d' (Function.update st p x) := by
  have hsnapshot := @h.snapshot_none
  have hdraft := @h.draft_none
  have hp := h.wf p
  cases hcall with
  | stay =>
    rw [Function.update_eq_self]
    exact h
  | release | writeConfig | keepConfig | savePool =>
    constructor <;> grind -ring -linarith [cases Inv, Stance.WF, Settled, HasKey, Stance.outside,
      Files.release]
  | _ => constructor <;> grind -ring -linarith [cases Inv, Stance.WF, Settled]

theorem Inv.pool_of_call (hf : f.Faithful) (h : Inv d st) (hcall : Call d st p d' x)
    (hk : HasKey f d.pool k) : HasKey f d'.pool k ∨ k ∈ (st p).dead ∨ k ∈ (st p).settled := by
  cases hcall with
  | @savePool pool hdraft => exact (h.draft p pool hdraft k hk).imp_left (hasKey_save hf pool k).2
  | _ => exact .inl hk

theorem unreachable_of_call (hcall : Call d st p d' x) (hk : k ∈ d.unreachable) :
    k ∈ d'.unreachable := by
  cases hcall with
  | probe k' _ => exact List.mem_cons_of_mem k' hk
  | _ => exact hk

/-- What is settled stays settled. -/
theorem Settled.call (hcall : Call d st p d' x) (hk : Settled d st k) :
    Settled d' (Function.update st p x) k := by
  cases hcall with
  | @writeConfig lines new ks hsnap hsub hks =>
    exact ⟨(hk.2 p lines hsnap).mono hsub, by grind [Settled, Stance.outside]⟩
  | _ => grind [Settled, Stance.outside, Files.release]

/-- **Every call keeps a secure identity secure.** -/
theorem Secure.call (hf : f.Faithful) (h : Inv d st) (hcall : Call d st p d' x)
    (hk : Secure d st k) : Secure d' (Function.update st p x) k := by
  rcases hk with hk | hk | hk
  · rcases h.pool_of_call hf hcall hk with hk | hk | hk
    · exact .inl hk
    · exact .inr (.inl (unreachable_of_call hcall (h.dead p k hk)))
    · exact .inr (.inr ((h.settled p k hk).call hcall))
  · exact .inr (.inl (unreachable_of_call hcall hk))
  · exact .inr (.inr (hk.call hcall))

theorem Secure.weaken (hx : x.Weaker (st p)) (hk : Secure d st k) :
    Secure d (Function.update st p x) k := by
  grind [Secure, Settled, cases Stance.Weaker]

end Calls

/-! ### The probe loop -/

/-- A bridge is put among the dead only after a probe that found it unreachable. -/
theorem mem_dead_attempt {plan : Plan} {r : Report B} {b b' : B} {late : Bool}
    {probe : Option Outcome} {check : Bool}
    (h : b' ∈ (attempt plan r b late probe check).dead) :
    b' ∈ r.dead ∨ r.full plan late = false ∧ probe = some .unreachable ∧ b' = b := by
  unfold attempt at h
  split at h <;> grind -ring -linarith [judge]

/-- The bridges a report sorts out are from the batch. -/
def Report.Sound (r : Report B) : Prop := ∀ b, b ∈ r.dead ∨ b ∈ r.promoted → b ∈ r.batch

theorem batch_attempt (plan : Plan) (r : Report B) (b : B) (late : Bool) (probe : Option Outcome)
    (check : Bool) : (attempt plan r b late probe check).batch = r.batch := by
  unfold attempt
  split <;> grind -ring -linarith [judge]

theorem mem_promoted_attempt {plan : Plan} {r : Report B} {b b' : B} {late : Bool}
    {probe : Option Outcome} {check : Bool}
    (h : b' ∈ (attempt plan r b late probe check).promoted) : b' ∈ r.promoted ∨ b' = b := by
  unfold attempt at h
  split at h <;> grind -ring -linarith [judge]

theorem Report.Sound.attempt {plan : Plan} {r : Report B} {b : B} (h : r.Sound) (hb : b ∈ r.batch)
    (late : Bool) (probe : Option Outcome) (check : Bool) :
    (attempt plan r b late probe check).Sound := by
  intro b' hb'
  rw [batch_attempt]
  rcases hb' with hb' | hb'
  · rcases mem_dead_attempt hb' with hb' | ⟨-, -, rfl⟩
    exacts [h b' (.inl hb'), hb]
  · rcases mem_promoted_attempt hb' with hb' | rfl
    exacts [h b' (.inr hb'), hb]

/-! ### The stances of the parties -/

/-- The stance of a drain outside the locks, from its report. -/
def Report.stance (f : BridgeFormat B K) (r : Report B) : Stance f :=
  { Stance.absent with dead := r.dead.map f.key }

/-- The stance of a drain outside the locks that knows the outcome of its promotion. -/
def Report.decided (f : BridgeFormat B K) (r : Report B) (promotion : Bool) : Stance f :=
  { r.stance f with settled := if promotion then r.promoted.map f.key else [] }

def DrainPhase.stance : DrainPhase f → Stance f
  | .idle => Stance.absent
  | .acquiring _ => Stance.absent
  | .loading _ => { Stance.absent with inPool := true }
  | .walking _ _ r => { r.stance f with inPool := true }
  | .walked r => r.stance f
  | .promoting r => { r.stance f with inConfig := true }
  | .rewriting r lines =>
    { r.stance f with inConfig := true, snapshot := some lines }
  | .decided r promotion => r.decided f promotion
  | .confirming r promotion => { r.decided f promotion with inPool := true }
  | .shedding r promotion fresh =>
    { r.decided f promotion with inPool := true, draft := some fresh }
  | .finished => Stance.absent

def RefreshPhase.stance : RefreshPhase f → Stance f
  | .loading _ => ⟨true, false, none, none, [], []⟩
  | .saving _ pool => ⟨true, false, none, some pool, [], []⟩
  | .migrating => ⟨false, true, none, none, [], []⟩
  | .rewriting lines => ⟨false, true, some lines, none, [], []⟩
  | _ => Stance.absent

/-- The stances of all parties. -/
def State.stance (s : State f) : Party → Stance f
  | .drain i => (s.drains i).stance
  | .refresh i => (s.refreshes i).stance

theorem DrainPhase.stance_wf (p : DrainPhase f) : p.stance.WF := by
  cases p <;> constructor <;> first | exact fun _ => rfl | exact nofun

theorem RefreshPhase.stance_wf (p : RefreshPhase f) : p.stance.WF := by
  cases p <;> constructor <;> first | exact fun _ => rfl | exact nofun

theorem Stance.Weaker.refl (x : Stance f) : x.Weaker x :=
  ⟨id, id, .inr rfl, .inr ⟨rfl, rfl, rfl⟩, fun _ => id, fun _ => id⟩

theorem Stance.Weaker.absent (y : Stance f) : Stance.absent.Weaker y :=
  ⟨nofun, nofun, .inl rfl, .inl rfl, nofun, nofun⟩

/-- The step of a party is a call that leaves it with the stance `x` or more. -/
def IsCall (d : Files K) (st : Party → Stance f) (p : Party) (d' : Files K) (x : Stance f) : Prop :=
  ∃ y, Call d st p d' y ∧ x.Weaker y

theorem IsCall.of_eq {d d' : Files K} {st : Party → Stance f} {p : Party} {x y : Stance f}
    (h : Call d st p d' y) (hy : y = x) : IsCall d st p d' x := ⟨y, h, hy ▸ Stance.Weaker.refl y⟩

theorem IsCall.absent {d d' : Files K} {st : Party → Stance f} {p : Party} {y : Stance f}
    (h : Call d st p d' y) : IsCall d st p d' Stance.absent := ⟨y, h, Stance.Weaker.absent y⟩

section Parties

variable {d d' : Files K} {st : Party → Stance f} {i : ℕ}

/-- A draft made from the pool on disk accounts for what it leaves out. -/
theorem hasKey_confirm (r : Report B) (promotion : Bool) (k : K) (hk : HasKey f d.pool k) :
    k ∈ (r.confirm promotion (CandidatePool.load d.pool : CandidatePool f)).keys ∨
      k ∈ (r.decided f promotion).dead ∨ k ∈ (r.decided f promotion).settled := by
  rw [Report.confirm, CandidatePool.keys_rotateToBack, CandidatePool.keys_removeAll,
    CandidatePool.mem_keys_load]
  by_cases hdoomed : ∃ b ∈ r.discard promotion, f.key b = k
  · obtain ⟨b, hb, rfl⟩ := hdoomed
    rcases List.mem_append.1 hb with hb | hb
    · exact .inr (.inl (List.mem_map_of_mem hb))
    · cases promotion with
      | true => exact .inr (.inr (List.mem_map_of_mem hb))
      | false => cases hb
  · exact .inl ⟨hk, by simpa using hdoomed⟩

/-- **The steps of a drain are calls.** -/
theorem call_of_stepDrain {p p' : DrainPhase f} {a : DrainAction}
    (hst : st (.drain i) = p.stance) (hf : f.Faithful)
    (hstep : stepDrain i d p a = some (d', p')) :
    IsCall d st (.drain i) d' p'.stance := by
  have hstay : Call d st (.drain i) d p.stance := hst ▸ .stay
  have hrelease : Call d st (.drain i) (d.release (.drain i)) p.stance.outside := hst ▸ .release
  cases a with simp only [stepDrain] at hstep
  | start plan =>
    split at hstep <;> cases hstep
    split <;> exact .absent hstay
  | lockPool | lockConfirm =>
    repeat' split at hstep
    all_goals cases hstep
    exact .of_eq (.lockPool ‹_›) (hst ▸ rfl)
  | load seed =>
    split at hstep <;> [split at hstep; skip] <;> cases hstep
    · exact .absent hrelease
    · exact .of_eq hstay rfl
  | probe late outcome check =>
    split at hstep <;> cases hstep
    case h_1 plan b todo r =>
      unfold noteProbe
      split
      case isTrue hprobe =>
        -- The probe is made and finds the bridge unreachable.
        refine ⟨_, .probe (f.key b) (hst ▸ rfl), ?_⟩
        rw [hst]
        refine ⟨id, nofun, .inl rfl, .inl rfl, List.forall_mem_map.2 fun b' hb' => ?_, nofun⟩
        rcases mem_dead_attempt hb' with hb' | ⟨-, -, rfl⟩
        · exact List.mem_cons_of_mem _ (List.mem_map_of_mem hb')
        · exact List.mem_cons_self
      case isFalse hprobe =>
        refine ⟨_, hstay, id, nofun, .inl rfl, .inl rfl, List.forall_mem_map.2 fun b' hb' => ?_,
          nofun⟩
        rcases mem_dead_attempt hb' with hb' | ⟨hfull, hout, -⟩
        · exact List.mem_map_of_mem hb'
        · exact absurd ⟨hfull, hout⟩ hprobe
  | unlockPool =>
    split at hstep <;> cases hstep
    exact .of_eq hrelease rfl
  | skipPromotion =>
    split at hstep <;> [split at hstep; skip] <;> cases hstep
    next r hempty =>
      have hnil : r.promoted = [] := by simpa using hempty
      exact .of_eq hstay (by simp [DrainPhase.stance, Report.decided, Report.stance, hnil,
        Stance.absent])
  | lockConfig =>
    split at hstep <;> cases hstep
    exact .of_eq (.lockConfig ‹_›) (hst ▸ rfl)
  | loadConfig =>
    split at hstep <;> cases hstep
    exact .of_eq (.loadConfig (hst ▸ rfl)) (hst ▸ rfl)
  | promotionFailed =>
    split at hstep <;> cases hstep
    · exact .of_eq hstay rfl
    · exact .of_eq hrelease rfl
  | writeConfig w =>
    split at hstep
    case h_1 r lines =>
      have hsnap : (st (.drain i)).snapshot = some lines := by rw [hst]; rfl
      have hpromoted : ∀ k ∈ r.promoted.map f.key, HasKey f (promoteLines f lines r.promoted) k :=
        List.forall_mem_map.2 fun b hb =>
          ⟨f.display b, mem_promoteLines lines hb, BridgeFormat.lineKey_display hf b⟩
      split at hstep <;> cases hstep
      · -- A line was added.
        have hwrite := Call.writeConfig (d := d) (r.promoted.map f.key) hsnap
          (fun line hline => (promoteLines_extends lines r.promoted).subset hline) hpromoted
        rw [hst] at hwrite
        cases w with
        | failed => exact .of_eq hrelease rfl
        | done =>
          exact ⟨_, hwrite, id, id, .inl rfl, .inl rfl, fun _ => id,
            fun _ => List.mem_append_left _⟩
        | reported => exact ⟨_, hwrite, id, id, .inl rfl, .inl rfl, fun _ => id, nofun⟩
      · -- Every promoted line was there.
        rw [promoteLines_eq ‹_›] at hpromoted
        have hkeep := Call.keepConfig (d := d) (r.promoted.map f.key) hsnap hpromoted
        rw [hst] at hkeep
        exact ⟨_, hkeep, id, id, .inl rfl, .inl rfl, fun _ => id, fun _ => List.mem_append_left _⟩
    case h_2 => cases hstep
  | loadConfirm =>
    split at hstep <;> cases hstep
    case h_1 r promotion =>
      refine .of_eq (.loadPool (r.confirm promotion (CandidatePool.load d.pool))
        (hst ▸ rfl) fun k hk => ?_) (hst ▸ rfl)
      rw [hst]
      exact hasKey_confirm r promotion k hk
  | savePool w =>
    split at hstep <;> cases hstep
    case h_1 r promotion fresh =>
      cases w with
      | failed => exact .absent hrelease
      | _ => exact .absent (.savePool (hst ▸ rfl))
  | stop =>
    cases hstep
    exact .absent hrelease

/-- **The steps of a refresh are calls.** -/
theorem call_of_stepRefresh {p p' : RefreshPhase f} {a : RefreshAction B K}
    (hst : st (.refresh i) = p.stance)
    (hstep : stepRefresh i d p a = some (d', p')) :
    IsCall d st (.refresh i) d' p'.stance := by
  have hrelease : Call d st (.refresh i) (d.release (.refresh i)) p.stance.outside := hst ▸ .release
  cases a with simp only [stepRefresh] at hstep
  | lockPool m =>
    split at hstep <;> [split at hstep; skip] <;> cases hstep
    exact .of_eq (.lockPool ‹_›) (hst ▸ rfl)
  | load =>
    split at hstep <;> cases hstep
    case h_1 m =>
      refine .of_eq (.loadPool (m.apply (CandidatePool.load d.pool)) (hst ▸ rfl)
        fun k hk => .inl ?_) (hst ▸ rfl)
      -- A merge loses nothing, and the sort of a migration only moves candidates.
      unfold Fetch.apply
      split <;> simp only [CandidatePool.keys_prioritize, CandidatePool.keys_merge,
        CandidatePool.mem_keys_load] <;> exact .inl hk
  | savePool w =>
    split at hstep <;> cases hstep
    case h_1 m pool =>
      have habsent : (if (w.ok && m.configStale) = true then .saved
          else .finished : RefreshPhase f).stance = Stance.absent := by
        split <;> rfl
      rw [habsent]
      cases w with
      | failed => exact .absent hrelease
      | _ => exact .absent (.savePool (hst ▸ rfl))
  | lockConfig =>
    split at hstep <;> cases hstep
    exact .of_eq (.lockConfig ‹_›) (hst ▸ rfl)
  | loadConfig =>
    split at hstep <;> cases hstep
    exact .of_eq (.loadConfig (hst ▸ rfl)) (hst ▸ rfl)
  | writeConfig w =>
    split at hstep <;> cases hstep
    case h_1 lines =>
      have hsnap : (st (.refresh i)).snapshot = some lines := hst ▸ rfl
      have hwrite := Call.writeConfig (d := d) [] hsnap (fun _ => id) nofun
      cases w with
      | failed => exact .absent hrelease
      | _ => exact .absent hwrite
  | stop =>
    cases hstep
    exact .absent hrelease

end Parties

/-! ### Steps of the machine -/

section Machine

variable {d d' : Files K} {st : Party → Stance f} {p : Party} {x : Stance f} {s t : State f}
  {a : Action B K}

theorem Inv.of_isCall (h : Inv d st) (hcall : IsCall d st p d' x) (hwf : x.WF) :
    Inv d' (Function.update st p x) := by
  obtain ⟨y, hy, hx⟩ := hcall
  have hinv := (h.call hy).weaken (p := p) (x := x) (by rwa [Function.update_self]) hwf
  rwa [Function.update_idem] at hinv

theorem Secure.of_isCall (hf : f.Faithful) (h : Inv d st) (hcall : IsCall d st p d' x) {k : K}
    (hk : Secure d st k) : Secure d' (Function.update st p x) k := by
  obtain ⟨y, hy, hx⟩ := hcall
  have hsecure := (hk.call hf h hy).weaken (p := p) (x := x) (by rwa [Function.update_self])
  rwa [Function.update_idem] at hsecure

theorem State.stance_drain (s : State f) (d : Files K) (i : ℕ) (p : DrainPhase f) :
    State.stance { s with files := d, drains := Function.update s.drains i p } =
      Function.update s.stance (.drain i) p.stance := by
  funext q
  cases q <;> grind -ring -linarith [State.stance]

theorem State.stance_refresh (s : State f) (d : Files K) (i : ℕ) (p : RefreshPhase f) :
    State.stance { s with files := d, refreshes := Function.update s.refreshes i p } =
      Function.update s.stance (.refresh i) p.stance := by
  funext q
  cases q <;> grind -ring -linarith [State.stance]

/-- A step is a call of some party, or an edit that keeps the lines. -/
theorem step_cases (hf : f.Faithful) (hok : KeepsLines s a) (hstep : step s a = some t) :
    (∃ p x, x.WF ∧ IsCall s.files s.stance p t.files x ∧
      t.stance = Function.update s.stance p x) ∨
    ∃ lines, (∀ line ∈ s.files.config, line ∈ lines) ∧
      t.files = { s.files with config := lines } ∧ t.stance = s.stance := by
  cases a with
  | drain i a =>
    simp only [step, Option.map_eq_some_iff] at hstep
    obtain ⟨⟨d', p'⟩, hdrain, rfl⟩ := hstep
    exact .inl ⟨.drain i, p'.stance, p'.stance_wf, call_of_stepDrain rfl hf hdrain,
      s.stance_drain d' i p'⟩
  | refresh i a =>
    simp only [step, Option.map_eq_some_iff] at hstep
    obtain ⟨⟨d', p'⟩, hrefresh, rfl⟩ := hstep
    exact .inl ⟨.refresh i, p'.stance, p'.stance_wf, call_of_stepRefresh rfl hrefresh,
      s.stance_refresh d' i p'⟩
  | edit lines =>
    cases hstep
    exact .inr ⟨lines, hok lines rfl, rfl, rfl⟩

theorem Inv.edit (h : Inv d st) {lines : List (List Char)}
    (hlines : ∀ line ∈ d.config, line ∈ lines) : Inv { d with config := lines } st := by
  constructor <;> grind -ring -linarith [cases Inv, Settled, HasKey]

theorem Inv.step (hf : f.Faithful) (h : Inv s.files s.stance) (hok : KeepsLines s a)
    (hstep : step s a = some t) : Inv t.files t.stance := by
  rcases step_cases hf hok hstep with ⟨p, x, hwf, hcall, hst⟩ | ⟨lines, hlines, hfiles, hst⟩
  · rw [hst]
    exact h.of_isCall hcall hwf
  · rw [hst, hfiles]
    exact h.edit hlines

theorem Secure.step (hf : f.Faithful) (h : Inv s.files s.stance) (hok : KeepsLines s a)
    (hstep : DrainPool.step s a = some t) {k : K} (hk : Secure s.files s.stance k) :
    Secure t.files t.stance k := by
  rcases step_cases hf hok hstep with ⟨p, x, -, hcall, hst⟩ | ⟨lines, hlines, hfiles, hst⟩
  · rw [hst]
    exact hk.of_isCall hf h hcall
  · rw [hst, hfiles]
    grind [Secure, Settled, HasKey]

/-! ### Batches -/

/-- The batch a drain has taken. -/
def DrainPhase.batch : DrainPhase f → List B
  | .walking _ _ r => r.batch
  | .walked r => r.batch
  | .promoting r => r.batch
  | .rewriting r _ => r.batch
  | .decided r _ => r.batch
  | .confirming r _ => r.batch
  | .shedding r _ _ => r.batch
  | _ => []

/-- A drain sorts out bridges of its batch only. -/
def DrainPhase.Sound : DrainPhase f → Prop
  | .walking _ todo r => r.Sound ∧ ∀ b ∈ todo, b ∈ r.batch
  | .walked r => r.Sound
  | .promoting r => r.Sound
  | .rewriting r _ => r.Sound
  | .decided r _ => r.Sound
  | .confirming r _ => r.Sound
  | .shedding r _ _ => r.Sound
  | _ => True

theorem DrainPhase.Sound.step {i : ℕ} {p p' : DrainPhase f} {a : DrainAction} (h : p.Sound)
    (hstep : stepDrain i d p a = some (d', p')) : p'.Sound := by
  cases a with simp only [stepDrain] at hstep
  | load seed =>
    split at hstep <;> [split at hstep; skip] <;> cases hstep
    · trivial
    · refine ⟨?_, fun _ => id⟩
      rintro b (hb | hb) <;> cases hb
  | probe late outcome check =>
    split at hstep <;> cases hstep
    case h_1 plan b todo r =>
      obtain ⟨hr, htodo⟩ := h
      refine ⟨hr.attempt (htodo b List.mem_cons_self) late outcome check, fun b' hb' => ?_⟩
      rw [batch_attempt]
      exact htodo b' (List.mem_cons_of_mem b hb')
  | unlockPool =>
    split at hstep <;> cases hstep
    exact h.1
  | start plan =>
    split at hstep <;> cases hstep
    split <;> trivial
  | stop =>
    cases hstep
    trivial
  | _ =>
    repeat' split at hstep
    all_goals cases hstep
    all_goals first | exact h | trivial

/-- What a drain accounts for is from its batch. -/
theorem DrainPhase.Sound.mem_batch {p : DrainPhase f} (h : p.Sound) {k : K}
    (hk : k ∈ p.stance.dead ∨ k ∈ p.stance.settled) : ∃ b ∈ p.batch, f.key b = k := by
  have hreport (r : Report B) (hr : r.Sound) (promotion) (hk : k ∈ (r.decided f promotion).dead ∨
      k ∈ (r.decided f promotion).settled) : ∃ b ∈ r.batch, f.key b = k := by
    cases promotion <;> grind -ring -linarith [Report.decided, Report.stance, Report.Sound]
  cases p with
  | walking plan todo r => exact hreport r h.1 false hk
  | walked r | promoting r | rewriting r lines => exact hreport r h false hk
  | decided r promotion | confirming r promotion | shedding r promotion fresh =>
    exact hreport r h promotion hk
  | _ => rcases hk with hk | hk <;> cases hk

end Machine

/-! ### Whole runs -/

section Runs

variable {s t : State f} {pool config : List (List Char)} {as bs : List (Action B K)}

theorem inv_init (pool config : List (List Char)) :
    Inv (init f pool config).files (init f pool config).stance := by
  have habsent : (init f pool config).stance = fun _ => Stance.absent := by
    funext q
    cases q <;> rfl
  rw [habsent]
  exact ⟨fun _ => ⟨nofun, nofun⟩, nofun, nofun, nofun, nofun, nofun, nofun⟩

theorem inv_of_run (hf : f.Faithful) (h : (machine f).Run KeepsLines (init f pool config) as s) :
    Inv s.files s.stance :=
  h.invariant (I := fun s => Inv s.files s.stance)
    (fun _ _ _ hs hok hstep => hs.step hf hok hstep) (inv_init pool config)

theorem Secure.of_run (hf : f.Faithful) (h : Inv s.files s.stance)
    (hrun : (machine f).Run KeepsLines s bs t) {k : K} (hk : Secure s.files s.stance k) :
    Secure t.files t.stance k := by
  refine (hrun.invariant (I := fun s => Inv s.files s.stance ∧ Secure s.files s.stance k)
    ?_ ⟨h, hk⟩).2
  rintro s a t ⟨hs, hk⟩ hok hstep
  exact ⟨hs.step hf hok hstep, hk.step hf hs hok hstep⟩

theorem sound_of_run (h : (machine f).Run KeepsLines (init f pool config) as s) (i : ℕ) :
    (s.drains i).Sound := by
  refine h.invariant (I := fun s => ∀ i, (s.drains i).Sound) ?_ (fun _ => trivial) i
  intro s a t hs _ hstep j
  cases a with simp only [machine, step, Option.map_eq_some_iff] at hstep
  | drain i a =>
    obtain ⟨⟨d', p'⟩, hdrain, rfl⟩ := hstep
    rcases eq_or_ne j i with rfl | hj
    · simpa using (hs j).step hdrain
    · simpa [hj] using hs j
  | refresh i a =>
    obtain ⟨⟨d', p'⟩, -, rfl⟩ := hstep
    exact hs j
  | edit lines =>
    cases hstep
    exact hs j

/-- **Draining loses no candidate.**  In every run of drains and refreshes, with whatever probes,
failures and deaths, an identity that was pooled at some moment is at every later moment pooled,
or in the bridges file, or was probed unreachable; and a step of a drain removes from the pool only
identities of the batch it took. -/
theorem drain_loses_no_candidate (hf : f.Faithful)
    (h : (machine f).Run KeepsLines (init f pool config) as s)
    (hrun : (machine f).Run KeepsLines s bs t) :
    (∀ k, HasKey f s.files.pool k →
      HasKey f t.files.pool k ∨ HasKey f t.files.config k ∨ k ∈ t.files.unreachable) ∧
    ∀ i a u, step t (.drain i a) = some u → ∀ k, HasKey f t.files.pool k →
      ¬ HasKey f u.files.pool k → ∃ b ∈ (t.drains i).batch, f.key b = k := by
  constructor
  · intro k hk
    rcases Secure.of_run hf (inv_of_run hf h) hrun (.inl hk) with hk | hk | hk
    · exact .inl hk
    · exact .inr (.inr hk)
    · exact .inr (.inl hk.1)
  · intro i a u hstep k hk hgone
    have ht := inv_of_run hf (h.trans hrun)
    have hsound := sound_of_run (h.trans hrun) i
    simp only [step, Option.map_eq_some_iff] at hstep
    obtain ⟨⟨d', p'⟩, hdrain, rfl⟩ := hstep
    have hdrain' : IsCall t.files t.stance (.drain i) d' p'.stance :=
      call_of_stepDrain rfl hf hdrain
    obtain ⟨y, hcall, -⟩ := hdrain'
    rcases ht.pool_of_call hf hcall hk with hk | hk
    · exact absurd hk hgone
    · exact hsound.mem_batch hk

end Runs

/-! ### A drain of two candidates -/

/-- Two bridges, each displayed as a digit. -/
def twoBridges : BridgeFormat Bool Bool where
  key := id
  transport := fun _ => none
  display := fun b => if b then ['1'] else ['0']
  parse := fun line => if line = ['1'] then some true else if line = ['0'] then some false else none

theorem twoBridges_faithful : twoBridges.Faithful := by
  intro b
  refine ⟨b, ?_, rfl⟩
  cases b <;> decide

/-- A drain that promotes the first bridge and finds the second one dead. -/
def promoteOne : List (Action Bool Bool) :=
  [.start ⟨2, none, false⟩, .lockPool, .load none,
    .probe false (some (.reachable 30)) false,
    .probe false (some .unreachable) false, .unlockPool,
    .lockConfig, .loadConfig, .writeConfig .done,
    .lockConfirm, .loadConfirm, .savePool .done].map
      (.drain 0)

theorem drain_loses_no_candidate_promoteOne :
    ∃ t, (machine twoBridges).exec (init twoBridges [['1'], ['0']] []) promoteOne = some t ∧
      t.files.config = [['1']] ∧ t.files.unreachable = [false] ∧
      ∀ k, HasKey twoBridges [['1'], ['0']] k → HasKey twoBridges t.files.pool k ∨
        HasKey twoBridges t.files.config k ∨ k ∈ t.files.unreachable := by
  have hkeeps : ∀ a ∈ promoteOne, ∀ s : State twoBridges, KeepsLines s a := by
    rintro a ha s lines rfl
    simp [promoteOne] at ha
  refine ⟨_, rfl, rfl, rfl, ?_⟩
  exact (drain_loses_no_candidate twoBridges_faithful
    (.refl (init twoBridges [['1'], ['0']] [])) (Machine.Run.of_exec_mem hkeeps rfl)).1

end DrainPool
