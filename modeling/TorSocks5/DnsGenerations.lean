/-
**The live cache holds the answers of one network.**

A flush marks the change of the network: it bumps the generation and clears the cache under one
holding of the mutex.  The publishes compare the generation they captured under the same mutex, and
`insert_capped` labels an entry with the generation that is current then; so while the mutex is free
every entry belongs to the current generation, and no answer of a lookup that began before a flush
stands in the cache after it.
-/

import TorSocks5.DnsStores

set_option autoImplicit false

namespace Dns

variable {Host Addr : Type*}

/-! ### Points of a publish -/

/-- The generation a task has captured and still carries. -/
def Task.captured : Task Host Addr → Option ℕ
  | .looking gen | .expiring _ _ _ gen | .publishing _ _ gen | .comparing _ _ gen
  | .failing _ gen | .failComparing _ gen | .failCurrent _ gen
  | .failAllowed _ gen | .failExpiring _ _ gen | .inserting _ _ _ gen => some gen
  | _ => none

/-- The generation a task has found to be current under the mutex. -/
def Task.agreed : Task Host Addr → Option ℕ
  | .failCurrent _ gen | .failAllowed _ gen | .failExpiring _ _ gen
  | .inserting _ _ _ gen => some gen
  | _ => none

/-- The host and the generation of a failure that has found no fresh positive answer. -/
def Task.replaces : Task Host Addr → Option (Host × ℕ)
  | .failAllowed host gen | .failExpiring host _ gen
  | .inserting true host _ gen => some (host, gen)
  | _ => none

theorem Task.holdsCache_of_agreed {p : Task Host Addr} {gen : ℕ} (h : p.agreed = some gen) :
    p.holdsCache = true := by
  cases p <;> first | rfl | cases h

theorem Task.agreed_of_replaces {p : Task Host Addr} {host : Host} {gen : ℕ}
    (h : p.replaces = some (host, gen)) : p.agreed = some gen := by
  cases p with
  | inserting failure _ _ _ => cases failure <;> simp_all [Task.replaces, Task.agreed]
  | _ => simp_all [Task.replaces, Task.agreed]

variable [DecidableEq Host] [DecidableEq Addr]

variable {s t e : State Host Addr} {a : Action Host Addr} {as : List (Action Host Addr)} {i : ℕ}
  {p : Task Host Addr}

/-! ### What a move does to the live cache -/

/-- The effect of a move of the task `i` to `p` on the live cache, the counters and the records. -/
inductive Effect (s : State Host Addr) (i : ℕ) (p : Task Host Addr) (e : State Host Addr) : Prop
  | quiet : e.live = s.live → e.generation = s.generation → e.nextVersion = s.nextVersion →
      e.issued = s.issued → e.observed = s.observed →
      (∀ kept, s.tasks i ≠ .bumped kept) → Effect s i p e
  | inserted {failure : Bool} {host : Host} {answer : CachedAnswer Addr} {gen : ℕ} :
      s.tasks i = .inserting failure host answer gen →
      e.live = insertCapped s.live host (s.issue answer) s.mono →
      e.generation = s.generation → e.nextVersion = (s.nextVersion + 1) % counterSize →
      e.issued = s.issued ++ [⟨i, host, s.issue answer⟩] →
      (∀ o ∈ e.observed, o ∈ s.observed ∨
        o = ⟨host, answer.addrs, cacheIdentity (s.issue answer)⟩) → Effect s i p e
  | removed (host : Host) : s.cacheLock = none → e.live = s.live.remove host →
      e.generation = s.generation → e.nextVersion = s.nextVersion → e.issued = s.issued →
      e.observed = s.observed → Effect s i p e
  | bumped {kept : List (Host × PersistedAnswer Addr)} : s.tasks i = .flushing kept →
      p = .bumped kept → e = { s with generation := (s.generation + 1) % counterSize } →
      Effect s i p e
  | cleared {kept : List (Host × PersistedAnswer Addr)} : s.tasks i = .bumped kept →
      e = { s with live := ∅, cacheLock := none } → Effect s i p e

theorem Move.effect (h : Move s a i p e) : Effect s i p e := by
  cases h
  case failInserted htask => exact .inserted htask rfl rfl rfl rfl fun o ho => .inl ho
  case inserted htask =>
    refine .inserted htask rfl rfl rfl rfl fun o ho => ?_
    simpa [State.observe, State.inserted, State.issue] using ho
  case removed host _ _ _ hfree _ _ _ => exact .removed host hfree rfl rfl rfl rfl rfl
  case bumped htask => exact .bumped htask rfl rfl
  case cleared htask => exact .cleared htask rfl
  all_goals
    have htask := ‹s.tasks i = _›
    exact .quiet rfl rfl rfl rfl rfl fun kept hkept => by simp [htask] at hkept

omit [DecidableEq Host] [DecidableEq Addr] in
theorem Locks.not_bumped (hs : Locks s) (hfree : s.cacheLock = none) (i : ℕ)
    (kept : List (Host × PersistedAnswer Addr)) : s.tasks i ≠ .bumped kept := by
  intro hkept
  have hnot := hs.cache.not_of_free hfree i
  rw [hkept] at hnot
  cases hnot

theorem Move.frame {j : ℕ}
    (hs : Locks s) (h : Move s a i p e) (hne : j ≠ i) (hj : (s.tasks j).holdsCache = true) :
    e.generation = s.generation ∧ e.live = s.live := by
  have hothers : (s.tasks i).holdsCache ≠ true := fun hi => hne (hs.cache.unique hj hi)
  rcases h.effect with ⟨hlive, hgen, -⟩ | ⟨htask, -⟩ | ⟨_, hfree, -⟩ | ⟨htask, -⟩ | ⟨htask, -⟩
  · exact ⟨hgen, hlive⟩
  · simp [htask, Task.holdsCache] at hothers
  · simp [hs.cache.not_of_free hfree j] at hj
  · simp [htask, Task.holdsCache] at hothers
  · simp [htask, Task.holdsCache] at hothers

/-! ### The invariant of all runs -/

/-- What holds in every run. -/
structure Current (s : State Host Addr) : Prop where
  /-- The cache is within its cap. -/
  len : s.live.len ≤ dnsCacheCap
  /-- Except between the bump and the clear of a flush, all entries are of the current
  generation. -/
  entries : (∀ i kept, s.tasks i ≠ .bumped kept) →
    ∀ host entry, s.live.get host = some entry → entry.generation = s.generation
  /-- What a task has found to be current is still current. -/
  agreed : ∀ i gen, (s.tasks i).agreed = some gen → gen = s.generation
  /-- A failure that has found no fresh positive answer would still find none. -/
  replaces : ∀ i host gen, (s.tasks i).replaces = some (host, gen) →
    freshPositive s.live host gen s.mono = false
  /-- Every entry has been issued. -/
  issued : ∀ host entry, s.live.get host = some entry →
    ∃ r ∈ s.issued, r.host = host ∧ r.answer = entry
  /-- Every identity that was handed out is that of an issued entry. -/
  observed : ∀ o ∈ s.observed, ∃ r ∈ s.issued,
    o = ⟨r.host, r.answer.addrs, cacheIdentity r.answer⟩
  /-- An invalidation carries an identity that was handed out. -/
  callers : ∀ i host o triedAddrs, s.tasks i = .invalidating host o triedAddrs →
    o ∈ s.observed

omit [DecidableEq Addr] in
theorem current_init : Current (init : State Host Addr) := by
  constructor <;> simp [init, Task.agreed, Task.replaces]

omit [DecidableEq Addr] in
theorem freshPositive_of_le {cache : Table Host (CachedAnswer Addr)} {host : Host}
    {gen now now' : ℕ} (h : freshPositive cache host gen now = false) (hle : now ≤ now') :
    freshPositive cache host gen now' = false := by
  unfold freshPositive at h ⊢
  cases hg : cache.get host with
  | none => rfl
  | some entry => grind

omit [DecidableEq Addr] in
theorem freshPositive_congr {cache cache' : Table Host (CachedAnswer Addr)} {host : Host}
    (h : cache'.get host = cache.get host) (gen now : ℕ) :
    freshPositive cache' host gen now = freshPositive cache host gen now := by
  rw [freshPositive, h, freshPositive]

section Moves

variable {s e : State Host Addr} {a : Action Host Addr} {i : ℕ} {p : Task Host Addr}

theorem Current.len_move (hs : Current s) (h : Move s a i p e) : e.live.len ≤ dnsCacheCap := by
  have hlen := hs.len
  rcases h.effect with ⟨hlive, -⟩ | ⟨-, hlive, -⟩ | ⟨_, -, hlive, -⟩ | ⟨-, -, rfl⟩ | ⟨-, rfl⟩
  · exact hlive ▸ hlen
  · exact hlive ▸ len_insertCapped_le hlen _ _ _
  · exact hlive ▸ (Table.len_remove_le _ _).trans hlen
  · exact hlen
  · exact Nat.zero_le _

/-- An entry of the cache after a move was there before, or the move inserted it. -/
theorem Move.get_live (h : Move s a i p e) {host : Host} {entry : CachedAnswer Addr}
    (hg : e.live.get host = some entry) :
    s.live.get host = some entry ∨ ∃ failure answer gen,
      s.tasks i = .inserting failure host answer gen ∧ entry = s.issue answer ∧
        e.generation = s.generation ∧ e.issued = s.issued ++ [⟨i, host, entry⟩] := by
  rcases h.effect with ⟨hlive, -⟩ |
    @⟨failure, host', answer, gen, htask, hlive, hgen, -, hissued, -⟩ | ⟨_, -, hlive, -⟩ |
    ⟨-, -, rfl⟩ | ⟨-, rfl⟩
  · exact .inl (hlive ▸ hg)
  · rw [hlive] at hg
    rcases eq_or_ne host host' with rfl | hh
    · cases (get_insertCapped_self ..).symm.trans hg
      exact .inr ⟨failure, answer, gen, htask, rfl, hgen, hissued⟩
    · exact .inl (get_of_get_insertCapped hh hg)
  · exact .inl (Table.get_of_get_remove (hlive ▸ hg))
  · exact .inl hg
  · simp at hg

theorem Move.issued_subset (h : Move s a i p e) : s.issued ⊆ e.issued := by
  cases h
  case failInserted | inserted => exact List.subset_append_left _ _
  all_goals exact List.Subset.refl _

theorem Move.observed_subset (h : Move s a i p e) : s.observed ⊆ e.observed := by
  cases h
  case inserted => exact List.subset_append_left _ _
  all_goals exact List.Subset.refl _

theorem Current.entries_move (hl : Locks s) (hs : Current s) (h : Move s a i p e)
    (hnone : ∀ j kept, (e.move i p).tasks j ≠ .bumped kept) {host : Host}
    {entry : CachedAnswer Addr} (hg : e.live.get host = some entry) :
    entry.generation = e.generation := by
  have hbefore : (∀ kept, s.tasks i ≠ .bumped kept) →
      ∀ j kept, s.tasks j ≠ .bumped kept := by
    intro hi j kept
    rcases eq_or_ne j i with rfl | hj
    · exact hi kept
    · have hkept := hnone j kept
      rwa [State.move_of_ne e hj, h.tasks_eq] at hkept
  rcases h.get_live hg with hold | ⟨failure, answer, gen, htask, rfl, hgen, -⟩
  · rcases h.effect with ⟨-, hgen, -, -, -, hi⟩ | ⟨htask, -, hgen, -⟩ | ⟨_, hfree, -, hgen, -⟩ |
      ⟨-, rfl, -⟩ | ⟨-, rfl⟩
    · exact hgen ▸ hs.entries (hbefore hi) host entry hold
    · exact hgen ▸ hs.entries (hbefore fun kept => by simp [htask]) host entry hold
    · exact hgen ▸ hs.entries (hl.not_bumped hfree) host entry hold
    · exact absurd (State.move_self e i _) (hnone i _)
    · simp at hg
  · exact hgen ▸ rfl

theorem Current.agreed_move (hl : Locks s) (hs : Current s) (h : Move s a i p e) (j gen : ℕ)
    (hj : ((e.move i p).tasks j).agreed = some gen) : gen = e.generation := by
  rcases eq_or_ne j i with rfl | hji
  · rw [State.move_self] at hj
    cases h
    case answerCurrent hcur _ | failCurrent hcur _ =>
      exact (Option.some.inj hj).symm.trans hcur.symm
    case allowed _ htask | expired htask | failStamped htask =>
      exact hs.agreed _ _ (by rw [htask]; exact hj)
    all_goals cases hj
  · rw [State.move_of_ne e hji, h.tasks_eq] at hj
    rw [(h.frame hl hji (Task.holdsCache_of_agreed hj)).1]
    exact hs.agreed j gen hj

theorem Current.replaces_move (hl : Locks s) (hs : Current s) (h : Move s a i p e) (j : ℕ)
    (host : Host) (gen : ℕ) (hj : ((e.move i p).tasks j).replaces = some (host, gen)) :
    freshPositive e.live host gen e.mono = false := by
  have hmono : e.mono = s.mono := by cases h <;> rfl
  rcases eq_or_ne j i with rfl | hji
  · rw [State.move_self] at hj
    cases h
    case allowed hfresh _ =>
      cases hj
      exact hfresh
    case expired htask | failStamped htask =>
      exact hs.replaces _ _ _ (by rw [htask]; exact hj)
    all_goals cases hj
  · rw [State.move_of_ne e hji, h.tasks_eq] at hj
    have hhold := Task.holdsCache_of_agreed (Task.agreed_of_replaces hj)
    rw [(h.frame hl hji hhold).2, hmono]
    exact hs.replaces j host gen hj

theorem Current.issued_move (hs : Current s) (h : Move s a i p e) {host : Host}
    {entry : CachedAnswer Addr} (hg : e.live.get host = some entry) :
    ∃ r ∈ e.issued, r.host = host ∧ r.answer = entry := by
  rcases h.get_live hg with hold | ⟨_, _, _, -, -, -, hissued⟩
  · obtain ⟨r, hr, hrest⟩ := hs.issued host entry hold
    exact ⟨r, h.issued_subset hr, hrest⟩
  · exact ⟨⟨i, host, entry⟩, by simp [hissued], rfl, rfl⟩

theorem Current.observed_move (hs : Current s) (h : Move s a i p e)
    (o : Observation Host Addr) (ho : o ∈ e.observed) :
    ∃ r ∈ e.issued, o = ⟨r.host, r.answer.addrs, cacheIdentity r.answer⟩ := by
  have hold (ho : o ∈ s.observed) : ∃ r ∈ e.issued,
      o = ⟨r.host, r.answer.addrs, cacheIdentity r.answer⟩ :=
    (hs.observed o ho).imp fun r hr => ⟨h.issued_subset hr.1, hr.2⟩
  rcases h.effect with ⟨-, -, -, -, hobs, -⟩ | ⟨-, -, -, -, hissued, hobs⟩ |
    ⟨_, -, -, -, -, -, hobs⟩ | ⟨-, -, rfl⟩ | ⟨-, rfl⟩
  · exact hold (hobs ▸ ho)
  · rcases hobs o ho with ho | rfl
    · exact hold ho
    · exact ⟨_, by rw [hissued]; exact List.mem_append_right _ List.mem_cons_self, rfl⟩
  exacts [hold (hobs ▸ ho), hold ho, hold ho]

theorem Current.callers_move (hs : Current s) (h : Move s a i p e) (j : ℕ) (host : Host)
    (o : Observation Host Addr) (triedAddrs : List Addr)
    (hj : (e.move i p).tasks j = .invalidating host o triedAddrs) : o ∈ e.observed := by
  rcases eq_or_ne j i with rfl | hji
  · rw [State.move_self] at hj
    cases h <;> cases hj
    assumption
  · rw [State.move_of_ne e hji, h.tasks_eq] at hj
    exact h.observed_subset (hs.callers j host o triedAddrs hj)

end Moves

theorem current_step (hl : Locks s) (hs : Current s) (h : Step s a t) : Current t := by
  cases h with
  | @moved _ i p e hm =>
    exact {
      len := (hs.len_move hm : e.live.len ≤ dnsCacheCap)
      entries := fun hnone _ _ hg => hs.entries_move hl hm hnone hg
      agreed := hs.agreed_move hl hm
      replaces := hs.replaces_move hl hm
      issued := fun _ _ hg => hs.issued_move hm hg
      observed := fun o ho => hs.observed_move hm o ho
      callers := fun j host o triedAddrs hj => hs.callers_move hm j host o triedAddrs hj }
  | ticked wall hle =>
    exact { hs with
      replaces := fun i host gen hi => freshPositive_of_le (hs.replaces i host gen hi) hle }
  | @rehashedLive live hperm =>
    have hget : ∀ k, live.get k = s.live.get k := fun k => (Table.get_of_perm hperm k).symm
    exact { hs with
      len := (Table.len_of_perm hperm).symm.le.trans hs.len
      entries := fun hnone host entry hg => hs.entries hnone host entry (hget host ▸ hg)
      replaces := fun i host gen hi =>
        (freshPositive_congr (hget host) gen _).trans (hs.replaces i host gen hi)
      issued := fun host entry hg => hs.issued host entry (hget host ▸ hg) }
  | rehashedFallback => exact { hs with }
  | missed => exact hs
  | @found _ host entry _ _ hg =>
    obtain ⟨r, hr, rfl, rfl⟩ := hs.issued host entry hg
    exact { hs with
      observed := List.forall_mem_append.2
        ⟨hs.observed, List.forall_mem_singleton.2 ⟨r, hr, rfl⟩⟩
      callers := fun i host o triedAddrs hi =>
        List.mem_append_left _ (hs.callers i host o triedAddrs hi) }

theorem current_of_run {ok : State Host Addr → Action Host Addr → Prop}
    (h : machine.Run ok init as s) : Current s := by
  refine (h.invariant (I := fun s => Locks s ∧ Current s) ?_ ⟨locks_init, current_init⟩).2
  rintro s a t ⟨hl, hs⟩ _ hstep
  exact ⟨locks_step hl (step_cases hstep), current_step hl hs (step_cases hstep)⟩

/-! ### Runs in which no counter wraps -/

/-- The steps at which the generation does not wrap. -/
def GenerationFits (s : State Host Addr) (a : Action Host Addr) : Prop :=
  ∀ i, a = .bump i → s.generation + 1 < counterSize

/-- The steps at which neither counter wraps. -/
def Unwrapped (s : State Host Addr) (a : Action Host Addr) : Prop :=
  GenerationFits s a ∧ ∀ i, a = .insert i → s.nextVersion + 1 < counterSize

/-- No task carries a generation newer than the current one. -/
def CapturedLe (s : State Host Addr) : Prop :=
  ∀ i gen, (s.tasks i).captured = some gen → gen ≤ s.generation

/-- What holds as long as no counter wraps. -/
structure Ordered (s : State Host Addr) : Prop where
  captured : CapturedLe s
  /-- No entry was issued under a generation newer than the current one. -/
  issued : ∀ r ∈ s.issued, r.answer.generation ≤ s.generation
  /-- The next version is newer than all versions issued. -/
  next : ∀ r ∈ s.issued, r.answer.version < s.nextVersion
  /-- The versions issued are distinct. -/
  versions : (s.issued.map fun r => r.answer.version).Nodup

omit [DecidableEq Host] [DecidableEq Addr] in
theorem capturedLe_init : CapturedLe (init : State Host Addr) := by
  exact nofun

omit [DecidableEq Host] [DecidableEq Addr] in
theorem ordered_init : Ordered (init : State Host Addr) := by
  exact ⟨capturedLe_init, by simp [init], by simp [init], by simp [init]⟩

section Moves

variable {s e : State Host Addr} {a : Action Host Addr} {i : ℕ} {p : Task Host Addr}

theorem Move.captured (h : Move s a i p e) {gen : ℕ} (hp : p.captured = some gen) :
    (s.tasks i).captured = some gen ∨ s.tasks i = .idle ∧ gen = s.generation := by
  cases h
  case begun htask => exact .inr ⟨htask, (Option.some.inj hp).symm⟩
  case answered htask | failed htask | answerLocked _ htask | failLocked _ htask
      | answerCurrent _ htask | failCurrent _ htask | allowed _ htask | expired htask
      | stamped htask | failStamped htask =>
    rw [htask]
    exact .inl hp
  all_goals cases hp

theorem Move.generation_le (h : Move s a i p e) (hok : GenerationFits s a) :
    s.generation ≤ e.generation := by
  cases h
  case bumped _ => exact (Nat.mod_eq_of_lt (hok i rfl)).symm ▸ Nat.le_succ _
  all_goals exact le_rfl

theorem Move.issued (h : Move s a i p e) (hok : Unwrapped s a) :
    e.issued = s.issued ∧ e.nextVersion = s.nextVersion ∨
      ∃ failure host answer gen, s.tasks i = .inserting failure host answer gen ∧
        e.issued = s.issued ++ [⟨i, host, s.issue answer⟩] ∧
        e.nextVersion = s.nextVersion + 1 := by
  have hnext : ∀ j, a = .insert j →
      (s.nextVersion + 1) % counterSize = s.nextVersion + 1 :=
    fun j hj => Nat.mod_eq_of_lt (hok.2 j hj)
  cases h
  case failInserted htask | inserted htask => exact .inr ⟨_, _, _, _, htask, rfl, hnext _ rfl⟩
  all_goals exact .inl ⟨rfl, rfl⟩

end Moves

theorem capturedLe_step (hs : CapturedLe s)
    (hok : GenerationFits s a) (h : Step s a t) : CapturedLe t := by
  cases h with
  | @moved _ i p e hm =>
    intro j gen hj
    have hgen : s.generation ≤ (e.move i p).generation := hm.generation_le hok
    rcases eq_or_ne j i with rfl | hji
    · rw [State.move_self] at hj
      rcases hm.captured hj with hold | ⟨-, rfl⟩
      · exact (hs j gen hold).trans hgen
      · exact hgen
    · rw [State.move_of_ne e hji, hm.tasks_eq] at hj
      exact (hs j gen hj).trans hgen
  | _ => exact hs

theorem ordered_step (hs : Ordered s) (hok : Unwrapped s a) (h : Step s a t) : Ordered t := by
  obtain ⟨-, hissuedLe, hnext, hversions⟩ := id hs
  have hcap := capturedLe_step hs.captured hok.1 h
  cases h with
  | @moved _ i p e hm =>
    have hgen := hm.generation_le hok.1
    have hissued : (e.move i p).issued = e.issued := rfl
    have hnextVersion : (e.move i p).nextVersion = e.nextVersion := rfl
    have hgeneration : (e.move i p).generation = e.generation := rfl
    rcases hm.issued hok with ⟨hsame, hsame'⟩ | ⟨_, _, answer, _, -, hmore, hmore'⟩
    · exact ⟨hcap, by grind, by grind, by grind⟩
    · have hissue : (s.issue answer).generation = s.generation := rfl
      have hissue' : (s.issue answer).version = s.nextVersion := rfl
      exact ⟨hcap, by grind, by grind, by grind⟩
  | missed _ => exact hs
  | _ => exact ⟨hcap, hissuedLe, hnext, hversions⟩

theorem ordered_of_run (h : machine.Run Unwrapped init as s) : Ordered s :=
  h.invariant (fun _ _ _ hs hok hstep => ordered_step hs hok (step_cases hstep)) ordered_init

theorem generation_le_of_run (h : machine.Run Unwrapped s as t) : s.generation ≤ t.generation := by
  refine h.relation (R := fun s t => s.generation ≤ t.generation) (fun _ => le_rfl)
    (fun _ _ _ => le_trans) fun s a t hok hstep => ?_
  cases step_cases hstep with
  | moved hm => exact hm.generation_le hok.1
  | _ => exact le_rfl

/-! ### Lookups that began before a flush -/

/-- The task `i` began when the generation was at most `g`: it carries no newer generation, and has
published nothing of a newer one. -/
structure Begun (i g : ℕ) (s : State Host Addr) : Prop where
  started : s.tasks i ≠ .idle
  captured : ∀ gen, (s.tasks i).captured = some gen → gen ≤ g
  issued : ∀ r ∈ s.issued, r.task = i → r.answer.generation ≤ g

omit [DecidableEq Host] [DecidableEq Addr] in
theorem Ordered.begun (hs : Ordered s) (hi : s.tasks i ≠ .idle) : Begun i s.generation s :=
  ⟨hi, hs.captured i, fun r hr _ => hs.issued r hr⟩

theorem Move.ne_idle (h : Move s a i p e) : p ≠ .idle := by
  cases h <;> simp

theorem begun_step {g : ℕ} (hc : Current s)
    (hs : Begun i g s) (hok : Unwrapped s a) (h : Step s a t) : Begun i g t := by
  cases h with
  | @moved _ j p e hm =>
    refine ⟨?_, fun gen hgen => ?_, fun r hr hri => ?_⟩
    · rcases eq_or_ne i j with rfl | hij
      · rw [State.move_self]
        exact hm.ne_idle
      · rw [State.move_of_ne e hij, hm.tasks_eq]
        exact hs.started
    · rcases eq_or_ne i j with rfl | hij
      · rw [State.move_self] at hgen
        exact (hm.captured hgen).elim (hs.captured gen) fun h => absurd h.1 hs.started
      · rw [State.move_of_ne e hij, hm.tasks_eq] at hgen
        exact hs.captured gen hgen
    · rcases hm.issued hok with ⟨hissued, -⟩ | ⟨_, _, answer, gen, htask, hissued, -⟩
      · exact hs.issued r (hissued ▸ hr) hri
      · have hr : r ∈ s.issued ++ _ := hissued ▸ hr
        rcases List.mem_append.1 hr with hr | hr
        · exact hs.issued r hr hri
        · -- The generation under which the entry is issued is the one the task carries.
          obtain rfl := List.mem_singleton.1 hr
          subst hri
          obtain rfl := hc.agreed j gen (htask ▸ rfl)
          exact hs.captured _ (htask ▸ rfl)
  | missed => exact hs
  | _ => exact ⟨hs.started, hs.captured, hs.issued⟩

/-- A call that began before a flush has nothing in the cache after it. -/
theorem get_ne_of_begun_before_bump {bs cs : List (Action Host Addr)} {m : State Host Addr}
    {j : ℕ} (hbs : machine.Run Machine.anyStep init bs m)
    (hrun : machine.Run Unwrapped init (bs ++ .bump j :: cs) s)
    (hi : m.tasks i ≠ .idle) (hfree : s.cacheLock = none) {r : Issue Host Addr}
    (hr : r ∈ s.issued) (hri : r.task = i) : s.live.get r.host ≠ some r.answer := by
  obtain ⟨m', hm, hrest⟩ := hrun.split
  obtain rfl := hbs.deterministic hm
  obtain ⟨n, hok, hstep, hcs⟩ := hrest.of_cons
  have hbump : n.generation = m.generation + 1 := by
    have hcases : Step m (.bump j) n := step_cases hstep
    cases hcases with
    | moved hmove =>
      cases hmove
      exact Nat.mod_eq_of_lt (hok.1 j rfl)
    | missed hask | found hask => cases hask
  have hgen := generation_le_of_run hcs
  -- From the state before the bump on, the call can publish nothing newer than that state.
  have hbegun : Begun i m.generation s := by
    refine (hrest.invariant (I := fun s => Locks s ∧ Current s ∧ Begun i m.generation s) ?_
      ⟨locks_of_run hm, current_of_run hm, (ordered_of_run hm).begun hi⟩).2.2
    rintro u a v ⟨hl, hc, hb⟩ hok hstep
    have hs := step_cases hstep
    exact ⟨locks_step hl hs, current_step hl hc hs, begun_step hc hb hok hs⟩
  intro hget
  have hcur := (current_of_run hrun).entries ((locks_of_run hrun).not_bumped hfree) _ _ hget
  have hle := hbegun.issued r hr hri
  omega

/-! ### Invalidation -/

/-- In a run in which no version wraps an invalidation removes the very entry that its caller
observed. -/
theorem removed_is_observed (hs : Current s) (ho : Ordered s)
    {host : Host} {o : Observation Host Addr} {triedAddrs : List Addr}
    (htask : s.tasks i = .invalidating host o triedAddrs)
    (hstep : step s (.remove i) = some t) (hrem : t.live ≠ s.live) :
    ∃ r ∈ s.issued, s.live.get host = some r.answer ∧ t.live = s.live.remove host ∧
      r.host = host ∧ o = ⟨r.host, r.answer.addrs, cacheIdentity r.answer⟩ ∧
      ∀ r' ∈ s.issued, r'.answer.version = o.identity.version → r' = r := by
  cases step_cases hstep with
  | moved hm =>
    cases hm with
    | @removed _ _ _ _ entry htask' _ hg hcur =>
      cases htask.symm.trans htask'
      have hident : cacheIdentity entry = o.identity := by
        simp only [observedIsCurrent, Bool.and_eq_true, beq_iff_eq] at hcur
        exact hcur.1.1.1
      obtain ⟨r, hr, hrh, rfl⟩ := hs.issued host entry hg
      obtain ⟨r', hr', rfl⟩ := hs.observed o (hs.callers i host o triedAddrs htask)
      have hsame : ∀ q ∈ s.issued, q.answer.version = r.answer.version → q = r :=
        fun q hq hv => List.inj_on_of_nodup_map ho.versions hq hr hv
      obtain rfl := hsame r' hr' (congrArg CacheIdentity.version hident).symm
      exact ⟨r', hr', hg, rfl, hrh, rfl, hsame⟩
    | notRemoved => exact absurd rfl hrem
  | missed hask | found hask => cases hask

/-! ### The claim about all interleavings -/

/-- **The live cache holds the answers of one network.**  In every run: while the mutex is free all
entries are of the current generation; the cache is within its cap; and when a failure is about to
be inserted, the host has no fresh positive answer of its generation.  As long as no counter wraps:
a call that began before the bump of a flush has nothing in the cache whenever the mutex is free
after it; all versions issued are distinct; and an invalidation that changes the cache removes the
one issued entry that its caller observed. -/
theorem live_cache_of_one_network {as : List (Action Host Addr)} {s : State Host Addr}
    (hrun : machine.Run Machine.anyStep init as s) :
    (s.cacheLock = none → ∀ host entry, s.live.get host = some entry →
      entry.generation = s.generation) ∧
    s.live.len ≤ dnsCacheCap ∧
    (∀ (i : ℕ) (host : Host) (answer : CachedAnswer Addr) (gen : ℕ),
      s.tasks i = .inserting true host answer gen →
      ∀ entry, s.live.get host = some entry → entry.generation = gen → entry.addrs ≠ [] →
        entry.expiresAt ≤ s.mono) ∧
    (machine.Run Unwrapped init as s →
      (∀ (bs cs : List (Action Host Addr)) (m : State Host Addr) (i j : ℕ),
        as = bs ++ .bump j :: cs → machine.Run Machine.anyStep init bs m →
        m.tasks i ≠ .idle → s.cacheLock = none →
        ∀ r ∈ s.issued, r.task = i → s.live.get r.host ≠ some r.answer) ∧
      (s.issued.map fun r => r.answer.version).Nodup ∧
      (∀ (i : ℕ) (host : Host) (o : Observation Host Addr) (triedAddrs : List Addr)
        (t : State Host Addr), s.tasks i = .invalidating host o triedAddrs →
        step s (.remove i) = some t → t.live ≠ s.live →
        ∃ r ∈ s.issued, s.live.get host = some r.answer ∧ t.live = s.live.remove host ∧
          r.host = host ∧ o = ⟨r.host, r.answer.addrs, cacheIdentity r.answer⟩ ∧
          ∀ r' ∈ s.issued, r'.answer.version = o.identity.version → r' = r)) := by
  have hl := locks_of_run hrun
  have hc := current_of_run hrun
  refine ⟨fun hfree => hc.entries (hl.not_bumped hfree), hc.len, ?_, fun hun => ?_⟩
  · intro i host answer gen htask entry hg hgen hpos
    have hfresh := hc.replaces i host gen (by rw [htask]; rfl)
    simpa [freshPositive, hg, hgen, hpos] using hfresh
  · have ho := ordered_of_run hun
    refine ⟨?_, ho.versions, fun i host o triedAddrs t => removed_is_observed hc ho⟩
    rintro bs cs m i j rfl hbs hi hfree r hr hri
    exact get_ne_of_begun_before_bump hbs hun hi hfree hr hri

/-! ### Runs that are too short to wrap, and one that is not -/

/-- The counters count steps. -/
theorem counters_le_of_run {ok : State Host Addr → Action Host Addr → Prop}
    (h : machine.Run ok init as s) :
    s.generation ≤ as.length ∧ s.nextVersion ≤ as.length + 1 := by
  induction h with
  | refl => exact ⟨le_rfl, le_rfl⟩
  | @tail s t as a _ _ hstep ih =>
    have hmod : ∀ n, n % counterSize ≤ n := fun n => Nat.mod_le _ _
    have hgenMod := hmod (s.generation + 1)
    have hnextMod := hmod (s.nextVersion + 1)
    rw [List.length_append, List.length_singleton]
    cases step_cases hstep with
    | @moved _ i p e hm =>
      show e.generation ≤ _ ∧ e.nextVersion ≤ _
      rcases hm.effect with ⟨-, hgen, hnext, -⟩ | ⟨-, -, hgen, hnext, -⟩ |
        ⟨_, -, -, hgen, hnext, -⟩ | ⟨-, -, rfl⟩ | ⟨-, rfl⟩ <;> (try simp only) <;> omega
    | _ => exact ⟨ih.1.trans (Nat.le_succ _), ih.2.trans (Nat.le_succ _)⟩

theorem unwrapped_of_length_lt
    (h : machine.Run Machine.anyStep init as s) (hlen : as.length + 1 < counterSize) :
    machine.Run Unwrapped init as s := by
  induction h with
  | refl => exact .refl _
  | @tail s t as a hrun _ hstep ih =>
    rw [List.length_append, List.length_singleton] at hlen
    have hcount := counters_le_of_run hrun
    exact (ih (by omega)).tail ⟨fun i _ => by omega, fun i _ => by omega⟩ hstep

/-- A lookup that began before a flush and publishes after it, a publish after the flush, a read and
an invalidation that is about to take the mutex. -/
def lateAnswer : List (Action ℕ ℕ) :=
  [.begin 0, .flush 1, .flushLock 1, .bump 1, .clear 1,
    .finish 1, .answer 0 5 [7] 0, .stamp 0, .lock 0, .compare 0,
    .begin 2, .answer 2 5 [8] 0, .stamp 2, .lock 2, .compare 2,
    .insert 2, .readCached 5,
    .invalidate 3 5 ⟨5, [8], ⟨1, 1⟩⟩ [8]]

theorem live_cache_of_one_network_late :
    ∃ s : State ℕ ℕ, machine.Run Machine.anyStep init lateAnswer s ∧ s.generation = 1 ∧
      (∃ entry, s.live.get 5 = some entry ∧ entry.addrs = [8] ∧
        entry.generation = s.generation) ∧
      (∀ r ∈ s.issued, r.task = 0 → s.live.get r.host ≠ some r.answer) ∧
      (∃ t, step s (.remove 3) = some t ∧ t.live.len = 0 ∧
        ∃ r ∈ s.issued, s.live.get 5 = some r.answer ∧ r.host = 5) := by
  have hexec : (machine.exec (init : State ℕ ℕ) lateAnswer).map (fun s =>
      (s.generation, s.cacheLock, s.live.get 5, s.live.len,
        (step s (.remove 3)).map fun t => t.live.len)) =
      some (1, none, some ⟨[8], secs 60, 0, 1, 1⟩, 1, some 0) := by decide +kernel
  have hcaller : (machine.exec (init : State ℕ ℕ) lateAnswer).map (fun s => s.tasks 3) =
      some (.invalidating 5 ⟨5, [8], ⟨1, 1⟩⟩ [8]) := by decide +kernel
  have hbefore : (machine.exec (init : State ℕ ℕ) (lateAnswer.take 3)).map (fun s => s.tasks 0) =
      some (.looking 0) := by decide +kernel
  obtain ⟨s, hs, hobs⟩ := Option.map_eq_some_iff.1 hexec
  obtain ⟨m, hm, hlooking⟩ := Option.map_eq_some_iff.1 hbefore
  simp only [Prod.mk.injEq] at hobs
  obtain ⟨hgen, hfree, hget, hone, hrem⟩ := hobs
  have htask : s.tasks 3 = .invalidating 5 ⟨5, [8], ⟨1, 1⟩⟩ [8] := by simpa [hs] using hcaller
  obtain ⟨t, ht, hlen⟩ := Option.map_eq_some_iff.1 hrem
  have hrun := Machine.Run.of_exec hs
  have hun := unwrapped_of_length_lt hrun (by decide)
  obtain ⟨hcur, -, -, hrest⟩ := live_cache_of_one_network hrun
  obtain ⟨hlate, -, hinv⟩ := hrest hun
  refine ⟨s, hrun, hgen, ⟨_, hget, rfl, hcur hfree 5 _ hget⟩, ?_, t, ht, hlen, ?_⟩
  · exact hlate (lateAnswer.take 3) (lateAnswer.drop 4) m 0 1 rfl (Machine.Run.of_exec hm)
      (by simp [hlooking]) hfree
  · have hne : t.live ≠ s.live := fun heq => by simp [← heq, hlen] at hone
    obtain ⟨r, hr, hg, -, hhost, -⟩ := hinv 3 5 _ [8] t htask ht hne
    exact ⟨r, hr, hg, hhost⟩

/-- One publish of an answer, from its lookup to its insert. -/
def publish (i : ℕ) : List (Action ℕ ℕ) :=
  [.begin i, .answer i 5 [7] 0, .stamp i, .lock i, .compare i,
    .insert i]

/-- Publishes one after the other, by the tasks `0` to `n - 1`. -/
def publishes : ℕ → List (Action ℕ ℕ)
  | 0 => []
  | n + 1 => publishes n ++ publish n

theorem run_publish (s : State ℕ ℕ) (i : ℕ) (hidle : s.tasks i = .idle)
    (hfree : s.cacheLock = none) :
    ∃ t, machine.Run Machine.anyStep s (publish i) t ∧ t.cacheLock = none ∧
      t.nextVersion = (s.nextVersion + 1) % counterSize ∧
      t.issued.map (fun r => r.answer.version) =
        s.issued.map (fun r => r.answer.version) ++ [s.nextVersion] := by
  let answer : CachedAnswer ℕ := ⟨[7], s.mono + clampTtl 0, s.wall, 0, 0⟩
  let looking := s.move i (.looking s.generation)
  let expiring := looking.move i (.expiring 5 [7] (s.mono + clampTtl 0) s.generation)
  let publishing := expiring.move i (.publishing 5 answer s.generation)
  let comparing := { publishing with cacheLock := some i }.move i
    (.comparing 5 answer s.generation)
  let inserting := comparing.move i (.inserting false 5 answer s.generation)
  have hexec : machine.exec s (publish i) =
      some ((inserting.inserted i 5 answer).returned i false 5 (inserting.issue answer)) := by
    simp [publish, Machine.exec_cons, machine, step, hidle, hfree, inserting, comparing,
      publishing, expiring, looking, answer]
  refine ⟨_, .of_exec hexec, ?_, ?_, ?_⟩ <;>
    simp [State.returned, State.observe, State.inserted, State.issue, inserting, comparing,
      publishing, expiring, looking]

/-- After `n` publishes the versions issued are the numbers from `1` to `n`, up to wrapping. -/
theorem run_publishes (n : ℕ) :
    ∃ t, machine.Run Machine.anyStep (init : State ℕ ℕ) (publishes n) t ∧ t.cacheLock = none ∧
      (∀ j, n ≤ j → t.tasks j = .idle) ∧ t.nextVersion = (n + 1) % counterSize ∧
      t.issued.map (fun r => r.answer.version) =
        (List.range n).map fun k => (k + 1) % counterSize := by
  induction n with
  | zero => exact ⟨init, .refl _, rfl, fun _ _ => rfl, rfl, rfl⟩
  | succ n ih =>
    obtain ⟨s, hs, hfree, hidle, hnext, hversions⟩ := ih
    obtain ⟨t, ht, hfree', hnext', hversions'⟩ := run_publish s n (hidle n le_rfl) hfree
    refine ⟨t, hs.trans ht, hfree', fun j hj => ?_, ?_, ?_⟩
    · rw [tasks_eq_of_run ht (by simp [publish, Action.mover, (show n ≠ j by omega)])]
      exact hidle j (by omega)
    · rw [hnext', hnext, Nat.mod_add_mod]
    · simp [hversions', hversions, hnext, List.range_succ]

/-- **A version that comes back.**  After `2 ^ 64` publishes the next one issues a version again. -/
theorem versions_repeat :
    ∃ (as : List (Action ℕ ℕ)) (s : State ℕ ℕ), machine.Run Machine.anyStep init as s ∧
      ¬ (s.issued.map fun r => r.answer.version).Nodup := by
  obtain ⟨s, hs, -, -, -, hversions⟩ := run_publishes (counterSize + 1)
  refine ⟨_, s, hs, ?_⟩
  rw [hversions]
  intro hnodup
  have heq := List.inj_on_of_nodup_map hnodup (x := 0) (y := counterSize)
    (List.mem_range.2 (Nat.succ_pos _)) (List.mem_range.2 (Nat.lt_succ_self _))
    (by rw [Nat.add_comm counterSize, Nat.add_mod_right])
  cases heq

end Dns
