/-
**Trust on first use adopts once and loses nothing.**

The registry file is changed by the logins of several processes, each on its own stale copy of the
registry, and by commands.  All of them make their change in a transaction under the lock of the
file.  This module shows that the system does what it would do if every change were made in one
step on the file: the changes saved so far are a run of a machine whose labels are the changes.
In that machine an adoption needs an account that is enabled and in `init` mode, and it replaces
the hash of this one record; so between two adoptions of one account a command has put the account
back into `init` mode.
-/

import TorSocks5.AuthCache

set_option autoImplicit false

namespace Auth

open Users

variable {Salt Secret Mac : Type}

/-! ### The registry with atomic changes -/

/-- A change made in one step.  An adoption needs an enabled account in `init` mode. -/
def Change.apply (c : UsersConfig) : Change → Option UsersConfig
  | adopt _ name hash =>
    match c.find name with
    | none => none
    | some u =>
      if u.isEnabled ∧ u.hash = initSentinel then some (c.modify name (adoptHash hash))
      else none
  | command _ m => (m.apply c).toOption

/-- The registry as a machine whose labels are the changes. -/
def atomicRegistry : Machine UsersConfig Change := ⟨Change.apply⟩

/-- An adoption never writes the sentinel. -/
def Proper (_ : UsersConfig) : Change → Prop
  | .adopt _ _ hash => hash ≠ initSentinel
  | .command _ _ => True

variable {c disk : UsersConfig} {i : ℕ} {name hash : String} {l : Login} {r r' : Registry}
  {s t : State Secret Mac} {a : Action Salt Secret}
/-- **An adoption replaces one hash.**  The first record of the name is enabled and in `init`
mode, and the registry afterwards differs in the hash of this record alone. -/
theorem adopt_iff {c' : UsersConfig} : atomicRegistry.step c (.adopt i name hash) = some c' ↔
      ∃ u, c.find name = some u ∧ u.isEnabled = true ∧ u.hash = initSentinel ∧
        c' = c.modify name (adoptHash hash) := by
  simp only [atomicRegistry, Change.apply]
  cases hc : c.find name with
  | none => simp
  | some u => simp [and_assoc, eq_comm (a := c')]

theorem command_iff {c' : UsersConfig} {j : ℕ} {m : Mutation} :
    atomicRegistry.step c (.command j m) = some c' ↔ m.apply c = .ok c' := by
  change (m.apply c).toOption = some c' ↔ _
  cases m.apply c <;> simp [Except.toOption]

theorem nodup_modify {u : User} {f : User → User} (hc : (c.users.map User.name).Nodup)
    (h : c.find name = some u) (hf : (f u).name = u.name) :
    ((c.modify name f).users.map User.name).Nodup := by
  obtain ⟨pre, post, hu, -, hmodify⟩ := UsersConfig.modify_of_find f h
  simpa [hmodify, hu, hf] using hc

/-- A change leaves the names as they are, adds one that nobody has, or takes some away. -/
theorem nodup_step {c' : UsersConfig} {x : Change} (hc : (c.users.map User.name).Nodup)
    (h : atomicRegistry.step c x = some c') : (c'.users.map User.name).Nodup := by
  cases x with
  | adopt i name hash =>
    obtain ⟨u, hu, -, -, rfl⟩ := adopt_iff.1 h
    exact nodup_modify hc hu rfl
  | command j m =>
    rw [command_iff] at h
    cases m with simp only [Mutation.apply, UsersConfig.edit, UsersConfig.retain] at h
    | push user =>
      split at h <;> cases h
      next hnone =>
      have hnew : ∀ v ∈ c.users, v.name ≠ user.name := by simpa [UsersConfig.find] using hnone
      simpa [List.nodup_append, hc] using hnew
    | remove name =>
      split_ifs at h
      cases h
      exact hc.sublist (List.filter_sublist.map _)
    | setSocks5 name hop =>
      split at h <;> cases h
      exact nodup_modify hc ‹_› (by cases hop <;> rfl)
    | _ =>
      split at h <;> cases h
      exact nodup_modify hc ‹_› rfl

theorem hashOf_adopt {u : User} (hu : c.find name = some u) (name' : String) :
    (c.modify name (adoptHash hash)).hashOf name'
      = if name' = name then some hash else c.hashOf name' :=
  UsersConfig.hashOf_modify_hash hash hu name'

/-- **Between two adoptions a command.**  If two changes of a history adopt a password for one
account, then a command between them has changed the hash of the account. -/
theorem command_between {v : UsersConfig} {xs ys zs : List Change} {k : ℕ} {hash' : String}
    (h : atomicRegistry.Run Proper disk
      (xs ++ .adopt i name hash :: (ys ++ .adopt k name hash' :: zs)) v) :
    ∃ (ys₁ : List Change) (j : ℕ) (m : Mutation) (ys₂ : List Change) (c c' : UsersConfig),
      ys = ys₁ ++ .command j m :: ys₂ ∧
      atomicRegistry.Run Proper disk (xs ++ .adopt i name hash :: ys₁) c ∧
      m.apply c = .ok c' ∧ c.hashOf name ≠ c'.hashOf name := by
  obtain ⟨c₀, hxs, hrest⟩ := h.split
  obtain ⟨c₁, hproper, hfirst, hrest⟩ := hrest.of_cons
  obtain ⟨c₂, hys, hrest⟩ := hrest.split
  obtain ⟨c₃, -, hsecond, -⟩ := hrest.of_cons
  obtain ⟨u, hu, -, -, rfl⟩ := adopt_iff.1 hfirst
  obtain ⟨w, hw, -, hinit, -⟩ := adopt_iff.1 hsecond
  -- The account is in `init` mode before the second adoption and not after the first.
  have hstart : ¬ (c₀.modify name (adoptHash hash)).hashOf name = some initSentinel := by
    rw [hashOf_adopt hu, if_pos rfl]
    exact fun heq => hproper (Option.some.inj heq)
  have hend : c₂.hashOf name = some initSentinel := by simp [UsersConfig.hashOf, hw, hinit]
  obtain ⟨ys₁, a, ys₂, c, c', rfl, hc, hok, hstep, hnot, hinit'⟩ :=
    hys.exists_crossing (Q := fun c => c.hashOf name = some initSentinel) hstart hend
  cases a with
  | command j m =>
    exact ⟨ys₁, j, m, ys₂, c, c', rfl, hxs.trans (hc.head hproper hfirst), command_iff.1 hstep,
      fun heq => hnot (heq.trans hinit')⟩
  | adopt k' name' hash'' =>
    -- An adoption puts no account into `init` mode.
    obtain ⟨v, hv, -, -, rfl⟩ := adopt_iff.1 hstep
    rw [hashOf_adopt hv] at hinit'
    split_ifs at hinit' with hn
    · exact absurd (Option.some.inj hinit') hok
    · exact absurd hinit' hnot

/-! ### What a party knows while it holds the lock -/

/-- The phases of a login with the file lock. -/
def Phase.holdsLock : Phase → Bool
  | entering _ => true
  | rereading _ => true
  | saving _ _ => true
  | committing _ _ => true
  | leaving => true
  | releasing _ => true
  | _ => false

/-- The phases of a command with the file lock. -/
def CliPhase.holdsLock : CliPhase → Bool
  | loading _ _ => true
  | saving _ _ _ _ => true
  | failing _ => true
  | published _ _ _ => true
  | _ => false

/-- A login in these phases holds the lock, and what it is about to save is the adoption on the
file as it stands. -/
structure LoginHolds (i : ℕ) (l : Login) (r : Registry) : Prop where
  lock : l.phase.holdsLock = true → r.holder = some (.login i)
  snapshot : ∀ newHash current, l.phase = .saving newHash current →
    atomicRegistry.step r.value (.adopt i l.name newHash) = some current

/-- A command in these phases holds the lock, and what it is about to save is its mutation of the
file as it stands. -/
structure CliHolds (j : ℕ) (c : CliPhase) (r : Registry) : Prop where
  lock : c.holdsLock = true → r.holder = some (.cli j)
  snapshot : ∀ m typed before after, c = .saving m typed before after →
    atomicRegistry.step r.value (.command j m) = some after

/-- The moves of a party at the registry file. -/
abbrev Registry.Move (h : Holder) (r r' : Registry) : Prop :=
  Locked.Move atomicRegistry Proper h r r'

section Holds

variable {i j : ℕ} {l l' : Login} {c c' : CliPhase} {h : Holder} {r r' : Registry}

theorem LoginHolds.of_free (hfree : l.phase.holdsLock = false) : LoginHolds i l r where
  lock hl := by simp [hfree] at hl
  snapshot _ _ hph := by simp [hph, Phase.holdsLock] at hfree

theorem CliHolds.of_free (hfree : c.holdsLock = false) : CliHolds j c r where
  lock hl := by simp [hfree] at hl
  snapshot _ _ _ _ hph := by simp [hph, CliPhase.holdsLock] at hfree

theorem CliHolds.of_lock (hlock : r.holder = some (.cli j))
    (hsave : ∀ m typed before after, c ≠ .saving m typed before after) : CliHolds j c r where
  lock _ := hlock
  snapshot m typed before after hc := absurd hc (hsave m typed before after)

theorem LoginHolds.frame (hl : LoginHolds i l r) (hm : Registry.Move h r r')
    (hne : .login i ≠ h) : LoginHolds i l r' := by
  cases hlock : l.phase.holdsLock with
  | false => exact .of_free hlock
  | true =>
    rw [hm.eq_of_held (hl.lock hlock) hne]
    exact hl

theorem CliHolds.frame (hc : CliHolds j c r) (hm : Registry.Move h r r')
    (hne : .cli j ≠ h) : CliHolds j c r' := by
  cases hlock : c.holdsLock with
  | false => exact .of_free hlock
  | true =>
    rw [hm.eq_of_held (hc.lock hlock) hne]
    exact hc

theorem LoginHolds.goto {ph ph' : Phase} (hl : LoginHolds i l r) (hph : l.phase = ph)
    (hlock : ph.holdsLock = true) (hsave : ∀ newHash current, ph' ≠ .saving newHash current) :
    LoginHolds i (l.goto ph') r where
  lock _ := hl.lock (hph ▸ hlock)
  snapshot newHash current hph' := absurd hph' (hsave newHash current)

theorem decision_holdsLock (password : String) (found : Option User) :
    (decision password found).holdsLock = false := by
  cases found with
  | none => rfl
  | some u =>
    simp only [decision]
    split_ifs <;> rfl

theorem judge_saving {newHash newHash' : String} {current current' : UsersConfig}
    (hj : judge name newHash current = .saving newHash' current') :
    atomicRegistry.step current (.adopt i name newHash') = some current' := by
  simp only [judge] at hj
  split at hj
  · cases hj
  · rename_i u hu
    split_ifs at hj with hen hinit
    cases hj
    exact adopt_iff.2 ⟨u, hu, hen, hinit, rfl⟩

variable {P : Primitives Salt Secret Mac} {pr pr' : Process Secret Mac}

/-- **The moves of a login.**  With a registry file, every step of a login is a move of this login
at the locked file, after which it knows what it has to know. -/
theorem LoginStep.move (hstep : LoginStep P i l pr r l' pr' r') (hpath : pr.usersPath = true)
    (hsound : LoginSound P l) (hl : LoginHolds i l r) :
    Registry.Move (.login i) r r' ∧ LoginHolds i l' r' := by
  cases hstep with
  | decide _ _ => exact ⟨.stay, .of_free (decision_holdsLock _ _)⟩
  | @lookup hash hit hph _ => exact ⟨.stay, .of_free (by cases hit <;> rfl)⟩
  | @verify hash hph =>
    refine ⟨.stay, .of_free ?_⟩
    simp only [Login.goto, verdict]
    split_ifs <;> rfl
  | acquire _ _ hfree => exact ⟨.take hfree, fun _ => rfl, by rintro _ _ ⟨⟩⟩
  | acquireNothing _ hno | rereadMemory _ hno | saveNothing _ hno | releaseNothing _ hno =>
    simp [hpath] at hno
  | reread hph _ =>
    exact ⟨.stay, fun _ => hl.lock (hph ▸ rfl), fun _ _ hj => judge_saving hj⟩
  | @save newHash current hph _ =>
    have hphase := hsound.phase
    rw [hph] at hphase
    have hheld := hl.lock (hph ▸ rfl)
    exact ⟨.write hheld (P.ne_init_of_accepts (Genuine.accepts hphase)) (hl.snapshot _ _ hph),
      fun _ => hheld, by rintro _ _ ⟨⟩⟩
  | enter hph _ | rereadFailed hph | saveFailed hph | commit hph | leave hph =>
    exact ⟨.stay, hl.goto hph rfl (by rintro _ _ ⟨⟩)⟩
  | @release next hph _ =>
    exact ⟨.drop (hl.lock (hph ▸ rfl)), .of_free (by cases next <;> rfl)⟩
  | _ => exact ⟨.stay, .of_free rfl⟩

/-- **The moves of a command.**  Every step of a command is a move of this command at the locked
file, after which it knows what it has to know. -/
theorem CliStep.move (hstep : CliStep j r c c' r') (hc : CliHolds j c r) :
    Registry.Move (.cli j) r r' ∧ CliHolds j c' r' := by
  cases hstep with
  | lock hfree => exact ⟨.take hfree, .of_lock rfl (by simp)⟩
  | load happly =>
    refine ⟨.stay, fun _ => hc.lock rfl, ?_⟩
    rintro _ _ _ _ ⟨⟩
    exact command_iff.2 happly
  | save =>
    have hheld := hc.lock rfl
    exact ⟨.write hheld trivial (hc.snapshot _ _ _ _ rfl), .of_lock hheld (by simp)⟩
  | loadFailed | saveFailed => exact ⟨.stay, .of_lock (hc.lock rfl) (by simp)⟩
  | unlockFailed | unlock => exact ⟨.drop (hc.lock rfl), .of_free rfl⟩
  | _ => exact ⟨.stay, .of_free rfl⟩

end Holds

/-! ### The whole system -/

/-- Every process has a registry file, and every party knows what it has to know. -/
structure Serial (s : State Secret Mac) : Prop where
  paths : ∀ p, (s.procs p).usersPath = true
  logins : ∀ i l, s.logins i = some l → LoginHolds i l s.registry
  clis : ∀ j, CliHolds j (s.clis j) s.registry

variable {P : Primitives Salt Secret Mac}

theorem serial_init {boot : ℕ → Boot Secret} (hpath : ∀ p, (boot p).usersPath = true) :
    Serial (init disk boot : State Secret Mac) where
  paths := hpath
  logins _ _ := nofun
  clis _ := .of_free rfl

theorem LoginStep.usersPath {l' : Login} {pr pr' : Process Secret Mac}
    (h : LoginStep P i l pr r l' pr' r') : pr'.usersPath = pr.usersPath := by
  cases h <;> rfl

/-- A process that dies drops the lock of one of its logins, if one of them holds it. -/
theorem reboot_move (s : State Secret Mac) (p : ℕ) (users : UsersConfig) (secret : Secret) :
    (s.reboot p users secret).registry = s.registry ∨
      ∃ i l, s.logins i = some l ∧ l.process = p ∧
        Registry.Move (.login i) s.registry (s.reboot p users secret).registry := by
  cases hheld : heldBy p s.logins s.registry.holder with
  | false => exact .inl (by simp [State.reboot, hheld])
  | true =>
    have hreg : (s.reboot p users secret).registry = s.registry.drop := by
      simp [State.reboot, hheld]
    unfold heldBy at hheld
    split at hheld
    · rename_i i hholder
      obtain ⟨l, hl, hp⟩ := (Option.any_eq_true _ _).1 hheld
      exact .inr ⟨i, l, hl, by simpa using hp, hreg ▸ .drop hholder⟩
    · cases hheld

theorem killed_move (s : State Secret Mac) (j : ℕ) :
    Registry.Move (.cli j) s.registry (s.killed j).registry := by
  by_cases hheld : s.registry.holder = some (.cli j)
  · simpa [State.killed, hheld] using Locked.Move.drop hheld
  · simpa [State.killed, hheld] using Locked.Move.stay

/-- After a move of one party it is enough to look at the parties that have changed. -/
theorem Serial.of_move {h : Holder} (hs : Serial s)
    (hm : Registry.Move h s.registry t.registry) (hpaths : ∀ p, (t.procs p).usersPath = true)
    (hlogins : ∀ i l, t.logins i = some l →
      LoginHolds i l t.registry ∨ s.logins i = some l ∧ .login i ≠ h)
    (hclis : ∀ j, CliHolds j (t.clis j) t.registry ∨ t.clis j = s.clis j ∧ .cli j ≠ h) :
    Serial t where
  paths := hpaths
  logins i l hl := (hlogins i l hl).elim id fun h => (hs.logins i l h.1).frame hm h.2
  clis j := (hclis j).elim id fun h => h.1 ▸ (hs.clis j).frame hm h.2

theorem Login.abort_holdsLock (l : Login) : l.abort.phase.holdsLock = false := by
  unfold Login.abort
  split
  · rename_i o hph
    rw [hph]
    rfl
  · rfl

/-- **Every step is a move of one party**, and every party knows afterwards what it has to
know. -/
theorem Serial.step (h : Step P s a t) (hsound : Sound P s) (hs : Serial s) :
    Serial t ∧ ∃ h, Registry.Move h s.registry t.registry := by
  cases h with
  | @begin i p name password _ =>
    refine ⟨⟨hs.paths, fun k l hk => ?_, hs.clis⟩, .login i, .stay⟩
    rcases eq_or_ne k i with rfl | hki
    · obtain rfl : _ = l := by simpa using hk
      exact .of_free rfl
    · exact hs.logins k l (by simpa [hki] using hk)
  | @login i e l l' pr' r' hl hstep =>
    obtain ⟨hm, hown⟩ := hstep.move (hs.paths _) (hsound.logins i l hl) (hs.logins i l hl)
    refine ⟨hs.of_move hm (fun p => ?_) (fun k m hk => ?_) (fun j => .inr ⟨rfl, by rintro ⟨⟩⟩),
      .login i, hm⟩
    · rcases eq_or_ne p l.process with rfl | hp
      · simpa [State.afterLogin] using hstep.usersPath.trans (hs.paths l.process)
      · simpa [State.afterLogin, hp] using hs.paths p
    · rcases eq_or_ne k i with rfl | hki
      · obtain rfl : l' = m := by simpa using hk
        exact .inl hown
      · rw [State.afterLogin_of_ne _ hki] at hk
        exact .inr ⟨hk, fun heq => hki (Holder.login.inj heq)⟩
  | @setUsers p users _ =>
    refine ⟨⟨fun q => ?_, hs.logins, hs.clis⟩, .login 0, .stay⟩
    rcases eq_or_ne q p with rfl | hq
    · simpa using hs.paths q
    · simpa [hq] using hs.paths q
  | @restart p users secret =>
    have hpaths : ∀ q, ((s.reboot p users secret).procs q).usersPath = true := by
      intro q
      rcases eq_or_ne q p with rfl | hq
      · simpa [State.reboot, Boot.build] using hs.paths q
      · simpa [State.reboot, hq] using hs.paths q
    -- The logins of the process are aborted; the others are as they were.
    have hlogins : ∀ k m, (s.reboot p users secret).logins k = some m →
        m.phase.holdsLock = false ∨ s.logins k = some m ∧ m.process ≠ p := by
      intro k m hk
      obtain ⟨l, hl, rfl⟩ := Option.map_eq_some_iff.1 hk
      split_ifs with hp
      · exact .inl l.abort_holdsLock
      · exact .inr ⟨hl, hp⟩
    rcases reboot_move s p users secret with hsame | ⟨i, l, hl, hp, hm⟩
    · refine ⟨⟨hpaths, fun k m hk => ?_, fun j => hsame ▸ hs.clis j⟩, .login 0, hsame ▸ .stay⟩
      rcases hlogins k m hk with hfree | ⟨hold, -⟩
      · exact .of_free hfree
      · exact hsame ▸ hs.logins k m hold
    · refine ⟨hs.of_move hm hpaths (fun k m hk => ?_) (fun j => .inr ⟨rfl, by rintro ⟨⟩⟩),
        .login i, hm⟩
      rcases hlogins k m hk with hfree | ⟨hold, hne⟩
      · exact .inl (.of_free hfree)
      · refine .inr ⟨hold, fun heq => hne ?_⟩
        obtain rfl := Holder.login.inj heq
        exact Option.some.inj (hl.symm.trans hold) ▸ hp
  | @invoke j a _ =>
    refine ⟨⟨hs.paths, hs.logins, fun k => ?_⟩, .cli j, .stay⟩
    rcases eq_or_ne k j with rfl | hkj
    · exact .of_free (by simp [CliPhase.holdsLock])
    · simpa [hkj] using hs.clis k
  | @cli j e c' r' hstep =>
    obtain ⟨hm, hown⟩ := hstep.move (hs.clis j)
    refine ⟨hs.of_move hm hs.paths (fun k m hk => .inr ⟨hk, by rintro ⟨⟩⟩) (fun k => ?_),
      .cli j, hm⟩
    rcases eq_or_ne k j with rfl | hkj
    · exact .inl (by simpa using hown)
    · exact .inr ⟨by simp [hkj], fun heq => hkj (Holder.cli.inj heq)⟩
  | @kill j _ =>
    have hm := killed_move s j
    refine ⟨hs.of_move hm hs.paths (fun k m hk => .inr ⟨hk, by rintro ⟨⟩⟩) (fun k => ?_),
      .cli j, hm⟩
    rcases eq_or_ne k j with rfl | hkj
    · exact .inl (.of_free (by simp [State.killed, CliPhase.holdsLock]))
    · exact .inr ⟨by simp [State.killed, hkj], fun heq => hkj (Holder.cli.inj heq)⟩

/-! ### What a run has saved -/

/-- The file is what the saved changes make of it, and every change that a command has saved is
among them. -/
structure Ledger (P : Primitives Salt Secret Mac) (disk : UsersConfig) (s : State Secret Mac) :
    Prop where
  sound : Sound P s
  serial : Serial s
  run : atomicRegistry.Run Proper disk s.registry.history s.registry.value
  saved : ∀ j m, (s.clis j).saved = some m → .command j m ∈ s.registry.history

theorem CliStep.saved {j : ℕ} {c c' : CliPhase} {m : Mutation}
    (h : CliStep j r c c' r') (hm : c'.saved = some m) :
    c.saved = some m ∨ .command j m ∈ r'.history := by
  cases h with
  | save =>
    obtain rfl : _ = m := Option.some.inj hm
    exact .inr (by simp)
  | unlock => exact .inl hm
  | finish => exact .inl hm
  | _ => cases hm

theorem Ledger.step (h : Step P s a t) (hs : Ledger P disk s) : Ledger P disk t := by
  obtain ⟨hserial, party, hmove⟩ := hs.serial.step h hs.sound
  refine ⟨hs.sound.step h, hserial, hmove.run hs.run, fun j m hm => ?_⟩
  -- What was saved before is still there: the history only grows.
  have hkept : (s.clis j).saved = some m → Change.command j m ∈ t.registry.history :=
    fun hold => hmove.history_prefix.subset (hs.saved j m hold)
  cases h with
  | @invoke k a _ =>
    rcases eq_or_ne j k with rfl | hjk
    · simp [CliPhase.saved] at hm
    · exact hkept (by simpa [hjk] using hm)
  | @cli k e c' r' hstep =>
    rcases eq_or_ne j k with rfl | hjk
    · exact (hstep.saved (by simpa using hm)).elim hkept id
    · exact hkept (by simpa [hjk] using hm)
  | @kill k _ =>
    rcases eq_or_ne j k with rfl | hjk
    · exact hkept (by simpa [State.killed, CliPhase.saved] using hm)
    · exact hkept (by simpa [State.killed, hjk] using hm)
  | _ => exact hkept hm

section Run

variable [DecidableEq Mac] {parse : String → Option Socks5Endpoint} {disk : UsersConfig}
  {boot : ℕ → Boot Secret} {as : List (Action Salt Secret)} {s t : State Secret Mac}

omit [DecidableEq Mac] in
theorem ledger_init (hpath : ∀ p, (boot p).usersPath = true) :
    Ledger P disk (init disk boot : State Secret Mac) where
  sound := sound_init disk boot
  serial := serial_init hpath
  run := .refl disk
  saved _ _ := nofun

theorem ledger_of_run (hpath : ∀ p, (boot p).usersPath = true)
    (h : (machine P parse).Run Machine.anyStep (init disk boot) as t) : Ledger P disk t :=
  h.invariant (fun _ _ _ hs _ hstep => hs.step (step_cases hstep)) (ledger_init hpath)

theorem history_prefix_of_run (hs : Ledger P disk s)
    (h : (machine P parse).Run Machine.anyStep s as t) :
    s.registry.history <+: t.registry.history := by
  induction h with
  | refl => exact List.prefix_refl _
  | @tail m u as a hrun _ hstep ih =>
    have hm : Ledger P disk m :=
      hrun.invariant (fun _ _ _ hs _ hstep => hs.step (step_cases hstep)) hs
    obtain ⟨-, party, hmove⟩ := hm.serial.step (step_cases hstep) hm.sound
    exact ih.trans hmove.history_prefix

/-- **What a login does to the file.**  Nothing, or it replaces the sentinel of its account by a
hash of its password, and every other record and field stays. -/
theorem Ledger.login_step {e : LoginEvent Salt} (hs : Ledger P disk s)
    (h : (machine P parse).step s (.login i e) = some t) :
    t.registry.value = s.registry.value ∨
      ∃ (l : Login) (hash : String) (pre : List User) (user : User) (post : List User),
        s.logins i = some l ∧ Genuine P l.password hash ∧
        s.registry.value.users = pre ++ user :: post ∧ (∀ v ∈ pre, v.name ≠ l.name) ∧
        user.name = l.name ∧ user.isEnabled = true ∧ user.hash = initSentinel ∧
        t.registry.value.users = pre ++ { user with hash := hash } :: post ∧
        t.registry.history = s.registry.history ++ [.adopt i l.name hash] := by
  cases step_cases h with
  | @login _ _ l l' pr' r' hl hstep =>
    have hsound := hs.sound.logins i l hl
    have hholds := hs.serial.logins i l hl
    cases hstep with
    | @save hash current hph _ =>
      have hgenuine := hsound.phase
      rw [hph] at hgenuine
      obtain ⟨u, hu, hen, hinit, rfl⟩ := adopt_iff.1 (hholds.snapshot _ _ hph)
      obtain ⟨pre, post, hbefore, hpre, hafter⟩ :=
        UsersConfig.modify_of_find (adoptHash hash) hu
      exact .inr ⟨l, hash, pre, u, post, hl, hgenuine, hbefore, hpre,
        UsersConfig.name_of_find hu, hen, hinit, hafter, rfl⟩
    | _ => exact .inl rfl

/-! ### The hash that decides a login stood on disk -/

/-- The hash that a login in `resolve_init` has come to. -/
def Next.decidedBy : Next → Option String
  | refuse => none
  | compare hash => some hash
  | record hash => some hash

/-- The hash that decides a login. -/
def Phase.decidedBy : Phase → Option String
  | comparing hash => some hash
  | verifying hash => some hash
  | inserting hash => some hash
  | committing _ next => next.decidedBy
  | releasing next => next.decidedBy
  | recording hash => some hash
  | done (.compared hash _) => some hash
  | done (.adopted hash) => some hash
  | _ => none

/-- A login that has not ended. -/
def Login.InProgress (l : Login) : Prop := ∀ outcome, l.phase ≠ .done outcome

omit [DecidableEq Mac] in
/-- **Where the hash comes from.**  A login that has read the sentinel is decided by the hash that
decided it before, by one that stands on disk at this step, or by the one that it saves. -/
theorem LoginStep.decidedBy {l' : Login} {pr pr' : Process Secret Mac} {user : User}
    (h : LoginStep P i l pr r l' pr' r')
    (hpath : pr.usersPath = true) (hl : LoginHolds i l r) (hfound : l'.found = some user)
    (hinit : user.hash = initSentinel) (hhash : l'.phase.decidedBy = some hash) :
    (l.found = some user ∧ l.phase.decidedBy = some hash) ∨
      (l.InProgress ∧ r.value.hashOf l.name = some hash) ∨
      (l'.InProgress ∧ r'.value.hashOf l.name = some hash) := by
  cases h with
  | decide _ _ =>
    -- The sentinel sends the login to `resolve_init`, where nothing is decided yet.
    have hread : pr.users.find l.name = some user := hfound
    simp only [hread, decision, hinit, if_true] at hhash
    split_ifs at hhash <;> cases hhash
  | @lookup hash' hit hph _ =>
    refine .inl ⟨hfound, ?_⟩
    rw [hph, ← hhash]
    cases hit <;> rfl
  | @verify hash' hph =>
    refine .inl ⟨hfound, ?_⟩
    rw [hph, ← hhash]
    simp only [Login.goto, verdict]
    split_ifs <;> rfl
  | @reread newHash hph _ =>
    -- The account has a hash on disk by now, or nothing is decided.
    refine .inr (.inl ⟨fun o ho => by simp [hph] at ho, ?_⟩)
    simp only [Login.goto, judge] at hhash
    split at hhash
    · cases hhash
    · rename_i u hu
      split_ifs at hhash
      · cases hhash
      · simpa [UsersConfig.hashOf, hu, Phase.decidedBy, Next.decidedBy] using hhash
      · cases hhash
  | @save newHash current hph _ =>
    obtain ⟨u, hu, -, -, rfl⟩ := adopt_iff.1 (hl.snapshot _ _ hph)
    obtain rfl : newHash = hash := Option.some.inj hhash
    exact .inr (.inr ⟨by rintro _ ⟨⟩, by simp [hashOf_adopt hu]⟩)
  | rereadMemory _ hno | saveNothing _ hno | releaseNothing _ hno => simp [hpath] at hno
  | @release next hph _ =>
    refine .inl ⟨hfound, ?_⟩
    rw [hph, ← hhash]
    cases next <;> rfl
  | insert hph | commit hph | record hph => exact .inl ⟨hfound, by rw [hph]; exact hhash⟩
  | _ => cases hhash

/-- At some moment of the run, while login `i` was in progress, the hash stood on disk for the
account. -/
def Stood (P : Primitives Salt Secret Mac) (parse : String → Option Socks5Endpoint)
    (s : State Secret Mac) (as : List (Action Salt Secret)) (t : State Secret Mac) (i : ℕ)
    (name hash : String) : Prop :=
  ∃ bs cs m l, as = bs ++ cs ∧ (machine P parse).Run Machine.anyStep s bs m ∧
    (machine P parse).Run Machine.anyStep m cs t ∧ m.logins i = some l ∧ l.InProgress ∧
    m.registry.value.hashOf name = some hash

theorem Stood.tail {u : State Secret Mac}
    (h : Stood P parse s as t i name hash) (hstep : (machine P parse).step t a = some u) :
    Stood P parse s (as ++ [a]) u i name hash := by
  obtain ⟨bs, cs, m, l, rfl, hbs, hcs, hl⟩ := h
  exact ⟨bs, cs ++ [a], m, l, by simp, hbs, hcs.tail trivial hstep, hl⟩

omit [DecidableEq Mac] in
theorem Login.abort_decidedBy (h : l.abort.phase.decidedBy = some hash) :
    l.abort.found = l.found ∧ l.phase.decidedBy = some hash := by
  unfold Login.abort at h ⊢
  split at h
  · exact ⟨rfl, h⟩
  · cases h

/-- **The deciding hash stood on disk.**  In every run, the hash that decides a login which has
read the sentinel stood on disk for the account while the login was in progress. -/
theorem stood_of_run (hs : Ledger P disk s) (hnone : ∀ i, s.logins i = none)
    (h : (machine P parse).Run Machine.anyStep s as t) :
    ∀ i l user hash, t.logins i = some l → l.found = some user → user.hash = initSentinel →
      l.phase.decidedBy = some hash → Stood P parse s as t i l.name hash := by
  induction h with
  | refl => simp [hnone]
  | @tail m u as a hrun _ hstep ih =>
    intro i l user hash hl hfound hinit hhash
    have hm : Ledger P disk m :=
      hrun.invariant (fun _ _ _ hs _ hstep => hs.step (step_cases hstep)) hs
    -- A login that this step leaves alone.
    have hsame : m.logins i = some l → Stood P parse s (as ++ [a]) u i l.name hash :=
      fun hold => (ih i l user hash hold hfound hinit hhash).tail hstep
    cases step_cases hstep with
    | @begin k p name password _ =>
      rcases eq_or_ne i k with rfl | hik
      · obtain rfl : _ = l := by simpa using hl
        cases hfound
      · exact hsame (by simpa [hik] using hl)
    | @login k e l₀ l' pr' r' hl₀ hlstep =>
      rcases eq_or_ne i k with rfl | hik
      · obtain rfl : l' = l := by simpa using hl
        have hname : l'.name = l₀.name := by cases hlstep <;> rfl
        rw [hname]
        rcases hlstep.decidedBy (hm.serial.paths _) (hm.serial.logins i l₀ hl₀) hfound hinit
          hhash with ⟨hf, hh⟩ | ⟨hprog, hdisk⟩ | ⟨hprog, hdisk⟩
        · exact (ih i l₀ user hash hl₀ hf hinit hh).tail hstep
        · exact ⟨as, [_], m, l₀, rfl, hrun, .single trivial hstep, hl₀, hprog, hdisk⟩
        · exact ⟨as ++ [_], [], _, l', by simp, hrun.tail trivial hstep, .refl _, hl, hprog,
            hdisk⟩
      · rw [State.afterLogin_of_ne _ hik] at hl
        exact hsame hl
    | @restart p users secret =>
      obtain ⟨l₀, hl₀, rfl⟩ := Option.map_eq_some_iff.1 hl
      split_ifs at hfound hhash ⊢ with hp
      · obtain ⟨hf, hh⟩ := Login.abort_decidedBy hhash
        have hname : l₀.abort.name = l₀.name := by
          unfold Login.abort
          split <;> rfl
        rw [hname]
        exact (ih i l₀ user hash hl₀ (hf ▸ hfound) hinit hh).tail hstep
      · exact (ih i l₀ user hash hl₀ hfound hinit hhash).tail hstep
    | _ => exact hsame hl

/-! ### The result -/

/-- **Trust on first use adopts once and loses nothing.**  Take any run of logins in processes
with a registry file, and of commands on that file.

* The file is what the saved changes make of it, one after the other, and what is saved stays
  saved; the change of every command that has saved is among them.
* A step of a login leaves the file alone, or it replaces the sentinel of its own account, which
  is enabled, by a hash of its password, which is not empty.
* Between two adoptions of one account a command has changed its hash.
* A login that was accepted after it had read the sentinel gave a password that a hash accepts
  which stood on disk for the account while the login was in progress. -/
theorem adopts_once_and_loses_nothing (hpath : ∀ p, (boot p).usersPath = true)
    (hrun : (machine P parse).Run Machine.anyStep (init disk boot) as t) :
    (atomicRegistry.Run Proper disk t.registry.history t.registry.value ∧
      (∀ (bs cs : List (Action Salt Secret)) (m : State Secret Mac), as = bs ++ cs →
        (machine P parse).Run Machine.anyStep (init disk boot) bs m →
          m.registry.history <+: t.registry.history) ∧
      ∀ j m, (t.clis j).saved = some m → .command j m ∈ t.registry.history) ∧
    (∀ (bs cs : List (Action Salt Secret)) (i : ℕ) (e : LoginEvent Salt)
        (m u : State Secret Mac), as = bs ++ .login i e :: cs →
      (machine P parse).Run Machine.anyStep (init disk boot) bs m →
      (machine P parse).step m (.login i e) = some u →
        u.registry.value = m.registry.value ∨
        ∃ (l : Login) (hash : String) (pre : List User) (user : User) (post : List User),
          m.logins i = some l ∧ Genuine P l.password hash ∧
          m.registry.value.users = pre ++ user :: post ∧ (∀ v ∈ pre, v.name ≠ l.name) ∧
          user.name = l.name ∧ user.isEnabled = true ∧ user.hash = initSentinel ∧
          u.registry.value.users = pre ++ { user with hash := hash } :: post ∧
          u.registry.history = m.registry.history ++ [.adopt i l.name hash]) ∧
    (∀ (xs ys zs : List Change) (i k : ℕ) (name hash hash' : String),
      t.registry.history = xs ++ .adopt i name hash :: (ys ++ .adopt k name hash' :: zs) →
        ∃ (ys₁ : List Change) (j : ℕ) (m : Mutation) (ys₂ : List Change) (c c' : UsersConfig),
          ys = ys₁ ++ .command j m :: ys₂ ∧
          atomicRegistry.Run Proper disk (xs ++ .adopt i name hash :: ys₁) c ∧
          m.apply c = .ok c' ∧ c.hashOf name ≠ c'.hashOf name) ∧
    ∀ i l user outcome, t.logins i = some l → l.found = some user →
      user.hash = initSentinel → l.phase = .done outcome → outcome.accepted = true →
        ∃ hash, P.accepts hash l.password = true ∧
          Stood P parse (init disk boot) as t i l.name hash := by
  have hledger := ledger_of_run hpath hrun
  refine ⟨⟨hledger.run, ?_, hledger.saved⟩, ?_, ?_, ?_⟩
  · rintro bs cs m rfl hm
    obtain ⟨m', hm', hrest⟩ := hrun.split
    obtain rfl := hm.deterministic hm'
    exact history_prefix_of_run (ledger_of_run hpath hm) hrest
  · intro bs cs i e m u _ hm hstep
    exact (ledger_of_run hpath hm).login_step hstep
  · intro xs ys zs i k name hash hash' hhist
    have hrun' := hledger.run
    rw [hhist] at hrun'
    exact command_between hrun'
  · intro i l user outcome hl hfound hinit hph hacc
    have hstood := stood_of_run (ledger_init hpath) (fun _ => rfl) hrun i l user
    have hsound := (hledger.sound.logins i l hl).phase
    rw [hph] at hsound hstood
    cases outcome with
    | rejected => cases hacc
    | aborted => cases hacc
    | compared hash verdict =>
      exact ⟨hash, hsound.symm.trans hacc, hstood hash hl hfound hinit rfl⟩
    | adopted hash => exact ⟨hash, hsound.accepts, hstood hash hl hfound hinit rfl⟩

/-- **Every record of the file can be found.**  If the names in the file are distinct at first, then
whatever logins and commands do at the same time, no two records ever share a name, and a lookup of
the name of a record finds that record. -/
theorem every_record_is_found (hpath : ∀ p, (boot p).usersPath = true)
    (hdisk : (disk.users.map User.name).Nodup)
    (hrun : (machine P parse).Run Machine.anyStep (init disk boot) as t) :
    (t.registry.value.users.map User.name).Nodup ∧
      ∀ u ∈ t.registry.value.users, t.registry.value.find u.name = some u := by
  have hnodup := (ledger_of_run hpath hrun).run.invariant
    (I := fun c => (c.users.map User.name).Nodup) (fun _ _ _ hc _ => nodup_step hc) hdisk
  refine ⟨hnodup, fun u hu => ?_⟩
  obtain ⟨pre, post, hsplit⟩ := List.append_of_mem hu
  refine UsersConfig.find_eq_some_iff.2 ⟨rfl, pre, post, hsplit, fun v hv => ?_⟩
  rw [hsplit] at hnodup
  grind

end Run

/-! ### A run -/

/-- Two processes race for an account in `init` mode: the first adopts its password, the second
finds the new hash on disk; afterwards a command disables the account. -/
def race : List (Action Unit Unit) :=
  [.begin 0 0 "alice" "one", .begin 1 1 "alice" "two", .login 0 .decide, .login 1 .decide,
    .login 0 (.hash (.ok ())), .login 1 (.hash (.ok ())), .login 0 (.acquire true),
    .login 0 .enter, .login 0 (.reread true), .login 0 (.save true), .login 0 .commit,
    .login 0 .release, .login 1 (.acquire true), .login 1 .enter, .login 1 (.reread true),
    .login 1 .commit, .login 1 .release, .login 1 .lookup, .login 0 .record, .login 1 .verify,
    .invoke 0 (.disable "alice"), .cli 0 (.prepare none (.ok "") (.ok "") (.ok ())),
    .cli 0 (.lock none), .cli 0 (.load none), .cli 0 (.save none), .cli 0 .unlock]

/-- The first login is accepted and the second one refused. -/
theorem adopts_once_and_loses_nothing_race :
    ∃ t, (machine plain noEndpoint).exec
        (init ⟨[alice initSentinel]⟩ (bootAlice initSentinel)) race = some t ∧
      (t.logins 0).map Login.phase = some (.done (.adopted "$one")) ∧
      (t.logins 1).map Login.phase = some (.done (.compared "$one" false)) ∧
      t.registry.value = ⟨[{ alice "$one" with isEnabled := false }]⟩ ∧
      atomicRegistry.Run Proper ⟨[alice initSentinel]⟩ t.registry.history t.registry.value := by
  have hend : ((machine plain noEndpoint).exec
      (init ⟨[alice initSentinel]⟩ (bootAlice initSentinel)) race).map
        (fun t => ((t.logins 0).map Login.phase, (t.logins 1).map Login.phase,
          t.registry.value)) =
      some (some (.done (.adopted "$one")), some (.done (.compared "$one" false)),
        ⟨[{ alice "$one" with isEnabled := false }]⟩) := by decide +kernel
  obtain ⟨t, ht, hobserved⟩ := Option.map_eq_some_iff.1 hend
  simp only [Prod.mk.injEq] at hobserved
  obtain ⟨hfirst, hsecond, hfile⟩ := hobserved
  have hpath : ∀ p, (bootAlice initSentinel p).usersPath = true := fun _ => rfl
  have hresult := adopts_once_and_loses_nothing hpath (Machine.Run.of_exec ht)
  exact ⟨t, ht, hfirst, hsecond, hfile, hresult.1.1⟩

theorem every_record_is_found_race : ∃ t, (machine plain noEndpoint).exec
      (init ⟨[alice initSentinel]⟩ (bootAlice initSentinel)) race = some t ∧
    ∀ u ∈ t.registry.value.users, t.registry.value.find u.name = some u := by
  obtain ⟨t, ht⟩ := Option.isSome_iff_exists.1 (show ((machine plain noEndpoint).exec
    (init ⟨[alice initSentinel]⟩ (bootAlice initSentinel)) race).isSome by decide +kernel)
  exact ⟨t, ht, (every_record_is_found (fun _ => rfl) (by decide) (.of_exec ht)).2⟩

end Auth
