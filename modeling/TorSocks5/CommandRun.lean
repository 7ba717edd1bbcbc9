/-
**A command on the users registry, from its call to its result.**

A command prepares its mutation, takes the lock, loads the registry, applies the mutation and
saves.  Whatever fails on the way, the registry stays as it was, and a command that reports success
has changed the one record it names, and of this record the one field it is about.
-/

import TorSocks5.AuthCache

set_option autoImplicit false

namespace Users

open Auth (initSentinel Primitives)

variable {Salt Secret Mac : Type}

/-! ### The run of a command -/

/-- What a command meets: its surroundings before the lock, and what the lock, the load and the
save return. -/
structure Conditions (Salt : Type) where
  surroundings : Surroundings Salt
  lock : Option String
  load : Option String
  save : Option String

/-- The result of a system call on a value. -/
def attempt {α : Type} (fault : Option String) (value : α) : Except String α :=
  match fault with
  | none => .ok value
  | some e => .error e

/-- A command: its result, and the registry in the file afterwards. -/
def UsersAction.run (P : Primitives Salt Secret Mac) (parse : String → Option Socks5Endpoint)
    (env : Conditions Salt) (disk : UsersConfig) (a : UsersAction) :
    Except String Unit × UsersConfig :=
  match a.prepare P parse env.surroundings with
  | .error e => (.error e, disk)
  | .ok (m, typed) =>
    match attempt env.lock () with
    | .error e => (.error e, disk)
    | .ok _ =>
      match attempt env.load disk with
      | .error e => (.error e, disk)
      | .ok before =>
        match m.apply before with
        | .error e => (.error e, disk)
        | .ok after =>
          match attempt env.save () with
          | .error e => (.error e, disk)
          | .ok _ => (m.epilogue P before typed, after)

/-! ### What a command is to do -/

/-- The first record of a name is replaced, and nothing else. -/
def Replaces (before after : UsersConfig) (name : String) (f : User → User) : Prop :=
  ∃ pre user post, before.users = pre ++ user :: post ∧ user.name = name ∧
    after.users = pre ++ f user :: post

/-- What a command that reports success has done. -/
def Fulfilled (P : Primitives Salt Secret Mac) (parse : String → Option Socks5Endpoint)
    (e : Surroundings Salt) (before after : UsersConfig) : UsersAction → Prop
  | .add name init onion preSocks5 postSocks5 =>
    before.find name = none ∧ ∃ hash pre post,
      after.users = before.users ++ [⟨name, hash, true, onion, none, pre, post⟩] ∧
      parseUserEndpoint parse preSocks5 = .ok pre ∧
      parseUserEndpoint parse postSocks5 = .ok post ∧
      if init then hash = initSentinel
      else ∃ pw, pw ≠ "" ∧ e.answer = .ok pw ∧ e.confirm = .ok pw ∧
        P.computeHash e.salt pw = .ok hash
  | .remove name =>
    ∃ pre user post, before.users = pre ++ user :: post ∧ user.name = name ∧
      after.users = pre ++ post
  | .allowOnion name => Replaces before after name fun u => { u with allowedOnion := true }
  | .disallowOnion name => Replaces before after name fun u => { u with allowedOnion := false }
  | .setPassword name =>
    ∃ pw hash, pw ≠ "" ∧ e.answer = .ok pw ∧ e.confirm = .ok pw ∧
      P.computeHash e.salt pw = .ok hash ∧
      Replaces before after name fun u => { u with hash := hash }
  | .setSocks5 name hop value =>
    ∃ setting, parseUserEndpoint parse (some value) = .ok setting ∧
      ((hop = "pre" ∧ Replaces before after name fun u => { u with preSocks5 := setting }) ∨
        (hop = "post" ∧ Replaces before after name fun u => { u with postSocks5 := setting }))
  | .enable name => Replaces before after name fun u => { u with isEnabled := true }
  | .disable name => Replaces before after name fun u => { u with isEnabled := false }

/-! ### Chains of computations that may fail -/

theorem bind_eq_ok {ε α β : Type} {x : Except ε α} {f : α → Except ε β} {b : β} :
    (x >>= f) = .ok b ↔ ∃ a, x = .ok a ∧ f a = .ok b := by
  cases x <;> simp [bind, Except.bind]

theorem readAndConfirm_eq_ok {answer confirm : Except String String} {pw : String} :
    readAndConfirm answer confirm = .ok pw ↔ pw ≠ "" ∧ answer = .ok pw ∧ confirm = .ok pw := by
  simp only [readAndConfirm, throw, throwThe, MonadExceptOf.throw, bind, Except.bind, pure,
    Except.pure]
  cases answer <;> cases confirm <;> grind

theorem password_eq_ok {P : Primitives Salt Secret Mac} {e : Surroundings Salt}
    {pw hash : String} :
    e.password P = .ok (pw, hash) ↔
      (pw ≠ "" ∧ e.answer = .ok pw ∧ e.confirm = .ok pw) ∧ P.computeHash e.salt pw = .ok hash := by
  simp [Surroundings.password, bind_eq_ok, readAndConfirm_eq_ok, pure, Except.pure]

/-! ### What the mutations do -/

section Mutations

variable {before after : UsersConfig} {name missing : String} {f : User → User}

theorem replaces_of_edit (h : before.edit name missing f = .ok after) :
    Replaces before after name f := by
  unfold UsersConfig.edit at h
  split at h <;> cases h
  rename_i u hu
  obtain ⟨pre, post, hbefore, -, hafter⟩ := UsersConfig.modify_of_find f hu
  exact ⟨pre, u, post, hbefore, UsersConfig.name_of_find hu, hafter⟩

/-- With distinct names a removal removes one record. -/
theorem filter_eq_of_nodup {pre post : List User} {u : User}
    (hnodup : ((pre ++ u :: post).map User.name).Nodup) :
    (pre ++ u :: post).filter (fun v => v.name != u.name) = pre ++ post := by
  have hother : ∀ v ∈ pre ++ post, (v.name != u.name) = true := by
    intro v hv
    rw [List.map_append, List.map_cons, List.nodup_middle, List.nodup_cons,
      ← List.map_append] at hnodup
    have hne : v.name ≠ u.name := fun heq => hnodup.1 (heq ▸ List.mem_map_of_mem hv)
    simpa using hne
  rw [List.filter_append, List.filter_cons_of_neg (by simp), ← List.filter_append,
    List.filter_eq_self.2 hother]

theorem removes_of_retain (hnodup : (before.users.map User.name).Nodup)
    (h : before.retain name = .ok after) :
    ∃ pre user post, before.users = pre ++ user :: post ∧ user.name = name ∧
      after.users = pre ++ post := by
  simp only [UsersConfig.retain] at h
  split_ifs at h with hlen
  cases h
  obtain ⟨u, hu, hname⟩ := List.length_filter_lt_length_iff_exists.1
    (lt_of_le_of_ne (List.length_filter_le _ _) hlen)
  obtain rfl : u.name = name := by simpa using hname
  obtain ⟨pre, post, hsplit⟩ := List.append_of_mem hu
  refine ⟨pre, u, post, hsplit, rfl, ?_⟩
  rw [hsplit] at hnodup ⊢
  exact filter_eq_of_nodup hnodup

theorem push_eq_ok {user : User} :
    (Mutation.push user).apply before = .ok after ↔
      before.find user.name = none ∧ after = ⟨before.users ++ [user]⟩ := by
  simp only [Mutation.apply]
  cases before.find user.name with
  | none => simp [eq_comm]
  | some u => simp

variable {P : Primitives Salt Secret Mac} {parse : String → Option Socks5Endpoint}
  {e : Surroundings Salt} {a : UsersAction} {m : Mutation} {typed : String}

/-- The preparation of a `set-password`. -/
theorem prepare_setPassword :
    (UsersAction.setPassword name).prepare P parse e = .ok (m, typed) ↔
      ∃ glance u hash, e.glance = .ok glance ∧ glance.find name = some u ∧
        e.password P = .ok (typed, hash) ∧ m = .setPassword name hash := by
  simp only [UsersAction.prepare, bind_eq_ok]
  refine exists_congr fun glance => ?_
  cases hu : glance.find name with
  | none => simp [bind, Except.bind, throw, throwThe, MonadExceptOf.throw]
  | some u =>
    simp only [Option.isNone_some, Bool.false_eq_true, if_false, pure, Except.pure, bind,
      Except.bind]
    cases e.password P with
    | error e => simp
    | ok p => simp; grind

/-- The preparation of an `add`: its hash is the sentinel, or that of the password typed twice. -/
theorem prepare_add {init onion : Bool} {preSocks5 postSocks5 : Option String}
    (h : (UsersAction.add name init onion preSocks5 postSocks5).prepare P parse e =
      .ok (m, typed)) :
    ∃ pre post hash, parseUserEndpoint parse preSocks5 = .ok pre ∧
      parseUserEndpoint parse postSocks5 = .ok post ∧
      m = .push ⟨name, hash, true, onion, none, pre, post⟩ ∧
      if init then hash = initSentinel else e.password P = .ok (typed, hash) := by
  simp only [UsersAction.prepare, bind_eq_ok] at h
  obtain ⟨pre, hpre, post, hpost, h⟩ := h
  cases init with
  | true =>
    cases h
    exact ⟨pre, post, initSentinel, hpre, hpost, rfl, rfl⟩
  | false =>
    simp only [Bool.false_eq_true, if_false, bind_eq_ok] at h
    obtain ⟨glance, -, h⟩ := h
    split_ifs at h
    · simp [bind, Except.bind, throw, throwThe, MonadExceptOf.throw] at h
    · obtain ⟨⟨pw, hash⟩, hpw, h⟩ := bind_eq_ok.1 h
      cases h
      exact ⟨pre, post, hash, hpre, hpost, rfl, hpw⟩

/-- **A mutation does what its command asks for.** -/
theorem UsersAction.fulfilled_of_apply (hnodup : (before.users.map User.name).Nodup)
    (hprepare : a.prepare P parse e = .ok (m, typed)) (happly : m.apply before = .ok after) :
    Fulfilled P parse e before after a := by
  cases a with
  | add name init onion preSocks5 postSocks5 =>
    obtain ⟨pre, post, hash, hpre, hpost, rfl, hhash⟩ := prepare_add hprepare
    obtain ⟨hnone, rfl⟩ := push_eq_ok.1 happly
    refine ⟨hnone, hash, pre, post, rfl, hpre, hpost, ?_⟩
    cases init with
    | true => exact hhash
    | false =>
      obtain ⟨⟨hne, hanswer, hconfirm⟩, hhash⟩ := password_eq_ok.1 hhash
      exact ⟨typed, hne, hanswer, hconfirm, hhash⟩
  | remove name =>
    cases hprepare
    exact removes_of_retain hnodup happly
  | setPassword name =>
    obtain ⟨glance, u, hash, -, -, hpw, rfl⟩ := prepare_setPassword.1 hprepare
    obtain ⟨⟨hne, hanswer, hconfirm⟩, hhash⟩ := password_eq_ok.1 hpw
    exact ⟨typed, hash, hne, hanswer, hconfirm, hhash, replaces_of_edit happly⟩
  | setSocks5 name hop value =>
    simp only [UsersAction.prepare, bind_eq_ok] at hprepare
    obtain ⟨hop', hhop, setting, hsetting, hprepare⟩ := hprepare
    cases hprepare
    refine ⟨setting, hsetting, ?_⟩
    unfold parseHop at hhop
    split_ifs at hhop with hpre hpost <;> cases hhop
    · exact .inl ⟨hpre, replaces_of_edit happly⟩
    · exact .inr ⟨hpost, replaces_of_edit happly⟩
  | _ =>
    cases hprepare
    exact replaces_of_edit happly

/-- Only `set-password` sets a password. -/
theorem eq_setPassword_of_prepare {hash : String}
    (h : a.prepare P parse e = .ok (.setPassword name hash, typed)) : a = .setPassword name := by
  cases a with
  | setPassword name' =>
    obtain ⟨_, _, _, _, _, _, heq⟩ := prepare_setPassword.1 h
    cases heq
    rfl
  | add =>
    obtain ⟨_, _, _, _, _, heq, _⟩ := prepare_add h
    cases heq
  | setSocks5 =>
    simp only [UsersAction.prepare, bind_eq_ok] at h
    obtain ⟨hop', -, setting, -, h⟩ := h
    cases h
  | _ => cases h

/-- The end of a command fails only for a `set-password` whose old hash does not refuse the new
password. -/
theorem epilogue_error {e : String} (h : m.epilogue P before typed = .error e) :
    ∃ name hash old, m = .setPassword name hash ∧ before.hashOf name = some old ∧
      old ≠ initSentinel ∧ P.verifyHash old typed ≠ .ok false := by
  cases m with
  | setPassword name hash =>
    simp only [Mutation.epilogue] at h
    split at h
    · cases h
    · rename_i old hold
      refine ⟨name, hash, old, rfl, hold, ?_, fun hverify => ?_⟩
      · rintro rfl
        simp [pure, Except.pure] at h
      · simp [hverify, bind, Except.bind, pure, Except.pure] at h
  | _ => cases h

theorem epilogue_of_not_refused {old : String} (hash : String)
    (hold : before.hashOf name = some old)
    (hne : old ≠ initSentinel) (hverify : P.verifyHash old typed ≠ .ok false) :
    ∃ e, (Mutation.setPassword name hash).epilogue P before typed = .error e := by
  simp only [Mutation.epilogue, hold, hne, if_false]
  rcases hv : P.verifyHash old typed with e | _ | _
  · exact ⟨e, rfl⟩
  · exact absurd hv hverify
  · exact ⟨_, rfl⟩

end Mutations

/-! ### All or nothing -/

section Run

variable {P : Primitives Salt Secret Mac} {parse : String → Option Socks5Endpoint}
  {env : Conditions Salt} {disk : UsersConfig} {a : UsersAction}

/-- A command has failed before its save, or it has saved its mutation and come to its end. -/
theorem UsersAction.run_cases :
    (∃ e, a.run P parse env disk = (.error e, disk)) ∨
      ∃ m typed after, a.prepare P parse env.surroundings = .ok (m, typed) ∧ env.lock = none ∧
        env.load = none ∧ env.save = none ∧ m.apply disk = .ok after ∧
        a.run P parse env disk = (m.epilogue P disk typed, after) := by
  rcases hprepare : a.prepare P parse env.surroundings with e | ⟨m, typed⟩
  · exact .inl ⟨e, by simp [UsersAction.run, hprepare]⟩
  rcases hlock : env.lock with _ | e
  · rcases hload : env.load with _ | e
    · rcases happly : m.apply disk with e | after
      · exact .inl ⟨e, by simp [UsersAction.run, hprepare, hlock, hload, happly, attempt]⟩
      · rcases hsave : env.save with _ | e
        · refine .inr ⟨m, typed, after, rfl, rfl, rfl, rfl, happly, ?_⟩
          simp [UsersAction.run, hprepare, hlock, hload, happly, hsave, attempt]
        · refine .inl ⟨e, ?_⟩
          simp [UsersAction.run, hprepare, hlock, hload, happly, hsave, attempt]
    · exact .inl ⟨e, by simp [UsersAction.run, hprepare, hlock, hload, attempt]⟩
  · exact .inl ⟨e, by simp [UsersAction.run, hprepare, hlock, attempt]⟩

end Run

/-- An error leaves the registry alone, and a success has done what the command asks for. -/
def AllOrNothing (P : Primitives Salt Secret Mac) (parse : String → Option Socks5Endpoint)
    (env : Conditions Salt) (disk : UsersConfig) (a : UsersAction) : Prop :=
  (∀ e, (a.run P parse env disk).1 = .error e → (a.run P parse env disk).2 = disk) ∧
    ((a.run P parse env disk).1 = .ok () →
      Fulfilled P parse env.surroundings disk (a.run P parse env disk).2 a)

/-- A `set-password` that saves, for an account whose old hash is malformed or accepts the new
password too (and is not the new hash itself). -/
def LateRefusal (P : Primitives Salt Secret Mac) (env : Conditions Salt) (disk : UsersConfig)
    (a : UsersAction) : Prop :=
  ∃ name user typed hash, a = .setPassword name ∧
    (∃ glance v, env.surroundings.glance = .ok glance ∧ glance.find name = some v) ∧
    env.surroundings.password P = .ok (typed, hash) ∧
    env.lock = none ∧ env.load = none ∧ env.save = none ∧ disk.find name = some user ∧
    user.hash ≠ initSentinel ∧ P.verifyHash user.hash typed ≠ .ok false ∧ hash ≠ user.hash

section AllOrNothing

variable {P : Primitives Salt Secret Mac} {parse : String → Option Socks5Endpoint}
  {env : Conditions Salt} {disk : UsersConfig} {a : UsersAction}

/-- **A command is all or nothing exactly if it is not refused late.** -/
theorem allOrNothing_iff (hnodup : (disk.users.map User.name).Nodup) :
    AllOrNothing P parse env disk a ↔ ¬ LateRefusal P env disk a := by
  constructor
  · rintro ⟨herror, -⟩ ⟨name, u, typed, hash, rfl, ⟨glance, v, hglance, hv⟩, hpw, hlock, hload,
      hsave, hu, hne, hverify, hchanged⟩
    -- The command has saved the new hash and reports an error.
    have hprepare : (UsersAction.setPassword name).prepare P parse env.surroundings
        = .ok (.setPassword name hash, typed) :=
      prepare_setPassword.2 ⟨glance, v, hash, hglance, hv, hpw, rfl⟩
    have hold : disk.hashOf name = some u.hash := by simp [UsersConfig.hashOf, hu]
    obtain ⟨e, hepilogue⟩ := epilogue_of_not_refused hash hold hne hverify
    have hrun : (UsersAction.setPassword name).run P parse env disk
        = (.error e, disk.modify name fun u => { u with hash := hash }) := by
      simp [UsersAction.run, hprepare, hlock, hload, hsave, attempt, Mutation.apply,
        UsersConfig.edit, hu, hepilogue]
    have hsame : (disk.modify name fun u => { u with hash := hash }) = disk := by
      have h := herror e (by rw [hrun])
      rwa [hrun] at h
    have hnew := UsersConfig.hashOf_modify_hash hash hu name
    rw [if_pos rfl, hsame, hold] at hnew
    exact hchanged (Option.some.inj hnew).symm
  · intro hno
    rcases UsersAction.run_cases (P := P) (a := a) with
      ⟨e, hrun⟩ | ⟨m, typed, after, hprepare, hlock, hload, hsave, happly, hrun⟩
    · refine ⟨fun e' _ => by rw [hrun], fun hok => ?_⟩
      rw [hrun] at hok
      cases hok
    · refine ⟨fun e he => ?_, fun _ => ?_⟩
      · -- An error after the save is that of a `set-password`.
        rw [hrun] at he ⊢
        obtain ⟨name, hash, old, rfl, hold, hne, hverify⟩ := epilogue_error he
        obtain rfl := eq_setPassword_of_prepare hprepare
        obtain ⟨glance, v, hash', hglance, hv, hpw, heq⟩ := prepare_setPassword.1 hprepare
        cases heq
        obtain ⟨u, hu, rfl⟩ := Option.map_eq_some_iff.1 hold
        by_cases hsame : hash = u.hash
        · -- The new hash is the old one, so nothing has changed.
          simp only [Mutation.apply, UsersConfig.edit, hu, Except.ok.injEq] at happly
          rw [← happly]
          exact UsersConfig.modify_eq_self hu (by rw [hsame])
        · exact absurd ⟨name, u, typed, hash, rfl, ⟨glance, v, hglance, hv⟩, hpw, hlock, hload,
            hsave, hu, hne, hverify, hsame⟩ hno
      · rw [hrun]
        exact UsersAction.fulfilled_of_apply hnodup hprepare happly

end AllOrNothing

/-! ### Two commands -/

/-- No call fails, and the password is typed twice. -/
def typing (glance : UsersConfig) (pw : String) : Conditions Unit :=
  ⟨⟨.ok glance, .ok pw, .ok pw, .ok ()⟩, none, none, none⟩

/-- An account that is disabled: nothing else changes. -/
theorem allOrNothing_iff_disable :
    AllOrNothing Auth.plain Auth.noEndpoint (typing ⟨[]⟩ "") ⟨[Auth.alice "$old"]⟩
      (.disable "alice") := by
  refine (allOrNothing_iff (by simp)).2 ?_
  rintro ⟨name, u, typed, hash, heq, -⟩
  cases heq

/-- Primitives with two salts: a hash is the password behind a mark that depends on the salt. -/
def salted : Primitives Bool Unit ByteArray where
  hashPassword salt password := .ok ((if salt then "$a" else "$b") ++ password)
  verifyHash hash password :=
    if hash = initSentinel then .error "invalid stored hash"
    else .ok (hash == "$a" ++ password || hash == "$b" ++ password)
  mac _ message := message
  verifyHash_hashPassword salt password hash h := by
    obtain rfl : (if salt then "$a" else "$b") ++ password = hash := by simpa using h
    have hne : (if salt then "$a" else "$b") ++ password ≠ initSentinel := by
      intro heq
      have hlist := congrArg String.toList heq
      cases salt <;> simp [initSentinel] at hlist
    cases salt <;> simp_all
  verifyHash_init password := ⟨_, if_pos rfl⟩
  mac_injective _ _ _ h := h

/-- **A password that was changed, and a command that reports an error.**  The new password is the
old one, under a new salt: the file holds the new hash, and the command fails. -/
theorem changed_and_refused :
    (UsersAction.setPassword "alice").run salted Auth.noEndpoint
        ⟨⟨.ok ⟨[Auth.alice "$aold"]⟩, .ok "old", .ok "old", .ok false⟩, none, none, none⟩
        ⟨[Auth.alice "$aold"]⟩
      = (.error "internal error: old password still verifies after change",
          ⟨[Auth.alice "$bold"]⟩) := by
  decide +kernel

end Users
