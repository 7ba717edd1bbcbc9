/-
**The cache of accepted credentials is transparent.**

Credentials are cached without any lock, and arbitrarily long after the verification that they
come from.  What makes this harmless is that an entry carries the hash it was verified against:
in every run, each entry is the code of a password that its own hash accepts.  A lookup compares
both, so a call of `verify_with_cache` answers what the verification itself would answer, whatever
has happened to the registry in the meantime.
-/

import TorSocks5.AuthState

set_option autoImplicit false

namespace Auth

open Users

variable {Salt Secret Mac : Type}

/-! ### What holds of caches and logins -/

/-- Each entry is the code of a password that its hash accepts. -/
def CacheSound (P : Primitives Salt Secret Mac) (pr : Process Secret Mac) : Prop :=
  ∀ name e, pr.cache name = some e →
    ∃ password, e.hmac = P.hmac pr.serverSecret name password ∧
      P.accepts e.hashSnapshot password = true

/-- A hash of a password that is not empty. -/
def Genuine (P : Primitives Salt Secret Mac) (password hash : String) : Prop :=
  password ≠ "" ∧ ∃ salt, P.computeHash salt password = .ok hash

variable {hash : String} {l : Login} {s : State Secret Mac} {i : ℕ}
theorem Genuine.accepts {P : Primitives Salt Secret Mac} {password : String}
    (h : Genuine P password hash) : P.accepts hash password = true := by
  obtain ⟨-, salt, hsalt⟩ := h
  exact P.accepts_of_computeHash hsalt

/-- What is known before the locks are dropped. -/
def Next.Sound (P : Primitives Salt Secret Mac) (password : String) : Next → Prop
  | record hash => Genuine P password hash
  | _ => True

/-- What a login has established about the hashes of its phase. -/
def Phase.Sound (P : Primitives Salt Secret Mac) (password : String) : Phase → Prop
  | inserting hash => P.accepts hash password = true
  | hashing => password ≠ ""
  | acquiring newHash => Genuine P password newHash
  | entering newHash => Genuine P password newHash
  | rereading newHash => Genuine P password newHash
  | saving newHash _ => Genuine P password newHash
  | committing _ next => next.Sound P password
  | releasing next => next.Sound P password
  | recording hash => Genuine P password hash
  | done (.compared hash verdict) => verdict = P.accepts hash password
  | done (.adopted hash) => Genuine P password hash
  | _ => True

/-- The phases of a login that is decided by a hash. -/
def Phase.Against (hash : String) : Phase → Prop
  | comparing hash' => hash' = hash
  | verifying hash' => hash' = hash
  | inserting hash' => hash' = hash
  | done (.compared hash' _) => hash' = hash
  | done .rejected => True
  | done .aborted => True
  | _ => False

/-- What holds of a login: its phase is sound, and if it has read a hash other than the sentinel
then that hash decides it. -/
structure LoginSound (P : Primitives Salt Secret Mac) (l : Login) : Prop where
  phase : l.phase.Sound P l.password
  direct : ∀ u, l.found = some u → u.hash ≠ initSentinel → l.phase.Against u.hash

variable {P : Primitives Salt Secret Mac}

theorem LoginSound.goto {ph ph' : Phase} (h : LoginSound P l) (hl : l.phase = ph)
    (hsound : ph.Sound P l.password → ph'.Sound P l.password)
    (hagainst : ∀ hash, ph.Against hash → ph'.Against hash) : LoginSound P (l.goto ph') where
  phase := hsound (hl ▸ h.phase)
  direct u hu hne := hagainst _ (hl ▸ h.direct u hu hne)

theorem decision_sound (password : String) (found : Option User) :
    (decision password found).Sound P password ∧
      ∀ u, found = some u → u.hash ≠ initSentinel → (decision password found).Against u.hash := by
  cases found with
  | none => exact ⟨trivial, nofun⟩
  | some u =>
    simp only [decision]
    split_ifs with hen hinit hpw
    · exact ⟨trivial, fun _ _ _ => trivial⟩
    · refine ⟨hpw, ?_⟩
      rintro v ⟨⟩ hne
      exact absurd hinit hne
    · refine ⟨trivial, ?_⟩
      rintro v ⟨⟩ -
      rfl
    · exact ⟨trivial, fun _ _ _ => trivial⟩

theorem judge_sound {password newHash : String} (h : Genuine P password newHash) (name : String)
    (current : UsersConfig) : (judge name newHash current).Sound P password := by
  simp only [judge]
  split
  · trivial
  · split_ifs
    · exact h
    · trivial
    · trivial

theorem CacheSound.insert {pr : Process Secret Mac}
    (h : CacheSound P pr) (hacc : P.accepts hash l.password = true) :
    CacheSound P (pr.insert l.name (credential P l pr hash)) := by
  intro name e he
  rcases eq_or_ne name l.name with rfl | hn
  · rw [Process.insert_self] at he
    cases he
    exact ⟨l.password, rfl, hacc⟩
  · exact h name e (Process.insert_of_ne _ _ hn ▸ he)

theorem CacheSound.accepts_of_hit {pr : Process Secret Mac}
    (h : CacheSound P pr) (hhit : pr.cache l.name = some (credential P l pr hash)) :
    P.accepts hash l.password = true := by
  obtain ⟨password, hmac, hacc⟩ := h _ _ hhit
  obtain rfl : l.password = password := P.hmac_inj.1 hmac
  exact hacc

/-! ### Every step keeps both -/

section Step

variable {i : ℕ} {l l' : Login} {pr pr' : Process Secret Mac} {r r' : Registry}

theorem LoginStep.cacheSound (h : LoginStep P i l pr r l' pr' r') (hl : LoginSound P l)
    (hc : CacheSound P pr) : CacheSound P pr' := by
  have hphase := hl.phase
  cases h with
  | insert hph =>
    rw [hph] at hphase
    exact hc.insert hphase
  | record hph =>
    rw [hph] at hphase
    exact hc.insert (Genuine.accepts hphase)
  | _ => exact hc

theorem LoginStep.loginSound (h : LoginStep P i l pr r l' pr' r') (hl : LoginSound P l)
    (hc : CacheSound P pr) : LoginSound P l' := by
  cases h with
  | decide _ _ =>
    obtain ⟨hsound, hdirect⟩ := decision_sound (P := P) l.password (pr.users.find l.name)
    exact ⟨hsound, hdirect⟩
  | @lookup hash hit hph hhit =>
    cases hit with
    | true =>
      -- A hit answers what the verification would have answered.
      exact hl.goto hph (fun _ => (hc.accepts_of_hit (hhit rfl)).symm) (fun _ h => h)
    | false => exact hl.goto hph id (fun _ h => h)
  | @verify hash hph =>
    rw [verdict]
    split_ifs with hacc
    · exact hl.goto hph (fun _ => hacc) (fun _ h => h)
    · exact hl.goto hph (fun _ => (Bool.not_eq_true _ ▸ hacc).symm) (fun _ h => h)
  | insert hph => exact hl.goto hph (fun h => h.symm) (fun _ h => h)
  | @hash salt _ hph hc => exact hl.goto hph (fun h => ⟨h, salt, hc⟩) nofun
  | hashFailed hph | acquireFailed hph | rereadFailed hph | saveFailed hph =>
    exact hl.goto hph (fun _ => trivial) nofun
  | reread hph _ | rereadMemory hph _ => exact hl.goto hph (fun h => judge_sound h _ _) nofun
  | @release next hph _ | @releaseNothing next hph _ =>
    exact hl.goto hph (by cases next <;> exact id) nofun
  | acquire hph | acquireNothing hph | enter hph | save hph | saveNothing hph | commit hph
  | leave hph | record hph => exact hl.goto hph id nofun

end Step

theorem LoginSound.abort (h : LoginSound P l) : LoginSound P l.abort := by
  unfold Login.abort
  split
  · exact h
  · exact ⟨trivial, fun _ _ _ => trivial⟩

/-- All caches and all logins are sound. -/
structure Sound (P : Primitives Salt Secret Mac) (s : State Secret Mac) : Prop where
  caches : ∀ p, CacheSound P (s.procs p)
  logins : ∀ i l, s.logins i = some l → LoginSound P l

theorem sound_init (disk : UsersConfig) (boot : ℕ → Boot Secret) : Sound P (init disk boot) where
  caches _ _ _ := nofun
  logins _ _ := nofun

theorem Sound.step {t : State Secret Mac} {a : Action Salt Secret} (h : Step P s a t)
    (hs : Sound P s) : Sound P t := by
  cases h with
  | @begin i p name password _ =>
    refine ⟨hs.caches, fun k l hk => ?_⟩
    rcases eq_or_ne k i with rfl | hki
    · obtain rfl : _ = l := by simpa using hk
      exact ⟨trivial, nofun⟩
    · exact hs.logins k l (by simpa [hki] using hk)
  | @login i e l l' pr' r' hl hstep =>
    have hlogin := hs.logins i l hl
    have hcache := hs.caches l.process
    refine ⟨fun p => ?_, fun k m hk => ?_⟩
    · rcases eq_or_ne p l.process with rfl | hp
      · simpa [State.afterLogin] using hstep.cacheSound hlogin hcache
      · simpa [State.afterLogin, hp] using hs.caches p
    · rcases eq_or_ne k i with rfl | hki
      · obtain rfl : l' = m := by simpa using hk
        exact hstep.loginSound hlogin hcache
      · rw [State.afterLogin_of_ne _ hki] at hk
        exact hs.logins k m hk
  | @setUsers p users _ =>
    refine ⟨fun q => ?_, hs.logins⟩
    rcases eq_or_ne q p with rfl | hq
    · simpa [CacheSound] using hs.caches q
    · simpa [hq] using hs.caches q
  | @restart p users secret =>
    refine ⟨fun q => ?_, fun k m hk => ?_⟩
    · rcases eq_or_ne q p with rfl | hq
      · -- A process starts with an empty cache.
        simp [State.reboot, Boot.build, CacheSound]
      · simpa [State.reboot, hq] using hs.caches q
    · obtain ⟨l, hl, rfl⟩ := Option.map_eq_some_iff.1 hk
      split_ifs
      · exact (hs.logins k l hl).abort
      · exact hs.logins k l hl
  | _ => exact ⟨hs.caches, hs.logins⟩

variable [DecidableEq Mac] {parse : String → Option Socks5Endpoint}

/-- **Soundness in every run.**  Whatever the logins of all processes do, and however the
registries in memory change, every cache and every login is sound. -/
theorem sound_of_run {disk : UsersConfig} {boot : ℕ → Boot Secret}
    {as : List (Action Salt Secret)} {t : State Secret Mac}
    (h : (machine P parse).Run Machine.anyStep (init disk boot) as t) : Sound P t :=
  h.invariant (fun _ _ _ hs _ hstep => hs.step (step_cases hstep)) (sound_init disk boot)

/-! ### `verify_with_cache` returns -/

theorem step_login {l' : Login} {pr' : Process Secret Mac}
    {r' : Registry} {e : LoginEvent Salt} (hl : s.logins i = some l)
    (h : stepLogin P i l (s.procs l.process) s.registry e = some (l', pr', r')) :
    (machine P parse).step s (.login i e) = some (s.afterLogin i l.process l' pr' r') := by
  simp [machine, step, hl, h]

/-- The end of `verify_with_cache` after a miss. -/
theorem verify_returns (hl : s.logins i = some l) (hph : l.phase = .verifying hash) :
    ∃ es : List (LoginEvent Salt), es.length ≤ 2 ∧ ∃ t,
      (machine P parse).exec s (es.map (Action.login i)) = some t ∧
        t.logins i = some (l.goto (.done (.compared hash (P.accepts hash l.password)))) := by
  have hverify : stepLogin P i l (s.procs l.process) s.registry .verify
      = some (l.goto (verdict hash (P.accepts hash l.password)), s.procs l.process,
          s.registry) := by
    simp [stepLogin, hph, Login.goto]
  cases hacc : P.accepts hash l.password <;> rw [hacc] at hverify
  · refine ⟨[.verify], by simp, ?_⟩
    simp only [List.map_cons, List.map_nil, Machine.exec_cons, step_login hl hverify]
    exact ⟨_, rfl, State.afterLogin_logins _ _ _ _ _ _⟩
  · -- The credential is cached before the call returns.
    refine ⟨[.verify, .insert], by simp, ?_⟩
    simp only [List.map_cons, List.map_nil, Machine.exec_cons, step_login hl hverify,
      Option.bind_some]
    rw [step_login (State.afterLogin_logins _ _ _ _ _ _) rfl]
    exact ⟨_, rfl, State.afterLogin_logins _ _ _ _ _ _⟩

/-- **`verify_with_cache` returns what the verification says.**  From its call on, the login can
always go on by itself, and three steps later at the latest it has its answer. -/
theorem Sound.compare_returns
    (hs : Sound P s) (hl : s.logins i = some l) (hph : l.phase = .comparing hash) :
    ∃ es : List (LoginEvent Salt), es.length ≤ 3 ∧ ∃ t,
      (machine P parse).exec s (es.map (Action.login i)) = some t ∧
        t.logins i = some (l.goto (.done (.compared hash (P.accepts hash l.password)))) := by
  have hlookup : stepLogin P i l (s.procs l.process) s.registry .lookup
      = some (l.goto (consult hash (((s.procs l.process).cache l.name).any fun e =>
          e.hits hash (P.hmac (s.procs l.process).serverSecret l.name l.password))),
          s.procs l.process, s.registry) := by
    simp [stepLogin, hph, Login.goto]
  cases hhit : ((s.procs l.process).cache l.name).any fun e =>
      e.hits hash (P.hmac (s.procs l.process).serverSecret l.name l.password) with
  | true =>
    rw [hhit] at hlookup
    rw [(hs.caches l.process).accepts_of_hit (eq_credential_of_hits hhit)]
    refine ⟨[.lookup], by simp, ?_⟩
    simp only [List.map_cons, List.map_nil, Machine.exec_cons, step_login hl hlookup]
    exact ⟨_, rfl, State.afterLogin_logins _ _ _ _ _ _⟩
  | false =>
    rw [hhit] at hlookup
    have hmiss : (s.afterLogin i l.process (l.goto (.verifying hash)) (s.procs l.process)
        s.registry).logins i = some (l.goto (.verifying hash)) :=
      State.afterLogin_logins _ _ _ _ _ _
    obtain ⟨es, hlen, t, hexec, ht⟩ := verify_returns hmiss rfl
    refine ⟨.lookup :: es, Nat.succ_le_succ hlen, t, ?_, ht⟩
    simp only [List.map_cons, Machine.exec_cons, step_login hl hlookup, Option.bind_some]
    exact hexec

/-! ### Transparency -/

/-- **The cache is transparent.**  In every run of any number of logins in any number of
processes, with the registries in memory replaced at any time: every cache entry is the code of a
password that its hash accepts; a call of `verify_with_cache` has ended with the verdict of the
verification itself, and a call that has begun returns that verdict; and a login that has read a
hash other than the sentinel is accepted only with a password that this hash accepts. -/
theorem cache_transparent {disk : UsersConfig} {boot : ℕ → Boot Secret}
    {as : List (Action Salt Secret)} {t : State Secret Mac}
    (hrun : (machine P parse).Run Machine.anyStep (init disk boot) as t) :
    (∀ p name e, (t.procs p).cache name = some e →
      ∃ password, e.hmac = P.hmac (t.procs p).serverSecret name password ∧
        P.accepts e.hashSnapshot password = true) ∧
    (∀ i l hash verdict, t.logins i = some l → l.phase = .done (.compared hash verdict) →
      verdict = P.accepts hash l.password) ∧
    (∀ i l hash, t.logins i = some l → l.phase = .comparing hash →
      ∃ es : List (LoginEvent Salt), es.length ≤ 3 ∧ ∃ u,
        (machine P parse).exec t (es.map (Action.login i)) = some u ∧
          u.logins i = some (l.goto (.done (.compared hash (P.accepts hash l.password))))) ∧
    ∀ i l user outcome, t.logins i = some l → l.found = some user →
      user.hash ≠ initSentinel → l.phase = .done outcome → outcome.accepted = true →
        P.accepts user.hash l.password = true := by
  have hs := sound_of_run hrun
  refine ⟨hs.caches, ?_, fun i l hash hl hph => hs.compare_returns hl hph, ?_⟩
  · intro i l hash verdict hl hph
    have hsound := (hs.logins i l hl).phase
    rw [hph] at hsound
    exact hsound
  · intro i l user outcome hl hfound hne hph hacc
    -- Only `verify_with_cache` on the hash that was read can have accepted.
    have hsound := (hs.logins i l hl).phase
    have hdirect := (hs.logins i l hl).direct user hfound hne
    rw [hph] at hsound hdirect
    cases outcome with
    | rejected => cases hacc
    | aborted => cases hacc
    | adopted hash => exact hdirect.elim
    | compared hash verdict =>
      obtain rfl : hash = user.hash := hdirect
      exact hsound.symm.trans hacc

/-! ### Two runs -/

/-- Primitives that hide nothing: a hash is the password behind a dollar sign. -/
def plain : Primitives Unit Unit ByteArray where
  hashPassword _ password := .ok ("$" ++ password)
  verifyHash hash password :=
    if hash = initSentinel then .error "invalid stored hash"
    else .ok (hash == "$" ++ password)
  mac _ message := message
  verifyHash_hashPassword salt password hash h := by
    obtain rfl : "$" ++ password = hash := by simpa using h
    have hne : "$" ++ password ≠ initSentinel := by
      intro heq
      have hlist := congrArg String.toList heq
      simp [initSentinel] at hlist
    simp [hne]
  verifyHash_init password := ⟨_, if_pos rfl⟩
  mac_injective _ _ _ h := h

/-- An account with a hash. -/
def alice (hash : String) : User := ⟨"alice", hash, true, false, none, none, none⟩

/-- A process that starts with one account. -/
def bootAlice (hash : String) (_ : ℕ) : Boot Unit := ⟨⟨[alice hash]⟩, (), true⟩

/-- No text is an endpoint. -/
def noEndpoint (_ : String) : Option Socks5Endpoint := none

/-- A login verifies against the old hash, the hash is replaced, a second login with the old
password reads the new one, and only then the first one caches its credential. -/
def rotation : List (Action Unit Unit) :=
  [.begin 0 0 "alice" "old", .login 0 .decide, .login 0 .lookup, .login 0 .verify,
    .setUsers 0 ⟨[alice "$new"]⟩, .begin 1 0 "alice" "old", .login 1 .decide,
    .login 0 .insert, .login 1 .lookup, .login 1 .verify]

/-- The late credential does not help the second login. -/
theorem cache_transparent_rotation :
    ∃ t, (machine plain noEndpoint).exec (init ⟨[]⟩ (bootAlice "$old")) rotation = some t ∧
      (t.logins 1).map Login.phase = some (.done (.compared "$new" false)) ∧
      ∀ i l user outcome, t.logins i = some l → l.found = some user →
        user.hash ≠ initSentinel → l.phase = .done outcome → outcome.accepted = true →
          plain.accepts user.hash l.password = true := by
  have hrun : (machine plain noEndpoint).Run Machine.anyStep (init ⟨[]⟩ (bootAlice "$old"))
      rotation _ := Machine.Run.of_exec rfl
  exact ⟨_, rfl, rfl, (cache_transparent hrun).2.2.2⟩

/-- The hash in memory is replaced by the sentinel, and a login adopts its password. -/
def resetAndLogin : List (Action Unit Unit) :=
  [.setUsers 0 ⟨[alice initSentinel]⟩, .begin 0 0 "alice" "secret", .login 0 .decide,
    .login 0 (.hash (.ok ())), .login 0 (.acquire true), .login 0 .enter,
    .login 0 (.reread true), .login 0 (.save true), .login 0 .commit, .login 0 .release,
    .login 0 .record]

/-- **The sentinel verifies no password and stops no first login.**  A login that reads the
sentinel is accepted, although the sentinel does not verify its password. -/
theorem init_accepts_any_password :
    ∃ t l user outcome,
      (machine plain noEndpoint).Run Machine.anyStep
        (init ⟨[alice initSentinel]⟩ (bootAlice "$old")) resetAndLogin t ∧
      t.logins 0 = some l ∧ l.found = some user ∧ user.hash = initSentinel ∧
      l.phase = .done outcome ∧ outcome.accepted = true ∧
      plain.accepts user.hash l.password = false :=
  ⟨_, _, _, _, Machine.Run.of_exec rfl, rfl, rfl, rfl, rfl, rfl, rfl⟩

end Auth
