/-
**The first login of an account, call by call.**

`resolve_init` hashes the password, takes the lock of the users file, reads the file again, adopts
the password and saves the file through a temp file; memory and the cache follow only when the save
has succeeded.  This module follows one call with the result of every system call as an argument,
down to the calls of the save, and asks what a refused login leaves behind.
-/

import TorSocks5.AuthCache
import TorSocks5.UsersFile

set_option autoImplicit false

namespace Auth

open Users

variable {Salt Secret Mac : Type} [DecidableEq Mac]

/-! ### The calls without interruption -/

/-- `AuthState::verify_with_cache`. -/
def verifyWithCache (P : Primitives Salt Secret Mac) (pr : Process Secret Mac)
    (name password hash : String) : Bool × Process Secret Mac :=
  let candidate := P.hmac pr.serverSecret name password
  if (pr.cache name).any fun e => e.hits hash candidate then (true, pr)
  else if P.accepts hash password then (true, pr.insert name ⟨hash, candidate⟩)
  else (false, pr)

/-- What the system calls of a first login return. -/
structure Faults (Salt : Type) where
  salt : Except String Salt
  lock : Option String
  read : Option String
  save : SaveFaults

/-- The save of `resolve_init`, if a file is configured. -/
def saveIf (usersPath : Bool) (K : Ktav) (path : String) (fault : SaveFaults) (c : UsersConfig)
    (f : Files) : Except String Unit × Files :=
  if usersPath then K.save path fault c f else (.ok (), f)

/-- `AuthState::resolve_init`: the answer, the process and the files. -/
def resolveInit (P : Primitives Salt Secret Mac) (K : Ktav) (path : String) (env : Faults Salt)
    (pr : Process Secret Mac) (f : Files) (name password : String) :
    Bool × Process Secret Mac × Files :=
  if password = "" then (false, pr, f)
  else
    match P.computeHash env.salt password with
    | .error _ => (false, pr, f)
    | .ok newHash =>
      if pr.usersPath ∧ env.lock ≠ none then (false, pr, f)
      else
        match if pr.usersPath then K.load path env.read f else .ok pr.users with
        | .error _ => (false, pr, f)
        | .ok current =>
          match current.find name with
          | none => (false, pr, f)
          | some u =>
            if u.isEnabled then
              if u.hash = initSentinel then
                let adopted := current.modify name (adoptHash newHash)
                match saveIf pr.usersPath K path env.save adopted f with
                | (.error _, f) => (false, pr, f)
                | (.ok _, f) =>
                  let entry := ⟨newHash, P.hmac pr.serverSecret name password⟩
                  (true, { pr with users := adopted }.insert name entry, f)
              else
                -- Another login or a command has set a password by now.
                let answer :=
                  verifyWithCache P { pr with users := current } name password u.hash
                (answer.1, answer.2, f)
            else (false, pr, f)

/-! ### What a refused login leaves behind -/

/-- The file, the registry in memory and the cache are as they were. -/
structure Untouched (pr pr' : Process Secret Mac) (f f' : Files) : Prop where
  disk : f'.target = f.target
  memory : pr'.users = pr.users
  cache : pr'.cache = pr.cache

/-- A later login with any password that is not empty, in any process, sets the password, if no
call fails. -/
def Claimable (P : Primitives Salt Secret Mac) (K : Ktav) (path name : String) (f : Files) :
    Prop :=
  ∃ c u, K.load path none f = .ok c ∧ c.find name = some u ∧ u.hash = initSentinel ∧
    ∀ (pr : Process Secret Mac) (env : Faults Salt) (password newHash body : String),
      pr.usersPath = true → password ≠ "" → P.computeHash env.salt password = .ok newHash →
      env.lock = none → env.read = none → (∀ call, env.save call = none) →
      K.toText (c.modify name (adoptHash newHash)) = .ok body →
        (resolveInit P K path env pr f name password).1 = true ∧
          (resolveInit P K path env pr f name password).2.2.target = some body

/-- Every call of a first login succeeds but the sync of the directory after the rename. -/
def SyncFails (P : Primitives Salt Secret Mac) (K : Ktav) (env : Faults Salt) (c : UsersConfig)
    (name password : String) : Prop :=
  env.lock = none ∧ env.read = none ∧ Ktav.Renames env.save ∧ env.save .fsyncDir ≠ none ∧
    ∃ newHash body, P.computeHash env.salt password = .ok newHash ∧
      K.toText (c.modify name (adoptHash newHash)) = .ok body

section Refused

variable {P : Primitives Salt Secret Mac} {K : Ktav} {path name password : String}
  {env : Faults Salt} {pr : Process Secret Mac} {f : Files} {c : UsersConfig} {u : User}

/-- **A first login up to its save.**  With a file configured, and an enabled account in `init`
mode on disk, only the save is left to decide. -/
theorem resolveInit_of_init {newHash : String} (hpath : pr.usersPath = true)
    (hpw : password ≠ "") (hhash : P.computeHash env.salt password = .ok newHash)
    (hlock : env.lock = none) (hread : env.read = none) (hload : K.load path none f = .ok c)
    (hu : c.find name = some u) (hen : u.isEnabled = true) (hinit : u.hash = initSentinel) :
    resolveInit P K path env pr f name password =
      match K.save path env.save (c.modify name (adoptHash newHash)) f with
      | (.error _, f) => (false, pr, f)
      | (.ok _, f) =>
        (true, { pr with users := c.modify name (adoptHash newHash) }.insert name
          ⟨newHash, P.hmac pr.serverSecret name password⟩, f) := by
  simp [resolveInit, saveIf, hpath, hpw, hhash, hlock, hread, hload, hu, hen, hinit]

omit [DecidableEq Mac] in
/-- A file with the new text is a changed file: the two registries differ in the hash of the
account. -/
theorem target_ne_of_adopted {newHash body : String}
    (hhash : P.computeHash env.salt password = .ok newHash)
    (hload : K.load path none f = .ok c) (hu : c.find name = some u)
    (hinit : u.hash = initSentinel)
    (hbody : K.toText (c.modify name (adoptHash newHash)) = .ok body) :
    f.target ≠ some body := by
  intro htarget
  have hsame : c.modify name (adoptHash newHash) = c :=
    Except.ok.inj ((Ktav.load_of_target hbody htarget).symm.trans hload)
  have hhash' : (c.modify name (adoptHash newHash)).hashOf name = some newHash :=
    (UsersConfig.hashOf_modify_hash newHash hu name).trans (if_pos rfl)
  rw [hsame, UsersConfig.hashOf, hu] at hhash'
  exact P.ne_init_of_accepts (P.accepts_of_computeHash hhash) (Option.some.inj hhash' ▸ hinit)

/-- As long as the file is as it was, the account can be claimed. -/
theorem claimable_of_target {f' : Files} (hload : K.load path none f = .ok c)
    (hu : c.find name = some u) (hen : u.isEnabled = true) (hinit : u.hash = initSentinel)
    (hf : f'.target = f.target) : Claimable P K path name f' := by
  have hload' : K.load path none f' = .ok c := (Ktav.load_congr hf none).trans hload
  refine ⟨c, u, hload', hu, hinit, ?_⟩
  intro pr env password newHash body hpath hpw hhash hlock hread hsave hbody
  have hrenames : Ktav.Renames env.save := ⟨hsave _, hsave _, hsave _, hsave _⟩
  rw [resolveInit_of_init hpath hpw hhash hlock hread hload' hu hen hinit]
  generalize hs : K.save path env.save (c.modify name (adoptHash newHash)) f' = result
  obtain ⟨r, f''⟩ := result
  obtain ⟨htarget, hresult⟩ := Ktav.save_of_renames hs hbody hrenames
  obtain rfl : r = .ok () := hresult.2 (hsave .fsyncDir)
  exact ⟨rfl, htarget⟩

/-- A first login that comes to its save and is refused: the save has failed, and only the files
may have changed. -/
theorem save_error_of_refused {newHash : String} (hpath : pr.usersPath = true)
    (hpw : password ≠ "") (hhash : P.computeHash env.salt password = .ok newHash)
    (hlock : env.lock = none) (hread : env.read = none) (hload : K.load path none f = .ok c)
    (hu : c.find name = some u) (hen : u.isEnabled = true) (hinit : u.hash = initSentinel)
    (hrefused : (resolveInit P K path env pr f name password).1 = false) :
    ∃ e f', K.save path env.save (c.modify name (adoptHash newHash)) f = (.error e, f') ∧
      resolveInit P K path env pr f name password = (false, pr, f') := by
  rw [resolveInit_of_init hpath hpw hhash hlock hread hload hu hen hinit] at hrefused ⊢
  generalize K.save path env.save (c.modify name (adoptHash newHash)) f = result at hrefused ⊢
  obtain ⟨r, f'⟩ := result
  cases r with
  | ok _ => simp at hrefused
  | error e => exact ⟨e, f', rfl, rfl⟩

/-- **What a refused first login leaves behind.**  With a file configured, and an enabled account
in `init` mode on disk, a first login that is refused changes neither the file nor memory nor the
cache, and leaves the account to be claimed by a later login, exactly if it is not the sync of the
directory after the rename that has failed. -/
theorem refused_untouched_iff (hpath : pr.usersPath = true) (hpw : password ≠ "")
    (hload : K.load path none f = .ok c) (hu : c.find name = some u)
    (hen : u.isEnabled = true) (hinit : u.hash = initSentinel)
    (hrefused : (resolveInit P K path env pr f name password).1 = false) :
    (Untouched pr (resolveInit P K path env pr f name password).2.1 f
        (resolveInit P K path env pr f name password).2.2 ∧
      Claimable P K path name (resolveInit P K path env pr f name password).2.2) ↔
    ¬ SyncFails P K env c name password := by
  -- A login that ends before its save.
  have hearly : resolveInit P K path env pr f name password = (false, pr, f) →
      ¬ SyncFails P K env c name password →
      ((Untouched pr (resolveInit P K path env pr f name password).2.1 f
          (resolveInit P K path env pr f name password).2.2 ∧
        Claimable P K path name (resolveInit P K path env pr f name password).2.2) ↔
      ¬ SyncFails P K env c name password) := by
    intro heq hno
    rw [heq]
    exact ⟨fun _ => hno, fun _ =>
      ⟨⟨rfl, rfl, rfl⟩, claimable_of_target hload hu hen hinit rfl⟩⟩
  cases hhash : P.computeHash env.salt password with
  | error e =>
    refine hearly (by simp [resolveInit, hpw, hhash]) ?_
    rintro ⟨-, -, -, -, newHash, body, hok, -⟩
    simp [hhash] at hok
  | ok newHash =>
    cases hlock : env.lock with
    | some e =>
      refine hearly (by simp [resolveInit, hpw, hhash, hpath, hlock]) ?_
      rintro ⟨hnone, -⟩
      simp [hlock] at hnone
    | none =>
      cases hread : env.read with
      | some e =>
        refine hearly ?_ ?_
        · simp [resolveInit, hpw, hhash, hpath, hlock, hread, Ktav.load]
        · rintro ⟨-, hnone, -⟩
          simp [hread] at hnone
      | none =>
        obtain ⟨e, f', hsave, hcall⟩ := save_error_of_refused hpath hpw hhash hlock hread
          hload hu hen hinit hrefused
        cases hbody : K.toText (c.modify name (adoptHash newHash)) with
        | error e' =>
          obtain rfl : f = f' := by
            rw [Ktav.save_of_toText_error hbody] at hsave
            exact congrArg Prod.snd hsave
          refine hearly hcall ?_
          rintro ⟨-, -, -, -, newHash', body, hok, htext⟩
          obtain rfl : newHash = newHash' := Except.ok.inj (hhash.symm.trans hok)
          simp [hbody] at htext
        | ok body =>
          rw [hcall]
          by_cases hrenames : Ktav.Renames env.save
          · -- The new text is in place: the sync of the directory has failed.
            obtain ⟨htarget, hresult⟩ := Ktav.save_of_renames hsave hbody hrenames
            have hsync : SyncFails P K env c name password := by
              refine ⟨hlock, hread, hrenames, fun hnone => ?_, newHash, body, hhash, hbody⟩
              cases hresult.2 hnone
            refine ⟨fun huntouched => absurd ?_ (target_ne_of_adopted hhash hload hu hinit
              hbody), fun hno => absurd hsync hno⟩
            rw [← huntouched.1.disk]
            exact htarget
          · obtain ⟨-, hold⟩ := Ktav.save_of_not_renames hsave hrenames
            refine ⟨fun _ => ?_, fun _ => ⟨⟨hold, rfl, rfl⟩,
              claimable_of_target hload hu hen hinit hold⟩⟩
            rintro ⟨-, -, hyes, -⟩
            exact hrenames hyes

end Refused

/-! ### Two logins -/

/-- A format that knows two registries. -/
def twoTexts (a b : UsersConfig) : Ktav where
  toText c := if c = a then .ok "a" else if c = b then .ok "b" else .error "unknown"
  fromText body := if body = "a" then .ok a else if body = "b" then .ok b else .error "unknown"
  fromText_toText c body h := by
    split_ifs at h with ha hb
    · obtain rfl := Except.ok.inj h
      simp [ha]
    · obtain rfl := Except.ok.inj h
      simp [hb]

/-- The registry before and after the first login of an account. -/
def aliceTexts : Ktav := twoTexts ⟨[alice initSentinel]⟩ ⟨[alice "$secret"]⟩

/-- A first login in which one call of the save fails. -/
def failing (call : SaveCall) : Faults Unit :=
  ⟨.ok (), none, none, fun other => if other = call then some "I/O error" else none⟩

/-- A process that knows the account in `init` mode, and the file. -/
def initProcess : Process Unit ByteArray := (bootAlice initSentinel 0).build

/-- The file before the first login. -/
def initFiles : Files := ⟨some "a", none⟩

/-- A rename that fails leaves everything as it was. -/
theorem refused_untouched_iff_rename :
    (resolveInit plain aliceTexts "users.ktav" (failing .rename) initProcess initFiles "alice"
        "secret").1 = false ∧
      Claimable plain aliceTexts "users.ktav" "alice"
        (resolveInit plain aliceTexts "users.ktav" (failing .rename) initProcess initFiles "alice"
          "secret").2.2 := by
  have hrefused : (resolveInit plain aliceTexts "users.ktav" (failing .rename) initProcess
      initFiles "alice" "secret").1 = false := by decide +kernel
  have hload : aliceTexts.load "users.ktav" none initFiles = .ok ⟨[alice initSentinel]⟩ := rfl
  have hno : ¬ SyncFails plain aliceTexts (failing .rename) ⟨[alice initSentinel]⟩ "alice"
      "secret" := by
    rintro ⟨-, -, ⟨-, -, -, hrename⟩, -⟩
    cases hrename
  exact ⟨hrefused, ((refused_untouched_iff (u := alice initSentinel) rfl (by decide) hload rfl rfl
    rfl hrefused).2 hno).2⟩

/-- **A refused login that has set a password.**  Only the sync of the directory fails: the login
is refused, and the file holds the hash of its password, so no other password can be claimed. -/
theorem failed_sync_sets_password :
    (resolveInit plain aliceTexts "users.ktav" (failing .fsyncDir) initProcess initFiles "alice"
        "secret").1 = false ∧
      aliceTexts.load "users.ktav" none
        (resolveInit plain aliceTexts "users.ktav" (failing .fsyncDir) initProcess initFiles
          "alice" "secret").2.2 = .ok ⟨[alice "$secret"]⟩ :=
  ⟨by decide +kernel, rfl⟩

end Auth
