/-
**The authenticators of several processes on one users registry.**

A proxy process has an authenticator: the registry in memory behind a read-write lock, and a cache
of accepted credentials.  A login decides on the registry in memory.  For an account with a hash it
consults the cache and then verifies the password; for an account in `init` mode it goes through
`resolve_init`, which hashes the password, takes the transaction lock of the registry file, then
the write lock of the process, reads the file again and adopts the password if the account is
still in `init` mode on disk.  Commands of the command line change the file in transactions under
the same file lock.
-/

import TorSocks5.Locked
import TorSocks5.UsersCommands

set_option autoImplicit false

namespace Auth

open Users

variable {Salt Secret Mac : Type} [DecidableEq Mac]

/-! ### The registry file -/

/-- Who takes the transaction lock of the registry. -/
inductive Holder
  | login (i : ℕ)
  | cli (j : ℕ)
  deriving DecidableEq

/-- A change that was saved to the registry file. -/
inductive Change
  /-- A login replaced the sentinel of an account. -/
  | adopt (i : ℕ) (name hash : String)
  | command (j : ℕ) (m : Mutation)
  deriving DecidableEq

/-- The registry file with its transaction lock, and the changes saved so far. -/
abbrev Registry := Locked UsersConfig Holder Change

/-! ### Processes and logins -/

/-- A cached credential with the hash it was verified against. -/
structure CacheEntry (Mac : Type) where
  hashSnapshot : String
  hmac : Mac

/-- The authenticator of a process. -/
structure Process (Secret Mac : Type) where
  users : UsersConfig
  cache : String → Option (CacheEntry Mac)
  serverSecret : Secret
  /-- Whether a registry file is configured. -/
  usersPath : Bool
  /-- The login that holds the write lock of the registry in memory. -/
  writer : Option ℕ

/-- What an authenticator is built from. -/
structure Boot (Secret : Type) where
  users : UsersConfig
  serverSecret : Secret
  usersPath : Bool

/-- `AuthState::build_inner`. -/
def Boot.build (b : Boot Secret) : Process Secret Mac :=
  ⟨b.users, fun _ => none, b.serverSecret, b.usersPath, none⟩

/-- What `resolve_init` does once the locks are dropped. -/
inductive Next
  | refuse
  /-- The account has a hash by now: verify against it. -/
  | compare (hash : String)
  /-- The password is adopted: cache it. -/
  | record (hash : String)
  deriving DecidableEq

/-- How a login ended. -/
inductive Outcome
  | rejected
  /-- The verdict of `verify_with_cache` on a hash. -/
  | compared (hash : String) (verdict : Bool)
  | adopted (hash : String)
  /-- The process died. -/
  | aborted
  deriving DecidableEq

/-- The answer a client gets. -/
def Outcome.accepted : Outcome → Bool
  | rejected => false
  | compared _ verdict => verdict
  | adopted _ => true
  | aborted => false

/-- Where a login is. -/
inductive Phase
  /-- In `verify`, before the registry is read. -/
  | deciding
  /-- In `verify_with_cache`, before the cache is consulted. -/
  | comparing (hash : String)
  /-- In `verify_with_cache`, before the Argon2id verification. -/
  | verifying (hash : String)
  /-- In `verify_with_cache`, before the credential is cached. -/
  | inserting (hash : String)
  /-- In `resolve_init`, before the password is hashed. -/
  | hashing
  /-- Before the file lock. -/
  | acquiring (newHash : String)
  /-- Before the write lock of the registry in memory. -/
  | entering (newHash : String)
  /-- Under both locks, before the registry is read again. -/
  | rereading (newHash : String)
  /-- Under both locks, before the save. -/
  | saving (newHash : String) (current : UsersConfig)
  /-- Under both locks, before memory takes the registry over. -/
  | committing (current : UsersConfig) (next : Next)
  /-- Under both locks, giving up. -/
  | leaving
  /-- Before the file lock is dropped. -/
  | releasing (next : Next)
  /-- Adopted, before the credential is cached. -/
  | recording (hash : String)
  | done (outcome : Outcome)
  deriving DecidableEq

/-- A call of `AuthState::verify`. -/
structure Login where
  process : ℕ
  name : String
  password : String
  /-- The record that `verify` found in memory. -/
  found : Option User
  phase : Phase

/-! ### The steps of a login -/

/-- What a login does next at something shared. -/
inductive LoginEvent (Salt : Type)
  | decide
  | lookup
  | verify
  | insert
  | hash (salt : Except String Salt)
  | acquire (ok : Bool)
  | enter
  | reread (ok : Bool)
  | save (ok : Bool)
  | commit
  | leave
  | release
  | record

/-- The decision of `verify` on the record it finds, with the check of `resolve_init` for an
empty password. -/
def decision (password : String) : Option User → Phase
  | none => .done .rejected
  | some u =>
    if u.isEnabled then
      if u.hash = initSentinel then
        if password = "" then .done .rejected else .hashing
      else .comparing u.hash
    else .done .rejected

/-- Whether a cached credential answers a login. -/
def CacheEntry.hits (e : CacheEntry Mac) (hash : String) (candidate : Mac) : Bool :=
  e.hashSnapshot == hash && e.hmac == candidate

/-- `verify_with_cache` after its look at the cache. -/
def consult (hash : String) (hit : Bool) : Phase :=
  if hit then .done (.compared hash true) else .verifying hash

/-- `verify_with_cache` after the verification. -/
def verdict (hash : String) (accepted : Bool) : Phase :=
  if accepted then .inserting hash else .done (.compared hash false)

/-- A cache with the credential of a name replaced. -/
def Process.insert (pr : Process Secret Mac) (name : String) (e : CacheEntry Mac) :
    Process Secret Mac :=
  { pr with cache := Function.update pr.cache name (some e) }

omit [DecidableEq Mac] in
theorem Process.insert_self (pr : Process Secret Mac) (name : String) (e : CacheEntry Mac) :
    (pr.insert name e).cache name = some e := by
  simp [Process.insert]

omit [DecidableEq Mac] in
theorem Process.insert_of_ne (pr : Process Secret Mac) {name name' : String}
    (e : CacheEntry Mac) (h : name' ≠ name) : (pr.insert name e).cache name' = pr.cache name' := by
  simp [Process.insert, h]

/-- `u.hash = new_hash`. -/
def adoptHash (newHash : String) (u : User) : User := { u with hash := newHash }

/-- The checks of `resolve_init` on the registry it has read again. -/
def judge (name newHash : String) (current : UsersConfig) : Phase :=
  match current.find name with
  | none => .leaving
  | some u =>
    if u.isEnabled then
      if u.hash = initSentinel then .saving newHash (current.modify name (adoptHash newHash))
      else .committing current (.compare u.hash)
    else .leaving

/-- What follows when the locks are dropped. -/
def Next.phase : Next → Phase
  | refuse => .done .rejected
  | compare hash => .comparing hash
  | record hash => .recording hash

/-- One step of login `i`: its call, its process and the registry file. -/
def stepLogin (P : Primitives Salt Secret Mac) (i : ℕ) (l : Login) (pr : Process Secret Mac)
    (r : Registry) : LoginEvent Salt → Option (Login × Process Secret Mac × Registry)
  | .decide =>
    if l.phase = .deciding ∧ pr.writer = none then
      let found := pr.users.find l.name
      some ({ l with found := found, phase := decision l.password found }, pr, r)
    else none
  | .lookup =>
    match l.phase with
    | .comparing hash =>
      let hit := (pr.cache l.name).any fun e =>
        e.hits hash (P.hmac pr.serverSecret l.name l.password)
      some ({ l with phase := consult hash hit }, pr, r)
    | _ => none
  | .verify =>
    match l.phase with
    | .verifying hash =>
      some ({ l with phase := verdict hash (P.accepts hash l.password) }, pr, r)
    | _ => none
  | .insert =>
    match l.phase with
    | .inserting hash =>
      some ({ l with phase := .done (.compared hash true) },
        pr.insert l.name ⟨hash, P.hmac pr.serverSecret l.name l.password⟩, r)
    | _ => none
  | .hash salt =>
    if l.phase = .hashing then
      match P.computeHash salt l.password with
      | .ok newHash => some ({ l with phase := .acquiring newHash }, pr, r)
      | .error _ => some ({ l with phase := .done .rejected }, pr, r)
    else none
  | .acquire ok =>
    match l.phase with
    | .acquiring newHash =>
      if pr.usersPath then
        if ok then
          if r.holder = none then
            some ({ l with phase := .entering newHash }, pr,
              r.take (.login i))
          else none
        else some ({ l with phase := .done .rejected }, pr, r)
      else some ({ l with phase := .entering newHash }, pr, r)
    | _ => none
  | .enter =>
    match l.phase with
    | .entering newHash =>
      if pr.writer = none then
        some ({ l with phase := .rereading newHash }, { pr with writer := some i }, r)
      else none
    | _ => none
  | .reread ok =>
    match l.phase with
    | .rereading newHash =>
      if pr.usersPath then
        some ({ l with phase := if ok then judge l.name newHash r.value else .leaving }, pr, r)
      else some ({ l with phase := judge l.name newHash pr.users }, pr, r)
    | _ => none
  | .save ok =>
    match l.phase with
    | .saving newHash current =>
      if pr.usersPath then
        if ok then
          some ({ l with phase := .committing current (.record newHash) }, pr,
            r.write current (.adopt i l.name newHash))
        else some ({ l with phase := .leaving }, pr, r)
      else some ({ l with phase := .committing current (.record newHash) }, pr, r)
    | _ => none
  | .commit =>
    match l.phase with
    | .committing current next =>
      some ({ l with phase := .releasing next },
        { pr with users := current, writer := none }, r)
    | _ => none
  | .leave =>
    if l.phase = .leaving then
      some ({ l with phase := .releasing .refuse }, { pr with writer := none }, r)
    else none
  | .release =>
    match l.phase with
    | .releasing next =>
      some ({ l with phase := next.phase }, pr,
        if pr.usersPath then r.drop else r)
    | _ => none
  | .record =>
    match l.phase with
    | .recording hash =>
      some ({ l with phase := .done (.adopted hash) },
        pr.insert l.name ⟨hash, P.hmac pr.serverSecret l.name l.password⟩, r)
    | _ => none

/-! ### The steps of a command -/

/-- Where a command is. -/
inductive CliPhase
  | idle
  | preparing (a : UsersAction)
  /-- Before the file lock; `typed` is the password of the prompt. -/
  | waiting (m : Mutation) (typed : String)
  /-- Under the lock, before the registry is loaded. -/
  | loading (m : Mutation) (typed : String)
  /-- Under the lock, before the save. -/
  | saving (m : Mutation) (typed : String) (before after : UsersConfig)
  /-- Under the lock, about to return an error. -/
  | failing (e : String)
  /-- Under the lock, saved. -/
  | published (m : Mutation) (typed : String) (before : UsersConfig)
  /-- Saved, and the lock dropped. -/
  | checking (m : Mutation) (typed : String) (before : UsersConfig)
  /-- The mutation that was saved, and the result; a killed command has none. -/
  | done (saved : Option Mutation) (result : Option (Except String Unit))

/-- The mutation that a command has saved. -/
def CliPhase.saved : CliPhase → Option Mutation
  | published m _ _ => some m
  | checking m _ _ => some m
  | done saved _ => saved
  | _ => none

/-- Whether a command has begun and not ended. -/
def CliPhase.running : CliPhase → Bool
  | idle => false
  | done _ _ => false
  | _ => true

/-- What a command does next; an error text makes the system call fail with it. -/
inductive CliEvent (Salt : Type)
  | prepare (glance : Option String) (answer confirm : Except String String)
      (salt : Except String Salt)
  | lock (e : Option String)
  | load (e : Option String)
  | save (e : Option String)
  | unlock
  | finish

/-- The result of `UsersConfig::load`. -/
def Registry.load (r : Registry) : Option String → Except String UsersConfig
  | none => .ok r.value
  | some e => .error e

/-- A command that returns an error before it has saved anything. -/
def CliPhase.fail (e : String) : CliPhase := .done none (some (.error e))

/-- One step of command `j`: the command and the registry file. -/
def stepCli (P : Primitives Salt Secret Mac) (parse : String → Option Socks5Endpoint) (j : ℕ)
    (c : CliPhase) (r : Registry) : CliEvent Salt → Option (CliPhase × Registry)
  | .prepare glance answer confirm salt =>
    match c with
    | .preparing a =>
      match a.prepare P parse ⟨r.load glance, answer, confirm, salt⟩ with
      | .ok (m, typed) => some (.waiting m typed, r)
      | .error e => some (.fail e, r)
    | _ => none
  | .lock e =>
    match c, e with
    | .waiting m typed, none =>
      if r.holder = none then some (.loading m typed, r.take (.cli j))
      else none
    | .waiting _ _, some e => some (.fail e, r)
    | _, _ => none
  | .load e =>
    match c with
    | .loading m typed =>
      match r.load e with
      | .error e => some (.failing e, r)
      | .ok before =>
        match m.apply before with
        | .error e => some (.failing e, r)
        | .ok after => some (.saving m typed before after, r)
    | _ => none
  | .save e =>
    match c, e with
    | .saving m typed before after, none =>
      some (.published m typed before, r.write after (.command j m))
    | .saving _ _ _ _, some e => some (.failing e, r)
    | _, _ => none
  | .unlock =>
    match c with
    | .failing e => some (.fail e, r.drop)
    | .published m typed before => some (.checking m typed before, r.drop)
    | _ => none
  | .finish =>
    match c with
    | .checking m typed before => some (.done (some m) (some (m.epilogue P before typed)), r)
    | _ => none

/-! ### The system -/

/-- The registry file, the processes, the logins and the commands. -/
structure State (Secret Mac : Type) where
  registry : Registry
  procs : ℕ → Process Secret Mac
  logins : ℕ → Option Login
  clis : ℕ → CliPhase

inductive Action (Salt Secret : Type)
  /-- A client of a process logs in. -/
  | begin (i p : ℕ) (name password : String)
  | login (i : ℕ) (e : LoginEvent Salt)
  /-- The registry in memory is replaced. -/
  | setUsers (p : ℕ) (users : UsersConfig)
  /-- A process dies, and starts again. -/
  | restart (p : ℕ) (users : UsersConfig) (secret : Secret)
  | invoke (j : ℕ) (a : UsersAction)
  | cli (j : ℕ) (e : CliEvent Salt)
  | kill (j : ℕ)

/-- A login whose process dies. -/
def Login.abort (l : Login) : Login :=
  match l.phase with
  | .done _ => l
  | _ => { l with phase := .done .aborted }

/-- The logins when process `p` dies. -/
def abortAll (p : ℕ) (logins : ℕ → Option Login) (i : ℕ) : Option Login :=
  (logins i).map fun l => if l.process = p then l.abort else l

/-- Whether a login of process `p` holds the lock. -/
def heldBy (p : ℕ) (logins : ℕ → Option Login) : Option Holder → Bool
  | some (.login i) => (logins i).any fun l => l.process == p
  | _ => false

/-- The state after a step of login `i` of process `p`. -/
def State.afterLogin (s : State Secret Mac) (i p : ℕ) (l : Login) (pr : Process Secret Mac)
    (r : Registry) : State Secret Mac :=
  { s with
    registry := r, procs := Function.update s.procs p pr,
    logins := Function.update s.logins i (some l) }

omit [DecidableEq Mac] in
@[simp] theorem State.afterLogin_logins (s : State Secret Mac) (i p : ℕ) (l : Login)
    (pr : Process Secret Mac) (r : Registry) : (s.afterLogin i p l pr r).logins i = some l := by
  simp [State.afterLogin]

omit [DecidableEq Mac] in
theorem State.afterLogin_of_ne (s : State Secret Mac) {i k : ℕ} (h : k ≠ i) (p : ℕ) (l : Login)
    (pr : Process Secret Mac) (r : Registry) :
    (s.afterLogin i p l pr r).logins k = s.logins k := by
  simp [State.afterLogin, h]

/-- The state when process `p` has died and was built again. -/
def State.reboot (s : State Secret Mac) (p : ℕ) (users : UsersConfig) (secret : Secret) :
    State Secret Mac :=
  { s with
    registry := if heldBy p s.logins s.registry.holder then s.registry.drop else s.registry
    procs := Function.update s.procs p (Boot.build ⟨users, secret, (s.procs p).usersPath⟩)
    logins := abortAll p s.logins }

/-- The state when command `j` was killed. -/
def State.killed (s : State Secret Mac) (j : ℕ) : State Secret Mac :=
  { s with
    registry := if s.registry.holder = some (.cli j) then s.registry.drop else s.registry
    clis := Function.update s.clis j (.done (s.clis j).saved none) }

/-- One step of the system. -/
def step (P : Primitives Salt Secret Mac) (parse : String → Option Socks5Endpoint)
    (s : State Secret Mac) : Action Salt Secret → Option (State Secret Mac)
  | .begin i p name password =>
    match s.logins i with
    | some _ => none
    | none =>
      let l : Login := ⟨p, name, password, none, .deciding⟩
      some { s with logins := Function.update s.logins i (some l) }
  | .login i e =>
    match s.logins i with
    | none => none
    | some l =>
      (stepLogin P i l (s.procs l.process) s.registry e).map fun x =>
        s.afterLogin i l.process x.1 x.2.1 x.2.2
  | .setUsers p users =>
    if (s.procs p).writer = none then
      some { s with procs := Function.update s.procs p { s.procs p with users := users } }
    else none
  | .restart p users secret => some (s.reboot p users secret)
  | .invoke j a =>
    match s.clis j with
    | .idle => some { s with clis := Function.update s.clis j (.preparing a) }
    | _ => none
  | .cli j e =>
    (stepCli P parse j (s.clis j) s.registry e).map fun x =>
      { s with registry := x.2, clis := Function.update s.clis j x.1 }
  | .kill j => if (s.clis j).running then some (s.killed j) else none

/-- The machine of the whole system, over the parser of endpoints. -/
def machine (P : Primitives Salt Secret Mac) (parse : String → Option Socks5Endpoint) :
    Machine (State Secret Mac) (Action Salt Secret) := ⟨step P parse⟩

/-- No login and no command has begun. -/
def init (disk : UsersConfig) (boot : ℕ → Boot Secret) : State Secret Mac where
  registry := ⟨disk, none, []⟩
  procs p := (boot p).build
  logins _ := none
  clis _ := .idle

/-! ### The steps as relations -/

/-- A login that goes on to a phase. -/
def Login.goto (l : Login) (phase : Phase) : Login := { l with phase := phase }

section LoginStep

variable (P : Primitives Salt Secret Mac)

/-- The credential a login would cache for a hash. -/
def credential (l : Login) (pr : Process Secret Mac) (hash : String) : CacheEntry Mac :=
  ⟨hash, P.hmac pr.serverSecret l.name l.password⟩

/-- The steps of login `i`, with what each of them requires. -/
inductive LoginStep (i : ℕ) (l : Login) (pr : Process Secret Mac) (r : Registry) :
    Login → Process Secret Mac → Registry → Prop
  | decide : l.phase = .deciding → pr.writer = none →
      LoginStep i l pr r { l with
        found := pr.users.find l.name
        phase := decision l.password (pr.users.find l.name) } pr r
  | lookup {hash : String} {hit : Bool} : l.phase = .comparing hash →
      (hit = true → pr.cache l.name = some (credential P l pr hash)) →
      LoginStep i l pr r (l.goto (consult hash hit)) pr r
  | verify {hash : String} : l.phase = .verifying hash →
      LoginStep i l pr r (l.goto (verdict hash (P.accepts hash l.password))) pr r
  | insert {hash : String} : l.phase = .inserting hash →
      LoginStep i l pr r (l.goto (.done (.compared hash true)))
        (pr.insert l.name (credential P l pr hash)) r
  | hash {salt : Except String Salt} {newHash : String} : l.phase = .hashing →
      P.computeHash salt l.password = .ok newHash →
      LoginStep i l pr r (l.goto (.acquiring newHash)) pr r
  | hashFailed : l.phase = .hashing → LoginStep i l pr r (l.goto (.done .rejected)) pr r
  | acquire {newHash : String} : l.phase = .acquiring newHash → pr.usersPath = true →
      r.holder = none →
      LoginStep i l pr r (l.goto (.entering newHash)) pr (r.take (.login i))
  | acquireFailed {newHash : String} : l.phase = .acquiring newHash →
      LoginStep i l pr r (l.goto (.done .rejected)) pr r
  | acquireNothing {newHash : String} : l.phase = .acquiring newHash → pr.usersPath = false →
      LoginStep i l pr r (l.goto (.entering newHash)) pr r
  | enter {newHash : String} : l.phase = .entering newHash → pr.writer = none →
      LoginStep i l pr r (l.goto (.rereading newHash)) { pr with writer := some i } r
  | reread {newHash : String} : l.phase = .rereading newHash → pr.usersPath = true →
      LoginStep i l pr r (l.goto (judge l.name newHash r.value)) pr r
  | rereadFailed {newHash : String} : l.phase = .rereading newHash →
      LoginStep i l pr r (l.goto .leaving) pr r
  | rereadMemory {newHash : String} : l.phase = .rereading newHash → pr.usersPath = false →
      LoginStep i l pr r (l.goto (judge l.name newHash pr.users)) pr r
  | save {newHash : String} {current : UsersConfig} : l.phase = .saving newHash current →
      pr.usersPath = true →
      LoginStep i l pr r (l.goto (.committing current (.record newHash))) pr
        (r.write current (.adopt i l.name newHash))
  | saveFailed {newHash : String} {current : UsersConfig} : l.phase = .saving newHash current →
      LoginStep i l pr r (l.goto .leaving) pr r
  | saveNothing {newHash : String} {current : UsersConfig} : l.phase = .saving newHash current →
      pr.usersPath = false →
      LoginStep i l pr r (l.goto (.committing current (.record newHash))) pr r
  | commit {current : UsersConfig} {next : Next} : l.phase = .committing current next →
      LoginStep i l pr r (l.goto (.releasing next)) { pr with users := current, writer := none } r
  | leave : l.phase = .leaving →
      LoginStep i l pr r (l.goto (.releasing .refuse)) { pr with writer := none } r
  | release {next : Next} : l.phase = .releasing next → pr.usersPath = true →
      LoginStep i l pr r (l.goto next.phase) pr r.drop
  | releaseNothing {next : Next} : l.phase = .releasing next → pr.usersPath = false →
      LoginStep i l pr r (l.goto next.phase) pr r
  | record {hash : String} : l.phase = .recording hash →
      LoginStep i l pr r (l.goto (.done (.adopted hash)))
        (pr.insert l.name (credential P l pr hash)) r

end LoginStep

theorem eq_credential_of_hits {P : Primitives Salt Secret Mac} {l : Login}
    {pr : Process Secret Mac} {hash : String}
    (h : ((pr.cache l.name).any fun e =>
      e.hits hash (P.hmac pr.serverSecret l.name l.password)) = true) :
    pr.cache l.name = some (credential P l pr hash) := by
  cases hc : pr.cache l.name with
  | none => simp [hc] at h
  | some e =>
    cases e
    simp_all [CacheEntry.hits, credential]

/-- Every step of a login is one of the relation. -/
theorem loginStep_of_eq {P : Primitives Salt Secret Mac} {i : ℕ} {l l' : Login}
    {pr pr' : Process Secret Mac} {r r' : Registry} {e : LoginEvent Salt}
    (h : stepLogin P i l pr r e = some (l', pr', r')) : LoginStep P i l pr r l' pr' r' := by
  cases e with simp only [stepLogin] at h
  | decide =>
    split_ifs at h with hph
    cases h
    exact .decide hph.1 hph.2
  | hash salt =>
    split_ifs at h with hph
    split at h <;> cases h
    · exact .hash hph ‹_›
    · exact .hashFailed hph
  | enter =>
    split at h <;> [skip; cases h]
    split_ifs at h
    cases h
    exact .enter ‹_› ‹_›
  | lookup | verify | insert | commit | leave | record =>
    split at h <;> cases h
    first
    | exact .lookup ‹_› eq_credential_of_hits | exact .verify ‹_› | exact .insert ‹_›
    | exact .commit ‹_› | exact .leave ‹_› | exact .record ‹_›
  | acquire | reread | save | release =>
    split at h <;> [skip; cases h]
    -- with a file the lock is taken, or the call fails; without one nothing is done
    split_ifs at h with hpath <;> cases h <;> first
    | exact .acquire ‹_› hpath ‹_› | exact .reread ‹_› hpath | exact .save ‹_› hpath
    | exact .release ‹_› hpath
    | exact .acquireFailed ‹_› | exact .rereadFailed ‹_› | exact .saveFailed ‹_›
    | (have hno := Bool.eq_false_iff.2 hpath
       first
       | exact .acquireNothing ‹_› hno | exact .rereadMemory ‹_› hno | exact .saveNothing ‹_› hno
       | exact .releaseNothing ‹_› hno)

/-- The steps of command `j`, with what each of them requires. -/
inductive CliStep (j : ℕ) (r : Registry) : CliPhase → CliPhase → Registry → Prop
  | prepare {a : UsersAction} {m : Mutation} {typed : String} :
      CliStep j r (.preparing a) (.waiting m typed) r
  | prepareFailed {a : UsersAction} {e : String} : CliStep j r (.preparing a) (.fail e) r
  | lock {m : Mutation} {typed : String} : r.holder = none →
      CliStep j r (.waiting m typed) (.loading m typed) (r.take (.cli j))
  | lockFailed {m : Mutation} {typed e : String} : CliStep j r (.waiting m typed) (.fail e) r
  | load {m : Mutation} {typed : String} {after : UsersConfig} : m.apply r.value = .ok after →
      CliStep j r (.loading m typed) (.saving m typed r.value after) r
  | loadFailed {m : Mutation} {typed e : String} :
      CliStep j r (.loading m typed) (.failing e) r
  | save {m : Mutation} {typed : String} {before after : UsersConfig} :
      CliStep j r (.saving m typed before after) (.published m typed before)
        (r.write after (.command j m))
  | saveFailed {m : Mutation} {typed e : String} {before after : UsersConfig} :
      CliStep j r (.saving m typed before after) (.failing e) r
  | unlockFailed {e : String} : CliStep j r (.failing e) (.fail e) r.drop
  | unlock {m : Mutation} {typed : String} {before : UsersConfig} :
      CliStep j r (.published m typed before) (.checking m typed before) r.drop
  | finish {m : Mutation} {typed : String} {before : UsersConfig}
      {result : Except String Unit} :
      CliStep j r (.checking m typed before) (.done (some m) (some result)) r

omit [DecidableEq Mac] in
/-- Every step of a command is one of the relation. -/
theorem cliStep_of_eq {P : Primitives Salt Secret Mac}
    {parse : String → Option Socks5Endpoint} {j : ℕ} {c c' : CliPhase} {r r' : Registry}
    {e : CliEvent Salt} (h : stepCli P parse j c r e = some (c', r')) :
    CliStep j r c c' r' := by
  cases e with simp only [stepCli] at h
  | load e => cases e <;> grind [CliStep, Registry.load]
  | _ => grind [CliStep]

/-- The steps of the system, with what each of them requires. -/
inductive Step (P : Primitives Salt Secret Mac) (s : State Secret Mac) :
    Action Salt Secret → State Secret Mac → Prop
  | begin {i p : ℕ} {name password : String} : s.logins i = none →
      Step P s (.begin i p name password) { s with
        logins := Function.update s.logins i (some ⟨p, name, password, none, .deciding⟩) }
  | login {i : ℕ} {e : LoginEvent Salt} {l l' : Login} {pr' : Process Secret Mac}
      {r' : Registry} : s.logins i = some l →
      LoginStep P i l (s.procs l.process) s.registry l' pr' r' →
      Step P s (.login i e) (s.afterLogin i l.process l' pr' r')
  | setUsers {p : ℕ} {users : UsersConfig} : (s.procs p).writer = none →
      Step P s (.setUsers p users) { s with
        procs := Function.update s.procs p { s.procs p with users := users } }
  | restart {p : ℕ} {users : UsersConfig} {secret : Secret} :
      Step P s (.restart p users secret) (s.reboot p users secret)
  | invoke {j : ℕ} {a : UsersAction} : s.clis j = .idle →
      Step P s (.invoke j a) { s with clis := Function.update s.clis j (.preparing a) }
  | cli {j : ℕ} {e : CliEvent Salt} {c' : CliPhase} {r' : Registry} :
      CliStep j s.registry (s.clis j) c' r' →
      Step P s (.cli j e) { s with registry := r', clis := Function.update s.clis j c' }
  | kill {j : ℕ} : (s.clis j).running = true → Step P s (.kill j) (s.killed j)

/-- Every step of the system is one of the relation. -/
theorem step_cases {P : Primitives Salt Secret Mac} {parse : String → Option Socks5Endpoint}
    {s t : State Secret Mac} {a : Action Salt Secret}
    (h : (machine P parse).step s a = some t) : Step P s a t := by
  change step P parse s a = some t at h
  cases a with
  | login i e =>
    simp only [step] at h
    split at h
    · cases h
    · rename_i l hl
      obtain ⟨⟨l', pr', r'⟩, hx, rfl⟩ := Option.map_eq_some_iff.1 h
      exact .login hl (loginStep_of_eq hx)
  | cli j e =>
    obtain ⟨⟨c', r'⟩, hx, rfl⟩ := Option.map_eq_some_iff.1 h
    exact .cli (cliStep_of_eq hx)
  | _ => grind [step, Step]

end Auth
