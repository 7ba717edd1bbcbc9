/-
**The commands on the users registry.**

A command of the command line first does what needs no lock: it checks its arguments, may look at
the registry to fail before a prompt, reads a password and hashes it.  What is left is a *mutation*
of the registry, which the command applies to the registry that it loads under the transaction
lock; a mutation may still fail there, since the registry may have changed in the meantime.  After
the save, `set-password` compares the new password with the old hash.
-/

import TorSocks5.UsersConfig
import TorSocks5.Credentials

set_option autoImplicit false

namespace Users

open Auth (initSentinel Primitives)

/-- The commands of `tor-socks5 users` that change the registry. -/
inductive UsersAction
  | add (name : String) (init allowOnion : Bool) (preSocks5 postSocks5 : Option String)
  | remove (name : String)
  | allowOnion (name : String)
  | disallowOnion (name : String)
  | setPassword (name : String)
  | setSocks5 (name hop value : String)
  | enable (name : String)
  | disable (name : String)
  deriving DecidableEq

/-- The two SOCKS5 hops of an account. -/
inductive Hop
  | pre
  | post
  deriving DecidableEq

/-! ### Under the lock -/

/-- What a command does to the registry it has loaded. -/
inductive Mutation
  | push (user : User)
  | remove (name : String)
  | setPassword (name hash : String)
  | setSocks5 (name : String) (hop : Hop) (setting : Option EndpointOverride)
  | setEnabled (name : String) (enabled : Bool)
  | setOnion (name : String) (allowed : Bool)
  deriving DecidableEq

/-- The error of a command on an account that must not exist yet. -/
def alreadyExists (name : String) : String :=
  "user \"" ++ name ++ "\" already exists — use `set-password` to change the password"

/-- The error of a command on an account that must exist. -/
def doesNotExist (name : String) : String := "user \"" ++ name ++ "\" does not exist"

/-- Change a record through `find_mut`, or fail with the given error. -/
def UsersConfig.edit (c : UsersConfig) (name missing : String) (f : User → User) :
    Except String UsersConfig :=
  match c.find name with
  | none => .error missing
  | some _ => .ok (c.modify name f)

/-- `users.users.retain(|u| u.name != name)`, which must remove something. -/
def UsersConfig.retain (c : UsersConfig) (name : String) : Except String UsersConfig :=
  let users := c.users.filter fun u => u.name != name
  if users.length = c.users.length then .error (doesNotExist name) else .ok ⟨users⟩

/-- The override of one hop. -/
def User.setSocks5 (hop : Hop) (setting : Option EndpointOverride) (u : User) : User :=
  match hop with
  | .pre => { u with preSocks5 := setting }
  | .post => { u with postSocks5 := setting }

/-- A mutation of the loaded registry. -/
def Mutation.apply (c : UsersConfig) : Mutation → Except String UsersConfig
  | .push user =>
    match c.find user.name with
    | some _ => .error (alreadyExists user.name)
    | none => .ok ⟨c.users ++ [user]⟩
  | .remove name => c.retain name
  | .setPassword name hash => c.edit name (doesNotExist name) fun u => { u with hash := hash }
  | .setSocks5 name hop setting => c.edit name "user does not exist" (User.setSocks5 hop setting)
  | .setEnabled name enabled =>
    c.edit name (doesNotExist name) fun u => { u with isEnabled := enabled }
  | .setOnion name allowed =>
    c.edit name (doesNotExist name) fun u => { u with allowedOnion := allowed }

/-! ### Before the lock -/

/-- `parse_user_endpoint`, over the parser of endpoints. -/
def parseUserEndpoint (parse : String → Option Socks5Endpoint) :
    Option String → Except String (Option EndpointOverride)
  | none => .ok none
  | some value =>
    if value = "inherit" then .ok none
    else if value = "none" then .ok (some .disabled)
    else
      match parse value with
      | some endpoint => .ok (some (.endpoint endpoint))
      | none => .error "invalid SOCKS5 endpoint"

/-- `read_and_confirm`, on the two answers of the prompt. -/
def readAndConfirm (answer confirm : Except String String) : Except String String := do
  let pw ← answer
  if pw = "" then throw "password must not be empty"
  let again ← confirm
  if pw ≠ again then throw "passwords do not match"
  return pw

/-- What a command finds outside: the registry as the look before the prompt returns it, the
answers of the prompt and the salt. -/
structure Surroundings (Salt : Type) where
  glance : Except String UsersConfig
  answer : Except String String
  confirm : Except String String
  salt : Except String Salt

/-- The password of a command and its hash. -/
def Surroundings.password {Salt Secret Mac : Type} (P : Primitives Salt Secret Mac)
    (e : Surroundings Salt) : Except String (String × String) := do
  let pw ← readAndConfirm e.answer e.confirm
  let hash ← P.computeHash e.salt pw
  return (pw, hash)

/-- `cmd_set_socks5` accepts two names of hops. -/
def parseHop (hop : String) : Except String Hop :=
  if hop = "pre" then .ok .pre
  else if hop = "post" then .ok .post
  else .error "hop must be `pre` or `post`"

/-- The part of a command before it takes the lock: the mutation it will apply, and the password
that was typed (empty if none is asked for). -/
def UsersAction.prepare {Salt Secret Mac : Type} (P : Primitives Salt Secret Mac)
    (parse : String → Option Socks5Endpoint) (e : Surroundings Salt) :
    UsersAction → Except String (Mutation × String)
  | .add name init onion preSocks5 postSocks5 => do
      let pre ← parseUserEndpoint parse preSocks5
      let post ← parseUserEndpoint parse postSocks5
      if init then
        return (.push ⟨name, initSentinel, true, onion, none, pre, post⟩, "")
      -- A first look at the registry, without the lock, spares the prompt.
      let glance ← e.glance
      if (glance.find name).isSome then throw (alreadyExists name)
      let (pw, hash) ← e.password P
      return (.push ⟨name, hash, true, onion, none, pre, post⟩, pw)
  | .remove name => return (.remove name, "")
  | .allowOnion name => return (.setOnion name true, "")
  | .disallowOnion name => return (.setOnion name false, "")
  | .setPassword name => do
      let glance ← e.glance
      if (glance.find name).isNone then throw (doesNotExist name)
      let (pw, hash) ← e.password P
      return (.setPassword name hash, pw)
  | .setSocks5 name hop value => do
      let hop ← parseHop hop
      let setting ← parseUserEndpoint parse (some value)
      return (.setSocks5 name hop setting, "")
  | .enable name => return (.setEnabled name true, "")
  | .disable name => return (.setEnabled name false, "")

/-! ### After the lock -/

/-- The end of a command, when its change is published and the lock dropped: `set-password`
refuses a password that the old hash accepts. -/
def Mutation.epilogue {Salt Secret Mac : Type} (P : Primitives Salt Secret Mac)
    (before : UsersConfig) (typed : String) : Mutation → Except String Unit
  | .setPassword name _ =>
    match before.hashOf name with
    | none => .ok ()
    | some oldHash => do
        -- An account in `init` mode has no old password.
        if oldHash = initSentinel then return ()
        if (← P.verifyHash oldHash typed) then
          throw "internal error: old password still verifies after change"
  | _ => .ok ()

end Users
