/-
**The users registry.**

The registry is the list of account records of the users file, in file order.  A lookup scans it
for a name, so of several records of one name only the first one ever matches, and a change made
through `find_mut` changes that record alone.
-/

import TorSocks5.ClientAcl

set_option autoImplicit false

namespace Users

/-- A SOCKS5 endpoint of a chain, with its credentials. -/
structure Socks5Endpoint where
  address : ClientAcl.IpAddr
  port : ℕ
  credentials : Option (String × String)
  deriving DecidableEq

/-- The choice an account makes for an endpoint of the chain. -/
inductive EndpointOverride
  /-- No endpoint, whatever the global setting. -/
  | disabled
  | endpoint (e : Socks5Endpoint)
  deriving DecidableEq

/-- One account record. -/
structure User where
  name : String
  /-- The Argon2id string, or the sentinel of an account that has no password yet. -/
  hash : String
  isEnabled : Bool
  allowedOnion : Bool
  allowedClients : Option ClientAcl.AllowedClients
  preSocks5 : Option EndpointOverride
  postSocks5 : Option EndpointOverride
  deriving DecidableEq

/-- The accounts, in file order. -/
structure UsersConfig where
  users : List User
  deriving DecidableEq

namespace UsersConfig

/-- `UsersConfig::find`. -/
def find (c : UsersConfig) (name : String) : Option User :=
  c.users.find? fun u => u.name == name

/-- Change the first element that a predicate accepts. -/
def modifyFirst {α : Type*} (p : α → Bool) (f : α → α) : List α → List α
  | [] => []
  | a :: l => if p a then f a :: l else a :: modifyFirst p f l

/-- A change through `UsersConfig::find_mut`. -/
def modify (c : UsersConfig) (name : String) (f : User → User) : UsersConfig :=
  ⟨modifyFirst (fun u => u.name == name) f c.users⟩

/-- The stored hash of an account. -/
def hashOf (c : UsersConfig) (name : String) : Option String := (c.find name).map User.hash

/-- `AuthState::allowed_onion`, on the registry it reads. -/
def allowedOnion (c : UsersConfig) (name : String) : Bool :=
  (c.find name).any fun u => u.isEnabled && u.allowedOnion

/-- `AuthState::client_allowed`, on the registry it reads. -/
def clientAllowed (c : UsersConfig) (name : String) (peer : ClientAcl.IpAddr) : Bool :=
  match (c.find name).filter fun u => u.isEnabled with
  | none => false
  | some u =>
    match u.allowedClients with
    | some policy => policy.allows peer
    | none => true

/-! ### Changing one record -/

theorem modifyFirst_append {α : Type*} {p : α → Bool} {f : α → α} {a : α} {post : List α} :
    ∀ {pre : List α}, (∀ b ∈ pre, p b = false) → p a = true →
      modifyFirst p f (pre ++ a :: post) = pre ++ f a :: post
  | [], _, ha => by simp [modifyFirst, ha]
  | b :: pre, hpre, ha => by
      have hrest : modifyFirst p f (pre ++ a :: post) = pre ++ f a :: post :=
        modifyFirst_append (fun x hx => hpre x (List.mem_cons_of_mem b hx)) ha
      simp [modifyFirst, hpre b List.mem_cons_self, hrest]

variable {c : UsersConfig} {name : String} {u : User}
theorem find_eq_some_iff : c.find name = some u ↔
      u.name = name ∧ ∃ pre post, c.users = pre ++ u :: post ∧ ∀ v ∈ pre, v.name ≠ name := by
  simp [find, List.find?_eq_some_iff_append]

theorem name_of_find (h : c.find name = some u) : u.name = name := (find_eq_some_iff.1 h).1

/-- **A change touches one record.**  It replaces the record that the lookup finds, in its place,
and every other record stays. -/
theorem modify_of_find (f : User → User) (h : c.find name = some u) :
    ∃ pre post, c.users = pre ++ u :: post ∧ (∀ v ∈ pre, v.name ≠ name) ∧
      (c.modify name f).users = pre ++ f u :: post := by
  obtain ⟨hname, pre, post, hc, hpre⟩ := find_eq_some_iff.1 h
  refine ⟨pre, post, hc, hpre, ?_⟩
  rw [modify, hc]
  exact modifyFirst_append (by simpa using hpre) (by simpa using hname)

theorem modify_eq_self {f : User → User}
    (h : c.find name = some u) (hf : f u = u) : c.modify name f = c := by
  obtain ⟨pre, post, hc, -, hmodify⟩ := modify_of_find f h
  rw [hf, ← hc] at hmodify
  exact congrArg UsersConfig.mk hmodify

/-- What a lookup finds after a change that keeps the names. -/
theorem find_modify {f : User → User} (hf : ∀ u, (f u).name = u.name) (name' : String) :
    (c.modify name f).find name' = if name' = name then (c.find name).map f else c.find name' := by
  obtain ⟨l⟩ := c
  simp only [modify, find]
  induction l with
  | nil => simp [modifyFirst]
  | cons v l ih => grind [modifyFirst]

theorem hashOf_modify_hash (hash : String) (hu : c.find name = some u) (name' : String) :
    (c.modify name fun u => { u with hash := hash }).hashOf name'
      = if name' = name then some hash else c.hashOf name' := by
  have hname : ∀ v : User, ({ v with hash := hash } : User).name = v.name := fun _ => rfl
  rw [hashOf, find_modify hname]
  split_ifs with hn
  · simp [hu]
  · rfl

/-! ### The account policies -/

theorem allowedOnion_iff : c.allowedOnion name = true ↔
      ∃ u, c.find name = some u ∧ u.isEnabled = true ∧ u.allowedOnion = true := by
  cases h : c.find name <;> simp [allowedOnion, h]

theorem clientAllowed_iff {peer : ClientAcl.IpAddr} : c.clientAllowed name peer = true ↔
      ∃ u, c.find name = some u ∧ u.isEnabled = true ∧
        ∀ policy, u.allowedClients = some policy → policy.allows peer = true := by
  cases h : c.find name with
  | none => simp [clientAllowed, h]
  | some u =>
    cases hen : u.isEnabled <;> cases hacl : u.allowedClients <;>
      simp [clientAllowed, h, hen, hacl, Option.filter]

end UsersConfig

end Users
