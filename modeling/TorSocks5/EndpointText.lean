/-
**SOCKS5 endpoints as text.**

An endpoint is written as an address and, behind a bar, a user name and a password around a colon; a
disabled endpoint is written as `none`.  The parser lets neither delimiter into the credentials, so
the text can be taken apart in one way only.
-/

import TorSocks5.Splitting

set_option autoImplicit false

namespace EndpointText

/-- The texts of socket addresses as the standard library reads and writes them. -/
structure AddrText (A : Type) where
  parse : List Char → Option A
  display : A → List Char
  port : A → ℕ
  parse_display : ∀ {text a}, parse text = some a → parse (display a) = some a
  /-- Digits of both notations, dots, colons, brackets and the sign of a scope. -/
  mem_display : ∀ a, ∀ c ∈ display a, c ∈ "0123456789abcdef.:[]%".toList
  /-- The colon before the port. -/
  colon_mem_display : ∀ a, ':' ∈ display a

structure Socks5Endpoint (A : Type) where
  address : A
  username : Option (List Char)
  password : Option (List Char)
  deriving DecidableEq

/-- `EndpointOverride`. -/
inductive EndpointOverride (A : Type)
  | disabled
  | endpoint (e : Socks5Endpoint A)

variable {A : Type} (T : AddrText A)

/-- The test of both credentials. -/
def forbidden (username password : List Char) : Bool :=
  username.contains ':' || password.contains ':' || username.contains '|' ||
    password.contains '|' || username.isEmpty || password.isEmpty ||
    255 < (Text.utf8 username).length || 255 < (Text.utf8 password).length

/-- The credentials behind the bar. -/
def parseCredentials : Option (List Char) →
    Except String (Option (List Char) × Option (List Char))
  | none => .ok (none, none)
  | some value =>
    match Text.splitAround [':'] value with
    | none => .error "credentials must be username:password"
    | some (username, password) =>
      if forbidden username password then
        .error "credentials must be nonempty, delimiter-free, and at most 255 bytes each"
      else .ok (some username, some password)

/-- `Socks5Endpoint::from_str`. -/
def fromStr (value : List Char) : Except String (Socks5Endpoint A) :=
  let (address, credentials) := match Text.splitAround ['|'] value with
    | none => (value, none)
    | some (a, c) => (a, some c)
  if value = "none".toList ∨ value = [] then
    .error "endpoint value must not be empty or `none`"
  else
    match T.parse address with
    | none => .error "endpoint address must be an IPv4 or bracketed IPv6 socket address"
    | some address =>
      if T.port address = 0 then .error "endpoint port must be nonzero"
      else (parseCredentials credentials).map fun c => ⟨address, c.1, c.2⟩

/-- `Serialize` of an endpoint. -/
def serializeEndpoint (e : Socks5Endpoint A) : List Char :=
  match e.username, e.password with
  | some username, some password =>
    T.display e.address ++ '|' :: (username ++ ':' :: password)
  | _, _ => T.display e.address

/-- `Serialize` of a setting. -/
def serialize : EndpointOverride A → List Char
  | .disabled => "none".toList
  | .endpoint e => serializeEndpoint T e

/-- `EndpointVisitor::visit_str`. -/
def visitStr (value : List Char) : Except String (EndpointOverride A) :=
  if value = "none".toList then .ok .disabled
  else if value = [] then .error "endpoint must be `none` or a SOCKS5 endpoint"
  else (fromStr T value).map .endpoint

/-- What the parser ensures. -/
structure Valid (e : Socks5Endpoint A) : Prop where
  address : ∃ text, T.parse text = some e.address
  port : T.port e.address ≠ 0
  credentials : (e.username = none ∧ e.password = none) ∨ ∃ u p, e.username = some u ∧
    e.password = some p ∧ forbidden u p = false

/-- The settings that arise: disabled, or an endpoint that was read from a text. -/
def Arises : EndpointOverride A → Prop
  | .disabled => True
  | .endpoint e => ∃ text, fromStr T text = .ok e

variable {T}

theorem credentials_of_parse {value : Option (List Char)} {c : Option (List Char) × _}
    (h : parseCredentials value = .ok c) : (c.1 = none ∧ c.2 = none) ∨
      ∃ u p, c.1 = some u ∧ c.2 = some p ∧ forbidden u p = false := by
  cases value with
  | none =>
    cases h
    exact .inl ⟨rfl, rfl⟩
  | some value =>
    rw [parseCredentials] at h
    split at h
    · cases h
    · split_ifs at h with hforbidden
      cases h
      exact .inr ⟨_, _, rfl, rfl, by simpa using hforbidden⟩

theorem valid_of_fromStr {value : List Char} {e : Socks5Endpoint A}
    (h : fromStr T value = .ok e) : Valid T e := by
  simp only [fromStr] at h
  split_ifs at h
  split at h
  · cases h
  · next a ha =>
    split_ifs at h with hport
    cases hc : parseCredentials (match Text.splitAround ['|'] value with
        | none => (value, none)
        | some (a, c) => (a, some c)).2 with
    | error e => rw [hc] at h; cases h
    | ok c =>
      rw [hc] at h
      cases h
      exact ⟨⟨_, ha⟩, hport, credentials_of_parse hc⟩

theorem bar_not_mem_display (a : A) : '|' ∉ T.display a := fun h =>
  absurd (T.mem_display a _ h) (by decide)

theorem colon_mem_serialize (e : Socks5Endpoint A) : ':' ∈ serializeEndpoint T e := by
  unfold serializeEndpoint
  split <;> simp [T.colon_mem_display]

theorem ne_of_colon_mem {value : List Char} (h : ':' ∈ value) :
    ¬ (value = "none".toList ∨ value = []) := by
  rintro (rfl | rfl) <;> exact absurd h (by decide)

theorem fromStr_serialize {e : Socks5Endpoint A} (h : Valid T e) :
    fromStr T (serializeEndpoint T e) = .ok e := by
  obtain ⟨⟨text, haddress⟩, hport, hcredentials⟩ := h
  have hparse := T.parse_display haddress
  have hplain := ne_of_colon_mem (colon_mem_serialize (T := T) e)
  obtain ⟨address, username, password⟩ := e
  rcases hcredentials with ⟨rfl, rfl⟩ | ⟨u, p, rfl, rfl, hforbidden⟩
  · have hsplit := Text.splitAround_of_not_mem (bar_not_mem_display (T := T) address)
    simp only [fromStr, if_neg hplain]
    simp only [serializeEndpoint, hsplit, hparse, if_neg hport]
    rfl
  · have hsplit := Text.splitAround_singleton (bar_not_mem_display (T := T) address)
      (u ++ ':' :: p)
    have hcolon : ':' ∉ u := by
      intro hc
      simp [forbidden, hc] at hforbidden
    simp only [fromStr, if_neg hplain]
    simp only [serializeEndpoint, hsplit, hparse, if_neg hport, parseCredentials,
      Text.splitAround_singleton hcolon, hforbidden]
    rfl

theorem visitStr_serialize {v : EndpointOverride A} (h : Arises T v) :
    visitStr T (serialize T v) = .ok v := by
  cases v with
  | disabled => rfl
  | endpoint e =>
    obtain ⟨text, htext⟩ := h
    have hplain := ne_of_colon_mem (colon_mem_serialize (T := T) e)
    rw [not_or] at hplain
    rw [serialize, visitStr, if_neg hplain.1, if_neg hplain.2,
      fromStr_serialize (valid_of_fromStr htext)]
    rfl

/-- **Settings come back from their texts.**  Every setting that arises is read back from its text,
as is every endpoint; two settings that arise have different texts; and only a disabled setting is
written as `none`. -/
theorem settings_round_trip (T : AddrText A) :
    (∀ text e, fromStr T text = .ok e → fromStr T (serializeEndpoint T e) = .ok e) ∧
    (∀ v, Arises T v → visitStr T (serialize T v) = .ok v) ∧
    (∀ v w, Arises T v → Arises T w → serialize T v = serialize T w → v = w) ∧
    ∀ v, Arises T v → (serialize T v = "none".toList ↔ v = .disabled) := by
  refine ⟨fun text e h => fromStr_serialize (valid_of_fromStr h), fun v => visitStr_serialize, ?_,
    ?_⟩
  · intro v w hv hw heq
    have hback := visitStr_serialize hv
    rw [heq, visitStr_serialize hw] at hback
    exact (Except.ok.inj hback).symm
  · intro v _
    cases v with
    | disabled => simp [serialize]
    | endpoint e =>
      simp only [serialize, reduceCtorEq, iff_false]
      exact fun h => ne_of_colon_mem (colon_mem_serialize e) (.inl h)

/-- The address `[::1]` with a port below ten. -/
def loopbackText : AddrText (Fin 10) where
  parse text := (List.finRange 10).find? fun p => text == "[::1]:".toList ++ Nat.toDigits 10 p
  display p := "[::1]:".toList ++ Nat.toDigits 10 p
  port p := p
  parse_display {text a} h := by
    clear h text
    revert a
    decide +kernel
  mem_display p := by
    change "[::1]:".toList ++ Nat.toDigits 10 p ⊆ _
    revert p
    decide +kernel
  colon_mem_display := by decide +kernel

theorem settings_round_trip_loopback :
    visitStr loopbackText (serialize loopbackText (.endpoint ⟨9, some ['a'], some ['b']⟩)) =
      .ok (.endpoint ⟨9, some ['a'], some ['b']⟩) :=
  (settings_round_trip loopbackText).2.1 _ ⟨"[::1]:9|a:b".toList, by decide +kernel⟩

end EndpointText
