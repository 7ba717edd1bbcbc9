/-
**Fetching with redirects.**

A fetch sends a request to the host of its URL, and follows redirects to other URLs for a few hops,
each with a connection of its own.  The headers and cookies of the source are credentials: they go
into a request only if its origin, host and port, is that of the URL the fetch began with.
-/

import Mathlib
import TorSocks5.HttpRequest
import TorSocks5.HttpResponse

set_option autoImplicit false

namespace Http

open Fragments Chunked

/-! ### URLs -/

/-- A URL as the library parses it. -/
structure Url where
  scheme : List Char
  hostStr : Option (List Char)
  port : Option ℕ
  portOrKnownDefault : Option ℕ
  path : List Char
  query : Option (List Char)

/-- The parser of URLs, and the one of IPv6 addresses, which gives their text in normal form. -/
structure UrlLibrary where
  parse : List Char → Except (List Char) Url
  ipv6 : List Char → Option (List Char)

structure UrlTarget where
  dialHost : List Char
  port : ℕ
  hostHeader : List Char
  pathAndQuery : List Char

/-- Host and port. -/
def UrlTarget.origin (target : UrlTarget) : List Char × ℕ := (target.dialHost, target.port)

def maxRedirects : ℕ := 3

section Urls

variable (lib : Library) (urls : UrlLibrary)

def bracketedIfIpv6 (dialHost : List Char) : List Char :=
  match urls.ipv6 dialHost with
  | some v6 => "[".toList ++ v6 ++ "]".toList
  | none => dialHost

def UrlTarget.bracketedHost (target : UrlTarget) : List Char := bracketedIfIpv6 urls target.dialHost

/-- `str::trim_start_matches('[')` and `str::trim_end_matches(']')`. -/
def stripBrackets (host : List Char) : List Char :=
  ((host.dropWhile (· == '[')).reverse.dropWhile (· == ']')).reverse

def parseHttpsUrl (urlStr : List Char) : Except FetchError UrlTarget :=
  match urls.parse urlStr with
  | .error e => .error (.invalidUrl e)
  | .ok parsed =>
    if parsed.scheme ≠ "https".toList then
      .error (.invalidUrl ("scheme ".toList ++ lib.platform.debug parsed.scheme ++
        " not supported, only https://".toList))
    else
      match parsed.hostStr with
      | none => .error (.invalidUrl "missing host".toList)
      | some host =>
        let dialHost := stripBrackets host
        match parsed.portOrKnownDefault with
        | none => .error (.invalidUrl "cannot determine port".toList)
        | some port =>
          let bracketed := bracketedIfIpv6 urls dialHost
          let hostHeader :=
            match parsed.port with
            | some p => bracketed ++ ":".toList ++ Nat.toDigits 10 p
            | none => bracketed
          let path := if parsed.path = [] then "/".toList else parsed.path
          let path :=
            match parsed.query with
            | some query => path ++ "?".toList ++ query
            | none => path
          .ok ⟨dialHost, port, hostHeader, path⟩

/-- The URL of a redirect. -/
def redirectUrl (target : UrlTarget) (loc : List Char) : Except FetchError (List Char) :=
  if "https://".toList <+: loc then .ok loc
  else if "/".toList <+: loc then
    .ok ("https://".toList ++ target.bracketedHost urls ++ ":".toList ++ Nat.toDigits 10 target.port ++
      loc)
  else .error (.http ("unsupported redirect location: ".toList ++ loc))

end Urls

/-! ### The fetch -/

/-- What comes of a connection: there is none, the request cannot be written, or there is an answer.
-/
inductive Conversation
  | refused (error : FetchError)
  | unwritable (op : List Char)
  | answered (stream : Stream UInt8)

/-- A connection that was made for a URL, and the request that was sent over it, if any was. -/
structure Contact where
  url : List Char
  host : List Char
  port : ℕ
  request : Option (List UInt8)

def Contact.origin (contact : Contact) : List Char × ℕ := (contact.host, contact.port)

/-- What a fetch does and returns. -/
structure Fetch where
  contacts : List Contact
  result : Except Halt (List Char)

/-- What the two fetches that are compared have in common: how each connection is answered, by its
number, host and port. -/
structure World where
  lib : Library
  urls : UrlLibrary
  servers : ℕ → List Char → ℕ → Conversation
  maxBodyBytes : ℕ

/-- Headers and cookies. -/
structure Credentials where
  headers : List (List Char)
  cookies : List (List Char)

def Credentials.none : Credentials := ⟨[], []⟩

section Fetches

variable (world : World) (credentials : Credentials) (allowCredentialsCrossOrigin : Bool)
  (originalOrigin : List Char × ℕ)

/-- The credentials for a hop. -/
def hopCredentials (target : UrlTarget) : Credentials :=
  if allowCredentialsCrossOrigin ||
      (target.dialHost == originalOrigin.1 && target.port == originalOrigin.2) then
    credentials
  else Credentials.none

def hopRequest (target : UrlTarget) : List UInt8 :=
  let sent := hopCredentials credentials allowCredentialsCrossOrigin originalOrigin target
  buildGetRequest target.hostHeader target.pathAndQuery sent.headers sent.cookies

/-- The loop over the hops. -/
def fetchHops : List ℕ → List Char → Fetch
  | [], _ => ⟨[], .error (.failed .tooManyRedirects)⟩
  | hop :: hops, currentUrl =>
    if hop = maxRedirects then ⟨[], .error (.failed .tooManyRedirects)⟩
    else
      match parseHttpsUrl world.lib world.urls currentUrl with
      | .error error => ⟨[], .error (.failed error)⟩
      | .ok target =>
        let contact := Contact.mk currentUrl target.dialHost target.port
        let req := hopRequest credentials allowCredentialsCrossOrigin originalOrigin target
        match world.servers hop target.dialHost target.port with
        | .refused error => ⟨[contact none], .error (.failed error)⟩
        | .unwritable op => ⟨[contact (some req)], .error (.failed (.io op))⟩
        | .answered stream =>
          match readHttpResponse world.lib world.maxBodyBytes stream with
          | .error halt => ⟨[contact (some req)], .error halt⟩
          | .ok (.ok text) => ⟨[contact (some req)], .ok text⟩
          | .ok (.redirect loc) =>
            match redirectUrl world.urls target loc with
            | .error error => ⟨[contact (some req)], .error (.failed error)⟩
            | .ok next =>
              let rest := fetchHops hops next
              ⟨contact (some req) :: rest.contacts, rest.result⟩

def fetchOneInner (url : List Char) : Fetch :=
  match parseHttpsUrl world.lib world.urls url with
  | .error error => ⟨[], .error (.failed error)⟩
  | .ok target =>
    fetchHops world credentials allowCredentialsCrossOrigin target.origin
      (List.range (maxRedirects + 1)) url

end Fetches

/-! ### What two fetches have in common -/

/-- Contacts that differ, if at all, in a request to the origin. -/
structure Contact.SameOutside (origin : List Char × ℕ) (c₁ c₂ : Contact) : Prop where
  url : c₁.url = c₂.url
  contacted : c₁.origin = c₂.origin
  request : c₁.origin ≠ origin → c₁.request = c₂.request

structure Fetch.SameOutside (origin : List Char × ℕ) (f₁ f₂ : Fetch) : Prop where
  contacts : List.Forall₂ (Contact.SameOutside origin) f₁.contacts f₂.contacts
  result : f₁.result = f₂.result

section Compared

variable {world : World} {credentials credentials₁ credentials₂ : Credentials} {allow : Bool}
  {origin : List Char × ℕ} {hops : List ℕ} {url : List Char}

/-- **A request to another origin is the same whatever the credentials are.** -/
theorem hopRequest_eq {target : UrlTarget} (h : target.origin ≠ origin) :
    hopRequest credentials₁ false origin target = hopRequest credentials₂ false origin target := by
  have hcross : (target.dialHost == origin.1 && target.port == origin.2) = false := by
    by_contra hsame
    simp only [Bool.not_eq_false, Bool.and_eq_true, beq_iff_eq] at hsame
    exact h (Prod.ext hsame.1 hsame.2)
  simp only [hopRequest, hopCredentials, hcross, Bool.or_false]
  rfl

theorem Contact.sameOutside_hop (target : UrlTarget) :
    Contact.SameOutside origin
      ⟨url, target.dialHost, target.port, some (hopRequest credentials₁ false origin target)⟩
      ⟨url, target.dialHost, target.port, some (hopRequest credentials₂ false origin target)⟩ :=
  ⟨rfl, rfl, fun h => congrArg some (hopRequest_eq h)⟩

/-- Two fetches go through the same hops: by the list of the hops, since each answer is the same. -/
theorem sameOutside_fetchHops (world : World) (credentials₁ credentials₂ : Credentials)
    (origin : List Char × ℕ) (hops : List ℕ) (url : List Char) :
    Fetch.SameOutside origin (fetchHops world credentials₁ false origin hops url)
      (fetchHops world credentials₂ false origin hops url) := by
  induction hops generalizing url with
  | nil => exact ⟨.nil, rfl⟩
  | cons hop hops ih =>
    simp only [fetchHops]
    repeat' split
    on_goal 8 => exact ⟨.cons (Contact.sameOutside_hop _) (ih _).contacts, (ih _).result⟩
    on_goal 3 => exact ⟨.cons ⟨rfl, rfl, fun _ => rfl⟩ .nil, rfl⟩
    · exact ⟨.nil, rfl⟩
    · exact ⟨.nil, rfl⟩
    all_goals exact ⟨.cons (Contact.sameOutside_hop _) .nil, rfl⟩

/-- A fetch makes no more contacts than there are hops before the last one. -/
theorem length_contacts_le :
    (fetchHops world credentials allow origin hops url).contacts.length ≤
      (hops.takeWhile (· ≠ maxRedirects)).length := by
  induction hops generalizing url with
  | nil => simp [fetchHops]
  | cons hop hops ih =>
    simp only [fetchHops]
    split
    · simp
    · next hhop =>
      rw [List.takeWhile_cons_of_pos (by simpa using hhop), List.length_cons]
      repeat' split
      on_goal 7 => exact Nat.succ_le_succ ih
      all_goals simp

theorem https_of_parseHttpsUrl {lib : Library} {urls : UrlLibrary} {target : UrlTarget}
    (h : parseHttpsUrl lib urls url = .ok target) :
    ∃ parsed, urls.parse url = .ok parsed ∧ parsed.scheme = "https".toList := by
  unfold parseHttpsUrl at h
  cases hparse : urls.parse url with
  | error e =>
    rw [hparse] at h
    cases h
  | ok parsed =>
    simp only [hparse] at h
    split at h
    · cases h
    · next hscheme => exact ⟨parsed, rfl, not_not.1 hscheme⟩

/-- Only URLs that could be parsed are contacted. -/
theorem https_of_mem_contacts :
    ∀ c ∈ (fetchHops world credentials allow origin hops url).contacts,
      ∃ parsed, world.urls.parse c.url = .ok parsed ∧ parsed.scheme = "https".toList := by
  induction hops generalizing url with
  | nil => simp [fetchHops]
  | cons hop hops ih =>
    simp only [fetchHops]
    split
    · simp
    · split
      · simp
      · next target htarget =>
        have hhttps := https_of_parseHttpsUrl htarget
        repeat' split
        on_goal 6 => exact List.forall_mem_cons.2 ⟨hhttps, ih⟩
        all_goals simpa using hhttps

end Compared

/-- **No credentials leave the origin.**  Two fetches of a URL with different credentials contact
the same hosts and ports, and return the same; a request to another origin than that of the URL is
the same in both; at most as many requests are sent as redirects are allowed; and every URL that is
contacted is one of the scheme `https`. -/
theorem credentials_stay (world : World) (credentials₁ credentials₂ : Credentials)
    (url : List Char) :
    (fetchOneInner world credentials₁ false url).contacts.map Contact.origin =
        (fetchOneInner world credentials₂ false url).contacts.map Contact.origin ∧
      (fetchOneInner world credentials₁ false url).result =
        (fetchOneInner world credentials₂ false url).result ∧
      (∀ target, parseHttpsUrl world.lib world.urls url = .ok target →
        List.Forall₂ (fun c₁ c₂ => c₁.origin ≠ target.origin → c₁.request = c₂.request)
          (fetchOneInner world credentials₁ false url).contacts
          (fetchOneInner world credentials₂ false url).contacts) ∧
      (fetchOneInner world credentials₁ false url).contacts.length ≤ maxRedirects ∧
      (∀ c ∈ (fetchOneInner world credentials₁ false url).contacts,
        ∃ parsed, world.urls.parse c.url = .ok parsed ∧ parsed.scheme = "https".toList) := by
  unfold fetchOneInner
  cases htarget : parseHttpsUrl world.lib world.urls url with
  | error error => exact ⟨rfl, rfl, fun _ _ => .nil, Nat.zero_le _, by simp⟩
  | ok target =>
    have hsame := sameOutside_fetchHops world credentials₁ credentials₂ target.origin
      (List.range (maxRedirects + 1)) url
    refine ⟨?_, hsame.result, ?_, length_contacts_le.trans (by decide), https_of_mem_contacts⟩
    · have hmap : List.Forall₂ Eq _ _ := List.forall₂_map_left_iff.2 (List.forall₂_map_right_iff.2
        (hsame.contacts.imp fun _ _ h => h.contacted))
      rwa [List.forall₂_eq_eq_eq] at hmap
    · intro target' htarget'
      cases htarget'
      exact hsame.contacts.imp fun _ _ h => h.request

/-- Two hosts; every answer is a redirect to the first one. -/
def movingWorld : World where
  lib := oneHeadLibrary movedHead 302 movedHeaders
  urls :=
    { parse := fun s =>
        if s = "https://a/".toList then
          .ok ⟨"https".toList, some "a".toList, none, some 443, "/".toList, none⟩
        else .ok ⟨"https".toList, some "b".toList, none, some 443, "/".toList, none⟩
      ipv6 := fun _ => none }
  servers := fun _ _ _ => .answered (Stream.single movedHead false)
  maxBodyBytes := 5

theorem origins_movingWorld (credentials : Credentials) (allow : Bool) (origin : List Char × ℕ)
    {hop : ℕ} (hhop : hop ≠ maxRedirects) (hops : List ℕ) {url : List Char} {target : UrlTarget}
    (htarget : parseHttpsUrl movingWorld.lib movingWorld.urls url = .ok target) :
    (fetchHops movingWorld credentials allow origin (hop :: hops) url).contacts.map Contact.origin =
      target.origin :: (fetchHops movingWorld credentials allow origin hops
        "https://a/".toList).contacts.map Contact.origin := by
  have hread : readHttpResponse movingWorld.lib movingWorld.maxBodyBytes
      (Stream.single movedHead false) = .ok (.redirect "https://a/".toList) :=
    (readHttpResponse_moved 5).2
  have hserver : movingWorld.servers hop target.dialHost target.port =
      .answered (Stream.single movedHead false) := rfl
  have hnext : redirectUrl movingWorld.urls target "https://a/".toList = .ok "https://a/".toList :=
    if_pos (by decide)
  rw [fetchHops, if_neg hhop, htarget]
  simp only [hserver, hread, hnext]
  rfl

theorem credentials_stay_moved :
    (fetchOneInner movingWorld ⟨["X-Api: 1".toList], []⟩ false "https://b/".toList).contacts.map
        Contact.origin = [("b".toList, 443), ("a".toList, 443), ("a".toList, 443)] ∧
      List.Forall₂ (fun c₁ c₂ => c₁.origin ≠ ("b".toList, 443) → c₁.request = c₂.request)
        (fetchOneInner movingWorld ⟨["X-Api: 1".toList], []⟩ false "https://b/".toList).contacts
        (fetchOneInner movingWorld Credentials.none false "https://b/".toList).contacts := by
  have hb : parseHttpsUrl movingWorld.lib movingWorld.urls "https://b/".toList =
      .ok ⟨"b".toList, 443, "b".toList, "/".toList⟩ := rfl
  have ha : parseHttpsUrl movingWorld.lib movingWorld.urls "https://a/".toList =
      .ok ⟨"a".toList, 443, "a".toList, "/".toList⟩ := rfl
  refine ⟨?_, (credentials_stay movingWorld _ _ _).2.2.1 _ hb⟩
  have hrange : List.range (maxRedirects + 1) = [0, 1, 2, 3] := rfl
  rw [fetchOneInner, hb]
  simp only [hrange]
  rw [origins_movingWorld _ _ _ (by decide) _ hb, origins_movingWorld _ _ _ (by decide) _ ha,
    origins_movingWorld _ _ _ (by decide) _ ha]
  rfl

end Http
