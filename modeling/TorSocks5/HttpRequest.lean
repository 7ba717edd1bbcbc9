/-
**Building a request.**

The headers and cookies of a source come from the configuration.  Line ends are taken out of them
and they are trimmed before they are put into the request, so that none can end its line and go on
as a line of its own.
-/

import Mathlib
import TorSocks5.ChunkedBody

set_option autoImplicit false

namespace Http

open Chunked (cr lf)

/-! ### The request -/

def sanitizeHeaderValue (s : List Char) : List Char := trim (s.filter fun c => c ≠ '\r' ∧ c ≠ '\n')

/-- The loop over the headers. -/
def pushHeaders (req : List Char) (headers : List (List Char)) : List Char :=
  headers.foldl (fun req h =>
    let line := sanitizeHeaderValue h
    if line = [] then req else req ++ line ++ "\r\n".toList) req

def cookieJar (cookies : List (List Char)) : List (List Char) :=
  (cookies.map sanitizeHeaderValue).filter (· ≠ [])

def buildGetRequest (host path : List Char) (headers cookies : List (List Char)) : List UInt8 :=
  let req := "GET ".toList ++ path ++ " HTTP/1.1\r\n".toList ++ "Host: ".toList ++ host ++
    "\r\nConnection: close\r\nUser-Agent: tor-socks5/0.1\r\nAccept: */*\r\n".toList
  let req := pushHeaders req headers
  let jar := cookieJar cookies
  let req :=
    if jar = [] then req
    else req ++ "Cookie: ".toList ++ List.intercalate "; ".toList jar ++ "\r\n".toList
  Text.utf8 (req ++ "\r\n".toList)

/-! ### Its lines -/

/-- The four header lines that every request has. -/
def fixedLines (host : List Char) : List (List Char) :=
  ["Host: ".toList ++ host, "Connection: close".toList, "User-Agent: tor-socks5/0.1".toList,
    "Accept: */*".toList]

def headerLines (headers : List (List Char)) : List (List Char) :=
  (headers.map sanitizeHeaderValue).filter (· ≠ [])

/-- The line of the cookies, if there are any. -/
def cookieLines (cookies : List (List Char)) : List (List Char) :=
  if cookieJar cookies = [] then []
  else ["Cookie: ".toList ++ List.intercalate "; ".toList (cookieJar cookies)]

/-- The lines of a request, up to the empty one. -/
def requestLines (host path : List Char) (headers cookies : List (List Char)) : List (List Char) :=
  ("GET ".toList ++ path ++ " HTTP/1.1".toList) :: fixedLines host ++ headerLines headers ++
    cookieLines cookies

theorem pushHeaders_eq (req : List Char) (headers : List (List Char)) :
    pushHeaders req headers = req ++ Text.terminated '\r' '\n' (headerLines headers) := by
  induction headers generalizing req with
  | nil => simp [pushHeaders, headerLines, Text.terminated]
  | cons h headers ih =>
    rw [pushHeaders, List.foldl_cons]
    change pushHeaders _ headers = _
    rw [ih]
    by_cases hempty : sanitizeHeaderValue h = [] <;>
      simp [headerLines, hempty, Text.terminated_cons]

/-- **The request is made of its lines**, and an empty one. -/
theorem buildGetRequest_eq (host path : List Char) (headers cookies : List (List Char)) :
    buildGetRequest host path headers cookies = Text.terminated cr lf
      ((requestLines host path headers cookies).map Text.utf8 ++ [[]]) := by
  have htext : buildGetRequest host path headers cookies = Text.utf8 (Text.terminated '\r' '\n'
      (requestLines host path headers cookies ++ [[]])) := by
    have hend : "\r\n".toList = ['\r', '\n'] := by decide
    have hversion : " HTTP/1.1\r\n".toList = " HTTP/1.1".toList ++ ['\r', '\n'] := by decide
    have hfixed : "\r\nConnection: close\r\nUser-Agent: tor-socks5/0.1\r\nAccept: */*\r\n".toList =
        ['\r', '\n'] ++ Text.terminated '\r' '\n' ["Connection: close".toList,
          "User-Agent: tor-socks5/0.1".toList, "Accept: */*".toList] := by decide
    rw [buildGetRequest]
    simp only [pushHeaders_eq, requestLines, fixedLines, cookieLines, hend, hversion, hfixed]
    generalize cookieJar cookies = jar
    split <;> simp only [List.append_assoc, Text.terminated_append, Text.terminated_cons,
      List.cons_append] <;> rfl
  rw [htext, Text.utf8_terminated, List.map_append]
  rfl

/-! ### None has a line end in it -/

theorem mem_of_mem_trim {c : Char} {s : List Char} (h : c ∈ trim s) : c ∈ s := by
  have hback := List.mem_reverse.1 h
  have hfront := List.mem_reverse.1 ((List.dropWhile_suffix isWhite).subset hback)
  exact (List.dropWhile_suffix isWhite).subset hfront

theorem plain_sanitizeHeaderValue (s : List Char) :
    Text.Plain '\r' '\n' (sanitizeHeaderValue s) := by
  constructor <;> exact fun hmem => by simpa using (List.mem_filter.1 (mem_of_mem_trim hmem)).2

theorem plain_append {s t : List Char} (hs : Text.Plain '\r' '\n' s) (ht : Text.Plain '\r' '\n' t) :
    Text.Plain '\r' '\n' (s ++ t) :=
  ⟨by simp [hs.cr, ht.cr], by simp [hs.lf, ht.lf]⟩

theorem plain_intercalate {sep : List Char} (hsep : Text.Plain '\r' '\n' sep) :
    ∀ {ls : List (List Char)}, (∀ l ∈ ls, Text.Plain '\r' '\n' l) →
      Text.Plain '\r' '\n' (List.intercalate sep ls)
  | [], _ => ⟨by simp, by simp⟩
  | [l], h => by simpa using h l List.mem_cons_self
  | l :: m :: ls, h => by
      rw [List.intercalate_cons_cons]
      exact plain_append (plain_append (h l List.mem_cons_self) hsep)
        (plain_intercalate hsep fun k hk => h k (List.mem_cons_of_mem l hk))

/-- **A line of the request has no line end in it, and is not empty.** -/
theorem plain_requestLines {host path : List Char} (hhost : Text.Plain '\r' '\n' host)
    (hpath : Text.Plain '\r' '\n' path) (headers cookies : List (List Char)) :
    ∀ l ∈ requestLines host path headers cookies, l ≠ [] ∧ Text.Plain '\r' '\n' l := by
  have hsanitized (values : List (List Char)) :
      ∀ l ∈ (values.map sanitizeHeaderValue).filter (· ≠ []), l ≠ [] ∧ Text.Plain '\r' '\n' l := by
    intro l hl
    obtain ⟨hmem, hne⟩ := List.mem_filter.1 hl
    obtain ⟨s, -, rfl⟩ := List.mem_map.1 hmem
    exact ⟨by simpa using hne, plain_sanitizeHeaderValue s⟩
  refine List.forall_mem_append.2 ⟨List.forall_mem_append.2 ⟨?_, hsanitized headers⟩, ?_⟩
  · intro l hl
    simp only [fixedLines, List.mem_cons, List.not_mem_nil, or_false] at hl
    rcases hl with rfl | rfl | rfl | rfl | rfl
    · exact ⟨by simp,
        plain_append (plain_append ⟨by decide, by decide⟩ hpath) ⟨by decide, by decide⟩⟩
    · exact ⟨by simp, plain_append ⟨by decide, by decide⟩ hhost⟩
    all_goals exact ⟨by decide, by decide, by decide⟩
  · intro l hcookie
    rw [cookieLines] at hcookie
    split at hcookie
    · cases hcookie
    · rw [List.mem_singleton.1 hcookie]
      exact ⟨by simp, plain_append ⟨by decide, by decide⟩ (plain_intercalate ⟨by decide, by decide⟩
        fun c hc => (hsanitized cookies c hc).2)⟩

/-- **No other lines can be read out of a request.**  It is the lines it is meant to have, each with
its end, and an empty line; none of them is empty or has a line end in it; whatever lines the bytes
are cut into, it is these; line ends come in pairs; and there is no empty line before the end. -/
theorem request_lines {host path : List Char} (hhost : Text.Plain '\r' '\n' host)
    (hpath : Text.Plain '\r' '\n' path) (headers cookies : List (List Char)) :
    buildGetRequest host path headers cookies = Text.terminated cr lf
        ((requestLines host path headers cookies).map Text.utf8 ++ [[]]) ∧
      (∀ l ∈ requestLines host path headers cookies, l ≠ [] ∧ Text.Plain '\r' '\n' l) ∧
      (∀ ls : List (List UInt8), (∀ l ∈ ls, Text.Plain cr lf l) →
        buildGetRequest host path headers cookies = Text.terminated cr lf ls →
        ls = (requestLines host path headers cookies).map Text.utf8 ++ [[]]) ∧
      (∀ a b, buildGetRequest host path headers cookies = a ++ cr :: b → b.head? = some lf) ∧
      (∀ a b, buildGetRequest host path headers cookies = a ++ lf :: b → a.getLast? = some cr) ∧
      (∀ a b, buildGetRequest host path headers cookies = a ++ cr :: lf :: cr :: lf :: b →
        b = []) := by
  have hne : cr ≠ lf := by decide
  have hlines := plain_requestLines hhost hpath headers cookies
  have hbytes : ∀ l ∈ (requestLines host path headers cookies).map Text.utf8,
      l ≠ [] ∧ Text.Plain cr lf l := by
    intro l hl
    obtain ⟨s, hs, rfl⟩ := List.mem_map.1 hl
    exact ⟨Text.utf8_ne_nil (hlines s hs).1, Text.plain_utf8 (hlines s hs).2⟩
  have hplain : ∀ l ∈ (requestLines host path headers cookies).map Text.utf8 ++ [[]],
      Text.Plain cr lf l := by
    intro l hl
    rcases List.mem_append.1 hl with hl | hl
    · exact (hbytes l hl).2
    · rw [List.mem_singleton.1 hl]
      exact ⟨by simp, by simp⟩
  rw [buildGetRequest_eq]
  refine ⟨rfl, hlines, ?_, ?_, ?_, ?_⟩
  · intro ls hls heq
    exact (Text.terminated_injective hne hplain hls heq).symm
  · intro a b heq
    obtain ⟨_, _, _, -, -, rfl⟩ := Text.exists_of_terminated_cr hne hplain heq
    rfl
  · intro a b heq
    obtain ⟨_, _, _, -, rfl, -⟩ := Text.exists_of_terminated_lf hne hplain heq
    simp
  · intro a b heq
    exact Text.nil_of_terminated_empty hne (fun l hl => (hbytes l hl).2)
      (fun l hl => (hbytes l hl).1) heq

/-- A header that would go on in a line of its own. -/
theorem request_lines_injected :
    buildGetRequest "h.com".toList "/b".toList ["X-Evil: a\r\nInjected: yes".toList, "\r\n".toList]
        ["sid=abc\n".toList] =
      Text.terminated cr lf (["GET /b HTTP/1.1".toList, "Host: h.com".toList,
        "Connection: close".toList, "User-Agent: tor-socks5/0.1".toList, "Accept: */*".toList,
        "X-Evil: aInjected: yes".toList, "Cookie: sid=abc".toList, []].map Text.utf8) :=
  (request_lines (show Text.Plain '\r' '\n' "h.com".toList from ⟨by decide, by decide⟩)
    (show Text.Plain '\r' '\n' "/b".toList from ⟨by decide, by decide⟩) _ _).1.trans (by decide)

end Http
