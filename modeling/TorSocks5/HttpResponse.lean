/-
**Reading a response.**

The head of a response is read into a buffer that doubles when it is full, and after each read the
bytes so far are given to a parser of heads.  What is in the buffer behind the head belongs to the
body; the rest of it is read in one of three ways: by chunks, up to the length that the head gives,
or to the end of the stream.
-/

import Mathlib
import TorSocks5.ChunkedCoding

set_option autoImplicit false

namespace Http

open List

open Fragments Chunked

/-! ### Heads -/

/-- What a parser says of the bytes so far. -/
inductive Verdict
  | incomplete
  | complete (headerLen : ℕ) (code : Option ℕ) (headers : List (List Char × List UInt8))
  | failed (message : List Char)
  deriving DecidableEq

/-- A parser of heads whose verdicts stand. -/
structure Httparse where
  parse : List UInt8 → Verdict
  stable : ∀ {p : List UInt8} (q : List UInt8), parse p ≠ .incomplete → parse (p ++ q) = parse p
  within : ∀ {p : List UInt8} {n : ℕ} {code : Option ℕ} {headers : List (List Char × List UInt8)},
    parse p = .complete n code headers → n ≤ p.length

/-- What is used of libraries: besides the parser, how bytes that are no UTF-8 are repaired, and how
they are reported. -/
structure Library where
  platform : Platform
  httparse : Httparse
  repair : List UInt8 → List Char
  utf8Error : List UInt8 → List Char

structure HttpResponse where
  status : ℕ
  location : Option (List Char)
  contentLength : Option ℕ
  chunked : Bool
  headerLen : ℕ
  deriving DecidableEq

def readBufSize : ℕ := 8192

/-- Whether one of the transfer codings is the chunked one. -/
def namesChunked (value : List Char) : Bool :=
  (value.splitOn ',').any fun c => eqIgnoreAsciiCase (trim (c.takeWhile (· != ';'))) "chunked".toList

section Heads

variable (lib : Library)

def noteLocation (resp : HttpResponse) (h : List Char × List UInt8) : HttpResponse :=
  if eqIgnoreAsciiCase h.1 "location".toList then
    { resp with location := some (Text.fromUtf8Lossy lib.repair h.2) }
  else resp

def noteContentLength (resp : HttpResponse) (h : List Char × List UInt8) : HttpResponse :=
  if eqIgnoreAsciiCase h.1 "content-length".toList then
    match Text.fromUtf8 h.2 with
    | some s => { resp with contentLength := Text.parseUnsigned lib.platform.usizeBound (trim s) }
    | none => resp
  else resp

def noteTransferEncoding (resp : HttpResponse) (h : List Char × List UInt8) : HttpResponse :=
  if eqIgnoreAsciiCase h.1 "transfer-encoding".toList then
    match Text.fromUtf8 h.2 with
    | some s => if namesChunked s then { resp with chunked := true } else resp
    | none => resp
  else resp

/-- The body of the loop over the headers. -/
def noteHeader (resp : HttpResponse) (h : List Char × List UInt8) : HttpResponse :=
  noteTransferEncoding (noteContentLength lib (noteLocation lib resp h) h) h

def parseResponseHeaders (buf : List UInt8) : Except FetchError (Option HttpResponse) :=
  match lib.httparse.parse buf with
  | .complete _ none _ => .error (.http "no status code".toList)
  | .complete headerLen (some status) headers =>
    .ok (some (headers.foldl (noteHeader lib) ⟨status, none, none, false, headerLen⟩))
  | .incomplete => .ok none
  | .failed message => .error (.http message)

theorem headerLen_noteHeader (resp : HttpResponse) (h : List Char × List UInt8) :
    (noteHeader lib resp h).headerLen = resp.headerLen := by
  unfold noteHeader noteTransferEncoding noteContentLength noteLocation
  repeat' split <;> try rfl

theorem headerLen_foldl (headers : List (List Char × List UInt8)) (resp : HttpResponse) :
    (headers.foldl (noteHeader lib) resp).headerLen = resp.headerLen := by
  induction headers generalizing resp with
  | nil => rfl
  | cons h headers ih => rw [foldl_cons, ih, headerLen_noteHeader]

variable {lib} {buf : List UInt8}

theorem headerLen_le {info : HttpResponse} (h : parseResponseHeaders lib buf = .ok (some info)) :
    info.headerLen ≤ buf.length := by
  unfold parseResponseHeaders at h
  split at h <;> cases h
  next hparse =>
    rw [headerLen_foldl]
    exact lib.httparse.within hparse

theorem parseResponseHeaders_append (more : List UInt8)
    (h : parseResponseHeaders lib buf ≠ .ok none) :
    parseResponseHeaders lib (buf ++ more) = parseResponseHeaders lib buf := by
  have hparse : lib.httparse.parse buf ≠ .incomplete := fun hincomplete =>
    h (by rw [parseResponseHeaders, hincomplete])
  rw [parseResponseHeaders, lib.httparse.stable more hparse, parseResponseHeaders]

theorem parseResponseHeaders_prefix {buf' : List UInt8} (hpre : buf <+: buf')
    (h : parseResponseHeaders lib buf ≠ .ok none) :
    parseResponseHeaders lib buf' = parseResponseHeaders lib buf := by
  obtain ⟨more, rfl⟩ := hpre
  exact parseResponseHeaders_append more h

end Heads

/-! ### The reader -/

/-- What `read_http_response` returns. -/
inductive ResponseBody
  | ok (text : List Char)
  | redirect (location : List Char)
  deriving DecidableEq

section Reader

variable (lib : Library) (maxBodyBytes : ℕ)

/-- The loop that reads the head, with a buffer of length `bufLen` that has been filled in part. -/
def readHead : ℕ → ℕ → List UInt8 → Stream UInt8 →
    Except Halt (HttpResponse × List UInt8 × Stream UInt8)
  | 0, _, _, _ => .error .outOfFuel
  | fuel + 1, bufLen, filled, stream =>
    if bufLen ≤ filled.length ∧ maxBodyBytes < bufLen * 2 then
      .error (.failed (.tooLarge maxBodyBytes))
    else
      let bufLen := if bufLen ≤ filled.length then bufLen * 2 else bufLen
      match stream.read (bufLen - filled.length) with
      | none => .error (.failed (.io "read headers".toList))
      | some (block, stream) =>
        if block = [] then
          .error (.failed (.http "connection closed before headers complete".toList))
        else
          match parseResponseHeaders lib (filled ++ block) with
          | .error error => .error (.failed error)
          | .ok (some info) => .ok (info, filled ++ block, stream)
          | .ok none => readHead fuel bufLen (filled ++ block) stream

/-- The loop that reads up to the length of the body. -/
def readUpTo (cl : ℕ) : ℕ → List UInt8 → Stream UInt8 → Except Halt (List UInt8)
  | 0, _, _ => .error .outOfFuel
  | fuel + 1, body, stream =>
    if body.length < cl then
      match stream.read (min readBufSize (cl - body.length)) with
      | none => .error (.failed (.io "read body (content-length)".toList))
      | some (chunk, stream) =>
        if chunk = [] then .error (.failed (.incompleteBody cl body.length))
        else readUpTo cl fuel (body ++ chunk) stream
    else .ok body

/-- The loop that reads to the end of the stream. -/
def readToEnd : ℕ → List UInt8 → Stream UInt8 → Except Halt (List UInt8)
  | 0, _, _ => .error .outOfFuel
  | fuel + 1, body, stream =>
    match stream.read readBufSize with
    | none => .error (.failed (.io "read body (eof)".toList))
    | some (chunk, stream) =>
      if chunk = [] then .ok body
      else if maxBodyBytes < (body ++ chunk).length then
        .error (.failed (.tooLarge maxBodyBytes))
      else readToEnd fuel (body ++ chunk) stream

/-- The body, the first bytes of which have come with the head. -/
def readBody (info : HttpResponse) (body : List UInt8) (stream : Stream UInt8) :
    Except Halt (List UInt8) :=
  if info.chunked then decodeChunkedBody lib.platform stream body maxBodyBytes
  else
    match info.contentLength with
    | some cl =>
      if maxBodyBytes < cl then .error (.failed (.tooLarge maxBodyBytes))
      else readUpTo cl (stream.rest.length + 1) (body.take cl) stream
    | none =>
      if maxBodyBytes < body.length then .error (.failed (.tooLarge maxBodyBytes))
      else readToEnd maxBodyBytes (stream.rest.length + 1) body stream

/-- What a head makes of a body; only a response of status 200 has one that is read. -/
def respond (info : HttpResponse) (body : Except Halt (List UInt8)) : Except Halt ResponseBody :=
  if info.status ∈ [301, 302, 307, 308] then
    match info.location with
    | some loc => .ok (.redirect loc)
    | none => .error (.failed (.http "redirect without Location header".toList))
  else if info.status ≠ 200 then
    .error (.failed (.non200 ("HTTP ".toList ++ Nat.toDigits 10 info.status)))
  else
    body.bind fun body =>
      match Text.fromUtf8 body with
      | some text => .ok (.ok text)
      | none => .error (.failed
          (.http ("response body is not valid UTF-8: ".toList ++ lib.utf8Error body)))

def readHttpResponse (stream : Stream UInt8) : Except Halt ResponseBody :=
  (readHead lib maxBodyBytes (stream.rest.length + 1) readBufSize [] stream).bind
    fun (info, buf, stream) =>
      respond lib info (readBody lib maxBodyBytes info (buf.drop info.headerLen) stream)

/-! ### The bytes to come -/

/-- The head of some bytes, by the lengths of the buffer. -/
def wireHead (w : Wire) : ℕ → ℕ → Except Halt HttpResponse
  | 0, _ => .error .outOfFuel
  | fuel + 1, bufLen =>
    match parseResponseHeaders lib (w.bytes.take bufLen) with
    | .error error => .error (.failed error)
    | .ok (some info) => .ok info
    | .ok none =>
      if w.bytes.length < bufLen then
        if w.broken then .error (.failed (.io "read headers".toList))
        else .error (.failed (.http "connection closed before headers complete".toList))
      else if maxBodyBytes < bufLen * 2 then .error (.failed (.tooLarge maxBodyBytes))
      else wireHead w fuel (bufLen * 2)

def wireBody (info : HttpResponse) (w : Wire) : Except Halt (List UInt8) :=
  if info.chunked then decodeWire lib.platform w maxBodyBytes
  else
    match info.contentLength with
    | some cl =>
      if maxBodyBytes < cl then .error (.failed (.tooLarge maxBodyBytes))
      else if cl ≤ w.bytes.length then .ok (w.bytes.take cl)
      else if w.broken then .error (.failed (.io "read body (content-length)".toList))
      else .error (.failed (.incompleteBody cl w.bytes.length))
    | none =>
      if maxBodyBytes < w.bytes.length then .error (.failed (.tooLarge maxBodyBytes))
      else if w.broken then .error (.failed (.io "read body (eof)".toList))
      else .ok w.bytes

/-- The reader over the plain bytes; nothing is parsed where there are none. -/
def readWire (w : Wire) : Except Halt ResponseBody :=
  if w.bytes = [] then
    if w.broken then .error (.failed (.io "read headers".toList))
    else .error (.failed (.http "connection closed before headers complete".toList))
  else
    (wireHead lib maxBodyBytes w (w.bytes.length + 1) readBufSize).bind fun info =>
      respond lib info (wireBody lib maxBodyBytes info ⟨w.bytes.drop info.headerLen, w.broken⟩)

end Reader

/-! ### The buffer does not show -/

section Buffer

variable {lib : Library} {maxBodyBytes fuel wireFuel bufLen cl : ℕ} {filled body : List UInt8}
  {stream : Stream UInt8}

/-- The bytes of the head so far and those to come. -/
def pending (filled : List UInt8) (stream : Stream UInt8) : Wire :=
  ⟨filled ++ stream.rest, stream.broken⟩

/-- What the reader of the head has left, where it is given as it is read. -/
def leftOver (r : HttpResponse × List UInt8 × Stream UInt8) : HttpResponse × Wire :=
  (r.1, pending r.2.1 r.2.2)

theorem take_of_verdict {w : Wire} (hpre : filled <+: w.bytes) (hlen : filled.length ≤ bufLen)
    (hverdict : parseResponseHeaders lib filled ≠ .ok none) :
    parseResponseHeaders lib (w.bytes.take bufLen) = parseResponseHeaders lib filled := by
  refine parseResponseHeaders_prefix ?_ hverdict
  rw [prefix_iff_eq_take.1 hpre]
  exact take_prefix_take_left hlen

theorem readHead_of_full (hfull : bufLen ≤ filled.length) (hlarge : ¬ maxBodyBytes < bufLen * 2)
    (hfits : filled.length < bufLen * 2) :
    readHead lib maxBodyBytes (fuel + 1) bufLen filled stream =
      readHead lib maxBodyBytes (fuel + 1) (bufLen * 2) filled stream := by
  simp only [readHead, hfull, hlarge, not_le.2 hfits, and_false, false_and, if_true, if_false]

/-- The state of the loop: the bytes so far fit into the buffer and have no verdict yet, and the
fuel of both sides is enough. -/
structure Reading (lib : Library) (fuel wireFuel bufLen : ℕ) (filled : List UInt8)
    (stream : Stream UInt8) : Prop where
  fits : filled.length ≤ bufLen
  nonempty : filled ++ stream.rest ≠ []
  verdict : filled = [] ∨ parseResponseHeaders lib filled = .ok none
  loops : stream.rest.length < fuel
  positive : 0 < wireFuel
  enough : (filled ++ stream.rest).length + 1 < bufLen + wireFuel

/-- A read into a buffer that is not full. -/
theorem readHead_of_space (h : Reading lib (fuel + 1) wireFuel bufLen filled stream)
    (hspace : filled.length < bufLen)
    (ih : ∀ {filled stream}, Reading lib fuel wireFuel bufLen filled stream →
      (readHead lib maxBodyBytes fuel bufLen filled stream).map leftOver =
        (wireHead lib maxBodyBytes (pending filled stream) wireFuel bufLen).map
          fun info => (info, pending filled stream)) :
    (readHead lib maxBodyBytes (fuel + 1) bufLen filled stream).map leftOver =
      (wireHead lib maxBodyBytes (pending filled stream) wireFuel bufLen).map
        fun info => (info, pending filled stream) := by
  obtain ⟨k, rfl⟩ := Nat.exists_eq_add_one_of_ne_zero h.positive.ne'
  rw [readHead]
  simp only [not_le.2 hspace, false_and, if_false]
  rcases Stream.read_cases (Nat.sub_pos_of_lt hspace) stream with ⟨hrest, hend⟩ |
    ⟨block, stream', hblock, hne, hle, hrest, hbroken⟩
  · -- the end of the stream: there is no verdict on all the bytes
    have hnone : parseResponseHeaders lib filled = .ok none :=
      h.verdict.resolve_left fun hnil => h.nonempty (by simpa [hnil] using hrest)
    have hall : (pending filled stream).bytes.take bufLen = filled := by
      rw [pending, hrest, append_nil, take_of_length_le h.fits]
    have hshort : (pending filled stream).bytes.length < bufLen := by
      simpa [pending, hrest] using hspace
    rw [hend, wireHead, hall, hnone]
    simp only [if_pos hshort]
    cases hb : stream.broken <;> simp [pending, hb, Except.map]
  · have hpending : pending filled stream = pending (filled ++ block) stream' := by
      simp [pending, hrest, hbroken]
    have hlen : (filled ++ block).length ≤ bufLen := by
      rw [length_append]
      omega
    rw [hblock, hpending]
    simp only [if_neg hne]
    rcases hparse : parseResponseHeaders lib (filled ++ block) with error | ⟨_ | info⟩
    case ok.none =>
      have hblockPos : 0 < block.length := length_pos_iff.2 hne
      have hlength := congrArg length hrest
      have hfuel := h.loops
      have henough := h.enough
      simp only [length_append] at hlength henough
      refine ih ⟨hlen, by simp [hne], .inr hparse, by omega, h.positive, ?_⟩
      simp only [length_append]
      omega
    all_goals
      rw [wireHead, take_of_verdict (prefix_append _ _) hlen (by rw [hparse]; simp), hparse]
      rfl

/-- **The head, by the reads.**  The next read makes a verdict on the bytes so far, or the buffer is
full, and then these are the bytes that are parsed at its length. -/
theorem readHead_eq (maxBodyBytes : ℕ) (h : Reading lib fuel wireFuel bufLen filled stream)
    (hbuf : 0 < bufLen) :
    (readHead lib maxBodyBytes fuel bufLen filled stream).map leftOver =
      (wireHead lib maxBodyBytes (pending filled stream) wireFuel bufLen).map
        fun info => (info, pending filled stream) := by
  induction fuel generalizing bufLen wireFuel filled stream with
  | zero => exact absurd h.loops (Nat.not_lt_zero _)
  | succ fuel ih =>
    by_cases hfull : bufLen ≤ filled.length
    · -- the bytes of the buffer have no verdict, and it grows or is too large
      obtain ⟨k, rfl⟩ := Nat.exists_eq_add_one_of_ne_zero h.positive.ne'
      have hlen : filled.length = bufLen := le_antisymm h.fits hfull
      have htake : (pending filled stream).bytes.take bufLen = filled := by
        rw [pending, ← hlen, take_left]
      have hnone : parseResponseHeaders lib filled = .ok none :=
        h.verdict.resolve_left (ne_nil_of_length_pos (by omega))
      have hlong : ¬ (pending filled stream).bytes.length < bufLen := by
        simp only [pending, length_append]
        omega
      have henough := h.enough
      rw [wireHead, htake, hnone]
      simp only [if_neg hlong]
      by_cases hlarge : maxBodyBytes < bufLen * 2
      · rw [readHead, if_pos ⟨hfull, hlarge⟩, if_pos hlarge]
        rfl
      · rw [readHead_of_full hfull hlarge (by omega), if_neg hlarge]
        simp only [length_append] at henough
        exact readHead_of_space ⟨by omega, h.nonempty, h.verdict, h.loops, by omega,
          by simp only [length_append]; omega⟩ (by omega) fun hr => ih hr (by omega)
    · exact readHead_of_space h (not_le.1 hfull) fun hr => ih hr hbuf

theorem headerLen_le_of_readHead {info : HttpResponse} {buf : List UInt8} {stream' : Stream UInt8}
    (h : readHead lib maxBodyBytes fuel bufLen filled stream = .ok (info, buf, stream')) :
    info.headerLen ≤ buf.length := by
  induction fuel generalizing bufLen filled stream with
  | zero => cases h
  | succ fuel ih =>
    simp only [readHead] at h
    repeat' split at h
    on_goal 5 =>
      next hparse =>
      cases h
      exact headerLen_le hparse
    all_goals first | cases h | exact ih h

theorem readUpTo_eq (hbody : body.length ≤ cl) (hfuel : stream.rest.length < fuel) :
    readUpTo cl fuel body stream =
      if cl ≤ (body ++ stream.rest).length then .ok ((body ++ stream.rest).take cl)
      else if stream.broken then .error (.failed (.io "read body (content-length)".toList))
      else .error (.failed (.incompleteBody cl (body ++ stream.rest).length)) := by
  induction fuel generalizing body stream with
  | zero => omega
  | succ fuel ih =>
    rw [readUpTo]
    by_cases hlt : body.length < cl
    · have hpos : 0 < min readBufSize (cl - body.length) :=
        lt_min (by decide) (Nat.sub_pos_of_lt hlt)
      rw [if_pos hlt]
      rcases Stream.read_cases hpos stream with ⟨hrest, hend⟩ |
        ⟨block, stream', hblock, hne, hle, hrest, hbroken⟩
      · rw [hend, hrest, append_nil, if_neg (not_le.2 hlt)]
        cases stream.broken <;> simp
      · have hlength := congrArg length hrest
        have hblockPos : 0 < block.length := length_pos_iff.2 hne
        have hle' : block.length ≤ cl - body.length := hle.trans (min_le_right _ _)
        simp only [length_append] at hlength
        rw [hblock]
        simp only [if_neg hne]
        rw [ih (by simp only [length_append]; omega) (by omega), hrest, hbroken,
          append_assoc]
    · obtain rfl : cl = body.length := by omega
      simp

theorem readToEnd_eq (hbody : body.length ≤ maxBodyBytes) (hfuel : stream.rest.length < fuel) :
    readToEnd maxBodyBytes fuel body stream =
      if maxBodyBytes < (body ++ stream.rest).length then .error (.failed (.tooLarge maxBodyBytes))
      else if stream.broken then .error (.failed (.io "read body (eof)".toList))
      else .ok (body ++ stream.rest) := by
  induction fuel generalizing body stream with
  | zero => omega
  | succ fuel ih =>
    rw [readToEnd]
    rcases Stream.read_cases (show 0 < readBufSize by decide) stream with ⟨hrest, hend⟩ | ⟨block,
      stream', hblock, hne, -, hrest, hbroken⟩
    · rw [hend, hrest, append_nil, if_neg (not_lt.2 hbody)]
      cases stream.broken <;> simp
    · have hlength := congrArg length hrest
      have hblockPos : 0 < block.length := length_pos_iff.2 hne
      simp only [length_append] at hlength
      rw [hblock]
      simp only [if_neg hne]
      by_cases hlarge : maxBodyBytes < (body ++ block).length
      · rw [if_pos hlarge, if_pos (by simp only [length_append] at hlarge ⊢; omega)]
      · rw [if_neg hlarge, ih (not_lt.1 hlarge) (by omega), hrest, hbroken, append_assoc]

/-- **The body is that of the bytes behind the head**, whichever part of it is in the buffer. -/
theorem readBody_eq (info : HttpResponse) (body : List UInt8) (stream : Stream UInt8) :
    readBody lib maxBodyBytes info body stream =
      wireBody lib maxBodyBytes info (pending body stream) := by
  unfold readBody wireBody
  cases info.chunked with
  | true =>
    rw [if_pos rfl, if_pos rfl, decodeChunkedBody_eq]
    rfl
  | false =>
    simp only [Bool.false_eq_true, if_false]
    cases info.contentLength with
    | some cl =>
      simp only
      by_cases hlarge : maxBodyBytes < cl
      · rw [if_pos hlarge, if_pos hlarge]
      rw [if_neg hlarge, if_neg hlarge, readUpTo_eq (by simp) (Nat.lt_succ_self _)]
      by_cases hlong : cl ≤ body.length
      · -- all of it is there, and more than that may be in the buffer
        simp [pending, hlong, Nat.le_add_right_of_le hlong, take_append]
      · rw [take_of_length_le (not_le.1 hlong).le]
        rfl
    | none =>
      simp only
      by_cases hlarge : maxBodyBytes < body.length
      · rw [if_pos hlarge, if_pos (by simp only [pending, length_append]; omega)]
      · rw [if_neg hlarge, readToEnd_eq (not_lt.1 hlarge) (Nat.lt_succ_self _)]
        rfl

/-- **What is read depends on the bytes only.** -/
theorem readHttpResponse_eq (lib : Library) (maxBodyBytes : ℕ) (stream : Stream UInt8) :
    readHttpResponse lib maxBodyBytes stream =
      readWire lib maxBodyBytes ⟨stream.rest, stream.broken⟩ := by
  by_cases hnil : stream.rest = []
  · have hread : stream.read readBufSize = if stream.broken then none else some ([], stream) := by
      rcases Stream.read_cases (show 0 < readBufSize by decide) stream with ⟨-, hread⟩ |
        ⟨block, stream', -, hne, -, hrest, -⟩
      · exact hread
      · exact absurd (append_eq_nil_iff.1 (hrest.symm.trans hnil)).1 hne
    have hspace : ¬ readBufSize ≤ 0 := by decide
    rw [readHttpResponse, readWire, if_pos hnil, readHead]
    simp only [length_nil, hspace, false_and, if_false, Nat.sub_zero, hread]
    cases stream.broken <;> rfl
  · have hreading : Reading lib (stream.rest.length + 1) (stream.rest.length + 1) readBufSize []
        stream :=
      ⟨by decide, by simpa using hnil, .inl rfl, Nat.lt_succ_self _, Nat.succ_pos _, by
        simp only [nil_append, readBufSize]
        omega⟩
    have hhead := readHead_eq maxBodyBytes hreading (by decide)
    change _ = (wireHead lib maxBodyBytes ⟨stream.rest, stream.broken⟩ _ _).map _ at hhead
    rw [readHttpResponse, readWire, if_neg hnil]
    simp only
    generalize wireHead lib maxBodyBytes ⟨stream.rest, stream.broken⟩ (stream.rest.length + 1)
      readBufSize = wire at hhead ⊢
    cases hread : readHead lib maxBodyBytes (stream.rest.length + 1) readBufSize [] stream with
    | error e =>
      rw [hread] at hhead
      cases wire <;> cases hhead
      rfl
    | ok r =>
      obtain ⟨info, buf, stream'⟩ := r
      rw [hread] at hhead
      cases wire with
      | error e => cases hhead
      | ok info' =>
        obtain ⟨rfl, hleft⟩ := Prod.mk.inj (Except.ok.inj hhead)
        have hbody : pending (buf.drop info.headerLen) stream' =
            ⟨stream.rest.drop info.headerLen, stream.broken⟩ := by
          have hbytes : buf ++ stream'.rest = stream.rest := congrArg Wire.bytes hleft
          have hbroken : stream'.broken = stream.broken := congrArg Wire.broken hleft
          rw [pending, ← hbytes, hbroken,
            drop_append_of_le_length (headerLen_le_of_readHead hread)]
        simp only [Except.bind, readBody_eq, hbody]

end Buffer

/-! ### What is returned -/

section Returned

variable {lib : Library} {maxBodyBytes : ℕ} {w : Wire} {info : HttpResponse}

/-- The head is read off some of the first bytes, or there is an error. -/
theorem wireHead_cases (lib : Library) (maxBodyBytes : ℕ) {fuel bufLen : ℕ} (hbuf : 0 < bufLen)
    (hfuel : 0 < fuel)
    (henough : w.bytes.length + 1 < bufLen + fuel) :
    (∃ e, wireHead lib maxBodyBytes w fuel bufLen = .error (.failed e)) ∨
      ∃ k info, parseResponseHeaders lib (w.bytes.take k) = .ok (some info) ∧
        wireHead lib maxBodyBytes w fuel bufLen = .ok info := by
  induction fuel generalizing bufLen with
  | zero => omega
  | succ fuel ih =>
    rw [wireHead]
    rcases hparse : parseResponseHeaders lib (w.bytes.take bufLen) with e | ⟨_ | info⟩
    · exact .inl ⟨e, rfl⟩
    · simp only
      split_ifs
      iterate 3 exact .inl ⟨_, rfl⟩
      exact ih (by omega) (by omega) (by omega)
    · exact .inr ⟨bufLen, info, hparse, rfl⟩

theorem readWire_cases (lib : Library) (maxBodyBytes : ℕ) (w : Wire) :
    (∃ e, readWire lib maxBodyBytes w = .error (.failed e)) ∨
      ∃ k info, parseResponseHeaders lib (w.bytes.take k) = .ok (some info) ∧
        readWire lib maxBodyBytes w =
          respond lib info (wireBody lib maxBodyBytes info ⟨w.bytes.drop info.headerLen, w.broken⟩)
    := by
  unfold readWire
  split_ifs
  · exact .inl ⟨_, rfl⟩
  · exact .inl ⟨_, rfl⟩
  · rcases wireHead_cases lib maxBodyBytes (w := w) (show 0 < readBufSize by decide)
      (Nat.succ_pos w.bytes.length) (by simp only [readBufSize]; omega) with ⟨e, he⟩ |
        ⟨k, info, hparse, hinfo⟩
    · exact .inl ⟨e, by rw [he]; rfl⟩
    · exact .inr ⟨k, info, hparse, by rw [hinfo]; rfl⟩

theorem info_unique {bytes : List UInt8} {j k : ℕ} {info₁ info₂ : HttpResponse}
    (h₁ : parseResponseHeaders lib (bytes.take j) = .ok (some info₁))
    (h₂ : parseResponseHeaders lib (bytes.take k) = .ok (some info₂)) : info₁ = info₂ := by
  have hsame {i l info₁ info₂} (hle : i ≤ l)
      (h₁ : parseResponseHeaders lib (bytes.take i) = .ok (some info₁))
      (h₂ : parseResponseHeaders lib (bytes.take l) = .ok (some info₂)) : info₁ = info₂ := by
    have hsame := parseResponseHeaders_prefix (take_prefix_take_left hle) (by rw [h₁]; simp)
    simpa [h₁, h₂] using hsame.symm
  exact (le_total j k).elim (hsame · h₁ h₂) fun hle => (hsame hle h₂ h₁).symm

theorem wireBody_ne_outOfFuel : wireBody lib maxBodyBytes info w ≠ .error .outOfFuel := by
  unfold wireBody
  split
  · exact decodeWire_ne_outOfFuel _ _ _
  · split <;> (repeat' split) <;> simp

theorem length_le_of_wireBody {body : List UInt8}
    (h : wireBody lib maxBodyBytes info w = .ok body) : body.length ≤ maxBodyBytes := by
  unfold wireBody at h
  split at h
  · exact length_le_of_decodeWire h
  split at h <;> split_ifs at h <;> cases h <;> grind

/-- A body of a given length is that long. -/
theorem take_of_wireBody {body : List UInt8} {n : ℕ} (hchunked : info.chunked = false)
    (hlength : info.contentLength = some n) (h : wireBody lib maxBodyBytes info w = .ok body) :
    n ≤ w.bytes.length ∧ body = w.bytes.take n := by
  simp only [wireBody, hchunked, hlength, Bool.false_eq_true, if_false] at h
  split_ifs at h with _ hle
  exact ⟨hle, (Except.ok.inj h).symm⟩

/-- What comes of a response: an error, a redirect, or the text of its body. -/
theorem respond_cases (lib : Library) (info : HttpResponse) {body : Except Halt (List UInt8)}
    (hbody : body ≠ .error .outOfFuel) :
    (∃ e, respond lib info body = .error (.failed e)) ∨
      (∃ loc, info.status ∈ [301, 302, 307, 308] ∧ info.location = some loc ∧
        respond lib info body = .ok (.redirect loc)) ∨
      ∃ text, body = .ok (Text.utf8 text) ∧ respond lib info body = .ok (.ok text) := by
  unfold respond
  split_ifs with hstatus
  · cases hloc : info.location with
    | none => exact .inl ⟨_, rfl⟩
    | some loc => exact .inr (.inl ⟨loc, hstatus, rfl, rfl⟩)
  · exact .inl ⟨_, rfl⟩
  · rcases body with ⟨e | -⟩ | body
    · exact .inl ⟨e, rfl⟩
    · exact absurd rfl hbody
    · simp only [Except.bind]
      cases htext : Text.fromUtf8 body with
      | none => exact .inl ⟨_, rfl⟩
      | some text => exact .inr (.inr ⟨text, by rw [Text.utf8_of_fromUtf8 htext], rfl⟩)

end Returned

/-- **A response is read as its bytes say.**  However the bytes arrive, the result is that of the
unsplit bytes; the reader always comes to a result; a text is within the limit; with a length in the
head, and no chunks, it is as many bytes behind the head; and where there are fewer of them, the
result is an error, unless the response is a redirect. -/
theorem http_response (lib : Library) (maxBodyBytes : ℕ) (stream : Stream UInt8) :
    readHttpResponse lib maxBodyBytes stream =
        readHttpResponse lib maxBodyBytes (Stream.single stream.rest stream.broken) ∧
      readHttpResponse lib maxBodyBytes stream ≠ .error .outOfFuel ∧
      (∀ text, readHttpResponse lib maxBodyBytes stream = .ok (.ok text) →
        (Text.utf8 text).length ≤ maxBodyBytes) ∧
      (∀ k info n, parseResponseHeaders lib (stream.rest.take k) = .ok (some info) →
        info.chunked = false → info.contentLength = some n →
        (∀ text, readHttpResponse lib maxBodyBytes stream = .ok (.ok text) →
          n ≤ (stream.rest.drop info.headerLen).length ∧
            Text.utf8 text = (stream.rest.drop info.headerLen).take n) ∧
        ((stream.rest.drop info.headerLen).length < n →
          (∃ e, readHttpResponse lib maxBodyBytes stream = .error (.failed e)) ∨
            ∃ loc, info.status ∈ [301, 302, 307, 308] ∧ info.location = some loc ∧
              readHttpResponse lib maxBodyBytes stream = .ok (.redirect loc))) := by
  have hsingle : readHttpResponse lib maxBodyBytes (Stream.single stream.rest stream.broken) =
      readWire lib maxBodyBytes ⟨stream.rest, stream.broken⟩ := by
    rw [readHttpResponse_eq, Stream.rest_single]
    rfl
  rw [hsingle, readHttpResponse_eq]
  refine ⟨rfl, ?_⟩
  rcases readWire_cases lib maxBodyBytes ⟨stream.rest, stream.broken⟩ with ⟨e, he⟩ |
    ⟨k, info, hparse, hread⟩
  · rw [he]
    exact ⟨by simp, by simp, fun _ _ _ _ _ _ => ⟨by simp, fun _ => .inl ⟨e, rfl⟩⟩⟩
  · rw [hread]
    rcases respond_cases lib info wireBody_ne_outOfFuel with ⟨e, he⟩ |
      ⟨loc, hstatus, hloc, hredirect⟩ | ⟨text, hbody, htext⟩
    · rw [he]
      exact ⟨by simp, by simp, fun _ _ _ _ _ _ => ⟨by simp, fun _ => .inl ⟨e, rfl⟩⟩⟩
    · rw [hredirect]
      refine ⟨by simp, by simp, fun j info' n hparse' _ _ => ⟨by simp, fun _ => .inr ?_⟩⟩
      rw [info_unique hparse' hparse]
      exact ⟨loc, hstatus, hloc, rfl⟩
    · rw [htext]
      refine ⟨by simp, ?_, fun j info' n hparse' hchunked hlength => ?_⟩
      · rintro _ ⟨⟩
        exact length_le_of_wireBody hbody
      · obtain rfl : info' = info := info_unique hparse' hparse
        obtain ⟨hle, htake⟩ := take_of_wireBody hchunked hlength hbody
        refine ⟨?_, fun hshort => absurd hle (not_le.2 hshort)⟩
        rintro _ ⟨⟩
        exact ⟨hle, htake⟩

/-- A parser that knows one head. -/
def oneHead (head : List UInt8) (code : ℕ) (headers : List (List Char × List UInt8)) :
    Httparse where
  parse p :=
    if head <+: p then .complete head.length (some code) headers
    else if p <+: head then .incomplete
    else .failed "invalid HTTP version".toList
  stable := by
    intro p q hp
    by_cases hhead : head <+: p
    · rw [if_pos (hhead.trans (List.prefix_append p q)), if_pos hhead]
    · rw [if_neg hhead] at hp ⊢
      have hclash : ¬ p <+: head := fun hpre => hp (if_pos hpre)
      have hhead' : ¬ head <+: p ++ q := by
        intro hpre
        rcases List.prefix_or_prefix_of_prefix hpre (List.prefix_append p q) with h | h
        · exact hhead h
        · exact hclash h
      have hclash' : ¬ p ++ q <+: head := fun hpre =>
        hclash ((List.prefix_append p q).trans hpre)
      rw [if_neg hhead', if_neg hclash, if_neg hclash']
  within := by
    intro p n code' headers' hp
    by_cases hhead : head <+: p
    · rw [if_pos hhead] at hp
      cases hp
      exact hhead.length_le
    · rw [if_neg hhead] at hp
      split at hp <;> cases hp

def oneHeadLibrary (head : List UInt8) (code : ℕ) (headers : List (List Char × List UInt8)) :
    Library :=
  ⟨platform64, oneHead head code headers, fun _ => [], fun _ => []⟩

/-- The answer where the whole of a short head is in the first buffer. -/
theorem readHttpResponse_oneHead {head : List UInt8} {code : ℕ}
    {headers : List (List Char × List UInt8)} {info : HttpResponse} (maxBodyBytes : ℕ)
    (stream : Stream UInt8) (body : List UInt8)
    (hhead : head ≠ []) (hrest : stream.rest = head ++ body)
      (hshort : stream.rest.length ≤ readBufSize)
    (hinfo : headers.foldl (noteHeader (oneHeadLibrary head code headers))
      ⟨code, none, none, false, head.length⟩ = info) :
    parseResponseHeaders (oneHeadLibrary head code headers) (stream.rest.take readBufSize) =
        .ok (some info) ∧
      readHttpResponse (oneHeadLibrary head code headers) maxBodyBytes stream =
        respond (oneHeadLibrary head code headers) info
          (wireBody (oneHeadLibrary head code headers) maxBodyBytes info ⟨body, stream.broken⟩)
    := by
  have hparse : parseResponseHeaders (oneHeadLibrary head code headers) (head ++ body) =
      .ok (some info) := by
    simp only [parseResponseHeaders, oneHeadLibrary, oneHead, if_pos (prefix_append head body)]
    exact hinfo ▸ rfl
  have htake : stream.rest.take readBufSize = head ++ body := by
    rw [take_of_length_le hshort, hrest]
  have hlen : info.headerLen = head.length := by rw [← hinfo, headerLen_foldl]
  refine ⟨by rw [htake, hparse], ?_⟩
  rw [readHttpResponse_eq, readWire, if_neg (by simp [hrest, hhead]), wireHead, htake, hparse]
  simp only [Except.bind, hlen, hrest, drop_left]

theorem noteHeader_location {lib : Library} {name : List Char} (resp : HttpResponse) (s : List Char)
    (hlocation : eqIgnoreAsciiCase name "location".toList = true)
    (hlength : eqIgnoreAsciiCase name "content-length".toList = false)
    (hcoding : eqIgnoreAsciiCase name "transfer-encoding".toList = false) :
    noteHeader lib resp (name, Text.utf8 s) = { resp with location := some s } := by
  rw [noteHeader, noteTransferEncoding, hcoding, noteContentLength, hlength, noteLocation,
    hlocation, Text.fromUtf8Lossy_utf8]
  rfl

theorem noteHeader_contentLength {lib : Library} {name : List Char} (resp : HttpResponse)
    (s : List Char) (hlocation : eqIgnoreAsciiCase name "location".toList = false)
    (hlength : eqIgnoreAsciiCase name "content-length".toList = true)
    (hcoding : eqIgnoreAsciiCase name "transfer-encoding".toList = false) :
    noteHeader lib resp (name, Text.utf8 s) =
      { resp with contentLength := Text.parseUnsigned lib.platform.usizeBound (trim s) } := by
  rw [noteHeader, noteTransferEncoding, hcoding, noteContentLength, hlength, noteLocation,
    hlocation]
  simp only [Text.fromUtf8_utf8]
  rfl

/-- A response of five bytes. -/
def helloHead : List UInt8 := Text.utf8 "HTTP/1.1 200 OK\r\nContent-Length: 5\r\n\r\n".toList

def helloHeaders : List (List Char × List UInt8) :=
  [("Content-Length".toList, Text.utf8 "5".toList)]

/-- The response in three pieces, with a byte too many. -/
def helloStream : Stream UInt8 :=
  ⟨[helloHead.take 20, helloHead.drop 20 ++ Text.utf8 "he".toList, Text.utf8 "llo!".toList],
    by decide, false⟩

theorem http_response_hello :
    readHttpResponse (oneHeadLibrary helloHead 200 helloHeaders) 5 helloStream =
        .ok (.ok "hello".toList) ∧
      Text.utf8 "hello".toList = (helloStream.rest.drop helloHead.length).take 5 := by
  have hinfo : helloHeaders.foldl (noteHeader (oneHeadLibrary helloHead 200 helloHeaders))
      ⟨200, none, none, false, helloHead.length⟩ =
        ⟨200, none, some 5, false, helloHead.length⟩ := by
    rw [helloHeaders, List.foldl_cons, List.foldl_nil,
      noteHeader_contentLength _ _ (by decide) (by decide) (by decide)]
    rfl
  obtain ⟨hparse, hread⟩ := readHttpResponse_oneHead 5 helloStream (Text.utf8 "hello!".toList)
    (by decide) (by decide) (by decide) hinfo
  have htext : readHttpResponse (oneHeadLibrary helloHead 200 helloHeaders) 5 helloStream =
      .ok (.ok "hello".toList) := by
    have hbody : (Text.utf8 "hello!".toList).take 5 = Text.utf8 "hello".toList := by decide
    have hbody' : wireBody (oneHeadLibrary helloHead 200 helloHeaders) 5
        ⟨200, none, some 5, false, helloHead.length⟩
        ⟨Text.utf8 "hello!".toList, helloStream.broken⟩ = .ok (Text.utf8 "hello".toList) := by
      rw [← hbody]
      rfl
    rw [hread, hbody', respond]
    simp only [Except.bind, Text.fromUtf8_utf8]
    rfl
  exact ⟨htext, ((http_response _ 5 helloStream).2.2.2 _ _ 5 hparse rfl rfl).1 _ htext |>.2⟩

/-- A redirect with a length in its head and no body. -/
def movedHead : List UInt8 :=
  Text.utf8 "HTTP/1.1 302 Found\r\nLocation: https://a/\r\nContent-Length: 5\r\n\r\n".toList

def movedHeaders : List (List Char × List UInt8) :=
  [("Location".toList, Text.utf8 "https://a/".toList),
    ("Content-Length".toList, Text.utf8 "5".toList)]

theorem readHttpResponse_moved (maxBodyBytes : ℕ) :
    parseResponseHeaders (oneHeadLibrary movedHead 302 movedHeaders)
        ((Stream.single movedHead false).rest.take readBufSize) =
      .ok (some ⟨302, some "https://a/".toList, some 5, false, movedHead.length⟩) ∧
      readHttpResponse (oneHeadLibrary movedHead 302 movedHeaders) maxBodyBytes
        (Stream.single movedHead false) = .ok (.redirect "https://a/".toList) := by
  have hinfo : movedHeaders.foldl (noteHeader (oneHeadLibrary movedHead 302 movedHeaders))
      ⟨302, none, none, false, movedHead.length⟩ =
        ⟨302, some "https://a/".toList, some 5, false, movedHead.length⟩ := by
    rw [movedHeaders, foldl_cons, foldl_cons, foldl_nil,
      noteHeader_contentLength _ _ (by decide) (by decide) (by decide),
      noteHeader_location _ _ (by decide) (by decide) (by decide)]
    rfl
  exact readHttpResponse_oneHead maxBodyBytes (Stream.single movedHead false) [] (by decide)
    (by rw [Stream.rest_single, append_nil]) (by rw [Stream.rest_single]; decide) hinfo

/-- **The body of a redirect is not read**, and so it may be shorter than its length. -/
theorem redirect_with_short_body :
    parseResponseHeaders (oneHeadLibrary movedHead 302 movedHeaders) movedHead =
        .ok (some ⟨302, some "https://a/".toList, some 5, false, movedHead.length⟩) ∧
      readHttpResponse (oneHeadLibrary movedHead 302 movedHeaders) 5 (Stream.single movedHead false) =
        .ok (.redirect "https://a/".toList) := by
  obtain ⟨hparse, hread⟩ := readHttpResponse_moved 5
  rw [Stream.rest_single, List.take_of_length_le (by decide)] at hparse
  exact ⟨hparse, hread⟩

end Http
