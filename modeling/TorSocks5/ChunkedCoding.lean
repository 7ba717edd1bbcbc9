/-
**The chunked transfer coding, and what the decoder makes of it.**

The coding of RFC 9112: every chunk has its size in hexadecimal digits, with any extensions after a
semicolon, on a line of its own; a chunk of size zero ends the body, and trailer lines up to an
empty one end the message.
-/

import Mathlib
import TorSocks5.ChunkedBody

set_option autoImplicit false

namespace Chunked

open List

open Fragments

/-! ### The decoder ends -/

section Ends

variable {platform : Platform} {maxBodyBytes max n fuel : ℕ} {what : List Char} {w : Wire}

/-- The decoder has not run out of fuel. -/
def Proper (h : Halt) : Prop := h ≠ .outOfFuel

theorem yields_fail {σ α : Type} (error : FetchError) (s : σ) (Q : α → σ → Prop) :
    Yields Proper (fail error) s Q := by
  simp [Yields, fail, Proper]

theorem yields_ended {α : Type} (message : List Char) (Q : α → Wire → Prop) :
    Yields Proper (Wire.ended message) w Q := by
  unfold Yields Wire.ended
  cases w.broken <;> simp [framing, fail, Proper]

theorem yields_readLine :
    Yields Proper (Wire.readLine max what) w fun _ w' => w'.bytes.length < w.bytes.length := by
  by_cases hlong : max < (w.bytes.takeWhile (· != lf)).length
  · exact (yields_fail _ w _).of_eq (by simp only [Wire.readLine, if_pos hlong]; rfl)
  · by_cases hend : (w.bytes.takeWhile (· != lf)).length < w.bytes.length
    · simp only [Yields, Wire.readLine, if_neg hlong, if_pos hend, length_drop]
      omega
    · exact (yields_ended _ _).of_eq (by simp only [Wire.readLine, if_neg hlong, if_neg hend]; rfl)

theorem yields_readExactInto :
    Yields Proper (Wire.readExactInto n) w fun data w' =>
      data.length = n ∧ w'.bytes.length ≤ w.bytes.length := by
  by_cases hle : n ≤ w.bytes.length
  · simp only [Yields, Wire.readExactInto, if_pos hle, length_take, length_drop]
    omega
  · exact (yields_ended _ _).of_eq (by simp only [Wire.readExactInto, if_neg hle]; rfl)

theorem Proper.closedBeforeCrlf {h : Halt} (hh : Proper h) : Proper (closedBeforeCrlf h) := by
  cases h with
  | outOfFuel => exact absurd rfl hh
  | failed error => cases error <;> simp [Chunked.closedBeforeCrlf, Proper]

theorem yields_separator :
    Yields Proper (mapError closedBeforeCrlf (Wire.readExactInto n)) w fun _ w' =>
      w'.bytes.length ≤ w.bytes.length := by
  have hread := yields_readExactInto (n := n) (w := w)
  unfold Yields at hread ⊢
  unfold mapError
  cases hr : Wire.readExactInto n w <;> rw [hr] at hread
  · exact Proper.closedBeforeCrlf hread
  · exact hread.2

theorem yields_drainTrailers {trailersTotal : ℕ} (hfuel : w.bytes.length < fuel) :
    Yields Proper (drainTrailers wireReader fuel trailersTotal) w fun _ _ => True := by
  induction fuel generalizing w trailersTotal with
  | zero => omega
  | succ fuel ih =>
    refine yields_readLine.bind fun t w' hless => ?_
    simp only
    split_ifs
    · exact yields_fail _ w' _
    · exact trivial
    · exact ih (by omega)

/-- The decoder ends, and keeps to the limit of the body. -/
theorem yields_decodeLoop {body : List UInt8} (hfuel : w.bytes.length < fuel)
    (hbody : body.length ≤ maxBodyBytes) :
    Yields Proper (decodeLoop wireReader platform maxBodyBytes fuel body) w fun body' _ =>
      body'.length ≤ maxBodyBytes := by
  induction fuel generalizing w body with
  | zero => omega
  | succ fuel ih =>
    refine yields_readLine.bind fun line w' hless => ?_
    cases chunkSize platform line with
    | error error => exact yields_fail error w' _
    | ok n =>
      simp only
      split_ifs
      · exact (yields_drainTrailers (by omega)).bind fun _ _ _ => hbody
      · exact yields_fail _ w' _
      · exact yields_fail _ w' _
      · refine yields_readExactInto.bind fun data w₁ ⟨hdata, hw₁⟩ => ?_
        refine yields_separator.bind fun sep w₂ hw₂ => ?_
        split
        · exact ih (by omega) (by simp only [length_append]; omega)
        · exact yields_fail _ w₂ _

theorem yields_decodeWire (platform : Platform) (w : Wire) (maxBodyBytes : ℕ) :
    Yields Proper (decodeLoop wireReader platform maxBodyBytes (w.bytes.length + 1) []) w
      fun body _ => body.length ≤ maxBodyBytes :=
  yields_decodeLoop (Nat.lt_succ_self _) (Nat.zero_le _)

theorem decodeWire_ne_outOfFuel (platform : Platform) (w : Wire) (maxBodyBytes : ℕ) :
    decodeWire platform w maxBodyBytes ≠ .error .outOfFuel := by
  intro hfuel
  exact (yields_decodeWire platform w maxBodyBytes).error hfuel rfl

theorem length_le_of_decodeWire {body : List UInt8}
    (h : decodeWire platform w maxBodyBytes = .ok body) : body.length ≤ maxBodyBytes := by
  exact (yields_decodeWire platform w maxBodyBytes).ok h

end Ends

/-! ### The coding -/

/-- A line with the size of a chunk: hexadecimal digits, blanks, and the extensions from the first
semicolon on. -/
structure SizeLine where
  digits : List Char
  blank : List Char
  ext : List UInt8
  size : ℕ
  nonempty : digits ≠ []
  hex : Text.hexValue digits = some size
  blanks : ∀ c ∈ blank, c = ' ' ∨ c = '\t'
  extended : ext = [] ∨ ext.head? = some semicolon
  oneLine : lf ∉ ext

def SizeLine.bytes (line : SizeLine) : List UInt8 :=
  Text.utf8 (line.digits ++ line.blank) ++ line.ext

/-- A chunk of the size that its line gives. -/
structure Chunk where
  line : SizeLine
  data : List UInt8
  nonempty : data ≠ []
  size : line.size = data.length

def Chunk.bytes (chunk : Chunk) : List UInt8 :=
  chunk.line.bytes ++ cr :: lf :: (chunk.data ++ [cr, lf])

/-- A body in the chunked coding. -/
structure Coding where
  chunks : List Chunk
  last : SizeLine
  terminal : last.size = 0
  trailers : List (List UInt8)
  trailerLines : ∀ t ∈ trailers, t ≠ [] ∧ lf ∉ t

/-- The trailer lines, each with its end. -/
def trailerBytes (trailers : List (List UInt8)) : List UInt8 := trailers.flatMap (· ++ [cr, lf])

namespace Coding

def bytes (coding : Coding) : List UInt8 :=
  coding.chunks.flatMap Chunk.bytes ++
    (coding.last.bytes ++ cr :: lf :: (trailerBytes coding.trailers ++ [cr, lf]))

def body (coding : Coding) : List UInt8 := coding.chunks.flatMap Chunk.data

theorem bytes_of_nil {coding : Coding} (h : coding.chunks = []) : coding.bytes =
    coding.last.bytes ++ cr :: lf :: (trailerBytes coding.trailers ++ [cr, lf]) := by
  simp [bytes, h]

/-- The bounds of the decoder: lines count with their carriage return, and the trailer section
counts with all its line ends. -/
structure WithinLimits (coding : Coding) (maxBodyBytes : ℕ) : Prop where
  chunkLines : ∀ chunk ∈ coding.chunks, chunk.line.bytes.length + 1 ≤ maxSizeLine
  lastLine : coding.last.bytes.length + 1 ≤ maxSizeLine
  trailerLines : ∀ t ∈ coding.trailers, t.length + 1 ≤ maxTrailerLine
  trailers : (trailerBytes coding.trailers).length + 2 ≤ maxTrailersTotal
  body : coding.body.length ≤ maxBodyBytes

end Coding

/-! ### Size lines -/

theorem ascii_of_hexDigit {c : Char} (hc : (Text.hexDigit c).isSome = true) :
    c.toNat < 128 ∧ c.toNat ≠ 10 ∧ c.toNat ≠ 59 ∧ isWhite c = false := by
  have hrange := Text.hexDigit_range hc
  exact ⟨by omega, by omega, by omega, isWhite_of_visible (by omega) (by omega)⟩

namespace SizeLine

variable (line : SizeLine)

theorem ascii : ∀ c ∈ line.digits ++ line.blank, c.toNat < 128 ∧ c.toNat ≠ 10 ∧ c.toNat ≠ 59 := by
  refine forall_mem_append.2 ⟨fun c hc => ?_, fun c hc => ?_⟩
  · obtain ⟨hlt, hlf, hsemi, -⟩ := ascii_of_hexDigit (Text.hexDigit_of_hexValue line.hex c hc)
    exact ⟨hlt, hlf, hsemi⟩
  · rcases line.blanks c hc with rfl | rfl <;> decide

/-- The bytes before the extensions are neither line ends nor semicolons. -/
theorem plain : ∀ b ∈ Text.utf8 (line.digits ++ line.blank), b ≠ lf ∧ b ≠ semicolon := by
  intro b hb
  obtain ⟨c, hc, hbc⟩ := mem_flatMap.1 hb
  obtain ⟨hlt, hlf, hsemi⟩ := line.ascii c hc
  rw [Text.utf8EncodeChar_of_ascii hlt, mem_singleton] at hbc
  have hnat : c.toNat = b.toNat := by
    rw [hbc, UInt8.toNat_ofNat']
    omega
  rw [hnat] at hlf hsemi
  exact ⟨fun h => hlf (h ▸ rfl), fun h => hsemi (h ▸ rfl)⟩

theorem lf_notMem : lf ∉ line.bytes := by
  rw [bytes, mem_append, not_or]
  exact ⟨fun hmem => (line.plain lf hmem).1 rfl, line.oneLine⟩

theorem takeWhile_bytes :
    line.bytes.takeWhile (· != semicolon) = Text.utf8 (line.digits ++ line.blank) := by
  rw [bytes, takeWhile_append_of_pos (fun b hb => by simpa using (line.plain b hb).2)]
  rcases line.extended with hnil | hhead
  · simp [hnil]
  · obtain ⟨ext, hext⟩ := head?_eq_some_iff.1 hhead
    simp [hext]

theorem trim_digits : trim (line.digits ++ line.blank) = line.digits := by
  have hvisible : ∀ c ∈ line.digits, isWhite c = false := fun c hc =>
    (ascii_of_hexDigit (Text.hexDigit_of_hexValue line.hex c hc)).2.2.2
  have hblanks := line.blanks
  generalize line.blank = blank at hblanks
  induction blank using reverseRecOn with
  | nil =>
    rw [append_nil]
    exact trim_eq_self (fun c hc => hvisible c (mem_of_head? hc))
      (fun c hc => hvisible c (mem_of_getLast? hc))
  | append_singleton blank c ih =>
    have hwhite : isWhite c = true := by
      rcases hblanks c (by simp) with rfl | rfl <;> decide
    rw [← append_assoc, trim_append_white hwhite]
    exact ih fun d hd => hblanks d (by simp [hd])

theorem chunkSize_bytes {platform : Platform} (hsize : line.size < platform.usizeBound) :
    chunkSize platform line.bytes = .ok line.size := by
  simp only [chunkSize, line.takeWhile_bytes, Text.fromUtf8_utf8, line.trim_digits,
    Text.parseHex_of_hexValue line.nonempty line.hex hsize]

end SizeLine

/-! ### What was coded is decoded -/

section Decodes

variable {platform : Platform} {maxBodyBytes max fuel trailersTotal : ℕ} {what : List Char}
  {body rest : List UInt8} {broken : Bool}

theorem readLine_crlf {line : List UInt8} (hlf : lf ∉ line) :
    Wire.readLine max what ⟨line ++ cr :: lf :: rest, broken⟩ =
      if max < line.length + 1 then framing (what ++ " too long".toList) ⟨[], broken⟩
      else .ok (line, ⟨rest, broken⟩) := by
  have hlf' : lf ∉ line ++ [cr] := by simp [hlf, show lf ≠ cr by decide]
  have hsplit : line ++ cr :: lf :: rest = (line ++ [cr]) ++ lf :: rest := by simp
  have hstrip : stripCr (line ++ [cr]) = line := by simp [stripCr]
  rw [hsplit, readLine_of_lf hlf', hstrip, length_append, length_singleton]

theorem readExactInto_append (data : List UInt8) :
    Wire.readExactInto data.length ⟨data ++ rest, broken⟩ = .ok (data, ⟨rest, broken⟩) := by
  simp [Wire.readExactInto]

theorem readExactInto_crlf : mapError closedBeforeCrlf (Wire.readExactInto 2)
    ⟨[cr, lf] ++ rest, broken⟩ = .ok ([cr, lf], ⟨rest, broken⟩) := by
  rw [mapError, show 2 = [cr, lf].length from rfl, readExactInto_append]
  rfl

/-- A line and the data of the size that is read off it. -/
theorem decodeLoop_sized {line data : List UInt8} (hlf : lf ∉ line)
    (hline : line.length + 1 ≤ maxSizeLine) (hsize : chunkSize platform line = .ok data.length)
    (hne : data ≠ []) (hbody : body.length + data.length ≤ maxBodyBytes)
    (husize : maxBodyBytes < platform.usizeBound) :
    decodeLoop wireReader platform maxBodyBytes (fuel + 1) body
        ⟨line ++ cr :: lf :: (data ++ ([cr, lf] ++ rest)), broken⟩ =
      decodeLoop wireReader platform maxBodyBytes fuel (body ++ data) ⟨rest, broken⟩ := by
  have hread : Wire.readLine maxSizeLine "chunk size line".toList
      ⟨line ++ cr :: lf :: (data ++ ([cr, lf] ++ rest)), broken⟩ =
      .ok (line, ⟨data ++ ([cr, lf] ++ rest), broken⟩) := by
    rw [readLine_crlf hlf, if_neg (by omega)]
  have hpos : data.length ≠ 0 := by simpa using hne
  rw [decodeLoop, wireReader]
  simp only
  rw [bind_of_ok hread, hsize]
  simp only [if_neg hpos, if_neg (show ¬ platform.usizeBound ≤ body.length + data.length by omega),
    if_neg (show ¬ maxBodyBytes < body.length + data.length by omega)]
  rw [bind_of_ok (readExactInto_append data), bind_of_ok readExactInto_crlf, if_pos rfl]

theorem decodeLoop_chunk {chunk : Chunk} (hline : chunk.line.bytes.length + 1 ≤ maxSizeLine)
    (hbody : body.length + chunk.data.length ≤ maxBodyBytes)
    (husize : maxBodyBytes < platform.usizeBound) :
    decodeLoop wireReader platform maxBodyBytes (fuel + 1) body ⟨chunk.bytes ++ rest, broken⟩ =
      decodeLoop wireReader platform maxBodyBytes fuel (body ++ chunk.data) ⟨rest, broken⟩ := by
  have hbytes : chunk.bytes ++ rest =
      chunk.line.bytes ++ cr :: lf :: (chunk.data ++ ([cr, lf] ++ rest)) := by
    simp [Chunk.bytes]
  have hsize : chunkSize platform chunk.line.bytes = .ok chunk.data.length := by
    rw [chunk.line.chunkSize_bytes (by rw [chunk.size]; omega), chunk.size]
  rw [hbytes, decodeLoop_sized chunk.line.lf_notMem hline hsize chunk.nonempty hbody husize]

theorem decodeLoop_chunks {chunks : List Chunk}
    (hlines : ∀ chunk ∈ chunks, chunk.line.bytes.length + 1 ≤ maxSizeLine)
    (hbody : body.length + (chunks.flatMap Chunk.data).length ≤ maxBodyBytes)
    (husize : maxBodyBytes < platform.usizeBound) :
    decodeLoop wireReader platform maxBodyBytes (fuel + chunks.length) body
        ⟨chunks.flatMap Chunk.bytes ++ rest, broken⟩ =
      decodeLoop wireReader platform maxBodyBytes fuel (body ++ chunks.flatMap Chunk.data)
        ⟨rest, broken⟩ := by
  induction chunks generalizing body with
  | nil => simp
  | cons chunk chunks ih =>
    rw [forall_mem_cons] at hlines
    simp only [flatMap_cons, length_append] at hbody
    rw [flatMap_cons, append_assoc, length_cons, ← Nat.add_assoc,
      decodeLoop_chunk hlines.1 (by omega) husize,
      ih hlines.2 (by simp only [length_append]; omega), flatMap_cons, append_assoc]

theorem drainTrailers_succ {t : List UInt8} (hlf : lf ∉ t) (hline : t.length + 1 ≤ maxTrailerLine) :
    drainTrailers wireReader (fuel + 1) trailersTotal ⟨t ++ cr :: lf :: rest, broken⟩ =
      if maxTrailersTotal < trailersTotal + (t.length + 2) then
        framing "trailer section too large".toList ⟨rest, broken⟩
      else if t = [] then .ok ((), ⟨rest, broken⟩)
      else drainTrailers wireReader fuel (trailersTotal + (t.length + 2)) ⟨rest, broken⟩ := by
  have hread : Wire.readLine maxTrailerLine "trailer line".toList ⟨t ++ cr :: lf :: rest, broken⟩ =
      .ok (t, ⟨rest, broken⟩) := by
    rw [readLine_crlf hlf, if_neg (by omega)]
  rw [drainTrailers, wireReader]
  simp only
  rw [bind_of_ok hread]
  split_ifs <;> rfl

theorem trailerBytes_cons (t : List UInt8) (trailers : List (List UInt8)) :
    trailerBytes (t :: trailers) = t ++ cr :: lf :: trailerBytes trailers := by
  simp [trailerBytes]

/-- A trailer section is read to its end, or to the line with which it becomes too large. -/
theorem drainTrailers_trailers {trailers : List (List UInt8)}
    (htrailers : ∀ t ∈ trailers, (t ≠ [] ∧ lf ∉ t) ∧ t.length + 1 ≤ maxTrailerLine)
    (hfuel : trailers.length < fuel) (htotal : trailersTotal ≤ maxTrailersTotal) :
    (drainTrailers wireReader fuel trailersTotal
        ⟨trailerBytes trailers ++ cr :: lf :: rest, broken⟩).map Prod.fst =
      if maxTrailersTotal < trailersTotal + (trailerBytes trailers).length + 2 then
        .error (.failed (.chunkedEncoding "trailer section too large".toList))
      else .ok () := by
  induction trailers generalizing fuel trailersTotal with
  | nil =>
    obtain ⟨fuel, rfl⟩ := Nat.exists_eq_add_one_of_ne_zero (Nat.ne_zero_of_lt hfuel)
    have hempty : trailerBytes [] ++ cr :: lf :: rest = [] ++ cr :: lf :: rest := rfl
    rw [hempty, drainTrailers_succ (by simp) (by decide), if_pos rfl]
    simp only [trailerBytes, flatMap_nil, length_nil, Nat.zero_add, Nat.add_zero]
    split <;> rfl
  | cons t trailers ih =>
    obtain ⟨fuel, rfl⟩ := Nat.exists_eq_add_one_of_ne_zero (Nat.ne_zero_of_lt hfuel)
    obtain ⟨⟨⟨hne, hlf⟩, hline⟩, htrailers⟩ := forall_mem_cons.1 htrailers
    have hbytes : trailerBytes (t :: trailers) ++ cr :: lf :: rest =
        t ++ cr :: lf :: (trailerBytes trailers ++ cr :: lf :: rest) := by
      simp [trailerBytes_cons]
    have hlength : (trailerBytes (t :: trailers)).length =
        t.length + 2 + (trailerBytes trailers).length := by
      simp only [trailerBytes_cons, length_append, length_cons]
      omega
    rw [hbytes, drainTrailers_succ hlf hline, hlength, if_neg hne]
    by_cases hlarge : maxTrailersTotal < trailersTotal + (t.length + 2)
    · rw [if_pos hlarge, if_pos (by omega)]
      rfl
    · rw [if_neg hlarge, ih htrailers (by simpa using hfuel) (by omega)]
      congr 2
      simp only [Nat.add_assoc]

theorem decodeLoop_last {last : SizeLine} (hterminal : last.size = 0)
    (hline : last.bytes.length + 1 ≤ maxSizeLine) (husize : 0 < platform.usizeBound) :
    (decodeLoop wireReader platform maxBodyBytes (fuel + 1) body
        ⟨last.bytes ++ cr :: lf :: rest, broken⟩).map Prod.fst =
      ((drainTrailers wireReader fuel 0 ⟨rest, broken⟩).map Prod.fst).map fun _ => body := by
  have hread : Wire.readLine maxSizeLine "chunk size line".toList
      ⟨last.bytes ++ cr :: lf :: rest, broken⟩ = .ok (last.bytes, ⟨rest, broken⟩) := by
    rw [readLine_crlf last.lf_notMem, if_neg (by omega)]
  have hsize : chunkSize platform last.bytes = .ok 0 := by
    rw [last.chunkSize_bytes (by omega), hterminal]
  rw [decodeLoop, wireReader]
  simp only
  rw [bind_of_ok hread, hsize]
  simp only [if_true]
  exact result_bind_pure body _

theorem length_chunks_le (chunks : List Chunk) :
    chunks.length ≤ (chunks.flatMap Chunk.bytes).length := by
  induction chunks with
  | nil => simp
  | cons chunk chunks ih =>
    simp only [length_cons, flatMap_cons, length_append, Chunk.bytes]
    omega

theorem length_trailers_le (trailers : List (List UInt8)) :
    trailers.length ≤ (trailerBytes trailers).length := by
  induction trailers with
  | nil => simp
  | cons t trailers ih =>
    simp only [trailerBytes_cons, length_cons, length_append]
    omega

/-- **What was coded is decoded**, if the trailer section is not too large. -/
theorem decodeWire_coding {coding : Coding}
    (hchunks : ∀ chunk ∈ coding.chunks, chunk.line.bytes.length + 1 ≤ maxSizeLine)
    (hlast : coding.last.bytes.length + 1 ≤ maxSizeLine)
    (htrailers : ∀ t ∈ coding.trailers, t.length + 1 ≤ maxTrailerLine)
    (hbody : coding.body.length ≤ maxBodyBytes) (husize : maxBodyBytes < platform.usizeBound) :
    decodeWire platform ⟨coding.bytes ++ rest, broken⟩ maxBodyBytes =
      if maxTrailersTotal < (trailerBytes coding.trailers).length + 2 then
        .error (.failed (.chunkedEncoding "trailer section too large".toList))
      else .ok coding.body := by
  have hbytes : coding.bytes ++ rest = coding.chunks.flatMap Chunk.bytes ++
      (coding.last.bytes ++ cr :: lf :: (trailerBytes coding.trailers ++ cr :: lf :: rest)) := by
    simp [Coding.bytes]
  have hlength := congrArg length hbytes
  simp only [length_append, length_cons] at hlength
  have hchunksLength := length_chunks_le coding.chunks
  have htrailersLength := length_trailers_le coding.trailers
  -- the lines are no more than the bytes
  obtain ⟨fuel, hfuel, hlines⟩ : ∃ fuel, (coding.bytes ++ rest).length + 1 =
      (fuel + 1) + coding.chunks.length ∧ coding.trailers.length < fuel :=
    ⟨(coding.bytes ++ rest).length - coding.chunks.length, by simp only [length_append]; omega⟩
  rw [decodeWire]
  simp only [hfuel]
  rw [hbytes, decodeLoop_chunks hchunks (by simpa [Coding.body] using hbody) husize,
    decodeLoop_last coding.terminal hlast (by omega),
    drainTrailers_trailers (fun t ht => ⟨coding.trailerLines t ht, htrailers t ht⟩) hlines
      (Nat.zero_le _), Nat.zero_add]
  split <;> rfl

end Decodes

/-- A size line that is too long. -/
theorem decodeWire_longLine {platform : Platform} {maxBodyBytes : ℕ} {line rest : List UInt8}
    {broken : Bool} (hlf : lf ∉ line) (hlong : maxSizeLine < line.length + 1) :
    decodeWire platform ⟨line ++ cr :: lf :: rest, broken⟩ maxBodyBytes =
      .error (.failed (.chunkedEncoding "chunk size line too long".toList)) := by
  have hread : Wire.readLine maxSizeLine "chunk size line".toList
      ⟨line ++ cr :: lf :: rest, broken⟩ =
      .error (.failed (.chunkedEncoding "chunk size line too long".toList)) :=
    (readLine_crlf hlf).trans (if_pos hlong)
  rw [decodeWire, decodeLoop, wireReader]
  simp only
  rw [bind_of_error hread]
  rfl

/-! ### The decoder -/

theorem coding_of_withinLimits {platform : Platform} {maxBodyBytes : ℕ} {coding : Coding}
    (h : coding.WithinLimits maxBodyBytes) (husize : maxBodyBytes < platform.usizeBound)
    (rest : List UInt8) (broken : Bool) :
    decodeWire platform ⟨coding.bytes ++ rest, broken⟩ maxBodyBytes = .ok coding.body := by
  rw [decodeWire_coding h.chunkLines h.lastLine h.trailerLines h.body husize,
    if_neg (not_lt.2 h.trailers)]

/-- **The decoder does not see how the bytes arrive.**  Its result is that of the unsplit bytes; it
always comes to a result; a body it returns is within the limit; and it decodes what is coded within
its bounds, whatever follows. -/
theorem chunked_decoding (platform : Platform) (maxBodyBytes : Fin platform.usizeBound)
    (stream : Stream UInt8) (preloaded : List UInt8) :
    decodeChunkedBody platform stream preloaded maxBodyBytes =
        decodeChunkedBody platform (Stream.single (preloaded ++ stream.rest) stream.broken) []
          maxBodyBytes ∧
      decodeChunkedBody platform stream preloaded maxBodyBytes ≠ .error .outOfFuel ∧
      (∀ body, decodeChunkedBody platform stream preloaded maxBodyBytes = .ok body →
        body.length ≤ maxBodyBytes) ∧
      (∀ (coding : Coding) rest, coding.WithinLimits maxBodyBytes →
        preloaded ++ stream.rest = coding.bytes ++ rest →
        decodeChunkedBody platform stream preloaded maxBodyBytes = .ok coding.body) := by
  refine ⟨?_, ?_, ?_, ?_⟩
  · rw [decodeChunkedBody_eq, decodeChunkedBody_eq, List.nil_append, Stream.rest_single]
    rfl
  · rw [decodeChunkedBody_eq]
    exact decodeWire_ne_outOfFuel _ _ _
  · intro body hbody
    rw [decodeChunkedBody_eq] at hbody
    exact length_le_of_decodeWire hbody
  · intro coding rest hlimits hbytes
    rw [decodeChunkedBody_eq, hbytes]
    exact coding_of_withinLimits hlimits maxBodyBytes.isLt rest _

def platform64 : Platform := ⟨2 ^ 64, id⟩

/-- The size line of the last chunk, with some extensions. -/
def zeroLine (ext : List UInt8) (hext : ext = [] ∨ ext.head? = some semicolon) (hlf : lf ∉ ext) :
    SizeLine :=
  ⟨['0'], [], ext, 0, by decide, by decide, by simp, hext, hlf⟩

/-- The body `hello` in one chunk. -/
def helloCoding : Coding where
  chunks := [⟨⟨['5'], [], [], 5, by decide, by decide, by simp, Or.inl rfl, by decide⟩,
    [104, 101, 108, 108, 111], by decide, rfl⟩]
  last := zeroLine [] (Or.inl rfl) (by decide)
  terminal := rfl
  trailers := []
  trailerLines := by simp

theorem chunked_decoding_hello :
    decodeChunkedBody platform64 ⟨[[108, 108], [111, 13, 10, 48, 13], [10, 13, 10]], by decide,
      false⟩
      [53, 13, 10, 104, 101] 5 = .ok [104, 101, 108, 108, 111] :=
  (chunked_decoding platform64 ⟨5, by decide⟩ _ _).2.2.2 helloCoding []
    ⟨by decide, by decide, by decide, by decide, by decide⟩ (by decide)

theorem lf_notMem_replicate (n : ℕ) : lf ∉ List.replicate n (97 : UInt8) := by
  intro hmem
  exact absurd (eq_of_mem_replicate hmem) (by decide)

theorem length_trailerBytes_replicate (n : ℕ) (t : List UInt8) :
    (trailerBytes (List.replicate n t)).length = n * (t.length + 2) := by
  simp [trailerBytes, length_flatMap]

/-- A last chunk whose line, without its end, has the length of the bound. -/
def longLineCoding : Coding where
  chunks := []
  last := zeroLine (semicolon :: List.replicate 1022 97) (Or.inr rfl) fun hmem =>
    (List.mem_cons.1 hmem).elim (absurd · (by decide)) (lf_notMem_replicate 1022)
  terminal := rfl
  trailers := []
  trailerLines := by simp

/-- Eight trailer lines of nearly the length of the bound. -/
def trailersCoding : Coding where
  chunks := []
  last := zeroLine [] (Or.inl rfl) (by decide)
  terminal := rfl
  trailers := List.replicate 8 (List.replicate 8190 97)
  trailerLines := by
    intro t ht
    rw [List.eq_of_mem_replicate ht]
    exact ⟨List.ne_nil_of_length_pos (by rw [List.length_replicate]; norm_num),
      lf_notMem_replicate 8190⟩

/-- **The bounds are tight**: a size line of the length of its bound is too long, since its carriage
return counts, and trailer lines within their bound make a section that is too large. -/
theorem bounds_are_tight :
    longLineCoding.last.bytes.length = maxSizeLine ∧
      decodeChunkedBody platform64 (Stream.single longLineCoding.bytes false) [] 0 =
        .error (.failed (.chunkedEncoding "chunk size line too long".toList)) ∧
      (∀ t ∈ trailersCoding.trailers, t.length + 1 ≤ maxTrailerLine) ∧
      decodeChunkedBody platform64 (Stream.single trailersCoding.bytes false) [] 0 =
        .error (.failed (.chunkedEncoding "trailer section too large".toList)) := by
  have hline : longLineCoding.last.bytes.length = maxSizeLine := by
    have hdigit : (Text.utf8 ['0']).length = 1 := by decide
    simp only [longLineCoding, zeroLine, SizeLine.bytes, List.append_nil, List.length_append,
      List.length_cons, List.length_replicate, hdigit]
    rfl
  have htrailer : ∀ t ∈ trailersCoding.trailers, t.length + 1 ≤ maxTrailerLine := by
    intro t ht
    rw [List.eq_of_mem_replicate ht, List.length_replicate]
    decide
  refine ⟨hline, ?_, htrailer, ?_⟩
  · rw [decodeChunkedBody_eq, Stream.rest_single, List.nil_append, Coding.bytes_of_nil rfl,
      decodeWire_longLine longLineCoding.last.lf_notMem (by rw [hline]; exact Nat.lt_succ_self _)]
  · have hlarge : maxTrailersTotal < (trailerBytes trailersCoding.trailers).length + 2 := by
      have htrailers : trailersCoding.trailers = List.replicate 8 (List.replicate 8190 97) := rfl
      rw [htrailers, length_trailerBytes_replicate, List.length_replicate]
      decide
    rw [decodeChunkedBody_eq, Stream.rest_single, List.nil_append,
      ← List.append_nil trailersCoding.bytes,
      decodeWire_coding (fun _ hmem => absurd hmem List.not_mem_nil) (by decide) htrailer
        (by decide) (by decide),
      if_pos hlarge]

end Chunked
