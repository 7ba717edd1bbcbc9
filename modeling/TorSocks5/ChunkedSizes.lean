/-
**The size lines that the decoder of chunked bodies accepts.**

The coding has a number in hexadecimal digits before each chunk.  The decoder cuts the extensions
off the line, trims what is left and gives it to the parser of the standard library, which is more
lenient: it takes a plus sign before the digits.  So the lines of a body that is decoded are those
of the coding, but for that sign.
-/

import Mathlib
import TorSocks5.ChunkedCoding

set_option autoImplicit false

namespace Chunked

open Fragments

/-! ### Sizes -/

/-- What stands on a size line before the extensions, without the blanks around it. -/
def sizeText (line : List UInt8) : Option (List Char) :=
  (Text.fromUtf8 (line.takeWhile (· != semicolon))).map trim

def IsHexdig (c : Char) : Prop :=
  ('0' ≤ c ∧ c ≤ '9') ∨ ('A' ≤ c ∧ c ≤ 'F') ∨ ('a' ≤ c ∧ c ≤ 'f')

/-- One or more hexadecimal digits, and the number they spell. -/
structure Hexadecimal (text : List Char) (n : ℕ) : Prop where
  nonempty : text ≠ []
  digits : ∀ c ∈ text, IsHexdig c
  value : Text.hexValue text = some n

/-- A size as the coding has it. -/
def HexSize (line : List UInt8) (n : ℕ) : Prop :=
  ∃ text, sizeText line = some text ∧ Hexadecimal text n

/-- A size with a plus sign. -/
def SignedSize (line : List UInt8) (n : ℕ) : Prop :=
  ∃ text, sizeText line = some ('+' :: text) ∧ Hexadecimal text n

theorem isHexdig_of_hexDigit {c : Char} (h : (Text.hexDigit c).isSome = true) : IsHexdig c :=
  Text.hexDigit_range h

theorem hexadecimal_of_hexValue {text : List Char} {n : ℕ} (hne : text ≠ [])
    (h : Text.hexValue text = some n) : Hexadecimal text n :=
  ⟨hne, fun c hc => isHexdig_of_hexDigit (Text.hexDigit_of_hexValue h c hc), h⟩

theorem not_hexadecimal_plus (text : List Char) (n : ℕ) : ¬ Hexadecimal ('+' :: text) n := by
  intro h
  have hplus := h.digits '+' List.mem_cons_self
  revert hplus
  unfold IsHexdig
  decide

theorem SignedSize.not_hexSize {line : List UInt8} {n m : ℕ} (h : SignedSize line n) :
    ¬ HexSize line m := by
  obtain ⟨digits, hdigits, -⟩ := h
  rintro ⟨text, htext, hhex⟩
  obtain rfl : '+' :: digits = text := Option.some.inj (hdigits.symm.trans htext)
  exact not_hexadecimal_plus digits m hhex

theorem hexadecimal_of_parseHex {bound n : ℕ} {s : List Char} (h : Text.parseHex bound s = some n) :
    Hexadecimal s n ∨ ∃ digits, s = '+' :: digits ∧ Hexadecimal digits n := by
  unfold Text.parseHex at h
  simp only at h
  split_ifs at h with hne
  obtain ⟨hvalue, -⟩ := Option.filter_eq_some_iff.1 h
  cases hdrop : s.dropPrefix? ['+'] <;> rw [hdrop] at hne hvalue
  · exact .inl (hexadecimal_of_hexValue hne hvalue)
  · next digits =>
    obtain ⟨sign, hsign, hbeq⟩ := List.dropPrefix?_eq_some_iff.1 hdrop
    refine .inr ⟨digits, ?_, hexadecimal_of_hexValue hne hvalue⟩
    rw [hsign, eq_of_beq hbeq]
    rfl

/-- **The two forms of a size that is accepted.** -/
theorem size_of_chunkSize {platform : Platform} {line : List UInt8} {n : ℕ}
    (h : chunkSize platform line = .ok n) : HexSize line n ∨ SignedSize line n := by
  unfold chunkSize at h
  cases htext : Text.fromUtf8 (line.takeWhile (· != semicolon)) with
  | none =>
    rw [htext] at h
    cases h
  | some text =>
    rw [htext] at h
    simp only at h
    have hsize : sizeText line = some (trim text) := by rw [sizeText, htext, Option.map_some]
    cases hparse : Text.parseHex platform.usizeBound (trim text) with
    | none =>
      rw [hparse] at h
      cases h
    | some m =>
      rw [hparse] at h
      cases h
      rcases hexadecimal_of_parseHex hparse with hhex | ⟨digits, hsign, hhex⟩
      · exact .inl ⟨trim text, hsize, hhex⟩
      · exact .inr ⟨digits, by rw [hsize, hsign], hhex⟩

/-! ### What is consumed -/

/-- A size line, and the data after it. -/
structure Sized where
  line : List UInt8
  data : List UInt8

/-- The size lines and the data that the decoder takes off some bytes, up to the trailers. -/
inductive Consumes (platform : Platform) : Wire → List Sized → Wire → Prop
  | last {w w' : Wire} {line : List UInt8}
      (hline : Wire.readLine maxSizeLine "chunk size line".toList w = .ok (line, w'))
      (hsize : chunkSize platform line = .ok 0) : Consumes platform w [⟨line, []⟩] w'
  | chunk {w w₁ w₂ w₃ w' : Wire} {line data : List UInt8} {n : ℕ} {rest : List Sized}
      (hline : Wire.readLine maxSizeLine "chunk size line".toList w = .ok (line, w₁))
      (hsize : chunkSize platform line = .ok n) (hn : n ≠ 0)
      (hdata : Wire.readExactInto n w₁ = .ok (data, w₂))
      (hsep : Wire.readExactInto 2 w₂ = .ok ([cr, lf], w₃))
      (hrest : Consumes platform w₃ rest w') : Consumes platform w (⟨line, data⟩ :: rest) w'

section Consumes

variable {platform : Platform} {w w' w₁ : Wire} {chunks chunks₁ : List Sized}

/-- The bytes determine what is consumed. -/
theorem Consumes.unique (h : Consumes platform w chunks w') (h₁ : Consumes platform w chunks₁ w₁) :
    chunks₁ = chunks := by
  induction h generalizing chunks₁ with
  | last hline hsize =>
    cases h₁ with
    | last hline₁ hsize₁ =>
      cases hline.symm.trans hline₁
      rfl
    | chunk hline₁ hsize₁ hn =>
      cases hline.symm.trans hline₁
      cases hsize.symm.trans hsize₁
      exact absurd rfl hn
  | chunk hline hsize hn hdata hsep hrest ih =>
    cases h₁ with
    | last hline₁ hsize₁ =>
      cases hline.symm.trans hline₁
      cases hsize.symm.trans hsize₁
      exact absurd rfl hn
    | chunk hline₁ hsize₁ hn₁ hdata₁ hsep₁ hrest₁ =>
      cases hline.symm.trans hline₁
      cases hsize.symm.trans hsize₁
      cases hdata.symm.trans hdata₁
      cases hsep.symm.trans hsep₁
      rw [ih hrest₁]

theorem length_of_readExactInto {n : ℕ} {data : List UInt8}
    (h : Wire.readExactInto n w = .ok (data, w')) : data.length = n := by
  have hyields := yields_readExactInto (n := n) (w := w)
  rw [Yields, h] at hyields
  exact hyields.1

/-- Each chunk has the length of its size line. -/
theorem Consumes.sized (h : Consumes platform w chunks w') :
    ∀ p ∈ chunks, chunkSize platform p.line = .ok p.data.length := by
  induction h with
  | last hline hsize => exact List.forall_mem_singleton.2 hsize
  | chunk hline hsize hn hdata hsep hrest ih =>
    exact List.forall_mem_cons.2 ⟨length_of_readExactInto hdata ▸ hsize, ih⟩

/-- **A body that is decoded is the data that was consumed.** -/
theorem consumes_of_decodeLoop {maxBodyBytes fuel : ℕ} {body body' : List UInt8}
    (h : decodeLoop wireReader platform maxBodyBytes fuel body w = .ok (body', w')) :
    ∃ chunks w₁, Consumes platform w chunks w₁ ∧ body' = body ++ chunks.flatMap Sized.data := by
  induction fuel generalizing body w with
  | zero => cases h
  | succ fuel ih =>
    obtain ⟨line, w₁, hline, h⟩ := exists_of_bind_ok h
    cases hsize : chunkSize platform line with
    | error error =>
      rw [hsize] at h
      cases h
    | ok n =>
      rw [hsize] at h
      simp only at h
      split_ifs at h with hn hlong hbig
      · -- the last chunk: the trailers are drained, and the body is returned as it is
        obtain ⟨u, w₂, -, h⟩ := exists_of_bind_ok h
        cases h
        exact ⟨[⟨line, []⟩], w₁, .last hline (hn ▸ hsize), by simp⟩
      · cases h
      · cases h
      · obtain ⟨data, w₂, hdata, h⟩ := exists_of_bind_ok h
        obtain ⟨sep, w₃, hsep, h⟩ := exists_of_bind_ok h
        split at h
        · next hcrlf =>
          subst hcrlf
          obtain ⟨chunks, w₄, hchunks, rfl⟩ := ih h
          exact ⟨⟨line, data⟩ :: chunks, w₄,
            .chunk hline hsize hn hdata (ok_of_mapError hsep) hchunks, by simp⟩
        · cases h

end Consumes

/-- **The sizes of a body that is decoded.**  The bytes determine the size lines that are consumed;
the body is the data after them; each line has hexadecimal digits that spell the length of its data,
with or without a plus sign before them; and so all of them are sizes of the coding if and only if
no line has the sign. -/
theorem chunk_sizes {platform : Platform} {stream : Stream UInt8} {preloaded body : List UInt8}
    {maxBodyBytes : ℕ} (h : decodeChunkedBody platform stream preloaded maxBodyBytes = .ok body) :
    ∃ chunks w', Consumes platform ⟨preloaded ++ stream.rest, stream.broken⟩ chunks w' ∧
      (∀ chunks₁ w₁, Consumes platform ⟨preloaded ++ stream.rest, stream.broken⟩ chunks₁ w₁ →
        chunks₁ = chunks) ∧
      body = chunks.flatMap Sized.data ∧
      (∀ p ∈ chunks, HexSize p.line p.data.length ∨ SignedSize p.line p.data.length) ∧
      ((∀ p ∈ chunks, HexSize p.line p.data.length) ↔
        ∀ p ∈ chunks, (sizeText p.line).bind List.head? ≠ some '+') := by
  rw [decodeChunkedBody_eq, decodeWire] at h
  cases hloop : decodeLoop wireReader platform maxBodyBytes ((preloaded ++ stream.rest).length + 1) []
      ⟨preloaded ++ stream.rest, stream.broken⟩ with
  | error e =>
    simp only [hloop] at h
    cases h
  | ok r =>
    simp only [hloop] at h
    cases h
    obtain ⟨chunks, w', hchunks, hbody⟩ := consumes_of_decodeLoop hloop
    have hforms : ∀ p ∈ chunks, HexSize p.line p.data.length ∨ SignedSize p.line p.data.length :=
      fun p hp => size_of_chunkSize (hchunks.sized p hp)
    refine ⟨chunks, w', hchunks, fun _ _ => hchunks.unique, by simpa using hbody, hforms, ?_, ?_⟩
    · intro hhex p hp hsign
      obtain ⟨text, htext, hdigits⟩ := hhex p hp
      rw [htext, Option.bind_some] at hsign
      obtain ⟨digits, rfl⟩ := List.head?_eq_some_iff.1 hsign
      exact not_hexadecimal_plus digits _ hdigits
    · intro hplain p hp
      rcases hforms p hp with hhex | ⟨digits, hsign, -⟩
      · exact hhex
      · exact absurd (by rw [hsign]; rfl) (hplain p hp)

theorem chunk_sizes_hello : ∃ chunks w', Consumes platform64 ⟨helloCoding.bytes, false⟩ chunks w' ∧
    [104, 101, 108, 108, 111] = chunks.flatMap Sized.data := by
  have hdecode : decodeChunkedBody platform64 (Stream.single helloCoding.bytes false) [] 5 =
      .ok [104, 101, 108, 108, 111] := by
    rw [decodeChunkedBody_eq, Stream.rest_single, List.nil_append,
      ← List.append_nil helloCoding.bytes]
    exact coding_of_withinLimits ⟨by decide, by decide, by decide, by decide, by decide⟩ (by decide)
      [] false
  obtain ⟨chunks, w', hchunks, -, hbody, -⟩ := chunk_sizes hdecode
  rw [Stream.rest_single, List.nil_append] at hchunks
  exact ⟨chunks, w', hchunks, hbody⟩

/-- The body `hello` in one chunk, with a plus sign before its size. -/
def signedHello : List UInt8 :=
  [43, 53] ++ cr :: lf :: ([104, 101, 108, 108, 111] ++ ([cr, lf] ++ [48, cr, lf, cr, lf]))

/-- **A sign is accepted**, and a size with a sign is no size of the coding. -/
theorem signed_size_accepted :
    decodeChunkedBody platform64 (Stream.single signedHello false) [] 5 =
        .ok [104, 101, 108, 108, 111] ∧
      (∃ w w', Consumes platform64 ⟨signedHello, false⟩ [⟨[43, 53], [104, 101, 108, 108, 111]⟩, w] w') ∧
      ∀ n, ¬ HexSize [43, 53] n := by
  have htext : Text.fromUtf8 [43, 53] = some ['+', '5'] := Text.fromUtf8_utf8 ['+', '5']
  have hsize : chunkSize platform64 [43, 53] = .ok 5 := by
    have htake : ([43, 53] : List UInt8).takeWhile (· != semicolon) = [43, 53] := by decide
    simp only [chunkSize, htake, htext]
    decide
  have hzero : chunkSize platform64 [48] = .ok 0 :=
    (zeroLine [] (.inl rfl) (by decide)).chunkSize_bytes (by decide)
  have hsigned : SignedSize [43, 53] 5 := by
    refine ⟨['5'], ?_, hexadecimal_of_hexValue (by decide) (by decide)⟩
    have htake : ([43, 53] : List UInt8).takeWhile (· != semicolon) = [43, 53] := by decide
    rw [sizeText, htake, htext]
    decide
  refine ⟨?_, ⟨⟨[48], []⟩, ⟨[cr, lf], false⟩, ?_⟩, fun n => hsigned.not_hexSize⟩
  · have hlast : ([48, cr, lf, cr, lf] : List UInt8) =
        (zeroLine [] (.inl rfl) (by decide)).bytes ++ cr :: lf :: (trailerBytes [] ++ [cr, lf]) :=
      rfl
    rw [decodeChunkedBody_eq, Stream.rest_single, List.nil_append, decodeWire]
    simp only [signedHello, List.length_append, List.length_cons, List.length_nil]
    rw [decodeLoop_sized (by decide) (by decide) hsize (by decide) (by decide) (by decide), hlast,
      decodeLoop_last rfl (by decide) (by decide),
      drainTrailers_trailers (by simp) (by decide) (Nat.zero_le _)]
    rfl
  · exact .chunk rfl hsize (by decide) rfl rfl (.last rfl hzero)

end Chunked
