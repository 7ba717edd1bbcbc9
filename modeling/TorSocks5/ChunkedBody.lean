/-
**The decoder of chunked bodies.**

A body in the chunked transfer coding is a sequence of chunks, each with its size in a line before
it, a chunk of size zero, and trailer lines up to an empty one.  The decoder reads it off a stream;
some bytes have come with the head of the response already and are in a buffer.  Lines are looked
for in the buffer, which is refilled in blocks and compacted before each refill, while the data of a
chunk goes past it.
-/

import Mathlib
import TorSocks5.Fragments
import TorSocks5.Text

set_option autoImplicit false

namespace Chunked

open List

open Fragments

/-! ### Errors and bounds -/

inductive FetchError
  | invalidUrl (message : List Char)
  | torConnect (message : List Char)
  | resolve (message : List Char)
  | tls (message : List Char)
  | http (message : List Char)
  | non200 (message : List Char)
  | tooLarge (maxBytes : ℕ)
  | incompleteBody (expected got : ℕ)
  | chunkedEncoding (message : List Char)
  | tooManyRedirects
  | io (op : List Char)
  deriving DecidableEq

/-- How a decoder can fail to give a body; that it runs out of fuel is shown not to happen. -/
inductive Halt
  | failed (error : FetchError)
  | outOfFuel
  deriving DecidableEq

abbrev Decoder (σ : Type) := StateT σ (Except Halt)

def fail {σ α : Type} (error : FetchError) : Decoder σ α := fun _ => .error (.failed error)

def framing {σ α : Type} (message : List Char) : Decoder σ α := fail (.chunkedEncoding message)

def maxSizeLine : ℕ := 1024

def maxTrailerLine : ℕ := 8192

def maxTrailersTotal : ℕ := 64 * 1024

def lf : UInt8 := 10

def cr : UInt8 := 13

def semicolon : UInt8 := 59

/-- A line without the carriage return at its end. -/
def stripCr (line : List UInt8) : List UInt8 :=
  if line.getLast? = some cr then line.dropLast else line

/-! ### The reader with the buffer -/

structure ChunkedReader where
  stream : Stream UInt8
  pre : List UInt8
  prePos : ℕ

def ChunkedReader.new (stream : Stream UInt8) (pre : List UInt8) : ChunkedReader := ⟨stream, pre, 0⟩

def readStreamBlock (n : ℕ) : Decoder ChunkedReader (List UInt8) := fun rdr =>
  match rdr.stream.read n with
  | none => .error (.failed (.io "read chunked body".toList))
  | some (block, stream) => .ok (block, { rdr with stream := stream })

def readSome (n : ℕ) : Decoder ChunkedReader (List UInt8) := fun rdr =>
  if rdr.prePos < rdr.pre.length then
    let avail := min (rdr.pre.length - rdr.prePos) n
    .ok ((rdr.pre.drop rdr.prePos).take avail, { rdr with prePos := rdr.prePos + avail })
  else readStreamBlock n rdr

/-- The loop that fills `n` bytes. -/
def readExactLoop (n : ℕ) : ℕ → List UInt8 → Decoder ChunkedReader (List UInt8)
  | 0, _ => fun _ => .error .outOfFuel
  | fuel + 1, filled =>
    if filled.length < n then do
      let block ← readSome (n - filled.length)
      if block = [] then framing "connection closed mid-chunk".toList
      else readExactLoop n fuel (filled ++ block)
    else pure filled

def readExactInto (n : ℕ) : Decoder ChunkedReader (List UInt8) := readExactLoop n (n + 1) []

/-- The loop that looks for the end of a line, from `scanFrom` on. -/
def readLineLoop (max : ℕ) (what : List Char) : ℕ → ℕ → Decoder ChunkedReader (List UInt8)
  | 0, _ => fun _ => .error .outOfFuel
  | fuel + 1, scanFrom => fun rdr =>
    match (rdr.pre.drop scanFrom).findIdx? (· == lf) with
    | some off =>
      let nl := scanFrom + off
      if max < nl - rdr.prePos then framing (what ++ " too long".toList) rdr
      else
        .ok (stripCr ((rdr.pre.drop rdr.prePos).take (nl - rdr.prePos)),
          { rdr with prePos := nl + 1 })
    | none =>
      if max < rdr.pre.length - rdr.prePos then framing (what ++ " too long".toList) rdr
      else do
        let (block, rdr) ← readStreamBlock 4096 rdr
        if block = [] then
          framing ("connection closed while reading ".toList ++ what) rdr
        else
          -- the consumed part is dropped before the block is added, and the scan goes on where
          -- the block begins
          readLineLoop max what fuel (rdr.pre.length - rdr.prePos)
            { rdr with pre := rdr.pre.drop rdr.prePos ++ block, prePos := 0 }

def readLine (max : ℕ) (what : List Char) : Decoder ChunkedReader (List UInt8) := fun rdr =>
  let rdr := if rdr.pre.length ≤ rdr.prePos then { rdr with pre := [], prePos := 0 } else rdr
  readLineLoop max what (rdr.stream.rest.length + 1) rdr.prePos rdr

/-! ### The bytes to come -/

/-- The bytes to come, and whether the stream is broken after them. -/
structure Wire where
  bytes : List UInt8
  broken : Bool

namespace Wire

/-- What a read gives at the end of the bytes. -/
def ended {α : Type} (message : List Char) : Decoder Wire α := fun w =>
  if w.broken then .error (.failed (.io "read chunked body".toList)) else framing message w

def readExactInto (n : ℕ) : Decoder Wire (List UInt8) := fun w =>
  if n ≤ w.bytes.length then .ok (w.bytes.take n, { w with bytes := w.bytes.drop n })
  else ended "connection closed mid-chunk".toList w

def readLine (max : ℕ) (what : List Char) : Decoder Wire (List UInt8) := fun w =>
  let line := w.bytes.takeWhile (· != lf)
  if max < line.length then framing (what ++ " too long".toList) w
  else if line.length < w.bytes.length then
    .ok (stripCr line, { w with bytes := w.bytes.drop (line.length + 1) })
  else ended ("connection closed while reading ".toList ++ what) w

end Wire

/-- What is to come, from the buffer and from the stream. -/
def ChunkedReader.wire (rdr : ChunkedReader) : Wire :=
  ⟨rdr.pre.drop rdr.prePos ++ rdr.stream.rest, rdr.stream.broken⟩

/-! ### The buffer does not show -/

section Simulation

variable {n max fuel scanFrom : ℕ} {what : List Char} {rdr : ChunkedReader} {filled : List UInt8}

/-- What a read of some bytes can be. -/
theorem readSome_cases (hn : 0 < n) (rdr : ChunkedReader) :
    (rdr.wire.bytes = [] ∧ readSome n rdr =
        if rdr.wire.broken then .error (.failed (.io "read chunked body".toList)) else .ok ([], rdr)) ∨
      ∃ block rdr', readSome n rdr = .ok (block, rdr') ∧ block ≠ [] ∧ block.length ≤ n ∧
        rdr.wire.bytes = block ++ rdr'.wire.bytes ∧ rdr'.wire.broken = rdr.wire.broken := by
  by_cases hpre : rdr.prePos < rdr.pre.length
  · rw [readSome, if_pos hpre]
    refine .inr ⟨_, _, rfl, ?_, by simp, ?_, rfl⟩
    · simp only [ne_eq, take_eq_nil_iff, drop_eq_nil_iff]
      omega
    · simp only [ChunkedReader.wire, ← append_assoc, ← drop_drop, take_append_drop]
  · have hdrop : rdr.pre.drop rdr.prePos = [] := drop_eq_nil_of_le (not_lt.1 hpre)
    rw [readSome, if_neg hpre, readStreamBlock]
    rcases Stream.read_cases hn rdr.stream with ⟨hrest, hread⟩ | ⟨block, stream, hread, hne, hle,
      hrest, hbroken⟩ <;> rw [hread]
    · refine .inl ⟨by simp [ChunkedReader.wire, hdrop, hrest], ?_⟩
      cases hb : rdr.stream.broken <;> simp [ChunkedReader.wire, hb]
    · exact .inr ⟨block, _, rfl, hne, hle, by simp [ChunkedReader.wire, hdrop, hrest], hbroken⟩

theorem readExactLoop_eq (hfilled : filled.length ≤ n) (hfuel : n - filled.length < fuel) :
    (readExactLoop n fuel filled rdr).map (fun r => (r.1, r.2.wire)) =
      (Wire.readExactInto (n - filled.length) rdr.wire).map fun r => (filled ++ r.1, r.2) := by
  induction fuel generalizing filled rdr with
  | zero => omega
  | succ fuel ih =>
    by_cases hlt : filled.length < n
    · rw [readExactLoop, if_pos hlt]
      change (Except.bind (readSome (n - filled.length) rdr) fun r =>
        (if r.1 = [] then framing "connection closed mid-chunk".toList
          else readExactLoop n fuel (filled ++ r.1)) r.2).map _ = _
      rcases readSome_cases (Nat.sub_pos_of_lt hlt) rdr with ⟨hnil, hread⟩ | ⟨block, rdr', hread,
        hne, hle, hbytes, hbroken⟩ <;> rw [hread]
      · -- at the end
        have hshort : ¬ n - filled.length ≤ rdr.wire.bytes.length := by simp [hnil]; omega
        simp only [Wire.readExactInto, if_neg hshort, Wire.ended]
        cases rdr.wire.broken <;> rfl
      · have hlen : 0 < block.length := length_pos_iff.2 hne
        simp only [Except.bind, if_neg hne]
        rw [ih (by simp only [length_append]; omega) (by simp only [length_append]; omega),
          length_append, Nat.sub_add_eq]
        -- the same bytes, the first of them read already
        simp only [Wire.readExactInto, hbytes, length_append]
        by_cases hle' : n - filled.length - block.length ≤ rdr'.wire.bytes.length
        · rw [if_pos hle', if_pos (by omega)]
          simp [Except.map, take_append, drop_append, take_of_length_le hle,
            drop_eq_nil_of_le hle, hbroken]
        · rw [if_neg hle', if_neg (by omega)]
          simp only [Wire.ended, hbroken]
          cases rdr.wire.broken <;> rfl
    · rw [readExactLoop, if_neg hlt, Nat.sub_eq_zero_of_le (not_lt.1 hlt)]
      simp [Wire.readExactInto, pure, StateT.pure, Except.pure, Except.map]

theorem simulates_readExactInto (n : ℕ) :
    Simulates ChunkedReader.wire (readExactInto n) (Wire.readExactInto n) := by
  intro rdr
  rw [readExactInto, readExactLoop_eq (by simp) (by simp)]
  simp only [length_nil, Nat.sub_zero, nil_append]
  cases Wire.readExactInto n rdr.wire <;> rfl

/-- A line that is not too long, and one that ends within the bound, of bytes in two parts. -/
theorem takeWhile_append_of_lf {before : List UInt8} (hlf : lf ∉ before) (after : List UInt8) :
    (before ++ after).takeWhile (· != lf) = before ++ after.takeWhile (· != lf) :=
  takeWhile_append_of_pos fun b hb => by simpa using ne_of_mem_of_not_mem hb hlf

theorem readLine_of_lf {before after : List UInt8} (hlf : lf ∉ before) (broken : Bool) :
    Wire.readLine max what ⟨before ++ lf :: after, broken⟩ =
      if max < before.length then framing (what ++ " too long".toList) ⟨[], broken⟩
      else .ok (stripCr before, ⟨after, broken⟩) := by
  simp only [Wire.readLine, takeWhile_append_of_lf hlf]
  split_ifs <;> simp_all [drop_append]
  rfl

theorem readLine_of_long {before after : List UInt8} (hlf : lf ∉ before)
    (hlong : max < before.length) (broken : Bool) :
    Wire.readLine max what ⟨before ++ after, broken⟩ =
      framing (what ++ " too long".toList) ⟨[], broken⟩ := by
  simp only [Wire.readLine, takeWhile_append_of_lf hlf]
  rw [if_pos (by simp; omega)]
  rfl

theorem readLine_of_end {bytes : List UInt8} (hlf : lf ∉ bytes) (hshort : ¬ max < bytes.length)
    (broken : Bool) : Wire.readLine max what ⟨bytes, broken⟩ =
      Wire.ended ("connection closed while reading ".toList ++ what) ⟨bytes, broken⟩ := by
  have htake : bytes.takeWhile (· != lf) = bytes := by simpa using takeWhile_append_of_lf hlf []
  simp only [Wire.readLine, htake]
  rw [if_neg hshort, if_neg (lt_irrefl _)]

theorem exists_of_findIdx? {bytes : List UInt8} {off : ℕ}
    (hfind : bytes.findIdx? (· == lf) = some off) :
    ∃ before after, bytes = before ++ lf :: after ∧ lf ∉ before ∧ before.length = off := by
  obtain ⟨hoff, hlf, hbefore⟩ := findIdx?_eq_some_iff_getElem.1 hfind
  refine ⟨bytes.take off, bytes.drop (off + 1), ?_, fun hmem => ?_, ?_⟩
  · rw [← beq_iff_eq.1 hlf, ← drop_eq_getElem_cons hoff, take_append_drop]
  · obtain ⟨j, hj, heq⟩ := mem_take_iff_getElem.1 hmem
    exact hbefore j (by omega) (by simp [heq])
  · exact length_take_of_le hoff.le

/-- The loop over the blocks, by the blocks to come: what has been scanned has no end of a line. -/
theorem readLineLoop_eq (hle : rdr.prePos ≤ scanFrom) (hle' : scanFrom ≤ rdr.pre.length)
    (hscanned : lf ∉ (rdr.pre.drop rdr.prePos).take (scanFrom - rdr.prePos))
    (hfuel : rdr.stream.rest.length < fuel) :
    (readLineLoop max what fuel scanFrom rdr).map (fun r => (r.1, r.2.wire)) =
      Wire.readLine max what rdr.wire := by
  induction fuel generalizing rdr scanFrom with
  | zero => omega
  | succ fuel ih =>
    have hlen : ((rdr.pre.drop rdr.prePos).take (scanFrom - rdr.prePos)).length =
        scanFrom - rdr.prePos := by
      simp only [length_take, length_drop]
      omega
    have hkept := take_append_drop (scanFrom - rdr.prePos) (rdr.pre.drop rdr.prePos)
    rw [drop_drop, Nat.add_sub_cancel' hle] at hkept
    generalize (rdr.pre.drop rdr.prePos).take (scanFrom - rdr.prePos) = done at *
    cases hfind : (rdr.pre.drop scanFrom).findIdx? (· == lf) with
    | some off =>
      obtain ⟨before, after, hrest, hbefore, hoff⟩ := exists_of_findIdx? hfind
      have hwire : rdr.wire = ⟨(done ++ before) ++ lf :: (after ++ rdr.stream.rest),
          rdr.stream.broken⟩ := by
        simp [ChunkedReader.wire, ← hkept, hrest]
      have hline : scanFrom + off - rdr.prePos = (done ++ before).length := by
        simp only [length_append, hlen]
        omega
      have hdrop : rdr.pre.drop (scanFrom + off + 1) = after := by
        simp [Nat.add_assoc, ← drop_drop, hrest, drop_append, ← hoff]
      have htake : (rdr.pre.drop rdr.prePos).take (done ++ before).length = done ++ before := by
        rw [← hkept, hrest, ← append_assoc, take_left]
      rw [hwire, readLine_of_lf (by simp [hscanned, hbefore])]
      simp only [readLineLoop, hfind, hline, htake]
      split_ifs
      · rfl
      · simp only [Except.map, ChunkedReader.wire, hdrop]
    | none =>
      have hlf : lf ∉ rdr.pre.drop rdr.prePos := by
        rw [← hkept, mem_append, not_or]
        exact ⟨hscanned, fun hmem => by simpa using findIdx?_eq_none_iff.1 hfind lf hmem⟩
      simp only [readLineLoop, hfind]
      by_cases hlong : max < rdr.pre.length - rdr.prePos
      · rw [if_pos hlong, ChunkedReader.wire, readLine_of_long hlf (by simpa using hlong)]
        rfl
      · rw [if_neg hlong]
        rcases Stream.read_cases (show 0 < 4096 by norm_num) rdr.stream with ⟨hnil, hread⟩ |
          ⟨block, stream, hread, hne, _, hblock, hbroken⟩ <;> rw [readStreamBlock, hread]
        · -- the stream is at its end
          rw [ChunkedReader.wire, hnil, append_nil, readLine_of_end hlf (by simpa using hlong)]
          cases hb : rdr.stream.broken <;> simp [Wire.ended, framing, fail] <;> rfl
        · -- the block goes to the buffer, and nothing to come has changed
          have hpos : 0 < block.length := length_pos_iff.2 hne
          rw [hblock, length_append] at hfuel
          change (if block = [] then _ else readLineLoop max what fuel (rdr.pre.length - rdr.prePos)
            ⟨stream, rdr.pre.drop rdr.prePos ++ block, 0⟩).map _ = _
          rw [if_neg hne, ih (Nat.zero_le _) (by simp) (by simpa [take_append] using hlf)
            (by simp; omega)]
          simp [ChunkedReader.wire, hblock, hbroken]

theorem simulates_readLine (max : ℕ) (what : List Char) :
    Simulates ChunkedReader.wire (readLine max what) (Wire.readLine max what) := by
  intro rdr
  by_cases hdrained : rdr.pre.length ≤ rdr.prePos
  · -- the buffer is empty, and cleared
    have hwire : rdr.wire = ChunkedReader.wire ⟨rdr.stream, [], 0⟩ := by
      simp [ChunkedReader.wire, drop_eq_nil_of_le hdrained]
    simp only [readLine, if_pos hdrained]
    rw [readLineLoop_eq (by simp) (by simp) (by simp) (by simp), hwire]
  · simp only [readLine, if_neg hdrained]
    exact readLineLoop_eq (le_refl _) (by omega) (by simp) (by simp)

end Simulation

/-! ### The decoder -/

/-- What the decoder uses of the machine it runs on: the bound of its sizes, and how it prints a
text in quotes. -/
structure Platform where
  usizeBound : ℕ
  debug : List Char → List Char

/-- The size of a chunk, from its line without the extensions. -/
def chunkSize (platform : Platform) (line : List UInt8) : Except FetchError ℕ :=
  match Text.fromUtf8 (line.takeWhile (· != semicolon)) with
  | none => .error (.chunkedEncoding "chunk size is not ASCII".toList)
  | some digits =>
    let digits := trim digits
    match Text.parseHex platform.usizeBound digits with
    | none => .error (.chunkedEncoding ("invalid chunk size: ".toList ++ platform.debug digits))
    | some n => .ok n

/-- A reader of lines and of blocks. -/
structure Reader (σ : Type) where
  readLine : ℕ → List Char → Decoder σ (List UInt8)
  readExactInto : ℕ → Decoder σ (List UInt8)

def chunkedReader : Reader ChunkedReader := ⟨readLine, readExactInto⟩

def wireReader : Reader Wire := ⟨Wire.readLine, Wire.readExactInto⟩

/-- The trailer section, up to the empty line. -/
def drainTrailers {σ : Type} (rdr : Reader σ) : ℕ → ℕ → Decoder σ Unit
  | 0, _ => fun _ => .error .outOfFuel
  | fuel + 1, trailersTotal => do
      let t ← rdr.readLine maxTrailerLine "trailer line".toList
      let trailersTotal := trailersTotal + (t.length + 2)
      if maxTrailersTotal < trailersTotal then framing "trailer section too large".toList
      else if t = [] then pure ()
      else drainTrailers rdr fuel trailersTotal

/-- The end of the stream, where the line end after the data of a chunk should be. -/
def closedBeforeCrlf : Halt → Halt
  | .failed (.chunkedEncoding _) =>
    .failed (.chunkedEncoding "connection closed before CRLF after chunk data".toList)
  | other => other

/-- The loop over the chunks. -/
def decodeLoop {σ : Type} (rdr : Reader σ) (platform : Platform) (maxBodyBytes : ℕ) :
    ℕ → List UInt8 → Decoder σ (List UInt8)
  | 0, _ => fun _ => .error .outOfFuel
  | fuel + 1, body => do
      let line ← rdr.readLine maxSizeLine "chunk size line".toList
      match chunkSize platform line with
      | .error error => fail error
      | .ok n =>
        if n = 0 then do
          drainTrailers rdr fuel 0
          pure body
        else if platform.usizeBound ≤ body.length + n then fail (.tooLarge maxBodyBytes)
        else if maxBodyBytes < body.length + n then fail (.tooLarge maxBodyBytes)
        else do
          let data ← rdr.readExactInto n
          let sep ← mapError closedBeforeCrlf (rdr.readExactInto 2)
          if sep = [cr, lf] then decodeLoop rdr platform maxBodyBytes fuel (body ++ data)
          else framing "missing CRLF after chunk data".toList

def decodeChunkedBody (platform : Platform) (stream : Stream UInt8) (preloaded : List UInt8)
    (maxBodyBytes : ℕ) : Except Halt (List UInt8) :=
  (decodeLoop chunkedReader platform maxBodyBytes (preloaded.length + stream.rest.length + 1) []
    (ChunkedReader.new stream preloaded)).map Prod.fst

/-- The decoder over the plain bytes. -/
def decodeWire (platform : Platform) (w : Wire) (maxBodyBytes : ℕ) : Except Halt (List UInt8) :=
  (decodeLoop wireReader platform maxBodyBytes (w.bytes.length + 1) [] w).map Prod.fst

theorem simulates_drainTrailers (fuel trailersTotal : ℕ) :
    Simulates ChunkedReader.wire (drainTrailers chunkedReader fuel trailersTotal)
      (drainTrailers wireReader fuel trailersTotal) := by
  induction fuel generalizing trailersTotal with
  | zero => exact fun _ => rfl
  | succ fuel ih =>
    refine (simulates_readLine _ _).bind fun t => ?_
    simp only
    split_ifs
    · exact fun _ => rfl
    · exact simulates_pure ()
    · exact ih _

theorem simulates_decodeLoop (platform : Platform) (maxBodyBytes fuel : ℕ) (body : List UInt8) :
    Simulates ChunkedReader.wire (decodeLoop chunkedReader platform maxBodyBytes fuel body)
      (decodeLoop wireReader platform maxBodyBytes fuel body) := by
  induction fuel generalizing body with
  | zero => exact fun _ => rfl
  | succ fuel ih =>
    refine (simulates_readLine _ _).bind fun line => ?_
    cases chunkSize platform line with
    | error error => exact fun _ => rfl
    | ok n =>
      simp only
      split_ifs
      · exact (simulates_drainTrailers fuel 0).bind fun _ => simulates_pure body
      · exact fun _ => rfl
      · exact fun _ => rfl
      · refine (simulates_readExactInto n).bind fun data => ?_
        refine ((simulates_readExactInto 2).mapError closedBeforeCrlf).bind fun sep => ?_
        split
        · exact ih _
        · exact fun _ => rfl

/-- **What is decoded depends on the bytes only.** -/
theorem decodeChunkedBody_eq (platform : Platform) (stream : Stream UInt8)
    (preloaded : List UInt8) (maxBodyBytes : ℕ) :
    decodeChunkedBody platform stream preloaded maxBodyBytes =
      decodeWire platform ⟨preloaded ++ stream.rest, stream.broken⟩ maxBodyBytes := by
  rw [decodeChunkedBody, decodeWire, (simulates_decodeLoop platform maxBodyBytes _ []).result,
    length_append]
  rfl

end Chunked
