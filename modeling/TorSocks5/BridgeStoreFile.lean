/-
**The file of the bridge store.**

The file holds two lines for every entry: a comment with what is known of the bridge, as words of
the form `name=value`, and the bridge itself.  Source labels may hold anything, so the characters
that would end a word, a label or a line are written as `%` and two hexadecimal digits for each
byte.
-/

import Mathlib
import TorSocks5.BridgeStore

set_option autoImplicit false

namespace BridgeStore

open List

/-! ### What is not this program's -/

/-- The bridge lines, the ISO 8601 format of times, and what a lossy conversion makes of bytes that
are no text. -/
structure Library (B K : Type) extends BridgeFormat B K where
  usableForTor : B → Bool
  formatTime : ℤ → Option (List Char)
  parseTime : List Char → Option ℤ
  repair : List UInt8 → List Char

variable {B K : Type}

def formatIso (lib : Library B K) (t : ℤ) : List Char :=
  (lib.formatTime t).getD "0000-00-00T00:00:00Z".toList

/-- Times are formatted without white space and not as a dash, and read back. -/
structure Library.TimesSurvive (lib : Library B K) : Prop where
  parse : ∀ t, lib.parseTime (formatIso lib t) = some t
  plain : ∀ t, ∀ c ∈ formatIso lib t, isWhite c = false
  dash : ∀ t, formatIso lib t ≠ ['-']

/-- A bridge is displayed as one line, which is neither blank nor a comment, and read back. -/
def Library.LineSurvives (lib : Library B K) (bridge : B) : Prop :=
  lib.readLine (lib.display bridge) = some bridge ∧ '\n' ∉ lib.display bridge

/-! ### Labels -/

def hexUpper (n : ℕ) : Char := "0123456789ABCDEF".toList.getD n '0'

/-- `%` and the two digits of a byte. -/
def percentByte (b : UInt8) : List Char :=
  ['%', hexUpper (b.toNat / 16), hexUpper (b.toNat % 16)]

def encodeChar (c : Char) : List Char :=
  if c = '%' then "%25".toList
  else if c = ',' then "%2C".toList
  else if isWhite c then (String.utf8EncodeChar c).flatMap percentByte
  else [c]

def encodeSource (label : List Char) : List Char := label.flatMap encodeChar

/-- `to_digit(16)` of the character with this code. -/
def hexDigit (b : UInt8) : Option ℕ :=
  if 48 ≤ b.toNat ∧ b.toNat ≤ 57 then some (b.toNat - 48)
  else if 65 ≤ b.toNat ∧ b.toNat ≤ 70 then some (b.toNat - 55)
  else if 97 ≤ b.toNat ∧ b.toNat ≤ 102 then some (b.toNat - 87)
  else none

/-- `%` and two hexadecimal digits are a byte; any other byte stands for itself. -/
def percentDecode : List UInt8 → List UInt8
  | [] => []
  | b :: hi :: lo :: rest =>
    match b == 0x25, hexDigit hi, hexDigit lo with
    | true, some h, some l => UInt8.ofNat (h * 16 + l) :: percentDecode rest
    | _, _, _ => b :: percentDecode (hi :: lo :: rest)
  | b :: rest => b :: percentDecode rest

def decodeSource (lib : Library B K) (token : List Char) : List Char :=
  Text.fromUtf8Lossy lib.repair (percentDecode (Text.utf8 token))

theorem percentDecode_cons {b : UInt8} (h : b ≠ 0x25) (rest : List UInt8) :
    percentDecode (b :: rest) = b :: percentDecode rest := by
  match rest with
  | [] => rfl
  | [_] => rfl
  | hi :: lo :: rest => simp [percentDecode, h]

theorem percentDecode_append {bs : List UInt8} (h : ∀ b ∈ bs, b ≠ 0x25) (rest : List UInt8) :
    percentDecode (bs ++ rest) = bs ++ percentDecode rest := by
  induction bs <;> simp_all [percentDecode_cons]

theorem percentDecode_triple {hi lo : UInt8} {h l : ℕ} (hhi : hexDigit hi = some h)
    (hlo : hexDigit lo = some l) (rest : List UInt8) :
    percentDecode (0x25 :: hi :: lo :: rest) = UInt8.ofNat (h * 16 + l) :: percentDecode rest := by
  simp [percentDecode, hhi, hlo]

variable {n : ℕ} {c : Char} {m' m : Meta} {v : List Char} {e : Entry B} {s : Store B K}
theorem hexDigit_hexUpper (h : n < 16) : ∃ b, String.utf8EncodeChar (hexUpper n) = [b] ∧
    hexDigit b = some n := by
  have hall : ∀ n < 16, (String.utf8EncodeChar (hexUpper n)).map hexDigit = [some n] := by decide
  exact map_eq_singleton_iff.1 (hall n h)

theorem percentDecode_percentByte (b : UInt8) (rest : List UInt8) :
    percentDecode (Text.utf8 (percentByte b) ++ rest) = b :: percentDecode rest := by
  have hlt : b.toNat < 256 := b.toNat_lt
  obtain ⟨hi, hhi, hdhi⟩ := hexDigit_hexUpper (n := b.toNat / 16) (by omega)
  obtain ⟨lo, hlo, hdlo⟩ := hexDigit_hexUpper (n := b.toNat % 16) (by omega)
  have hpercent : String.utf8EncodeChar '%' = [0x25] := by decide
  have hvalue : b.toNat / 16 * 16 + b.toNat % 16 = b.toNat := by omega
  simp [Text.utf8, percentByte, hpercent, hhi, hlo, percentDecode_triple hdhi hdlo, hvalue]

theorem percentDecode_percentBytes (bs : List UInt8) (rest : List UInt8) :
    percentDecode (Text.utf8 (bs.flatMap percentByte) ++ rest) = bs ++ percentDecode rest := by
  induction bs with
  | nil => rfl
  | cons b bs ih =>
    have hstep := percentDecode_percentByte b (Text.utf8 (bs.flatMap percentByte) ++ rest)
    rw [ih] at hstep
    simpa [Text.utf8] using hstep

theorem ofNat_ne_percent (hlt : n < 256) (hne : n ≠ 37) : UInt8.ofNat n ≠ 0x25 := by
  intro heq
  have hnat := congrArg UInt8.toNat heq
  rw [UInt8.toNat_ofNat_of_lt' hlt] at hnat
  exact hne hnat

/-- Only the percent sign has its byte. -/
theorem ne_percent_of_mem (h : c ≠ '%') : ∀ b ∈ String.utf8EncodeChar c, b ≠ 0x25 := by
  have hval : c.val.toNat ≠ 37 := fun heq => h (Char.ext (UInt32.toNat_inj.1 heq))
  intro b hb
  simp only [String.utf8EncodeChar] at hb
  -- one to four bytes, all but the first case with the highest bit
  split_ifs at hb <;> simp only [mem_cons, not_mem_nil, or_false] at hb
  · exact hb ▸ ofNat_ne_percent (by omega) hval
  · rcases hb with rfl | rfl <;> exact ofNat_ne_percent (by omega) (by omega)
  · rcases hb with rfl | rfl | rfl <;> exact ofNat_ne_percent (by omega) (by omega)
  · rcases hb with rfl | rfl | rfl | rfl <;> exact ofNat_ne_percent (by omega) (by omega)

theorem percentDecode_encodeChar (c : Char) (rest : List UInt8) :
    percentDecode (Text.utf8 (encodeChar c) ++ rest) =
      String.utf8EncodeChar c ++ percentDecode rest := by
  unfold encodeChar
  split_ifs with hpercent hcomma
  · exact hpercent ▸ percentDecode_percentByte 0x25 rest
  · exact hcomma ▸ percentDecode_percentByte 0x2C rest
  · exact percentDecode_percentBytes _ rest
  · simpa [Text.utf8] using percentDecode_append (ne_percent_of_mem hpercent) rest

theorem percentDecode_encodeSource (label : List Char) :
    percentDecode (Text.utf8 (encodeSource label)) = Text.utf8 label := by
  induction label with
  | nil => rfl
  | cons c cs ih =>
    have hstep := percentDecode_encodeChar c (Text.utf8 (encodeSource cs))
    rw [ih] at hstep
    simpa [encodeSource, Text.utf8] using hstep

/-- **Every label survives its encoding.** -/
theorem decodeSource_encodeSource (lib : Library B K) (label : List Char) :
    decodeSource lib (encodeSource label) = label := by
  rw [decodeSource, percentDecode_encodeSource, Text.fromUtf8Lossy_utf8]

/-! ### The comment of an entry -/

/-- The metadata of a bridge without a comment. -/
def Meta.default : Meta where
  lastOk := none
  lastAttempt := 0
  lastLatency := 0
  fails := 0
  okCount := 0
  channelOkCount := 0
  lastChannelOk := none
  verifiedCount := 0
  lastVerified := none
  lastVerificationAttempt := none
  circuitFails := 0
  lastCircuitObservation := 0
  sources := ∅

def parseU32 (v : List Char) : Option ℕ := Text.parseUnsigned (2 ^ 32) v

/-- `NNms`, in nanoseconds. -/
def parseMillis (v : List Char) : Option ℕ := do
  let digits ← v.dropSuffix? "ms".toList
  let ms ← Text.parseUnsigned (2 ^ 64) digits
  return ms * 1000000

/-- A time, or a dash for none. -/
def parseTimeOrDash (lib : Library B K) (v : List Char) : Option (Option ℤ) :=
  if v = ['-'] then some none else (lib.parseTime v).map some

/-- The words between the commas; empty ones are skipped. -/
def parseLabels (decode : List Char → List Char) (v : List Char) : Finset (List Char) :=
  (((v.splitOn ',').filter (· ≠ [])).map decode).toFinset

/-- The fields of a comment. -/
inductive MetaField
  | fails | seen | attempt | ok | latency | chseen | chok | evseen | evok | evtry | cfails | cobs
  | srcenc
  /-- The sources of earlier versions, which were not encoded. -/
  | src
  deriving DecidableEq

def MetaField.name : MetaField → List Char
  | .fails => "fails=".toList
  | .seen => "seen=".toList
  | .attempt => "attempt=".toList
  | .ok => "ok=".toList
  | .latency => "latency=".toList
  | .chseen => "chseen=".toList
  | .chok => "chok=".toList
  | .evseen => "evseen=".toList
  | .evok => "evok=".toList
  | .evtry => "evtry=".toList
  | .cfails => "cfails=".toList
  | .cobs => "cobs=".toList
  | .srcenc => "srcenc=".toList
  | .src => "src=".toList

/-- The order in which the fields are tried. -/
def MetaField.all : List MetaField :=
  [.fails, .seen, .attempt, .ok, .latency, .chseen, .chok, .evseen, .evok, .evtry, .cfails, .cobs,
    .srcenc, .src]

/-- What the value of a field does. -/
def MetaField.read (lib : Library B K) (m : Meta) (v : List Char) : MetaField → Option Meta
  | .fails => (parseU32 v).map fun n => { m with fails := n }
  | .seen => (parseU32 v).map fun n => { m with okCount := n }
  | .attempt => (lib.parseTime v).map fun t => { m with lastAttempt := t }
  | .ok => (parseTimeOrDash lib v).map fun t => { m with lastOk := t }
  | .latency => (parseMillis v).map fun d => { m with lastLatency := d }
  | .chseen => (parseU32 v).map fun n => { m with channelOkCount := n }
  | .chok => (parseTimeOrDash lib v).map fun t => { m with lastChannelOk := t }
  | .evseen => (parseU32 v).map fun n => { m with verifiedCount := n }
  | .evok => (parseTimeOrDash lib v).map fun t => { m with lastVerified := t }
  | .evtry => (lib.parseTime v).map fun t => { m with lastVerificationAttempt := some t }
  | .cfails => (parseU32 v).map fun n => { m with circuitFails := n }
  | .cobs => (lib.parseTime v).map fun t => { m with lastCircuitObservation := t }
  | .srcenc => some { m with sources := parseLabels (decodeSource lib) v }
  | .src => some { m with sources := parseLabels id v }

/-- A word of a comment: the first field whose name it begins with; unknown ones are ignored. -/
def metaWord (lib : Library B K) (m : Meta) (word : List Char) : Option Meta :=
  match MetaField.all.findSome? fun field =>
      (word.dropPrefix? field.name).map fun v => field.read lib m v with
  | some result => result
  | none => some m

/-- `split_once(' ')`. -/
def splitOnce (s : List Char) : Option (List Char × List Char) :=
  match s.dropWhile (· ≠ ' ') with
  | [] => none
  | _ :: rest => some (s.takeWhile (· ≠ ' '), rest)

/-- The format of earlier versions: a time and a latency. -/
def parseLegacy (lib : Library B K) (s : List Char) : Option Meta := do
  let (whenPart, rest) ← splitOnce s
  let time ← lib.parseTime whenPart
  let v ← (trim rest).dropPrefix? "latency=".toList
  let latency ← parseMillis v
  return { Meta.default with
    lastOk := some time
    lastAttempt := time
    lastLatency := latency
    okCount := 1
    lastCircuitObservation := time }

def parseMetaComment (lib : Library B K) (s : List Char) : Option Meta :=
  if "fails=".toList.isPrefixOf s then (Text.words s).foldlM (metaWord lib) Meta.default
  else parseLegacy lib s

def formatTimeOrDash (lib : Library B K) (t : Option ℤ) : List Char :=
  (t.map (formatIso lib)).getD ['-']

/-- The latency in whole milliseconds. -/
def Meta.millis (m : Meta) : ℕ := m.lastLatency / 1000000

/-- The labels of an entry, in their order. -/
def joinLabels (sources : Finset (List Char)) : List Char :=
  [','].intercalate ((sources.sort (· ≤ ·)).map encodeSource)

/-- The words of the comment of an entry. -/
def metaWords (lib : Library B K) (m : Meta) : List (List Char) :=
  [MetaField.fails.name ++ Nat.toDigits 10 m.fails,
    MetaField.seen.name ++ Nat.toDigits 10 m.okCount,
    MetaField.attempt.name ++ formatIso lib m.lastAttempt,
    MetaField.ok.name ++ formatTimeOrDash lib m.lastOk,
    MetaField.latency.name ++ (Nat.toDigits 10 m.millis ++ "ms".toList),
    MetaField.chseen.name ++ Nat.toDigits 10 m.channelOkCount,
    MetaField.chok.name ++ formatTimeOrDash lib m.lastChannelOk,
    MetaField.evseen.name ++ Nat.toDigits 10 m.verifiedCount,
    MetaField.evok.name ++ formatTimeOrDash lib m.lastVerified] ++
  (m.lastVerificationAttempt.map fun t => MetaField.evtry.name ++ formatIso lib t).toList ++
  [MetaField.cfails.name ++ Nat.toDigits 10 m.circuitFails,
    MetaField.cobs.name ++ formatIso lib m.lastCircuitObservation] ++
  (if m.sources = ∅ then [] else [MetaField.srcenc.name ++ joinLabels m.sources])

/-! ### The file -/

section File

variable [DecidableEq K] (lib : Library B K)

/-- Where the reader of a file stands: the entries, and the comment that waits for its bridge. -/
structure Loading (B K : Type) where
  entries : Store B K
  pending : Option Meta

/-- A line of the file. -/
def loadLine (st : Loading B K) (raw : List Char) : Loading B K :=
  let line := trim raw
  if line = [] then st
  else
    match line.dropPrefix? "# ".toList with
    | some rest =>
      match parseMetaComment lib rest with
      | some m => { st with pending := some m }
      | none => st
    | none =>
      if line.head? = some '#' then st
      else
        match lib.parse line with
        | none => { st with pending := none }
        | some bridge =>
          if lib.usableForTor bridge then
            ⟨Table.insert st.entries (lib.key bridge) ⟨st.pending.getD .default, bridge⟩, none⟩
          else { st with pending := none }

/-- The store in a file; a file that does not exist holds an empty store. -/
def load (text : Option (List Char)) : Store B K :=
  match text with
  | none => ∅
  | some text => ((Text.lines text).foldl (loadLine lib) ⟨∅, none⟩).entries

omit [DecidableEq K]

/-- The order of optional times: none is before all others. -/
def timeLe : Option ℤ → Option ℤ → Bool
  | none, _ => true
  | some _, none => false
  | some t, some u => t ≤ u

/-- The comparison by which the entries are sorted: fewer failures first, then the later success. -/
def sortsBefore (a b : Entry B) : Bool :=
  a.fails < b.fails || (a.fails = b.fails && timeLe b.lastOk a.lastOk)

/-- The lines of an entry. -/
def entryLines (e : Entry B) : List (List Char) :=
  ["# ".toList ++ [' '].intercalate (metaWords lib e.toMeta), lib.display e.bridge, []]

def headerLines (now : ℤ) : List (List Char) :=
  ["# Auto-generated by tor-socks5. Bridge reachability health.".toList,
    "# Last updated at ".toList ++ formatIso lib now ++ ['.'], []]

/-- The file that is written at some time. -/
def save (s : Store B K) (now : ℤ) : List Char :=
  let sorted := (s.entries.map fun b => b.2).insertionSort fun a b => sortsBefore a b
  Text.unlines (headerLines lib now ++ sorted.flatMap (entryLines lib))

end File

/-! ### Reading a comment -/

section Comments

variable {lib : Library B K} {m : Meta}

theorem MetaField.mem_all (field : MetaField) : field ∈ MetaField.all := by
  cases field <;> decide

theorem MetaField.clash {field field' : MetaField} (h : field ≠ field') :
    ¬ field.name <+: field'.name := by
  have hall : ∀ field ∈ MetaField.all, ∀ field' ∈ MetaField.all, field ≠ field' →
      ¬ field.name <+: field'.name := by decide
  exact hall field field.mem_all field' field'.mem_all h

/-- A word that begins with the name of a field is read as that field. -/
theorem metaWord_name (field : MetaField) (v : List Char) :
    metaWord lib m (field.name ++ v) = field.read lib m v := by
  have hfield : ∀ field' : MetaField,
      ((field.name ++ v).dropPrefix? field'.name).map (fun v => field'.read lib m v) =
        if field' = field then some (field.read lib m v) else none := by
    intro field'
    split
    · next h => rw [h, Text.dropPrefix?_append_self, Option.map_some]
    · next h =>
      rw [Text.dropPrefix?_append_of_clash (MetaField.clash (Ne.symm h)) (MetaField.clash h),
        Option.map_none]
  simp only [metaWord, hfield]
  cases field <;> rfl

theorem parseU32_toDigits (h : n ≤ u32Max) : parseU32 (Nat.toDigits 10 n) = some n := by
  rw [parseU32, Text.parseUnsigned_toDigits, if_pos]
  unfold u32Max at h
  omega

theorem parseMillis_toDigits (n : ℕ) : parseMillis (Nat.toDigits 10 n ++ "ms".toList) =
    if n < 2 ^ 64 then some (n * 1000000) else none := by
  have hsuffix : (Nat.toDigits 10 n ++ "ms".toList).dropSuffix? "ms".toList =
      some (Nat.toDigits 10 n) :=
    dropSuffix?_eq_some_iff.2 ⟨"ms".toList, rfl, by decide⟩
  rw [parseMillis, hsuffix]
  simp only [Option.bind_eq_bind, Option.bind_some, Text.parseUnsigned_toDigits]
  split <;> rfl

theorem parseTimeOrDash_format (hlib : lib.TimesSurvive) (t : Option ℤ) :
    parseTimeOrDash lib (formatTimeOrDash lib t) = some t := by
  cases t with
  | none => rfl
  | some t => simp [parseTimeOrDash, formatTimeOrDash, hlib.dash t, hlib.parse t]

/-- An encoded character is not empty, has no comma and no white space. -/
theorem mem_encodeChar {d : Char} (h : d ∈ encodeChar c) : d ≠ ',' ∧ isWhite d = false := by
  have hhex (n : ℕ) : hexUpper n ≠ ',' ∧ isWhite (hexUpper n) = false := by
    by_cases hn : n < 16
    · have hall : ∀ n < 16, hexUpper n ≠ ',' ∧ isWhite (hexUpper n) = false := by decide
      exact hall n hn
    · have hdefault : hexUpper n = '0' := by
        simp [hexUpper, getD_eq_getElem?_getD, Nat.le_of_not_lt hn]
      rw [hdefault]
      decide
  have hbyte (b) (hb : d ∈ percentByte b) : d ≠ ',' ∧ isWhite d = false := by
    simp only [percentByte, mem_cons, not_mem_nil, or_false] at hb
    rcases hb with rfl | rfl | rfl
    exacts [by decide, hhex _, hhex _]
  unfold encodeChar at h
  split_ifs at h with _ hcomma hwhite
  · exact hbyte 0x25 h
  · exact hbyte 0x2C h
  · obtain ⟨b, -, hb⟩ := mem_flatMap.1 h
    exact hbyte b hb
  · obtain rfl := mem_singleton.1 h
    exact ⟨hcomma, Bool.eq_false_iff.2 hwhite⟩

theorem mem_encodeSource {label : List Char} {d : Char} (h : d ∈ encodeSource label) :
    d ≠ ',' ∧ isWhite d = false := by
  obtain ⟨c, -, hc⟩ := mem_flatMap.1 h
  exact mem_encodeChar hc

theorem encodeSource_eq_nil (lib : Library B K) {label : List Char} :
    encodeSource label = [] ↔ label = [] := by
  refine ⟨fun h => ?_, fun h => by rw [h]; rfl⟩
  have hback := decodeSource_encodeSource lib label
  rw [h] at hback
  exact hback.symm.trans (Text.fromUtf8Lossy_utf8 lib.repair [])

/-- The labels are read back, but for the empty one. -/
theorem parseLabels_joinLabels {sources : Finset (List Char)} (h : sources ≠ ∅) :
    parseLabels (decodeSource lib) (joinLabels sources) = sources.erase [] := by
  have hne : (sources.sort (· ≤ ·)).map encodeSource ≠ [] := by
    rw [Ne, map_eq_nil_iff]
    intro hnil
    exact h (by rw [← Finset.sort_toFinset sources (· ≤ ·), hnil, toFinset_nil])
  have hcomma : ∀ w ∈ (sources.sort (· ≤ ·)).map encodeSource, ',' ∉ w :=
    forall_mem_map.2 fun _ _ hmem => (mem_encodeSource hmem).1 rfl
  unfold parseLabels joinLabels
  rw [splitOn_intercalate ',' hcomma hne]
  ext label
  simp only [mem_toFinset, mem_map, mem_filter, Finset.mem_erase, decide_eq_true_eq]
  constructor
  · rintro ⟨w, ⟨⟨label', hlabel', rfl⟩, hw⟩, rfl⟩
    rw [decodeSource_encodeSource]
    exact ⟨mt (encodeSource_eq_nil lib).2 hw, (Finset.mem_sort _).1 hlabel'⟩
  · rintro ⟨hempty, hlabel⟩
    exact ⟨encodeSource label, ⟨⟨label, (Finset.mem_sort _).2 hlabel, rfl⟩,
      mt (encodeSource_eq_nil lib).1 hempty⟩, decodeSource_encodeSource lib label⟩

/-- What is read back of the metadata, if the comment can be read. -/
def Meta.reread (m : Meta) : Meta :=
  { m with lastLatency := m.millis * 1000000, sources := m.sources.erase [] }

/-- The attempt at a verification, which is written only if there was one. -/
theorem foldlM_evtry (hlib : lib.TimesSurvive) (attempt : Option ℤ)
    (hm' : m'.lastVerificationAttempt = none) :
    (attempt.map fun t => MetaField.evtry.name ++ formatIso lib t).toList.foldlM (metaWord lib) m' =
      some { m' with lastVerificationAttempt := attempt } := by
  cases attempt with
  | none =>
    cases m'
    subst hm'
    rfl
  | some t => simp [metaWord_name, MetaField.read, hlib.parse]

theorem foldlM_srcenc (sources : Finset (List Char)) (hm' : m'.sources = ∅) :
    (if sources = ∅ then [] else [MetaField.srcenc.name ++ joinLabels sources]).foldlM
      (metaWord lib) m' = some { m' with sources := sources.erase [] } := by
  split
  · next hnone =>
    cases m'
    subst hnone hm'
    rfl
  · next hsome => simp [metaWord_name, MetaField.read, parseLabels_joinLabels hsome]

/-- **The words of an entry are read back**, unless its latency is too large. -/
theorem foldlM_metaWords (hlib : lib.TimesSurvive) (hfits : m.Fits) :
    (metaWords lib m).foldlM (metaWord lib) Meta.default =
      if m.millis < 2 ^ 64 then some m.reread else none := by
  simp only [metaWords, foldlM_append, foldlM_cons, foldlM_nil, metaWord_name,
    MetaField.read, parseU32_toDigits hfits.fails, parseU32_toDigits hfits.okCount,
    parseU32_toDigits hfits.channelOkCount, parseU32_toDigits hfits.verifiedCount,
    parseU32_toDigits hfits.circuitFails, hlib.parse, parseTimeOrDash_format hlib,
    parseMillis_toDigits, Option.map_some, Option.bind_eq_bind, Option.bind_some]
  split
  · simp only [Option.map_some, Option.bind_some, Option.pure_def]
    rw [foldlM_evtry hlib _ rfl]
    simp only [Option.bind_some]
    rw [foldlM_srcenc _ rfl]
    rfl
  · rfl

theorem isWord_name_append (field : MetaField)
    (h : ∀ c ∈ v, isWhite c = false) : Text.IsWord (field.name ++ v) := by
  have hname : ∀ field ∈ MetaField.all, field.name ≠ [] ∧ field.name.any isWhite = false := by
    decide
  obtain ⟨hne, hplain⟩ := hname field field.mem_all
  simp only [any_eq_false, Bool.not_eq_true] at hplain
  exact ⟨by simp [hne], forall_mem_append.2 ⟨hplain, h⟩⟩

theorem plain_formatTimeOrDash (hlib : lib.TimesSurvive) (t : Option ℤ) :
    ∀ c ∈ formatTimeOrDash lib t, isWhite c = false := by
  cases t with
  | none => exact forall_mem_singleton.2 (by decide)
  | some t => exact hlib.plain t

theorem plain_joinLabels (sources : Finset (List Char)) :
    ∀ c ∈ joinLabels sources, isWhite c = false := by
  intro c hc
  rcases Text.mem_intercalate hc with rfl | ⟨w, hw, hc⟩
  · decide
  · obtain ⟨label, -, rfl⟩ := mem_map.1 hw
    exact (mem_encodeSource hc).2

theorem plain_millis (n : ℕ) : ∀ c ∈ Nat.toDigits 10 n ++ "ms".toList, isWhite c = false :=
  forall_mem_append.2 ⟨(Text.isWord_toDigits n).2,
    forall_mem_cons.2 ⟨by decide, forall_mem_singleton.2 (by decide)⟩⟩

theorem isWord_of_mem_metaWords (hlib : lib.TimesSurvive) :
    ∀ w ∈ metaWords lib m, Text.IsWord w := by
  have hdigits := fun n => (Text.isWord_toDigits n).2
  have htime := plain_formatTimeOrDash hlib
  intro w hw
  simp only [metaWords, mem_append, mem_cons, not_mem_nil, or_false] at hw
  rcases hw with ((hw | hw) | hw) | hw
  · rcases hw with rfl | rfl | rfl | rfl | rfl | rfl | rfl | rfl | rfl <;>
      refine isWord_name_append _ ?_
    exacts [hdigits _, hdigits _, hlib.plain _, htime _, plain_millis _, hdigits _, htime _,
      hdigits _, htime _]
  · obtain ⟨t, -, rfl⟩ := Option.map_eq_some_iff.1 (Option.mem_toList.1 hw)
    exact isWord_name_append _ (hlib.plain t)
  · rcases hw with rfl | rfl
    · exact isWord_name_append _ (hdigits _)
    · exact isWord_name_append _ (hlib.plain _)
  · split at hw
    · simp at hw
    · obtain rfl := mem_singleton.1 hw
      exact isWord_name_append _ (plain_joinLabels _)

/-- **What the comment of an entry is read as.** -/
theorem parseMetaComment_metaWords (hlib : lib.TimesSurvive) (hfits : m.Fits) :
    parseMetaComment lib ([' '].intercalate (metaWords lib m)) =
      if m.millis < 2 ^ 64 then some m.reread else none := by
  have hbegins : "fails=".toList.isPrefixOf ([' '].intercalate (metaWords lib m)) = true := by
    rw [ isPrefixOf_iff_prefix]
    exact ⟨_, rfl⟩
  rw [parseMetaComment, if_pos hbegins, Text.words_intercalate (isWord_of_mem_metaWords hlib),
    foldlM_metaWords hlib hfits]

/-- A comment that begins otherwise, and whose second word is not a latency, says nothing. -/
theorem parseMetaComment_other {w rest : List Char} (hw : ' ' ∉ w)
    (hfails : ¬ w <+: "fails=".toList) (hfails' : ¬ "fails=".toList <+: w)
    (hwhite : isWhite c = false) (hc : c ≠ 'l') :
    parseMetaComment lib (w ++ ' ' :: c :: rest) = none := by
  have hnot : ¬ "fails=".toList.isPrefixOf (w ++ ' ' :: c :: rest) = true := by
    rw [ isPrefixOf_iff_prefix]
    exact fun h => ( prefix_or_prefix_of_prefix (prefix_append w _) h).elim hfails hfails'
  have hspace : ∀ d ∈ w, decide (d ≠ ' ') = true := fun d hd =>
    decide_eq_true fun heq => hw (heq ▸ hd)
  have hsplit : splitOnce (w ++ ' ' :: c :: rest) = some (w, c :: rest) := by
    rw [splitOnce, dropWhile_append_of_pos hspace, takeWhile_append_of_pos hspace]
    simp
  have hlatency : (trim (c :: rest)).dropPrefix? "latency=".toList = none := by
    have hhead := head_trim hwhite rest
    refine Option.eq_none_iff_forall_ne_some.2 fun v hv => ?_
    obtain ⟨p, heq, hp⟩ := dropPrefix?_eq_some_iff.1 hv
    obtain rfl : p = "latency=".toList := by simpa using hp
    rw [heq] at hhead
    exact hc (Option.some.inj hhead).symm
  rw [parseMetaComment, if_neg hnot, parseLegacy, hsplit]
  simp only [Option.bind_eq_bind, Option.bind_some, hlatency, Option.bind_none]
  cases lib.parseTime w <;> rfl

end Comments

/-! ### Reading a file -/

section Reading

variable [DecidableEq K] {lib : Library B K}

/-- An entry that was written and read. -/
def reread (e : Entry B) : Entry B :=
  if e.millis < 2 ^ 64 then ⟨e.toMeta.reread, e.bridge⟩ else ⟨.default, e.bridge⟩

/-- A comment waits for its bridge if it has metadata, and is skipped otherwise. -/
theorem loadLine_comment {st : Loading B K} {rest : List Char} (hne : rest ≠ [])
    (hlast : ∀ c ∈ rest.getLast?, isWhite c = false) :
    loadLine lib st ("# ".toList ++ rest) =
      match parseMetaComment lib rest with
      | some m => { st with pending := some m }
      | none => st := by
  have htrim : trim ("# ".toList ++ rest) = "# ".toList ++ rest := by
    refine trim_eq_self (fun c hc => ?_) (by rwa [getLast?_append_of_ne_nil _ hne])
    cases hc
    decide
  simp only [loadLine, htrim, Text.dropPrefix?_append_self]
  rw [if_neg (by simp)]

/-- A line with a bridge makes an entry. -/
theorem loadLine_display {st : Loading B K} {bridge : B} (hline : lib.LineSurvives bridge)
    (husable : lib.usableForTor bridge = true) :
    loadLine lib st (lib.display bridge) =
      ⟨Table.insert st.entries (lib.key bridge) ⟨st.pending.getD .default, bridge⟩, none⟩ := by
  obtain ⟨hread, -⟩ := hline
  simp only [BridgeFormat.readLine] at hread
  split_ifs at hread with hvisible
  obtain ⟨hne, hhash⟩ := not_or.1 hvisible
  have hplain : (trim (lib.display bridge)).dropPrefix? "# ".toList = none := by
    refine Option.eq_none_iff_forall_ne_some.2 fun v hv => hhash ?_
    obtain ⟨p, heq, hp⟩ := dropPrefix?_eq_some_iff.1 hv
    obtain rfl : p = "# ".toList := by simpa using hp
    rw [heq]
    rfl
  simp only [loadLine, if_neg hne, hplain, if_neg hhash, hread, husable, if_true]

theorem loadLine_nil (st : Loading B K) : loadLine lib st [] = st := rfl

/-- **The lines of an entry give the entry back**, as it is read. -/
theorem foldl_entryLines (hlib : lib.TimesSurvive) (hfits : e.Fits)
    (hline : lib.LineSurvives e.bridge) (husable : lib.usableForTor e.bridge = true)
    (entries : Store B K) :
    (entryLines lib e).foldl (loadLine lib) ⟨entries, none⟩ =
      ⟨Table.insert entries (lib.key e.bridge) (reread e), none⟩ := by
  have hwords : ∀ w ∈ metaWords lib e.toMeta, Text.IsWord w := isWord_of_mem_metaWords hlib
  have hne : metaWords lib e.toMeta ≠ [] := cons_ne_nil _ _
  simp only [entryLines, foldl_cons, foldl_nil, loadLine_nil]
  rw [loadLine_comment (Text.intercalate_ne_nil hwords hne) (Text.getLast?_intercalate hwords),
    parseMetaComment_metaWords hlib hfits, loadLine_display hline husable, reread]
  split_ifs <;> rfl

theorem foldl_entries (hlib : lib.TimesSurvive) : ∀ {es : List (Entry B)} (entries : Store B K),
    (∀ e ∈ es, e.Fits ∧ lib.LineSurvives e.bridge ∧ lib.usableForTor e.bridge = true) →
    (es.flatMap (entryLines lib)).foldl (loadLine lib) ⟨entries, none⟩ =
      ⟨es.foldl (fun m e => Table.insert m (lib.key e.bridge) (reread e)) entries, none⟩ := by
  intro es
  induction es with
  | nil => exact fun _ _ => rfl
  | cons e es ih =>
    intro entries h
    obtain ⟨hfits, hline, husable⟩ := h e mem_cons_self
    rw [flatMap_cons, foldl_append, foldl_entryLines hlib hfits hline husable,
      ih _ fun e' he' => h e' (mem_cons_of_mem e he'), foldl_cons]

theorem loadLine_stripCr (st : Loading B K) (raw : List Char) :
    loadLine lib st (Text.stripCr raw) = loadLine lib st raw := by
  simp only [loadLine, Text.trim_stripCr]

theorem foldl_lines {ls : List (List Char)} (h : ∀ l ∈ ls, '\n' ∉ l) (st : Loading B K) :
    (Text.lines (Text.unlines ls)).foldl (loadLine lib) st = ls.foldl (loadLine lib) st := by
  rw [Text.lines_unlines h, foldl_map]
  simp only [loadLine_stripCr]

theorem not_newline_of_plain {l : List Char} (h : ∀ c ∈ l, isWhite c = false) : '\n' ∉ l := by
  exact fun hmem => absurd (h _ hmem) (by decide)

omit [DecidableEq K] in
theorem newline_entryLines (hlib : lib.TimesSurvive)
    (hline : lib.LineSurvives e.bridge) : ∀ l ∈ entryLines lib e, '\n' ∉ l := by
  have hwords (hmem : '\n' ∈ [' '].intercalate (metaWords lib e.toMeta)) : False := by
    rcases Text.mem_intercalate hmem with heq | ⟨w, hw, hc⟩
    · exact absurd heq (by decide)
    · exact not_newline_of_plain (isWord_of_mem_metaWords hlib w hw).2 hc
  simpa [entryLines, hline.2] using hwords

omit [DecidableEq K] in
theorem newline_headerLines (hlib : lib.TimesSurvive) (now : ℤ) :
    ∀ l ∈ headerLines lib now, '\n' ∉ l := by
  simp [headerLines, not_newline_of_plain (hlib.plain now)]

/-- The header is skipped: neither of its comments has metadata, in any format. -/
theorem foldl_headerLines (st : Loading B K) (now : ℤ) :
    (headerLines lib now).foldl (loadLine lib) st = st := by
  have hskip : ∀ {w rest : List Char} {c : Char}, ' ' ∉ w → ¬ w <+: "fails=".toList →
      ¬ "fails=".toList <+: w → isWhite c = false → c ≠ 'l' →
      loadLine lib st ("# ".toList ++ (w ++ ' ' :: c :: (rest ++ ['.']))) = st := by
    intro w rest c hw hfails hfails' hwhite hc
    have hlast : ∀ d ∈ (w ++ ' ' :: c :: (rest ++ ['.'])).getLast?, isWhite d = false := by
      intro d hd
      obtain rfl : d = '.' := by simpa [getLast?_append, getLast?_cons] using hd.symm
      decide
    rw [loadLine_comment (by simp) hlast, parseMetaComment_other hw hfails hfails' hwhite hc]
  have hlines : headerLines lib now =
      ["# ".toList ++ ("Auto-generated".toList ++ ' ' :: 'b' ::
          ("y tor-socks5. Bridge reachability health".toList ++ ['.'])),
        "# ".toList ++ ("Last".toList ++ ' ' :: 'u' ::
          ("pdated at ".toList ++ formatIso lib now ++ ['.'])), []] := by
    simp [headerLines]
  rw [hlines, foldl_cons, hskip (by decide) (by decide) (by decide) (by decide) (by decide),
    foldl_cons, hskip (by decide) (by decide) (by decide) (by decide) (by decide)]
  rfl

omit [DecidableEq K] in
theorem mem_sorted {es : List (Entry B)} (h : es.Perm (s.entries.map fun b => b.2)) : e ∈ es ↔ ∃ k,
    (⟨k, e⟩ : (_ : K) × Entry B) ∈ s.entries := by
  simp [h.mem_iff, Sigma.exists]

theorem nodup_sorted (hkept : WellKept lib.toBridgeFormat s)
    {es : List (Entry B)} (h : es.Perm (s.entries.map fun b => b.2)) :
    (es.map fun e => lib.key e.bridge).Nodup := by
  have hkeys : (s.entries.map fun b => b.2).map (fun e => lib.key e.bridge) = s.keys := by
    rw [map_map]
    exact map_congr_left fun ⟨k, e⟩ hmem => (hkept k e (Table.mem_entries.1 hmem)).1
  rw [(h.map fun e => lib.key e.bridge).nodup_iff, hkeys]
  exact s.keys_nodup

/-- **What a saved store is loaded as**: every entry stands where it stood, as it is reread. -/
theorem load_save (hlib : lib.TimesSurvive) (hkept : WellKept lib.toBridgeFormat s)
    (hlines : ∀ k e, Table.get s k = some e →
      lib.LineSurvives e.bridge ∧ lib.usableForTor e.bridge = true) (now : ℤ) (k : K) :
    Table.get (load lib (some (save lib s now))) k = (Table.get s k).map reread := by
  set es := (s.entries.map fun b => b.2).insertionSort fun a b => sortsBefore a b with hes
  have hperm : es.Perm (s.entries.map fun b => b.2) := perm_insertionSort _ _
  have hall : ∀ e ∈ es, e.Fits ∧ lib.LineSurvives e.bridge ∧ lib.usableForTor e.bridge = true := by
    intro e he
    obtain ⟨k, hmem⟩ := (mem_sorted hperm).1 he
    have hget := Table.mem_entries.1 hmem
    exact ⟨(hkept k e hget).2, hlines k e hget⟩
  have hnewline : ∀ l ∈ headerLines lib now ++ es.flatMap (entryLines lib), '\n' ∉ l := by
    intro l hl
    rcases mem_append.1 hl with hl | hl
    · exact newline_headerLines hlib now l hl
    · obtain ⟨e, he, hl⟩ := mem_flatMap.1 hl
      exact newline_entryLines hlib (hall e he).2.1 l hl
  have hload : load lib (some (save lib s now)) =
      es.foldl (fun m e => Table.insert m (lib.key e.bridge) (reread e)) ∅ := by
    rw [load, save, ← hes, foldl_lines hnewline, foldl_append, foldl_headerLines,
      foldl_entries hlib _ hall]
  refine Option.ext fun e' => ?_
  rw [hload, Table.get_foldl_insert (fun e => lib.key e.bridge) reread es ∅
    (nodup_sorted hkept hperm)]
  simp only [Table.get_empty, reduceCtorEq, and_false, or_false, Option.map_eq_some_iff]
  constructor
  · rintro ⟨e, he, rfl, hreread⟩
    obtain ⟨k, hmem⟩ := (mem_sorted hperm).1 he
    have hget := Table.mem_entries.1 hmem
    rw [(hkept k e hget).1]
    exact ⟨e, hget, hreread⟩
  · rintro ⟨e, hget, hreread⟩
    exact ⟨e, (mem_sorted hperm).2 ⟨k, Table.mem_entries.2 hget⟩, (hkept k e hget).1, hreread⟩

end Reading

/-! ### Any file -/

section Loaded

variable {lib : Library B K}

theorem Meta.fits_default : Meta.default.Fits :=
  ⟨Nat.zero_le _, Nat.zero_le _, Nat.zero_le _, Nat.zero_le _, Nat.zero_le _⟩

theorem le_of_parseU32 (h : parseU32 v = some n) : n ≤ u32Max := by
  simp only [parseU32, Text.parseUnsigned] at h
  split_ifs at h with hdigits
  cases h
  exact Nat.le_of_lt_succ hdigits.2.2

/-- Every field keeps the counters within their bounds. -/
theorem MetaField.fits_read {field : MetaField} (hm : m.Fits)
    (h : field.read lib m v = some m') : m'.Fits := by
  obtain ⟨hfails, hok, hchannel, hverified, hcircuit⟩ := hm
  have hle := fun n => le_of_parseU32 (v := v) (n := n)
  cases field <;> simp only [MetaField.read, Option.map_eq_some_iff, Option.some.injEq] at h <;>
    constructor <;> grind

theorem fits_metaWord {w : List Char} (hm : m.Fits) (h : metaWord lib m w = some m') : m'.Fits := by
  unfold metaWord at h
  split at h
  case h_1 hfind =>
    obtain ⟨field, -, hfield⟩ := exists_of_findSome?_eq_some hfind
    obtain ⟨v, -, rfl⟩ := Option.map_eq_some_iff.1 hfield
    exact MetaField.fits_read hm h
  · exact Option.some.inj h ▸ hm

theorem fits_foldlM : ∀ {ws : List (List Char)} {m m' : Meta}, m.Fits →
    ws.foldlM (metaWord lib) m = some m' → m'.Fits := by
  intro ws
  induction ws with
  | nil =>
    rintro m m' hm ⟨⟩
    exact hm
  | cons w ws ih =>
    intro m m' hm h
    rw [foldlM_cons] at h
    obtain ⟨m₁, hw, hrest⟩ := Option.bind_eq_some_iff.1 h
    exact ih (fits_metaWord hm hw) hrest

theorem fits_parseMetaComment {s : List Char} (h : parseMetaComment lib s = some m) : m.Fits := by
  unfold parseMetaComment at h
  split at h
  · exact fits_foldlM Meta.fits_default h
  · unfold parseLegacy at h
    simp only [Option.bind_eq_bind, Option.bind_eq_some_iff, Option.pure_def] at h
    obtain ⟨_, -, _, -, _, -, _, -, hm⟩ := h
    cases hm
    exact { Meta.fits_default with okCount := one_le_u32Max }

variable [DecidableEq K]

/-- What holds while a file is read. -/
structure Loading.Sound (lib : Library B K) (st : Loading B K) : Prop where
  entries : WellKept lib.toBridgeFormat st.entries
  pending : ∀ m, st.pending = some m → m.Fits

theorem sound_loadLine {st : Loading B K} (h : st.Sound lib) (raw : List Char) :
    (loadLine lib st raw).Sound lib := by
  obtain ⟨hentries, hpending⟩ := h
  have hnone : (⟨st.entries, none⟩ : Loading B K).Sound lib := ⟨hentries, by simp⟩
  have hfits : (st.pending.getD .default).Fits := by
    cases hst : st.pending with
    | none => exact Meta.fits_default
    | some m => exact hpending m hst
  unfold loadLine
  simp only
  repeat' split
  on_goal 2 => next m hparse => exact ⟨hentries, by rintro _ ⟨⟩; exact fits_parseMetaComment hparse⟩
  on_goal 5 => exact ⟨hentries.insert rfl hfits, by simp⟩
  all_goals first | exact hnone | exact ⟨hentries, hpending⟩

/-- **A loaded store is well kept**, whatever the file. -/
theorem wellKept_load (text : Option (List Char)) :
    WellKept lib.toBridgeFormat (load lib text) := by
  cases text with
  | none => exact wellKept_empty
  | some text =>
    exact (foldlRecOn _ _ ⟨wellKept_empty, by simp⟩ fun _ hst raw _ =>
      sound_loadLine hst raw : Loading.Sound _ _).entries

end Loaded

/-! ### What survives -/

/-- The latency is cut to whole milliseconds. -/
def Entry.truncated (e : Entry B) : Entry B := { e with lastLatency := e.millis * 1000000 }

/-- No label is empty, and the latency in milliseconds fits into 64 bits. -/
def Entry.Portable (e : Entry B) : Prop := [] ∉ e.sources ∧ e.millis < 2 ^ 64

theorem reread_eq_truncated_iff (e : Entry B) : reread e = e.truncated ↔ e.Portable := by
  unfold reread Entry.Portable
  split_ifs with hlt
  · refine ⟨fun h => ⟨Finset.erase_eq_self.1 (congrArg (fun e => e.sources) h), hlt⟩, ?_⟩
    rintro ⟨hempty, -⟩
    simp [Meta.reread, Entry.truncated, Finset.erase_eq_of_notMem hempty]
  · refine ⟨fun h => ?_, fun h => absurd h.2 hlt⟩
    -- the default latency is zero
    have hlatency : 0 = e.millis * 1000000 := congrArg (fun e => e.lastLatency) h
    omega

/-- **The health of the bridges survives a save and a load exactly if no label is empty and every
latency fits.**  The store was built from any file by any operations; the bridges in it are usable,
and their lines and all times are read back as they were written. -/
theorem survives_iff [DecidableEq K] {lib : Library B K} (hlib : lib.TimesSurvive)
    (file : Option (List Char)) (observations : List (Observation B)) (now : ℤ)
    (hlines : ∀ k e,
      Table.get (observeAll lib.toBridgeFormat (load lib file) observations) k = some e →
      lib.LineSurvives e.bridge ∧ lib.usableForTor e.bridge = true) :
    (∀ k, Table.get (load lib (some
          (save lib (observeAll lib.toBridgeFormat (load lib file) observations) now))) k =
        (Table.get (observeAll lib.toBridgeFormat (load lib file) observations) k).map
          Entry.truncated) ↔
      ∀ k e, Table.get (observeAll lib.toBridgeFormat (load lib file) observations) k = some e →
        e.Portable := by
  have hloaded : WellKept lib.toBridgeFormat (load lib file) := wellKept_load file
  have hkept := wellKept_observeAll hloaded observations
  simp only [load_save hlib hkept hlines]
  constructor
  · intro h k e hget
    have hk := h k
    rw [hget] at hk
    exact (reread_eq_truncated_iff e).1 (Option.some.inj hk)
  · intro h k
    cases hget : Table.get (observeAll lib.toBridgeFormat (load lib file) observations) k with
    | none => rfl
    | some e => exact congrArg some ((reread_eq_truncated_iff e).2 (h k e hget))

/-! ### A small store -/

/-- A sign and so many strokes. -/
def sampleTime (t : ℤ) : List Char :=
  'T' :: (if t < 0 then '-' else '+') :: List.replicate t.natAbs '1'

def sampleParseTime : List Char → Option ℤ
  | _ :: sign :: strokes => some (if sign = '-' then -strokes.length else strokes.length)
  | _ => none

/-- Two bridges, and times in unary. -/
def sampleLibrary : Library Bool Bool where
  key := id
  transport := fun _ => none
  display := fun b => if b then "obfs4 b".toList else "obfs4 a".toList
  parse := fun s =>
    if s = "obfs4 b".toList then some true else if s = "obfs4 a".toList then some false else none
  usableForTor := fun _ => true
  formatTime := fun t => some (sampleTime t)
  parseTime := sampleParseTime
  repair := fun _ => []

theorem timesSurvive_sampleLibrary : sampleLibrary.TimesSurvive where
  parse t := by
    change sampleParseTime (sampleTime t) = some t
    unfold sampleTime sampleParseTime
    by_cases ht : t < 0
    · simp only [if_pos ht, length_replicate, if_true, Option.some.injEq]
      omega
    · simp only [if_neg ht, length_replicate, if_neg (by decide : ¬ '+' = '-'), Option.some.injEq]
      omega
  plain t c hc := by
    have hmem : c ∈ sampleTime t := hc
    simp only [sampleTime, mem_cons, mem_replicate] at hmem
    rcases hmem with rfl | rfl | ⟨-, rfl⟩
    · decide
    · split <;> decide
    · decide
  dash t h := absurd (cons.inj (show sampleTime t = ['-'] from h)).1 (by decide)

theorem lineSurvives_sampleLibrary (b : Bool) : sampleLibrary.LineSurvives b := by
  cases b <;> exact ⟨by decide, by decide⟩

def sampleObservations : List (Observation Bool) :=
  [.source false "Tor Project, 100%".toList 5, .record false 1500000 7, .channelSuccess false 8,
    .circuitFailure true 9 0, .source true "раздача".toList 10]

def sampleStore : Store Bool Bool :=
  observeAll sampleLibrary.toBridgeFormat (load sampleLibrary none) sampleObservations

theorem survives_iff_sampleObservations :
    (Table.get (load sampleLibrary (some (save sampleLibrary sampleStore 11))) false).map
      (fun e => (e.lastLatency, e.sources)) = some (1000000, {"Tor Project, 100%".toList}) := by
  have hall : ∀ k, (Table.get sampleStore k).all
      (fun e => decide ([] ∉ e.sources ∧ e.millis < 2 ^ 64)) = true := by decide +kernel
  have hportable : ∀ k e, Table.get sampleStore k = some e → e.Portable := by
    intro k e hget
    have hk := hall k
    rw [hget] at hk
    exact of_decide_eq_true (p := _ ∧ _) hk
  have hreload : Table.get (load sampleLibrary (some (save sampleLibrary sampleStore 11))) false =
      (Table.get sampleStore false).map Entry.truncated :=
    (survives_iff timesSurvive_sampleLibrary none sampleObservations 11
      fun _ e _ => ⟨lineSurvives_sampleLibrary e.bridge, rfl⟩).2 hportable false
  rw [hreload]
  decide +kernel

/-- A bridge whose only source has no name is loaded without a source. -/
theorem empty_label_is_lost :
    (Table.get (observeAll sampleLibrary.toBridgeFormat ∅ [.source true [] 5]) true).map
        (fun e => e.sources) = some {[]} ∧
      (Table.get (load sampleLibrary (some (save sampleLibrary
        (observeAll sampleLibrary.toBridgeFormat ∅ [.source true [] 5]) 6))) true).map
          (fun e => e.sources) = some ∅ := by
  decide +kernel

end BridgeStore
