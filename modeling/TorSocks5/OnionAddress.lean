/-
**Onion addresses and vanity prefixes.**

An address is the base32 text of key, checksum and version, which here are the digits of one
number.  A vanity prefix is compared with the leading bits of the key instead of the text.  The
parser takes any mixture of cases before the suffix, but the suffix in two spellings only.
-/

import TorSocks5.BigEndian
import TorSocks5.Text

set_option autoImplicit false

namespace OnionAddress

open List

open BigEndian (digits value)

/-- `[u8; n]`. -/
abbrev Bytes (n : ℕ) := {bytes : List UInt8 // bytes.length = n}

/-! ### Base32 -/

/-- A symbol of the alphabet `A-Z2-7`. -/
def symbol (d : ℕ) : Char := if d < 26 then Char.ofNat (65 + d) else Char.ofNat (24 + d)

/-- What a symbol of the alphabet stands for. -/
def symbolValue (c : Char) : ℕ := if 65 ≤ c.toNat then c.toNat - 65 else c.toNat - 24

/-- `BASE32_NOPAD.encode` of a block whose bits make whole symbols. -/
def base32Encode (raw : List UInt8) : List Char :=
  (digits 32 (raw.length * 8 / 5) (BigEndian.decode raw)).map symbol

/-- `BASE32_NOPAD.decode` of 56 symbols. -/
def base32Decode (s : List Char) : Bytes 35 :=
  ⟨BigEndian.encode 35 (value 32 (s.map symbolValue)), BigEndian.length_encode _ _⟩

/-- `'a'..='z' | '2'..='7'`. -/
def isSymbol (c : Char) : Bool := ('a' ≤ c && c ≤ 'z') || ('2' ≤ c && c ≤ '7')

/-- The alphabet in either case. -/
def IsBase32 (c : Char) : Prop :=
  ('a' ≤ c ∧ c ≤ 'z') ∨ ('A' ≤ c ∧ c ≤ 'Z') ∨ ('2' ≤ c ∧ c ≤ '7')

variable {c : Char} {s addr : List Char} {k : Bytes 32}
/-- What holds of all ASCII characters holds of the symbols. -/
theorem of_isSymbol {P : Char → Prop} (h : ∀ n < 128, isSymbol (Char.ofNat n) = true →
    P (Char.ofNat n)) (hc : isSymbol c = true) : P c := by
  have hlt : c.toNat < 128 := by
    simp only [isSymbol, Bool.or_eq_true, Bool.and_eq_true, decide_eq_true_eq, Char.le_def] at hc
    rcases hc with ⟨-, hc⟩ | ⟨-, hc⟩ <;> exact lt_of_le_of_lt hc (by decide)
  have := h c.toNat hlt
  rw [Char.ofNat_toNat] at this
  exact this hc

theorem isSymbol_symbol {d : ℕ} (h : d < 32) : isSymbol (symbol d).toLower = true ∧
    symbolValue (symbol d).toLower.toUpper = d := by
  revert d
  decide

theorem symbol_symbolValue (h : isSymbol c = true) :
    (symbol (symbolValue c.toUpper)).toLower = c ∧ symbolValue c.toUpper < 32 ∧ c.toNat < 128 :=
  of_isSymbol (P := fun c => (symbol (symbolValue c.toUpper)).toLower = c ∧
    symbolValue c.toUpper < 32 ∧ c.toNat < 128) (by decide +kernel) h

/-- Only ASCII letters have another lower case. -/
theorem toLower_of_ge (h : 128 ≤ c.toNat) : c.toLower = c := by
  rw [Char.toLower, dif_neg]
  intro hc
  have : c.toNat ≤ 90 := hc.2
  omega

theorem toNat_lt_of_toLower (h : c.toLower.toNat < 128) : c.toNat < 128 := by
  by_contra hge
  rw [toLower_of_ge (by omega)] at h
  omega

theorem isSymbol_toLower : isSymbol c.toLower = true ↔ IsBase32 c := by
  by_cases hc : c.toNat < 128
  · have h : ∀ n < 128, isSymbol (Char.ofNat n).toLower = true ↔ IsBase32 (Char.ofNat n) := by
      unfold IsBase32
      decide +kernel
    have := h c.toNat hc
    rwa [Char.ofNat_toNat] at this
  · have hnot : ¬ IsBase32 c := by
      rintro (h | h | h) <;> exact hc (lt_of_le_of_lt (show c.toNat ≤ _ from h.2) (by decide))
    refine iff_of_false (fun h => hc ?_) hnot
    exact toNat_lt_of_toLower (symbol_symbolValue h).2.2

/-- Digits in the lower case of the alphabet. -/
def lowerText (ds : List ℕ) : List Char := (ds.map symbol).map Char.toLower

/-- What a lower-case text stands for. -/
def lowerDigits (s : List Char) : List ℕ := (s.map Char.toUpper).map symbolValue

theorem lowerDigits_lowerText {ds : List ℕ} (h : ∀ d ∈ ds, d < 32) :
    lowerDigits (lowerText ds) = ds := by
  simp only [lowerDigits, lowerText, map_map]
  exact (map_congr_left fun d hd => (isSymbol_symbol (h d hd)).2).trans (map_id ds)

theorem lowerText_lowerDigits (h : ∀ c ∈ s, isSymbol c = true) : lowerText (lowerDigits s) = s := by
  simp only [lowerDigits, lowerText, map_map]
  exact (map_congr_left fun c hc => (symbol_symbolValue (h c hc)).1).trans (map_id s)

theorem isSymbol_of_mem_lowerText {ds : List ℕ} (h : ∀ d ∈ ds, d < 32) :
    ∀ c ∈ lowerText ds, isSymbol c = true := by
  simp only [lowerText, map_map, mem_map]
  rintro c ⟨d, hd, rfl⟩
  exact (isSymbol_symbol (h d hd)).1

theorem lt_of_mem_lowerDigits (h : ∀ c ∈ s, isSymbol c = true) : ∀ d ∈ lowerDigits s, d < 32 := by
  simp only [lowerDigits, map_map, mem_map]
  rintro d ⟨c, hc, rfl⟩
  exact (symbol_symbolValue (h c hc)).2.1

/-! ### Addresses -/

section Address

variable (checksum : Bytes 32 → Bytes 2)

/-- Key, checksum and version. -/
def rawBlock (k : Bytes 32) : List UInt8 := k.1 ++ ((checksum k).1 ++ [3])

/-- `onion_address`. -/
def onionAddress (k : Bytes 32) : List Char :=
  (base32Encode (rawBlock checksum k)).map Char.toLower ++ ".onion".toList

inductive ParseError
  | badLength (length : ℕ)
  | badCharacter (c : Char) (position : ℕ)
  | unsupportedVersion (version : UInt8)
  | checksumMismatch
  deriving DecidableEq

/-- The body of an address, with its suffix in one of two spellings. -/
def stripOnion (addr : List Char) : Option (List Char) :=
  addr.dropSuffix? ".onion".toList <|> addr.dropSuffix? ".ONION".toList

/-- What the parser does with the 35 bytes. -/
def checkBlock (raw : Bytes 35) : Except ParseError (Bytes 32) :=
  let pubkey : Bytes 32 := ⟨raw.1.take 32, by simp [raw.2]⟩
  let rest := raw.1.drop 32
  if rest.getD 2 0 ≠ 3 then .error (.unsupportedVersion (rest.getD 2 0))
  else if rest.take 2 ≠ (checksum pubkey).1 then .error .checksumMismatch
  else .ok pubkey

/-- `parse_onion_address`. -/
def parseOnionAddress (addr : List Char) : Except ParseError (Bytes 32) :=
  match stripOnion addr with
  | none => .error (.badLength (Text.utf8 addr).length)
  | some body =>
    if (Text.utf8 body).length ≠ 56 then .error (.badLength (Text.utf8 body).length)
    else
      match (body.map Char.toLower).zipIdx.find? (fun p => !isSymbol p.1) with
      | some (c, i) => .error (.badCharacter c i)
      | none => checkBlock checksum (base32Decode ((body.map Char.toLower).map Char.toUpper))

theorem length_rawBlock (k : Bytes 32) : (rawBlock checksum k).length = 35 := by
  simp [rawBlock, k.2, (checksum k).2]

/-- The number whose digits make the body of an address. -/
def number (k : Bytes 32) : ℕ := BigEndian.decode (rawBlock checksum k)

theorem number_lt (k : Bytes 32) : number checksum k < 32 ^ 56 := by
  have h := BigEndian.decode_lt (rawBlock checksum k)
  rw [length_rawBlock] at h
  exact lt_of_lt_of_eq h (by norm_num)

theorem onionAddress_eq (k : Bytes 32) :
    onionAddress checksum k = lowerText (digits 32 56 (number checksum k)) ++ ".onion".toList := by
  rw [onionAddress, base32Encode, length_rawBlock]
  rfl

theorem checkBlock_eq_ok_iff {raw : Bytes 35} :
    checkBlock checksum raw = .ok k ↔ raw.1 = rawBlock checksum k := by
  have hsplit : raw.1 = raw.1.take 32 ++ ((raw.1.drop 32).take 2 ++ (raw.1.drop 34)) := by
    rw [show raw.1.drop 34 = (raw.1.drop 32).drop 2 by rw [drop_drop], take_append_drop,
      take_append_drop]
  have hlast : raw.1.drop 34 = [(raw.1.drop 32).getD 2 0] := by
    have hlt : 34 < raw.1.length := by rw [raw.2]; norm_num
    rw [drop_eq_getElem_cons hlt, drop_eq_nil_of_le (by rw [raw.2])]
    simp [getElem?_drop, getElem?_eq_getElem hlt]
  constructor
  · intro h
    simp only [checkBlock] at h
    split_ifs at h with hversion hsum
    cases h
    rw [hlast, not_not.mp hversion, not_not.mp hsum] at hsplit
    exact hsplit
  · intro h
    have htake : raw.1.take 32 = k.1 := by rw [h, rawBlock, take_left' k.2]
    have hdrop : raw.1.drop 32 = (checksum k).1 ++ [3] := by rw [h, rawBlock, drop_left' k.2]
    have hkey : (⟨raw.1.take 32, by simp [raw.2]⟩ : Bytes 32) = k := Subtype.ext htake
    have hversion : ((checksum k).1 ++ [(3 : UInt8)]).getD 2 0 = 3 := by
      rw [getD_eq_getElem?_getD, getElem?_append_right (by rw [(checksum k).2]),
        (checksum k).2]
      rfl
    unfold checkBlock
    simp only [hkey, hdrop, hversion, take_left' (checksum k).2, ne_eq, not_true_eq_false,
      if_false]

/-- On 56 symbols, decoding and checking inverts the text of an address. -/
theorem checkBlock_base32Decode_iff (hs : ∀ c ∈ s, isSymbol c = true) (hlen : s.length = 56) :
    checkBlock checksum (base32Decode (s.map Char.toUpper)) = .ok k ↔
      s = lowerText (digits 32 56 (number checksum k)) := by
  have hds := lt_of_mem_lowerDigits hs
  have hdslen : (lowerDigits s).length = 56 := by simp [lowerDigits, hlen]
  have hraw : (base32Decode (s.map Char.toUpper)).1 =
      BigEndian.encode 35 (value 32 (lowerDigits s)) := rfl
  have hback := BigEndian.digits_value hds
  rw [checkBlock_eq_ok_iff, hraw]
  constructor
  · intro h
    have hnumber : number checksum k = value 32 (lowerDigits s) := by
      rw [number, ← h, BigEndian.decode_encode]
      have hlt := BigEndian.value_lt hds
      rw [hdslen] at hlt
      exact lt_of_lt_of_eq hlt (by norm_num)
    rw [hnumber, ← hdslen, hback, lowerText_lowerDigits hs]
  · intro h
    have hvalue : value 32 (lowerDigits s) = number checksum k := by
      rw [h, lowerDigits_lowerText fun d => BigEndian.digits_lt (by norm_num),
        BigEndian.value_digits, Nat.mod_eq_of_lt (number_lt checksum k)]
    rw [hvalue, ← length_rawBlock checksum k]
    exact BigEndian.encode_decode _

theorem find_eq_none_iff :
    s.zipIdx.find? (fun p => !isSymbol p.1) = none ↔ ∀ c ∈ s, isSymbol c = true := by
  simp only [find?_eq_none, Bool.not_eq_true', Bool.not_eq_false]
  refine ⟨fun h c hc => ?_, fun h p hp => h p.1 (fst_mem_of_mem_zipIdx hp)⟩
  obtain ⟨i, hi, rfl⟩ := mem_iff_getElem.mp hc
  exact h (s[i], i) (by simp [mem_zipIdx_iff_getElem?, hi])

theorem parse_eq_ok_iff {body : List Char} (hstrip : stripOnion addr = some body) :
    parseOnionAddress checksum addr = .ok k ↔
      body.map Char.toLower = lowerText (digits 32 56 (number checksum k)) := by
  have hutf : (∀ c ∈ body.map Char.toLower, isSymbol c = true) →
      (Text.utf8 body).length = (body.map Char.toLower).length := by
    intro h
    rw [length_map]
    refine Text.length_utf8 fun c hc => toNat_lt_of_toLower ?_
    exact (symbol_symbolValue (h _ (mem_map_of_mem hc))).2.2
  have hall := isSymbol_of_mem_lowerText
    fun d => BigEndian.digits_lt (b := 32) (w := 56) (n := number checksum k) (d := d) (by norm_num)
  simp only [parseOnionAddress, hstrip]
  constructor
  · intro h
    split at h
    · cases h
    · next hlen =>
      split at h
      · cases h
      · next hfind =>
        have hs := find_eq_none_iff.mp hfind
        exact (checkBlock_base32Decode_iff checksum hs (by rw [← hutf hs]; omega)).mp h
  · intro h
    rw [← h] at hall
    have hlen : (body.map Char.toLower).length = 56 := by rw [h]; simp [lowerText]
    rw [if_neg (by rw [hutf hall, hlen]; simp), find_eq_none_iff.mpr hall]
    exact (checkBlock_base32Decode_iff checksum hall hlen).mpr h

/-- The suffix is in a spelling that the parser does not know. -/
def OddSuffix (addr : List Char) : Prop :=
  ¬ ".onion".toList <:+ addr ∧ ¬ ".ONION".toList <:+ addr

theorem dropSuffix?_eq_some {p b : List Char} : s.dropSuffix? p = some b ↔ s = b ++ p := by
  simp [dropSuffix?_eq_some_iff]

theorem dropSuffix?_eq_none {p : List Char} : s.dropSuffix? p = none ↔ ¬ p <:+ s := by
  simp only [Option.eq_none_iff_forall_ne_some, ne_eq, dropSuffix?_eq_some]
  exact ⟨fun h ⟨b, hb⟩ => h b hb.symm, fun h b hb => h ⟨b, hb.symm⟩⟩

theorem stripOnion_eq_none_iff : stripOnion addr = none ↔ OddSuffix addr := by
  rw [stripOnion, Option.orElse_eq_orElse, Option.orElse_eq_or, Option.or_eq_none_iff,
    dropSuffix?_eq_none, dropSuffix?_eq_none, OddSuffix]

theorem eq_of_stripOnion {body : List Char} (h : stripOnion addr = some body) :
    addr.map Char.toLower = body.map Char.toLower ++ ".onion".toList := by
  rw [stripOnion, Option.orElse_eq_orElse, Option.orElse_eq_or, Option.or_eq_some_iff] at h
  rcases h with h | ⟨-, h⟩ <;>
    · rw [dropSuffix?_eq_some.mp h, map_append]
      congr 1

/-- **When parsing is the inverse of encoding.**  For every text: unless it is an address up to its
case with a suffix in mixed case, the parser gives a key exactly if the text is the address of the
key up to its case. -/
theorem parse_inverse_iff (addr : List Char) :
    (∀ k, parseOnionAddress checksum addr = .ok k ↔
      addr.map Char.toLower = onionAddress checksum k) ↔
    ¬ (OddSuffix addr ∧ ∃ k, addr.map Char.toLower = onionAddress checksum k) := by
  cases hstrip : stripOnion addr with
  | none =>
    have hodd := stripOnion_eq_none_iff.mp hstrip
    simp [parseOnionAddress, hstrip, hodd]
  | some body =>
    have hnot : ¬ OddSuffix addr := by
      rw [← stripOnion_eq_none_iff, hstrip]
      simp
    refine iff_of_true (fun k => ?_) fun h => hnot h.1
    rw [parse_eq_ok_iff checksum hstrip, eq_of_stripOnion hstrip, onionAddress_eq,
      List.append_left_inj]

end Address

/-- **A valid address is rejected.**  The suffix is in mixed case. -/
theorem mixed_suffix_rejected :
    let checksum : Bytes 32 → Bytes 2 := fun _ => ⟨[0, 0], rfl⟩
    let k : Bytes 32 := ⟨List.replicate 32 0, rfl⟩
    let addr := List.replicate 55 'a' ++ "d.Onion".toList
    addr.map Char.toLower = onionAddress checksum k ∧
      parseOnionAddress checksum addr = .error (.badLength 62) := by
  decide +kernel

/-! ### Vanity prefixes -/

def maxPrefixLen : ℕ := 8

inductive VanityError
  | empty
  | tooLong (length : ℕ)
  | invalidCharacter (c : Char)

structure VanityTarget where
  text : List Char
  bits : ℕ
  pattern : ℕ

/-- One round of the loop over the characters. -/
def pushSymbol (pattern : ℕ) (c : Char) : Except VanityError ℕ :=
  if 'a' ≤ c ∧ c ≤ 'z' then .ok (pattern <<< 5 ||| (c.toNat - 'a'.toNat))
  else if '2' ≤ c ∧ c ≤ '7' then .ok (pattern <<< 5 ||| (c.toNat - '2'.toNat + 26))
  else .error (.invalidCharacter c)

/-- `VanityTarget::new`. -/
def VanityTarget.new (text : List Char) : Except VanityError VanityTarget :=
  let lower := text.map Char.toLower
  if lower = [] then .error .empty
  else if maxPrefixLen < (Text.utf8 lower).length then .error (.tooLong (Text.utf8 lower).length)
  else do
    let pattern ← lower.foldlM pushSymbol 0
    .ok ⟨lower, (Text.utf8 lower).length * 5, pattern⟩

/-- `VanityTarget::matches`. -/
def VanityTarget.matchesKey (t : VanityTarget) (k : Bytes 32) : Bool :=
  BigEndian.decode (k.1.take 8) >>> (64 - t.bits) == t.pattern

theorem pushSymbol_of_isSymbol (h : isSymbol c = true) (pattern : ℕ) :
    pushSymbol pattern c = .ok (pattern * 32 + symbolValue c.toUpper) := by
  have hor : ∀ {v}, v = symbolValue c.toUpper →
      pattern <<< 5 ||| v = pattern * 32 + symbolValue c.toUpper := by
    rintro v rfl
    rw [← Nat.shiftLeft_add_eq_or_of_lt (symbol_symbolValue h).2.1, Nat.shiftLeft_eq]
  have hval : ('a' ≤ c ∧ c ≤ 'z' → c.toNat - 'a'.toNat = symbolValue c.toUpper) ∧
      ('2' ≤ c ∧ c ≤ '7' → c.toNat - '2'.toNat + 26 = symbolValue c.toUpper) :=
    of_isSymbol (P := fun c => ('a' ≤ c ∧ c ≤ 'z' → c.toNat - 'a'.toNat = symbolValue c.toUpper) ∧
      ('2' ≤ c ∧ c ≤ '7' → c.toNat - '2'.toNat + 26 = symbolValue c.toUpper)) (by decide +kernel) h
  unfold pushSymbol
  split_ifs with hletter hdigit
  · rw [hor (hval.1 hletter)]
  · rw [hor (hval.2 hdigit)]
  · simp only [isSymbol, Bool.or_eq_true, Bool.and_eq_true, decide_eq_true_eq] at h
    exact absurd h (by tauto)

theorem foldlM_pushSymbol (h : ∀ c ∈ s, isSymbol c = true) (n : ℕ) :
    s.foldlM pushSymbol n = .ok ((lowerDigits s).foldl (fun n d => n * 32 + d) n) := by
  induction s generalizing n with
  | nil => rfl
  | cons c s ih =>
    rw [foldlM_cons, pushSymbol_of_isSymbol (h c (by simp))]
    exact ih (fun d hd => h d (by simp [hd])) _

theorem isSymbol_of_foldlM {n m : ℕ} (h : s.foldlM pushSymbol n = .ok m) :
    ∀ c ∈ s, isSymbol c = true := by
  induction s generalizing n with
  | nil => simp
  | cons c s ih =>
    rw [foldlM_cons] at h
    by_cases hc : isSymbol c = true
    · rw [pushSymbol_of_isSymbol hc] at h
      simpa [hc] using ih h
    · simp only [isSymbol, Bool.or_eq_true, Bool.and_eq_true, decide_eq_true_eq, not_or] at hc
      rw [pushSymbol, if_neg hc.1, if_neg hc.2] at h
      cases h

theorem new_eq_ok_iff {text : List Char} {t : VanityTarget} : VanityTarget.new text = .ok t ↔
    text ≠ [] ∧ text.length ≤ maxPrefixLen ∧ (∀ c ∈ text, IsBase32 c) ∧
      t = ⟨text.map Char.toLower, text.length * 5, value 32 (lowerDigits (text.map Char.toLower))⟩
      := by
  have hmem : (∀ c ∈ text.map Char.toLower, isSymbol c = true) ↔ ∀ c ∈ text, IsBase32 c := by
    simp [isSymbol_toLower]
  have hutf : (∀ c ∈ text.map Char.toLower, isSymbol c = true) →
      (Text.utf8 (text.map Char.toLower)).length = text.length := fun h => by
    rw [Text.length_utf8 fun c hc => (symbol_symbolValue (h c hc)).2.2, length_map]
  unfold VanityTarget.new
  by_cases hall : ∀ c ∈ text.map Char.toLower, isSymbol c = true
  · simp only [hutf hall, foldlM_pushSymbol hall, map_eq_nil_iff]
    split_ifs with hnil hlong
    · simp [hnil]
    · simp [hlong.not_ge]
    · exact ⟨fun h => ⟨hnil, not_lt.mp hlong, hmem.mp hall, (Except.ok.inj h).symm⟩,
        fun h => h.2.2.2 ▸ rfl⟩
  · refine iff_of_false (fun h => hall ?_) fun h => hall (hmem.mpr h.2.2.1)
    simp only at h
    split_ifs at h
    cases hfold : (text.map Char.toLower).foldlM pushSymbol 0 with
    | error e => rw [hfold] at h; cases h
    | ok m => exact isSymbol_of_foldlM hfold

/-- The leading bits of the key are those of the whole block. -/
theorem number_div (checksum : Bytes 32 → Bytes 2) (k : Bytes 32) {n : ℕ} (hn : n ≤ 12) :
    number checksum k / 32 ^ (56 - n) = BigEndian.decode (k.1.take 8) / 2 ^ (64 - n * 5) := by
  have hblock : rawBlock checksum k =
      k.1.take 8 ++ (k.1.drop 8 ++ ((checksum k).1 ++ [3])) := by
    rw [rawBlock, ← append_assoc (k.1.take 8), take_append_drop]
  have htail : (k.1.drop 8 ++ ((checksum k).1 ++ [3])).length = 27 := by
    simp [k.2, (checksum k).2]
  have hlt := BigEndian.decode_lt (k.1.drop 8 ++ ((checksum k).1 ++ [3]))
  rw [htail] at hlt
  have hpow : (32 : ℕ) ^ (56 - n) = 256 ^ 27 * 2 ^ (64 - n * 5) := by
    rw [show (32 : ℕ) = 2 ^ 5 by norm_num, show (256 : ℕ) = 2 ^ 8 by norm_num, ← pow_mul, ← pow_mul,
      ← pow_add]
    congr 1
    omega
  rw [number, hblock, BigEndian.decode_append, htail, hpow, ← Nat.div_div_eq_div_mul,
    mul_comm, Nat.mul_add_div (by positivity), Nat.div_eq_of_lt hlt, add_zero]

/-- Comparing bits is comparing symbols. -/
theorem isPrefix_onionAddress_iff (checksum : Bytes 32 → Bytes 2) (k : Bytes 32)
    (hs : ∀ c ∈ s, isSymbol c = true) (hlen : s.length ≤ 12) : s <+: onionAddress checksum k ↔
      BigEndian.decode (k.1.take 8) / 2 ^ (64 - s.length * 5) = value 32 (lowerDigits s) := by
  set n := s.length with hn
  have hdslen : (lowerDigits s).length = n := by simp [lowerDigits, hn]
  have htake : (onionAddress checksum k).take n =
      lowerText (digits 32 n (number checksum k / 32 ^ (56 - n))) := by
    rw [onionAddress_eq, take_append_of_le_length (by simp [lowerText]; omega),
      ← BigEndian.take_digits, show n + (56 - n) = 56 by omega]
    simp [lowerText, map_take]
  have hsmall : number checksum k / 32 ^ (56 - n) < 32 ^ n := by
    rw [Nat.div_lt_iff_lt_mul (by positivity), ← pow_add, show n + (56 - n) = 56 by omega]
    exact number_lt checksum k
  rw [← number_div checksum k hlen, prefix_iff_eq_take, ← hn, htake]
  constructor
  · intro h
    rw [h, lowerDigits_lowerText fun d => BigEndian.digits_lt (by norm_num),
      BigEndian.value_digits, Nat.mod_eq_of_lt hsmall]
  · intro h
    rw [h, ← hdslen, BigEndian.digits_value (lt_of_mem_lowerDigits hs), lowerText_lowerDigits hs]

/-- **Matching bits is matching the address.**  An accepted prefix matches a key exactly if the
address of the key starts with it in lower case, whatever the checksum; and exactly the texts of one
to eight symbols in either case are accepted. -/
theorem vanity_matches (checksum : Bytes 32 → Bytes 2) (text : List Char) :
    (∀ t, VanityTarget.new text = .ok t → ∀ k, t.matchesKey k = true ↔
      text.map Char.toLower <+: onionAddress checksum k) ∧
    ((∃ t, VanityTarget.new text = .ok t) ↔
      text ≠ [] ∧ text.length ≤ maxPrefixLen ∧ ∀ c ∈ text, IsBase32 c) := by
  constructor
  · intro t ht k
    obtain ⟨-, hlen, hall, rfl⟩ := new_eq_ok_iff.mp ht
    have hs : ∀ c ∈ text.map Char.toLower, isSymbol c = true := by
      simpa [isSymbol_toLower] using hall
    rw [isPrefix_onionAddress_iff checksum k hs
      (by rw [List.length_map]; exact hlen.trans (by decide)), List.length_map,
      VanityTarget.matchesKey, beq_iff_eq, Nat.shiftRight_eq_div_pow]
  · simp only [new_eq_ok_iff]
    exact ⟨fun ⟨_, hne, hlen, hall, _⟩ => ⟨hne, hlen, hall⟩,
      fun ⟨hne, hlen, hall⟩ => ⟨_, hne, hlen, hall, rfl⟩⟩

/-- A prefix in mixed case. -/
theorem vanity_matches_mixed : ∀ k, (⟨"ab".toList, 10, 1⟩ : VanityTarget).matchesKey k = true ↔
    "ab".toList <+: onionAddress (fun _ => ⟨[0, 0], rfl⟩) k :=
  (vanity_matches _ "aB".toList).1 _ rfl

end OnionAddress
