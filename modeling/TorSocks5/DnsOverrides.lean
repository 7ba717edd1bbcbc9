/-
**The overrides of the DNS server.**

An operator may list masks of host names that are not resolved through the tunnel.  A mask is a
pattern with stars, compared byte by byte after both sides have been lowercased; the first mask of
the list that a host matches decides.
-/

import Mathlib
import TorSocks5.Glob
import TorSocks5.Text

set_option autoImplicit false

namespace DnsOverrides

open Glob (Fills Later)

/-- The byte `b'*'`. -/
def asterisk : UInt8 := 42

/-! ### The matcher -/

/-- The indices of the walk: into the pattern, into the host, of the last star, and where the part
of the host begins that this star takes in. -/
structure Cursor where
  patternIndex : ℕ
  hostIndex : ℕ
  starIndex : Option ℕ
  starMatchStart : ℕ

/-- One round of the walk; nothing if the host does not match. -/
def advance (pattern host : List UInt8) (c : Cursor) : Option Cursor :=
  if pattern[c.patternIndex]? = some asterisk then
    some { c with
      starIndex := some c.patternIndex
      starMatchStart := c.hostIndex
      patternIndex := c.patternIndex + 1 }
  else if c.patternIndex < pattern.length ∧ pattern[c.patternIndex]? = host[c.hostIndex]? then
    some { c with
      patternIndex := c.patternIndex + 1
      hostIndex := c.hostIndex + 1 }
  else
    match c.starIndex with
    | some star =>
      some { c with
        patternIndex := star + 1
        starMatchStart := c.starMatchStart + 1
        hostIndex := c.starMatchStart + 1 }
    | none => none

/-- The index after the stars that follow. -/
def skipStars (pattern : List UInt8) (i : ℕ) : ℕ :=
  i + ((pattern.drop i).takeWhile fun b => b == asterisk).length

/-- The walk; nothing if the rounds do not suffice. -/
def scan (pattern host : List UInt8) : ℕ → Cursor → Option Bool
  | 0, _ => none
  | rounds + 1, c =>
    if c.hostIndex < host.length then
      match advance pattern host c with
      | some c' => scan pattern host rounds c'
      | none => some false
    else some (skipStars pattern c.patternIndex == pattern.length)

/-- Rounds that suffice: a star moves its begin at most once for each byte of the host, and between
two such moves the index into the pattern only grows. -/
def rounds (pattern host : List UInt8) : ℕ := (host.length + 2) * (pattern.length + 1)

def Cursor.start : Cursor := ⟨0, 0, none, 0⟩

/-- The bytes of `to_ascii_lowercase`. -/
def lowerBytes (text : List Char) : List UInt8 := Text.utf8 (text.map Char.toLower)

/-- `matches`. -/
def globMatches (pattern host : List Char) : Bool :=
  (scan (lowerBytes pattern) (lowerBytes host) (rounds (lowerBytes pattern) (lowerBytes host))
    Cursor.start).getD false

/-- An override; the resolver `R` is what it leads to. -/
structure DnsOverride (R : Type) where
  pattern : List Char
  resolver : R

def findOverride {R : Type} (overrides : List (DnsOverride R)) (host : List Char) :
    Option (DnsOverride R) :=
  overrides.find? fun entry => globMatches entry.pattern host

/-! ### What the walk has left to find -/

section Walk

variable {pattern host : List UInt8} {c c' : Cursor}

/-- The walk is inside both strings, and since the last star the pattern had letters only, which the
host has as well. -/
structure Cursor.Placed (pattern host : List UInt8) (c : Cursor) : Prop where
  pattern_le : c.patternIndex ≤ pattern.length
  host_le : c.hostIndex ≤ host.length
  back : ∀ star, c.starIndex = some star → c.starMatchStart ≤ c.hostIndex ∧ star < c.patternIndex ∧
    ∃ letters, asterisk ∉ letters ∧ pattern.drop (star + 1) =
      letters ++ pattern.drop c.patternIndex ∧
      host.drop c.starMatchStart = letters ++ host.drop c.hostIndex

/-- The rest of the host fills the rest of the pattern, or the last star can take in more. -/
def Cursor.Hopes (pattern host : List UInt8) (c : Cursor) : Prop :=
  Fills asterisk (pattern.drop c.patternIndex) (host.drop c.hostIndex) ∨
    ∃ star, c.starIndex = some star ∧
      Later asterisk (pattern.drop (star + 1)) (host.drop c.starMatchStart)

/-- The part of the host that the last star has not taken in. -/
def Cursor.room (host : List UInt8) (c : Cursor) : ℕ :=
  match c.starIndex with
  | some _ => host.length - c.starMatchStart
  | none => host.length + 1

/-- What decreases: the room, then the rest of the pattern. -/
def Cursor.measure (pattern host : List UInt8) (c : Cursor) : ℕ :=
  c.room host * (pattern.length + 1) + (pattern.length - c.patternIndex)

/-- A round keeps the walk in place and what it can find, and makes progress. -/
structure Kept (pattern host : List UInt8) (c c' : Cursor) : Prop where
  placed : c'.Placed pattern host
  hopes : c.Hopes pattern host ↔ c'.Hopes pattern host
  measure_lt : c'.measure pattern host < c.measure pattern host

theorem drop_of_getElem? {α : Type} {l : List α} {i : ℕ} {a : α} (h : l[i]? = some a) :
    l.drop i = a :: l.drop (i + 1) := by
  obtain ⟨hi, rfl⟩ := List.getElem?_eq_some_iff.1 h
  exact List.drop_eq_getElem_cons hi

theorem Cursor.Placed.le_room (hc : c.Placed pattern host) :
    host.length - c.hostIndex ≤ c.room host := by
  unfold Cursor.room
  cases hstar : c.starIndex with
  | none => exact (Nat.sub_le _ _).trans (Nat.le_succ _)
  | some star => exact Nat.sub_le_sub_left (hc.back star hstar).1 _

/-- The walk meets a star. -/
theorem kept_star (hc : c.Placed pattern host)
    (hstar : pattern[c.patternIndex]? = some asterisk) :
    Kept pattern host c { c with
      starIndex := some c.patternIndex
      starMatchStart := c.hostIndex
      patternIndex := c.patternIndex + 1 } := by
  have hdrop := drop_of_getElem? hstar
  obtain ⟨hi, -⟩ := List.getElem?_eq_some_iff.1 hstar
  refine ⟨⟨hi, hc.host_le, ?_⟩, ?_, ?_⟩
  · rintro star ⟨⟩
    exact ⟨le_rfl, Nat.lt_succ_self _, [], List.not_mem_nil, rfl, rfl⟩
  · unfold Cursor.Hopes
    rw [hdrop, Glob.fills_star_iff_later, or_iff_left_of_imp]
    · simp
    · -- what the earlier star could take in, this one can
      rintro ⟨star, hback, hlater⟩
      obtain ⟨-, -, letters, hletters, hpattern, hhost⟩ := hc.back star hback
      rw [hpattern, hhost, hdrop] at hlater
      exact Glob.fills_star_iff_later.1 (Glob.fills_of_later hletters hlater)
  · have hroom := Nat.mul_le_mul_right (pattern.length + 1) hc.le_room
    change (host.length - c.hostIndex) * (pattern.length + 1) +
      (pattern.length - (c.patternIndex + 1)) < c.room host * (pattern.length + 1) + _
    omega

/-- The walk meets a letter that the host has. -/
theorem kept_letter (hc : c.Placed pattern host) {b : UInt8} (hb : b ≠ asterisk)
    (hpattern : pattern[c.patternIndex]? = some b) (hhost : host[c.hostIndex]? = some b) :
    Kept pattern host c { c with
      patternIndex := c.patternIndex + 1
      hostIndex := c.hostIndex + 1 } := by
  have hdropPattern := drop_of_getElem? hpattern
  have hdropHost := drop_of_getElem? hhost
  obtain ⟨hi, -⟩ := List.getElem?_eq_some_iff.1 hpattern
  obtain ⟨hj, -⟩ := List.getElem?_eq_some_iff.1 hhost
  refine ⟨⟨hi, hj, fun star hback => ?_⟩, ?_, ?_⟩
  · obtain ⟨hle, hbefore, letters, hletters, hrestPattern, hrestHost⟩ := hc.back star hback
    exact ⟨Nat.le_succ_of_le hle, Nat.lt_succ_of_lt hbefore, letters ++ [b],
      by simp [hletters, hb.symm], by simp [hrestPattern, hdropPattern],
      by simp [hrestHost, hdropHost]⟩
  · unfold Cursor.Hopes
    rw [hdropPattern, hdropHost, Glob.fills_cons_iff hb]
    simp
  · change c.room host * (pattern.length + 1) + (pattern.length - (c.patternIndex + 1)) <
      c.room host * (pattern.length + 1) + (pattern.length - c.patternIndex)
    omega

/-- The rest of the host does not begin as the rest of the pattern does. -/
def Cursor.Mismatch (pattern host : List UInt8) (c : Cursor) : Prop :=
  pattern[c.patternIndex]? ≠ some asterisk ∧
    ¬ (c.patternIndex < pattern.length ∧ pattern[c.patternIndex]? = host[c.hostIndex]?)

theorem not_fills_of_mismatch (hlt : c.hostIndex < host.length) (h : c.Mismatch pattern host) :
    ¬ Fills asterisk (pattern.drop c.patternIndex) (host.drop c.hostIndex) := by
  obtain ⟨hstar, hletter⟩ := h
  have hdropHost := List.drop_eq_getElem_cons hlt
  intro hfills
  cases hb : pattern[c.patternIndex]? with
  | none =>
    rw [List.drop_eq_nil_of_le (List.getElem?_eq_none_iff.1 hb), Glob.fills_nil_iff, hdropHost]
      at hfills
    exact absurd hfills (List.cons_ne_nil _ _)
  | some b =>
    rw [hb] at hstar hletter
    rw [drop_of_getElem? hb, Glob.fills_cons_iff fun heq => hstar (congrArg some heq)] at hfills
    obtain ⟨t, heq, -⟩ := hfills
    rw [hdropHost] at heq
    refine hletter ⟨(List.getElem?_eq_some_iff.1 hb).1, ?_⟩
    rw [List.getElem?_eq_getElem hlt, (List.cons.inj heq).1]

/-- The walk goes back, and the last star takes in one more byte. -/
theorem kept_back (hc : c.Placed pattern host) (hlt : c.hostIndex < host.length)
    (hmismatch : c.Mismatch pattern host) {star : ℕ} (hback : c.starIndex = some star) :
    Kept pattern host c { c with
      patternIndex := star + 1
      starMatchStart := c.starMatchStart + 1
      hostIndex := c.starMatchStart + 1 } := by
  obtain ⟨hle, hbefore, -⟩ := hc.back star hback
  have hstart : c.starMatchStart < host.length := lt_of_le_of_lt hle hlt
  refine ⟨⟨hbefore.trans_le hc.pattern_le, hstart, fun star' heq => ?_⟩, ?_, ?_⟩
  · obtain rfl := Option.some.inj (hback.symm.trans heq)
    exact ⟨le_rfl, Nat.lt_succ_self _, [], List.not_mem_nil, rfl, rfl⟩
  · simp only [Cursor.Hopes, hback, Option.some.injEq, exists_eq_left',
      List.drop_eq_getElem_cons hstart, Glob.later_cons_iff]
    exact or_iff_right (not_fills_of_mismatch hlt hmismatch)
  · have hroom : c.room host = host.length - c.starMatchStart := by rw [Cursor.room, hback]
    have hless : host.length - c.starMatchStart = host.length - (c.starMatchStart + 1) + 1 := by
      omega
    unfold Cursor.measure
    rw [hroom, hless, Nat.add_mul, Nat.one_mul, Cursor.room, hback]
    change (host.length - (c.starMatchStart + 1)) * (pattern.length + 1) + _ < _
    omega

/-- **A round keeps what the walk can find.** -/
theorem kept_of_advance (hc : c.Placed pattern host) (hlt : c.hostIndex < host.length)
    (h : advance pattern host c = some c') : Kept pattern host c c' := by
  unfold advance at h
  split at h
  · next hstar => exact Option.some.inj h ▸ kept_star hc hstar
  split at h
  · next hstar hletter =>
    cases h
    have hb := List.getElem?_eq_getElem hletter.1
    exact kept_letter hc (fun heq => hstar (heq ▸ hb)) hb (hletter.2.symm.trans hb)
  · next hstar hletter =>
    cases hback : c.starIndex <;> rw [hback] at h <;> cases h
    rw [← hback]
    exact kept_back hc hlt ⟨hstar, hletter⟩ hback

/-- The walk gives up where there is nothing left to find. -/
theorem not_hopes_of_advance (hlt : c.hostIndex < host.length)
    (h : advance pattern host c = none) : ¬ c.Hopes pattern host := by
  unfold advance at h
  split at h
  · cases h
  split at h
  · cases h
  next hstar hletter =>
  cases hback : c.starIndex <;> rw [hback] at h <;> cases h
  rintro (hfills | ⟨star, heq, -⟩)
  · exact not_fills_of_mismatch hlt ⟨hstar, hletter⟩ hfills
  · cases hback.symm.trans heq

/-- At the end of the host only stars may be left of the pattern. -/
theorem skipStars_eq_iff (hc : c.Placed pattern host) (hend : ¬ c.hostIndex < host.length) :
    skipStars pattern c.patternIndex = pattern.length ↔ c.Hopes pattern host := by
  have hnil : host.drop c.hostIndex = [] := List.drop_eq_nil_of_le (Nat.le_of_not_lt hend)
  have hlength : (pattern.drop c.patternIndex).length = pattern.length - c.patternIndex :=
    List.length_drop
  have hstars : skipStars pattern c.patternIndex = pattern.length ↔
      Fills asterisk (pattern.drop c.patternIndex) [] := by
    have hle := hc.pattern_le
    rw [Glob.fills_empty_iff, skipStars]
    constructor
    · intro heq b hb
      have hself : (pattern.drop c.patternIndex).takeWhile (fun b => b == asterisk) =
          pattern.drop c.patternIndex :=
        (List.takeWhile_prefix _).eq_of_length (by omega)
      exact beq_iff_eq.1 (List.takeWhile_eq_self_iff.1 hself b hb)
    · intro hall
      rw [List.takeWhile_eq_self_iff.2 fun b hb => beq_iff_eq.2 (hall b hb)]
      omega
  rw [hstars, Cursor.Hopes, hnil]
  constructor
  · exact .inl
  · rintro (hfills | ⟨star, hback, hlater⟩)
    · exact hfills
    · obtain ⟨-, -, letters, hletters, hrestPattern, hrestHost⟩ := hc.back star hback
      rw [hrestPattern, hrestHost, hnil, List.append_nil] at hlater
      exact absurd hlater (Glob.not_later_of_plain hletters)

/-- **The walk ends, with the right answer.** -/
theorem scan_eq (n : ℕ) : ∀ {c : Cursor}, c.Placed pattern host → c.measure pattern host < n →
    ∃ result, scan pattern host n c = some result ∧ (result = true ↔ c.Hopes pattern host) := by
  -- the measure decreases with every round, so the induction is on the rounds
  induction n with
  | zero => exact fun _ hlt => absurd hlt (Nat.not_lt_zero _)
  | succ n ih =>
    intro c hc hmeasure
    rw [scan]
    split_ifs with hlt
    · cases hadvance : advance pattern host c with
      | none => exact ⟨false, rfl, by simpa using not_hopes_of_advance hlt hadvance⟩
      | some c' =>
        have hkept := kept_of_advance hc hlt hadvance
        have hless := hkept.measure_lt
        obtain ⟨result, hscan, hresult⟩ := ih hkept.placed (by omega)
        exact ⟨result, hscan, hresult.trans hkept.hopes.symm⟩
    · exact ⟨_, rfl, beq_iff_eq.trans (skipStars_eq_iff hc hlt)⟩

theorem placed_start : Cursor.start.Placed pattern host :=
  ⟨Nat.zero_le _, Nat.zero_le _, fun _ h => absurd h (by simp [Cursor.start])⟩

theorem hopes_start : Cursor.start.Hopes pattern host ↔ Fills asterisk pattern host := by
  constructor
  · rintro (hfills | ⟨star, h, -⟩)
    · exact hfills
    · exact absurd h (by simp [Cursor.start])
  · exact .inl

theorem measure_start_lt : Cursor.start.measure pattern host < rounds pattern host := by
  have hrounds : rounds pattern host =
      (host.length + 1) * (pattern.length + 1) + (pattern.length + 1) := Nat.succ_mul _ _
  rw [hrounds]
  exact Nat.add_lt_add_left (Nat.lt_succ_self _) _

end Walk

/-! ### Masks -/

/-- The hosts that a mask stands for: each star is any byte string, and case makes no difference. -/
def language (pattern : List Char) : Set (List Char) :=
  { host | Fills asterisk (lowerBytes pattern) (lowerBytes host) }

theorem scan_start (pattern host : List UInt8) : ∃ result,
    scan pattern host (rounds pattern host) Cursor.start = some result ∧
      (result = true ↔ Fills asterisk pattern host) := by
  obtain ⟨result, hscan, hresult⟩ := scan_eq _ placed_start measure_start_lt
  exact ⟨result, hscan, hresult.trans hopes_start⟩

theorem globMatches_iff {pattern host : List Char} :
    globMatches pattern host = true ↔ host ∈ language pattern := by
  obtain ⟨result, hscan, hresult⟩ := scan_start (lowerBytes pattern) (lowerBytes host)
  rw [globMatches, hscan, Option.getD_some, hresult]
  exact Iff.rfl

/-- Masks match their language.  The walk of the matcher ends within its bound, and accepts exactly
the hosts that come out of the pattern when each star is replaced by some bytes, both sides
lowercased; so the lookup finds the first override whose language has the host, and none exactly if
there is no such one. -/
theorem overrides_match_globs :
    (∀ pattern host : List Char,
      (scan (lowerBytes pattern) (lowerBytes host)
        (rounds (lowerBytes pattern) (lowerBytes host)) Cursor.start).isSome ∧
      (globMatches pattern host = true ↔
        Fills asterisk (lowerBytes pattern) (lowerBytes host))) ∧
    ∀ (R : Type) (overrides : List (DnsOverride R)) (host : List Char),
      (∀ entry, findOverride overrides host = some entry ↔
        ∃ before after, overrides = before ++ entry :: after ∧ host ∈ language entry.pattern ∧
          ∀ earlier ∈ before, host ∉ language earlier.pattern) ∧
      (findOverride overrides host = none ↔ ∀ entry ∈ overrides,
        host ∉ language entry.pattern) := by
  refine ⟨fun pattern host => ⟨?_, globMatches_iff⟩, fun R overrides host => ⟨fun entry => ?_, ?_⟩⟩
  · obtain ⟨result, hscan, -⟩ := scan_start (lowerBytes pattern) (lowerBytes host)
    rw [hscan]
    rfl
  · rw [findOverride, List.find?_eq_some_iff_append, globMatches_iff]
    constructor
    · rintro ⟨hmem, before, after, hlist, hearlier⟩
      refine ⟨before, after, hlist, hmem, fun earlier hmem' => ?_⟩
      rw [← globMatches_iff]
      simpa using hearlier earlier hmem'
    · rintro ⟨before, after, hlist, hmem, hearlier⟩
      refine ⟨hmem, before, after, hlist, fun earlier hmem' => ?_⟩
      have hnot := hearlier earlier hmem'
      rw [← globMatches_iff] at hnot
      simpa using hnot
  · rw [findOverride, List.find?_eq_none]
    simp only [globMatches_iff]

example : globMatches "*.Example.*".toList "a.b.eXample.com".toList = true := by decide +kernel

end DnsOverrides
