/-
**What a client access list means.**

The tokens of an allow-list form a small pattern language.  Here it is given on its own terms: how a
token is spelled, and which addresses it stands for.  The parser accepts a list exactly when all of
its tokens are spelled so, and the rules it compiles accept exactly the addresses the tokens stand
for.
-/

import Mathlib
import TorSocks5.ClientAclParser
import TorSocks5.Pairing

set_option autoImplicit false

namespace ClientAcl

open List

open Pairing
open SlotMask (Covers)

/-! ### Components -/

/-- A component of an IPv4 mask: a whole `*`, or a decimal octet without leading zeros. -/
def Component4 (text : List Char) (slot : Option (BitVec 8)) : Prop :=
  text = ['*'] ∧ slot = none ∨ ∃ o, slot = some o ∧ text = Nat.toDigits 10 o.toNat

/-- A component of an IPv6 mask: a whole `*`, or one to four hexadecimal digits. -/
def Component6 (text : List Char) (slot : Option (BitVec 16)) : Prop :=
  text = ['*'] ∧ slot = none ∨
    ∃ n, text ≠ [] ∧ text.length ≤ 4 ∧ Text.hexValue text = some n ∧ slot = some (BitVec.ofNat 16 n)

/-! ### Masks -/

/-- A dotted IPv4 mask of at least two and at most four components.  Fewer than four end in `*`, and
the missing octets are free. -/
def V4Mask (text : List Char) (slots : List (Option (BitVec 8))) : Prop :=
  ∃ texts components, List.Forall₂ Component4 texts components ∧
    2 ≤ texts.length ∧ texts.length ≤ 4 ∧ (texts.length < 4 → components.getLast? = some none) ∧
    text = ['.'].intercalate texts ∧
    slots = components ++ List.replicate (4 - components.length) none

/-- Hextets with colons between them: as many as there have to be, or fewer around a double colon
that stands for zeros. -/
inductive Spells (total : ℕ) : List Char → List (Option (BitVec 16)) → Prop
  | full {texts : List (List Char)} {slots : List (Option (BitVec 16))}
      (components : List.Forall₂ Component6 texts slots) (length : texts.length = total) :
      Spells total ([':'].intercalate texts) slots
  | compressed {left right : List (List Char)} {leftSlots rightSlots : List (Option (BitVec 16))}
      (leftComponents : List.Forall₂ Component6 left leftSlots)
      (rightComponents : List.Forall₂ Component6 right rightSlots)
      (length : left.length + right.length < total) :
      Spells total ([':'].intercalate left ++ ':' :: ':' :: [':'].intercalate right)
        (leftSlots ++ List.replicate (total - leftSlots.length - rightSlots.length) (some 0) ++
          rightSlots)

/-- An IPv6 mask: eight hextets, or fewer that end in `*` with the missing ones free. -/
def V6Mask (text : List Char) (slots : List (Option (BitVec 16))) : Prop :=
  Spells 8 text slots ∨
    ∃ texts components, List.Forall₂ Component6 texts components ∧
      2 ≤ texts.length ∧ texts.length < 8 ∧ components.getLast? = some none ∧
      text = [':'].intercalate texts ∧
      slots = components ++ List.replicate (8 - components.length) none

/-! ### Addresses -/

/-- Four octets with dots between them. -/
def QuadLiteral (text : List Char) (bits : BitVec 32) : Prop :=
  ∃ octets : List (BitVec 8), octets.length = 4 ∧
    text = ['.'].intercalate (octets.map fun o => Nat.toDigits 10 o.toNat) ∧
    Covers (octets.map some) bits

/-- Eight hextets, or six and four octets in the place of the last two. -/
def V6Literal (text : List Char) (bits : BitVec 128) : Prop :=
  (∃ hextets : List (BitVec 16), Spells 8 text (hextets.map some) ∧
    Covers (hextets.map some) bits) ∨
    ∃ front quad, ∃ hextets : List (BitVec 16), text = front ++ ':' :: quad ∧
      QuadLiteral quad (bits.setWidth 32) ∧
      Spells 8 (front ++ [':', '0', ':', '0']) ((hextets ++ [0, 0]).map some) ∧
      Covers (hextets.map some) bits

def Literal (text : List Char) : IpAddr → Prop
  | .v4 bits => QuadLiteral text bits
  | .v6 bits => V6Literal text bits

/-- The parsers of the standard library read the addresses. -/
structure Standard (std : AddressParsers) : Prop where
  ip : ∀ text ip, std.ipFromStr text = some ip ↔ Literal text ip
  ipv6 : ∀ text bits, std.ipv6FromStr text = some bits ↔ V6Literal text bits

/-! ### Meanings -/

/-- The IPv4 addresses that a mask covers, in either form. -/
def v4Meaning (slots : List (Option (BitVec 8))) : Set IpAddr :=
  { ip | ∃ bits, normalizePeer ip = .v4 bits ∧ Covers slots bits }

/-- The addresses that an IPv6 mask covers: none of IPv4, unless the mask fixes the prefix of the
mapped addresses and so is a mask of these. -/
def v6Meaning (slots : List (Option (BitVec 16))) : Set IpAddr :=
  if slots.take 6 = mappedPrefix.map some then v4Meaning ((slots.drop 6).flatMap toOctets)
  else { ip | ∃ bits, normalizePeer ip = .v6 bits ∧ Covers slots bits }

/-- What a token stands for. -/
inductive Denotes : List Char → Set IpAddr → Prop
  | any : Denotes ['*'] Set.univ
  | loopback : Denotes "loopback".toList
      { ip | (∃ bits, normalizePeer ip = .v4 bits ∧ SlotMask.slot 8 bits 0 = 127) ∨
        normalizePeer ip = .v6 1 }
  | literal {text : List Char} {ip : IpAddr} (spelled : Literal text ip) :
      Denotes text { peer | normalizePeer peer = normalizePeer ip }
  | v4Mask {text : List Char} {slots : List (Option (BitVec 8))} (spelled : V4Mask text slots) :
      Denotes text (v4Meaning slots)
  | v6Mask {text : List Char} {slots : List (Option (BitVec 16))} (spelled : V6Mask text slots) :
      Denotes text (v6Meaning slots)
  | mapped {front tail : List Char} {slots : List (Option (BitVec 8))}
      (front_spelled : Spells 6 front (mappedPrefix.map some)) (tail_spelled : V4Mask tail slots) :
      Denotes (front ++ ':' :: tail) (v4Meaning slots)

/-! ### The components the parser reads -/

section Components

variable {text : List Char}

theorem not_mem_toDigits {c : Char} (hc : c.isDigit = false) (n : ℕ) : c ∉ Nat.toDigits 10 n := by
  intro hmem
  rw [Nat.isDigit_of_mem_toDigits (by norm_num) (by norm_num) hmem] at hc
  cases hc

/-- An octet is read from its decimal digits, and from nothing else. -/
theorem parseV4Octet_iff {o : BitVec 8} :
    parseV4Octet text = some o ↔ text = Nat.toDigits 10 o.toNat := by
  constructor
  · intro h
    unfold parseV4Octet at h
    split_ifs at h with _ hzero hdigits
    have hdigit : ∀ c ∈ text, c.isDigit = true := by simpa [all_eq_true] using hdigits
    obtain ⟨n, hn, rfl⟩ := Option.map_eq_some_iff.1 h
    rw [BitVec.toNat_ofNat, Nat.mod_eq_of_lt (Text.parseUnsigned_lt hn : n < 256)]
    -- no sign stands before the digits
    have hsign : text.head? ≠ some '+' := fun hhead =>
      absurd (hdigit '+' (mem_of_mem_head? hhead)) (by decide)
    exact Text.eq_toDigits_of_parseUnsigned hn hsign fun hlong hhead => hzero ⟨hlong, hhead⟩
  · rintro rfl
    have hall : ∀ n : Fin 256, parseV4Octet (Nat.toDigits 10 n) = some (BitVec.ofNat 8 n) := by
      decide +kernel
    simpa using hall ⟨o.toNat, o.isLt⟩

theorem parseV4Component_iff {slot : Option (BitVec 8)} :
    parseV4Component text = some slot ↔ Component4 text slot := by
  have hstar : ∀ n, ['*'] ≠ Nat.toDigits 10 n := fun n h =>
    not_mem_toDigits (c := '*') (by decide) n (h ▸ mem_cons_self)
  unfold parseV4Component Component4
  split_ifs with htext
  · simp [htext, hstar, eq_comm]
  · simp [htext, Option.map_eq_some_iff, parseV4Octet_iff, and_comm, eq_comm]

theorem parseV6Hextet_iff {slot : Option (BitVec 16)} :
    parseV6Hextet text = some slot ↔ Component6 text slot := by
  have hlt : ∀ n, Text.hexValue text = some n → text.length ≤ 4 → n < 65536 := fun n hn hlength =>
    (Text.hexValue_lt hn).trans_le (Nat.pow_le_pow_right (by norm_num) hlength)
  unfold parseV6Hextet Component6
  by_cases hstar : text = ['*']
  · subst hstar
    have hnone : Text.hexValue ['*'] = none := by decide
    simp [hnone, eq_comm]
  · rw [if_neg hstar]
    constructor
    · intro h
      split_ifs at h with hform
      simp only [not_or, Bool.not_eq_false, all_eq_true] at hform
      obtain ⟨hne, hlength, hdigits⟩ := hform
      obtain ⟨n, hn⟩ := Text.exists_hexValue hdigits
      rw [Text.parseHex_of_hexValue hne hn (hlt n hn (by omega))] at h
      exact .inr ⟨n, hne, by omega, hn, (Option.some.inj h).symm⟩
    · rintro (⟨htext, -⟩ | ⟨n, hne, hlength, hn, rfl⟩)
      · exact absurd htext hstar
      · rw [if_neg, Text.parseHex_of_hexValue hne hn (hlt n hn hlength)]
        · rfl
        · simp only [not_or, Bool.not_eq_false, all_eq_true]
          exact ⟨hne, by omega, Text.hexDigit_of_hexValue hn⟩

theorem Component4.star_iff {slot : Option (BitVec 8)} (h : Component4 text slot) :
    text = ['*'] ↔ slot = none := by
  have hread := parseV4Component_iff.2 h
  grind [parseV4Component, Component4]

theorem Component6.star_iff {slot : Option (BitVec 16)} (h : Component6 text slot) :
    text = ['*'] ↔ slot = none := by
  have hread := parseV6Hextet_iff.2 h
  grind [parseV6Hextet, Component6]

theorem Component4.plain {slot : Option (BitVec 8)} (h : Component4 text slot) :
    text ≠ [] ∧ '.' ∉ text ∧ ':' ∉ text := by
  rcases h with ⟨rfl, -⟩ | ⟨o, -, rfl⟩
  · decide
  · exact ⟨Nat.toDigits_ne_nil, not_mem_toDigits (by decide) _, not_mem_toDigits (by decide) _⟩

theorem Component6.plain {slot : Option (BitVec 16)} (h : Component6 text slot) :
    text ≠ [] ∧ ':' ∉ text ∧ '.' ∉ text := by
  rcases h with ⟨rfl, -⟩ | ⟨n, hne, -, hvalue, -⟩
  · decide
  · have hdigit := Text.hexDigit_of_hexValue hvalue
    exact ⟨hne, fun hc => absurd (hdigit _ hc) (by decide),
      fun hc => absurd (hdigit _ hc) (by decide)⟩

theorem component6_zero : Component6 ['0'] (some 0) :=
  .inr ⟨0, by decide, by decide, by decide, rfl⟩

end Components

/-! ### Components in a row -/

section Listed

variable {S : Type} {R : List Char → Option S → Prop} {sep : Char} {n : ℕ} {text : List Char}
  {slots slots' : List (Option S)} {texts : List (List Char)} {values : List (Option S)}

/-- At most `n` components with separators between them.  Fewer end in `*` and leave the rest
free. -/
def Listed (R : List Char → Option S → Prop) (sep : Char) (n : ℕ) (text : List Char)
    (slots : List (Option S)) : Prop :=
  ∃ texts values, List.Forall₂ R texts values ∧ 2 ≤ texts.length ∧ texts.length ≤ n ∧
    (texts.length < n → values.getLast? = some none) ∧ text = [sep].intercalate texts ∧
    slots = values ++ List.replicate (n - values.length) none

theorem splitOn_components (hR : ∀ t v, R t v → sep ∉ t) (h : List.Forall₂ R texts values)
    (hne : texts ≠ []) : ([sep].intercalate texts).splitOn sep = texts :=
  splitOn_intercalate sep (forall₂_forall_left h hR) hne

theorem getLast?_star (hR : ∀ t v, R t v → (t = ['*'] ↔ v = none))
    (h : List.Forall₂ R texts values) :
    texts.getLast? = some ['*'] ↔ values.getLast? = some none := by
  obtain ⟨hto, hfrom⟩ := forall₂_getLast? h
  grind

theorem two_le_length_splitOn (h : sep ∈ text) : 2 ≤ (text.splitOn sep).length := by
  obtain ⟨a, b, rfl⟩ := append_of_mem h
  have hsplit : (a ++ sep :: b).splitOn sep = a.splitOn sep ++ b.splitOn sep :=
    splitOnP_append_cons a b (by simp)
  have ha := length_pos_of_ne_nil (splitOn_ne_nil sep a)
  have hb := length_pos_of_ne_nil (splitOn_ne_nil sep b)
  rw [hsplit, length_append]
  omega

/-- **A row of components is read piece by piece between the separators.** -/
theorem listed_iff {T : Type} (f : List (Option S) → T) {t : T}
    {read : List Char → Option (Option S)} (hread : ∀ t v, read t = some v ↔ R t v)
    (hsep : ∀ t v, R t v → sep ∉ t) (hstar : ∀ t v, R t v → (t = ['*'] ↔ v = none))
    {many short bad : AllowedClientsError} (hmem : sep ∈ text) :
    (if n < (text.splitOn sep).length then .error many
      else if (text.splitOn sep).length < n ∧ (text.splitOn sep).getLast? ≠ some ['*'] then
        .error short
      else (fillSlots read bad (text.splitOn sep) 0 (List.replicate n none)).map f) = .ok t ↔
      ∃ slots, Listed R sep n text slots ∧ t = f slots := by
  constructor
  · intro h
    split_ifs at h with hmany hshort
    obtain ⟨slots, hslots, rfl⟩ := ok_of_map h
    obtain ⟨values, hvalues, rfl⟩ := (fillSlots_eq (by omega)).1 hslots
    simp only [hread] at hvalues
    rw [not_and, not_not] at hshort
    exact ⟨_, ⟨_, values, hvalues, two_le_length_splitOn hmem, by omega,
      fun h => (getLast?_star hstar hvalues).1 (hshort h), (intercalate_splitOn sep).symm,
      by rw [hvalues.length_eq]⟩, rfl⟩
  · rintro ⟨_, ⟨texts, values, hvalues, htwo, hle, hlast, rfl, rfl⟩, rfl⟩
    rw [splitOn_components hsep hvalues (by rintro rfl; cases htwo), if_neg (by omega),
      if_neg fun h => h.2 ((getLast?_star hstar hvalues).2 (hlast h.1)),
      (fillSlots_eq hle).2 ⟨values, by simpa only [hread] using hvalues, rfl⟩, hvalues.length_eq]
    rfl

theorem Listed.mem (h : Listed R sep n text slots) : sep ∈ text := by
  obtain ⟨texts, values, -, htwo, -, -, rfl, -⟩ := h
  match texts, htwo with
  | t :: t' :: texts, _ => simp [intercalate_cons_cons]

theorem not_mem_intercalate {c : Char} (hc : c ≠ sep) (hR : ∀ t v, R t v → c ∉ t)
    (h : List.Forall₂ R texts values) : c ∉ [sep].intercalate texts := by
  intro hmem
  rcases Text.mem_intercalate hmem with heq | ⟨t, ht, hmem⟩
  · exact hc heq
  · exact forall₂_forall_left h hR t ht hmem

theorem Listed.length (h : Listed R sep n text slots) : slots.length = n := by
  obtain ⟨texts, values, hvalues, -, hle, -, -, rfl⟩ := h
  rw [hvalues.length_eq] at hle
  simp [hle]

end Listed

/-! ### The masks the parser reads -/

section Masks

variable {text : List Char} {texts : List (List Char)} {octets octets' : List (Option (BitVec 8))}
  {slots slots' : List (Option (BitVec 16))}

/-- **The IPv4 masks the parser accepts.** -/
theorem parseIpv4Wildcard_iff (hdot : '.' ∈ text) {rule : Rule} :
    parseIpv4Wildcard text = .ok rule ↔
      ∃ slots, V4Mask text slots ∧ rule = ruleFromV4Slots slots :=
  listed_iff ruleFromV4Slots (fun _ _ => parseV4Component_iff) (fun _ _ h => h.plain.2.1)
    (fun _ _ h => h.star_iff) hdot

theorem apart_of_components (h : List.Forall₂ Component6 texts slots) :
    ∀ t ∈ texts, t ≠ [] ∧ ':' ∉ t :=
  forall₂_forall_left h fun _ _ h => ⟨h.plain.1, h.plain.2.1⟩

theorem intercalate_groupsOf (side : List Char) : [':'].intercalate (groupsOf side) = side := by
  unfold groupsOf
  split
  · next hnil => rw [hnil]; rfl
  · exact intercalate_splitOn ':'

theorem groupsOf_intercalate (h : ∀ t ∈ texts, t ≠ [] ∧ ':' ∉ t) :
    groupsOf ([':'].intercalate texts) = texts := by
  unfold groupsOf
  cases texts with
  | nil => rfl
  | cons t texts =>
    obtain ⟨hne, ht⟩ := h t mem_cons_self
    obtain ⟨d, rest, heq, -⟩ : ∃ d rest, [':'].intercalate (t :: texts) = d :: rest ∧ d ≠ ':' :=
      Text.head_intercalate hne ht
    rw [if_neg (by rw [heq]; exact cons_ne_nil d rest)]
    exact splitOn_intercalate ':' (fun t' ht' => (h t' ht').2) (cons_ne_nil t texts)

/-- The spellings without a double colon are rows. -/
theorem V6Mask.listed_or : V6Mask text slots ↔ Listed Component6 ':' 8 text slots ∨
    ∃ left right leftSlots rightSlots, List.Forall₂ Component6 left leftSlots ∧
      List.Forall₂ Component6 right rightSlots ∧ left.length + right.length < 8 ∧
      text = [':'].intercalate left ++ ':' :: ':' :: [':'].intercalate right ∧
      slots = leftSlots ++ List.replicate (8 - leftSlots.length - rightSlots.length) (some 0) ++
        rightSlots := by
  constructor
  · rintro (hspelled | ⟨texts, values, hvalues, htwo, height, hlast, htext, hslots⟩)
    · cases hspelled with
      | @full texts slots hvalues hlength =>
        refine .inl ⟨texts, slots, hvalues, by omega, by omega, by omega, rfl, ?_⟩
        simp [← hvalues.length_eq, hlength]
      | compressed hleft hright hlength => exact .inr ⟨_, _, _, _, hleft, hright, hlength, rfl, rfl⟩
    · exact .inl ⟨texts, values, hvalues, htwo, height.le, fun _ => hlast, htext, hslots⟩
  · rintro (⟨texts, values, hvalues, htwo, hle, hlast, rfl, rfl⟩ |
      ⟨left, right, leftSlots, rightSlots, hleft, hright, hlength, rfl, rfl⟩)
    · rcases hle.lt_or_eq with hlt | hfull
      · exact .inr ⟨texts, values, hvalues, htwo, hlt, hlast hlt, rfl, rfl⟩
      · rw [← hvalues.length_eq, hfull, Nat.sub_self, replicate_zero, append_nil]
        exact .inl (.full hvalues hfull)
    · exact .inl (.compressed hleft hright hlength)

/-- **The slots of the IPv6 masks the parser accepts.** -/
theorem parseSlots_iff (hcolon : ':' ∈ text) : parseSlots text = .ok slots ↔ V6Mask text slots := by
  rw [V6Mask.listed_or]
  unfold parseSlots
  simp only
  cases hsplit : Text.splitAround [':', ':'] text with
  | none =>
    rw [or_iff_left]
    · simpa only [Except.map_id, id, exists_eq_right'] using
        listed_iff id (fun _ _ => parseV6Hextet_iff) (fun _ _ h => h.plain.2.1)
          (fun _ _ h => h.star_iff) hcolon
    · rintro ⟨left, right, leftSlots, rightSlots, hleft, -, -, rfl, -⟩
      rw [Text.splitAround_double (Text.apart_intercalate (apart_of_components hleft))] at hsplit
      cases hsplit
  | some p =>
    obtain ⟨left, right⟩ := p
    simp only
    constructor
    · intro h
      split_ifs at h with hmany
      obtain ⟨filled, hfilled, rfl⟩ := ok_of_map h
      obtain ⟨values, hvalues, rfl⟩ :=
        (fillSlots_eq (by rw [length_append]; omega)).1 hfilled
      simp only [parseV6Hextet_iff] at hvalues
      obtain ⟨leftValues, rightValues, rfl, hleft, hright⟩ := forall₂_append_left hvalues
      have hleftLength := hleft.length_eq
      have hrightLength := hright.length_eq
      refine .inr ⟨_, _, _, _, hleft, hright, by omega, ?_, ?_⟩
      · rw [Text.eq_of_splitAround hsplit, intercalate_groupsOf, intercalate_groupsOf]
        simp
      · rw [hvalues.length_eq, hleftLength, hrightLength, spread_eq (by omega)]
    · rintro (hlisted | ⟨left', right', leftSlots, rightSlots, hleft, hright, hlength, rfl, rfl⟩)
      · obtain ⟨texts, values, hvalues, -, -, -, rfl, -⟩ := hlisted
        rw [Text.splitAround_double_none
          (Text.apart_intercalate (apart_of_components hvalues))] at hsplit
        cases hsplit
      · rw [Text.splitAround_double (Text.apart_intercalate (apart_of_components hleft))] at hsplit
        cases hsplit
        have hboth : List.Forall₂ (fun c v => parseV6Hextet c = some v) (left' ++ right')
            (leftSlots ++ rightSlots) := by
          simp only [parseV6Hextet_iff]
          exact rel_append hleft hright
        rw [groupsOf_intercalate (apart_of_components hleft),
          groupsOf_intercalate (apart_of_components hright), if_neg (by omega),
          (fillSlots_eq (by rw [length_append]; omega)).2 ⟨_, hboth, rfl⟩,
          hboth.length_eq, hleft.length_eq, hright.length_eq]
        rw [hleft.length_eq, hright.length_eq] at hlength
        exact congrArg Except.ok (spread_eq (by omega))

/-! ### Dotted tails -/

theorem V4Mask.mem (h : V4Mask text octets) : '.' ∈ text ∧ ':' ∉ text := by
  refine ⟨Listed.mem h, ?_⟩
  obtain ⟨texts, values, hvalues, -, -, -, rfl, -⟩ := h
  exact not_mem_intercalate (by decide) (fun _ _ h => h.plain.2.2) hvalues

theorem not_dot_mem_intercalate (h : List.Forall₂ Component6 texts slots) :
    '.' ∉ [':'].intercalate texts :=
  not_mem_intercalate (by decide) (fun _ _ h => h.plain.2.2) h

theorem Spells.length {total : ℕ} (h : Spells total text slots) : slots.length = total := by
  cases h with
  | full hvalues hlength => rw [← hvalues.length_eq, hlength]
  | compressed hleft hright hlength =>
    rw [hleft.length_eq, hright.length_eq] at hlength
    simp only [length_append, length_replicate]
    omega

theorem V6Mask.not_dot_mem (h : V6Mask text slots) : '.' ∉ text := by
  rcases V6Mask.listed_or.1 h with ⟨texts, values, hvalues, -, -, -, rfl, -⟩ |
    ⟨left, right, _, _, hleft, hright, -, rfl, -⟩
  · exact not_dot_mem_intercalate hvalues
  · simp [not_dot_mem_intercalate hleft, not_dot_mem_intercalate hright]

theorem V6Mask.mem (h : V6Mask text slots) : ':' ∈ text := by
  rcases V6Mask.listed_or.1 h with hlisted | ⟨left, right, -, -, -, -, -, rfl, -⟩
  · exact hlisted.mem
  · simp

theorem head?_intercalate (h : ∀ t ∈ texts, t ≠ [] ∧ ':' ∉ t) :
    ([':'].intercalate texts).head? ≠ some ':' := by
  cases texts with
  | nil => exact fun h => absurd h (by decide)
  | cons t texts =>
    obtain ⟨hne, ht⟩ := h t mem_cons_self
    obtain ⟨d, rest, heq, hd⟩ : ∃ d rest, [':'].intercalate (t :: texts) = d :: rest ∧ d ≠ ':' :=
      Text.head_intercalate hne ht
    rw [heq]
    simpa using hd

theorem triple_compressed {right : List (List Char)} (hleft : ∀ t ∈ texts, t ≠ [] ∧ ':' ∉ t)
    (hright : ∀ t ∈ right, t ≠ [] ∧ ':' ∉ t) :
    Text.splitAround [':', ':', ':']
      ([':'].intercalate texts ++ ':' :: ':' :: [':'].intercalate right) = none :=
  Text.splitAround_triple_none (Text.apart_intercalate hleft) (Text.apart_intercalate hright)
    (head?_intercalate hright)

theorem V6Mask.triple (h : V6Mask text slots) :
    Text.splitAround [':', ':', ':'] text = none := by
  rcases V6Mask.listed_or.1 h with ⟨texts, values, hvalues, -, -, -, rfl, -⟩ |
    ⟨left, right, _, _, hleft, hright, -, rfl, -⟩
  · exact Text.splitAround_double_none (Text.apart_intercalate (apart_of_components hvalues)) _
  · exact triple_compressed (apart_of_components hleft) (apart_of_components hright)

/-! ### One reading of a mask -/

theorem V4Mask.length (h : V4Mask text octets) : octets.length = 4 := Listed.length h

theorem V6Mask.length (h : V6Mask text slots) : slots.length = 8 := by
  rcases h with hspelled | ⟨texts, values, hvalues, -, height, -, -, rfl⟩
  · exact hspelled.length
  · rw [hvalues.length_eq] at height
    simp [height.le]

theorem V4Mask.unique (h : V4Mask text octets) (h' : V4Mask text octets') : octets = octets' := by
  obtain ⟨texts, values, hvalues, htwo, -, -, rfl, rfl⟩ := h
  obtain ⟨texts', values', hvalues', htwo', -, -, heq, rfl⟩ := h'
  obtain rfl : texts = texts' := by
    rw [← splitOn_components (fun _ _ h => h.plain.2.1) hvalues (by rintro rfl; cases htwo), heq,
      splitOn_components (fun _ _ h => h.plain.2.1) hvalues' (by rintro rfl; cases htwo')]
  have hunique : Relator.RightUnique Component4 := fun _ _ _ hv hv' =>
    Option.some.inj ((parseV4Component_iff.2 hv).symm.trans (parseV4Component_iff.2 hv'))
  rw [right_unique_forall₂' hunique hvalues hvalues']

theorem V6Mask.unique (h : V6Mask text slots) (h' : V6Mask text slots') : slots = slots' :=
  Except.ok.inj (((parseSlots_iff h.mem).2 h).symm.trans ((parseSlots_iff h.mem).2 h'))

end Masks

theorem tail_unique {front front' tail tail' : List Char} (htail : ':' ∉ tail)
    (htail' : ':' ∉ tail') (h : front ++ ':' :: tail = front' ++ ':' :: tail') :
    front = front' ∧ tail = tail' := by
  have hsplit := Text.rsplitOnce_eq_some_iff.2 ⟨h, htail'⟩
  rw [Text.rsplitOnce_eq_some_iff.2 ⟨rfl, htail⟩] at hsplit
  exact Prod.mk.inj (Option.some.inj hsplit)

/-- Four octets are a mask that fixes all of them. -/
theorem QuadLiteral.mask {text : List Char} {bits : BitVec 32} (h : QuadLiteral text bits) :
    ∃ octets : List (BitVec 8), octets.length = 4 ∧ V4Mask text (octets.map some) ∧
      Covers (octets.map some) bits := by
  obtain ⟨octets, hlength, rfl, hcovers⟩ := h
  refine ⟨octets, hlength, ⟨octets.map fun o => Nat.toDigits 10 o.toNat, octets.map some, ?_,
    by simp [hlength], by simp [hlength], by simp [hlength], rfl, by simp [hlength]⟩, hcovers⟩
  rw [forall₂_map_left_iff, forall₂_map_right_iff, forall₂_same]
  exact fun o _ => .inr ⟨o, rfl, rfl⟩

/-! ### Spellings, one hextet at a time -/

section Spells

variable {n : ℕ} {front t : List Char} {slots : List (Option (BitVec 16))}
  {v : Option (BitVec 16)}

theorem getLast?_compressed {left right : List (Option (BitVec 16))}
    (hlt : left.length + right.length < n) (hnil : right = []) :
    (left ++ List.replicate (n - left.length - right.length) (some 0) ++ right).getLast? =
      some (some 0) := by
  subst hnil
  have hne : n - left.length ≠ 0 := by simp at hlt; omega
  simp [getLast?_append, getLast?_replicate, hne]

/-- A hextet may follow a spelling that ends in one. -/
theorem Spells.push (h : Spells n front slots) (hn : n ≠ 0)
    (hlast : front.getLast? ≠ some ':' ∨ slots.getLast? ≠ some (some 0)) (ht : Component6 t v) :
    Spells (n + 1) (front ++ ':' :: t) (slots ++ [v]) := by
  cases h with
  | @full texts slots hvalues hlength =>
    rw [← Text.intercalate_concat t (by rintro rfl; exact hn hlength.symm)]
    exact .full (rel_append hvalues (.cons ht .nil)) (by simp [hlength])
  | @compressed left right leftSlots rightSlots hleft hright hlength =>
    have hright' : right ≠ [] := by
      rintro rfl
      rw [hleft.length_eq, hright.length_eq] at hlength
      refine hlast.elim (fun h => h (by simp)) fun h => h (getLast?_compressed hlength ?_)
      exact forall₂_nil_left_iff.1 hright
    have hspelled : Spells (n + 1) _ _ := .compressed hleft
      (rel_append hright (.cons ht .nil)) (by simp; omega)
    rw [Text.intercalate_concat t hright'] at hspelled
    have hcount : n + 1 - leftSlots.length - (rightSlots ++ [v]).length =
        n - leftSlots.length - rightSlots.length := by simp; omega
    rw [hcount] at hspelled
    simpa using hspelled

/-- The last hextet of a spelling is taken away, unless it stands alone behind the double colon. -/
theorem Spells.pop (hne : t ≠ []) (ht : ':' ∉ t)
    (h : Spells (n + 1) (front ++ ':' :: t) (slots ++ [v]))
    (hlast : front.getLast? ≠ some ':' ∨ slots.getLast? ≠ some (some 0)) : Spells n front slots := by
  generalize htext : front ++ ':' :: t = text at h
  generalize hslots : slots ++ [v] = slots' at h
  cases h with
  | @full texts slots' hvalues hlength =>
    obtain rfl | ⟨texts, last, rfl⟩ := eq_nil_or_concat' texts
    · cases hlength
    obtain ⟨values, v', rfl, hfront, hv'⟩ := forall₂_concat_left hvalues
    obtain ⟨rfl, -⟩ := append_inj' hslots rfl
    rcases eq_or_ne texts [] with rfl | htexts
    · rw [nil_append, intercalate_singleton] at htext
      exact absurd (htext ▸ by simp) hv'.plain.2.1
    · rw [Text.intercalate_concat _ htexts] at htext
      obtain ⟨rfl, -⟩ := tail_unique ht hv'.plain.2.1 htext
      exact .full hfront (by simpa using hlength)
  | @compressed left right leftSlots rightSlots hleft hright hlength =>
    have hfront : ∀ front' tail, ':' ∉ tail → [':'].intercalate left ++ ':' :: ':' ::
        [':'].intercalate right = front' ++ ':' :: tail → front = front' ∧ t = tail :=
      fun _ _ htail heq => tail_unique ht htail (htext.trans heq)
    obtain rfl | ⟨right, last, rfl⟩ := eq_nil_or_concat' right
    · exact absurd (hfront ([':'].intercalate left ++ [':']) [] (by simp) (by simp)).2 hne
    obtain ⟨rightSlots, v', rfl, hright, hv'⟩ := forall₂_concat_left hright
    have hcount : n + 1 - leftSlots.length - (rightSlots ++ [v']).length =
        n - leftSlots.length - rightSlots.length := by simp; omega
    rw [hcount, ← append_assoc] at hslots
    obtain ⟨rfl, -⟩ := append_inj' hslots rfl
    have hlength' : left.length + right.length < n := by simp at hlength; omega
    rcases eq_or_ne right [] with rfl | hright'
    · obtain ⟨rfl, -⟩ := hfront ([':'].intercalate left ++ [':']) last hv'.plain.2.1 (by simp)
      rw [hleft.length_eq, hright.length_eq] at hlength'
      refine hlast.elim (fun h => absurd (by simp) h) fun h => absurd ?_ h
      exact getLast?_compressed hlength' (forall₂_nil_left_iff.1 hright)
    · obtain ⟨rfl, -⟩ := hfront ([':'].intercalate left ++ ':' :: ':' :: [':'].intercalate right)
        last hv'.plain.2.1 (by simp [Text.intercalate_concat _ hright'])
      exact .compressed hleft hright hlength'

/-- **Behind a spelling of the mapped prefix two zeros may stand**, and before two zeros there is
one. -/
theorem spells_zeros_iff :
    Spells 8 (front ++ [':', '0', ':', '0']) ((mappedPrefix ++ [0, 0]).map some) ↔
      Spells 6 front (mappedPrefix.map some) := by
  have htext : front ++ [':', '0', ':', '0'] = (front ++ ':' :: ['0']) ++ ':' :: ['0'] := by simp
  have hslots : (mappedPrefix ++ [0, 0]).map some =
      (mappedPrefix.map some ++ [some 0]) ++ [some 0] := by simp
  rw [htext, hslots]
  constructor
  · intro h
    exact (h.pop (by simp) (by decide) (.inl (by simp))).pop (by simp) (by decide)
      (.inr (by decide))
  · intro h
    exact (h.push (by decide) (.inr (by decide)) component6_zero).push (by decide) (.inl (by simp))
      component6_zero

/-! ### The mapped prefix -/

theorem triple_mapped {tail : List Char} (h : Spells 6 front (mappedPrefix.map some))
    (hne : tail ≠ []) (hcolon : ':' ∉ tail) :
    Text.splitAround [':', ':', ':'] (front ++ ':' :: tail) = none := by
  have hpieces : ∀ {texts slots}, List.Forall₂ Component6 texts slots →
      ∀ t ∈ texts ++ [tail], t ≠ [] ∧ ':' ∉ t := by
    intro texts slots hvalues t ht
    rcases mem_append.1 ht with ht | ht
    · exact apart_of_components hvalues t ht
    · rw [mem_singleton.1 ht]
      exact ⟨hne, hcolon⟩
  generalize hslots : mappedPrefix.map some = slots at h
  cases h with
  | @full texts slots hvalues hlength =>
    rw [← Text.intercalate_concat tail (by rintro rfl; cases hlength)]
    exact Text.splitAround_double_none (Text.apart_intercalate (hpieces hvalues)) _
  | @compressed left right leftSlots rightSlots hleft hright hlength =>
    have hright' : right ≠ [] := by
      rintro rfl
      rw [hleft.length_eq, hright.length_eq] at hlength
      have hzero := getLast?_compressed hlength (forall₂_nil_left_iff.1 hright)
      rw [← hslots] at hzero
      cases hzero
    rw [append_assoc, cons_append, cons_append,
      ← Text.intercalate_concat tail hright']
    exact triple_compressed (apart_of_components hleft) (hpieces hright)

end Spells

/-! ### Bits -/

section Bits

variable {bits : BitVec 128}

/-- The hextets that a pattern fixes from the left are the first of the address. -/
theorem covers_iff_segments {hextets : List (BitVec 16)} (hle : hextets.length ≤ 8) :
    Covers (hextets.map some) bits ↔ (segments bits).take hextets.length = hextets := by
  have hget : ∀ i, i < hextets.length → ((segments bits).take hextets.length)[i]? =
      some (SlotMask.slot 16 bits i) := by
    intro i hi
    simp [List.getElem?_take_of_lt hi, segments, List.getElem?_range (hi.trans_le hle)]
  constructor
  · intro hcovers
    refine List.ext_getElem? fun i => ?_
    by_cases hi : i < hextets.length
    · rw [hget i hi, hcovers i hextets[i] (by simp [hi])]
      simp [hi]
    · simp [Nat.le_of_not_lt hi]
  · intro htake i v hv
    obtain ⟨w, hw, rfl⟩ : ∃ w, hextets[i]? = some w ∧ w = v := by simpa using hv
    have hslot := hget i (List.getElem?_eq_some_iff.1 hw).1
    rw [htake, hw] at hslot
    exact (Option.some.inj hslot).symm

theorem covers_zeros_iff :
    Covers ((mappedPrefix ++ [0, 0]).map some) bits ↔ segments bits = mappedPrefix ++ [0, 0] :=
  covers_iff_segments (by decide)

end Bits

/-- **A token may have a dotted tail behind the spellings of the prefix only.** -/
theorem mapped_front_iff {std : AddressParsers} (hstd : Standard std) {front : List Char} :
    (∃ v6, std.ipv6FromStr (front ++ [':', '0', ':', '0']) = some v6 ∧
      segments v6 = mappedPrefix ++ [0, 0]) ↔ Spells 6 front (mappedPrefix.map some) := by
  simp only [hstd.ipv6, ← covers_zeros_iff, ← spells_zeros_iff]
  constructor
  · rintro ⟨v6, ⟨hextets, hspelled, hcovers⟩ | ⟨front', quad, hextets, htext, hquad, -, -⟩, hzeros⟩
    · have hlength : hextets.length = 8 := by simpa using hspelled.length
      rw [covers_iff_segments (by omega), hlength] at hcovers
      obtain rfl : hextets = mappedPrefix ++ [0, 0] := hcovers.symm.trans (covers_zeros_iff.1 hzeros)
      exact hspelled
    · -- a zero is no IPv4 address
      obtain ⟨octets, -, hmask, -⟩ := hquad.mask
      have hsame : (front ++ [':', '0']) ++ ':' :: ['0'] = front' ++ ':' :: quad := by
        simpa using htext
      obtain ⟨-, rfl⟩ := tail_unique (by decide) hmask.mem.2 hsame
      exact absurd hmask.mem.1 (by decide)
  · intro h
    have hcovers : Covers ((mappedPrefix ++ [0, 0]).map some)
        (SlotMask.compile 128 ((mappedPrefix ++ [0, 0]).map some)).1 :=
      SlotMask.covers_compile (by decide)
    exact ⟨_, .inl ⟨_, h, hcovers⟩, hcovers⟩

/-- **The IPv6 masks the parser accepts.** -/
theorem parseIpv6Wildcard_iff {std : AddressParsers} (hstd : Standard std) {text : List Char}
    (hcolon : ':' ∈ text) {rule : Rule} :
    parseIpv6Wildcard std text = .ok rule ↔
      (∃ slots, V6Mask text slots ∧ rule = ruleOfSlots slots) ∨
      ∃ front tail slots, text = front ++ ':' :: tail ∧ Spells 6 front (mappedPrefix.map some) ∧
        V4Mask tail slots ∧ rule = ruleFromV4Slots slots := by
  obtain ⟨⟨front, tail⟩, hsplit⟩ := Option.ne_none_iff_exists'.1
    (Text.rsplitOnce_eq_none_iff.not.2 (not_not.2 hcolon))
  obtain ⟨htext, htail⟩ := Text.rsplitOnce_eq_some_iff.1 hsplit
  unfold parseIpv6Wildcard parseMappedTail
  rw [hsplit]
  constructor
  · intro h
    split at h
    · cases h
    simp only at h
    split at h
    · next hdot =>
      split at h
      · cases h
      next v6 hv6 =>
      split_ifs at h with hzeros
      obtain ⟨slots, hmask, rfl⟩ := (parseIpv4Wildcard_iff hdot).1 h
      exact .inr ⟨front, tail, slots, htext,
        (mapped_front_iff hstd).1 ⟨v6, hv6, not_not.1 hzeros⟩, hmask, rfl⟩
    · obtain ⟨slots, hslots, rfl⟩ := ok_of_map h
      exact .inl ⟨slots, (parseSlots_iff hcolon).1 hslots, rfl⟩
  · rintro (⟨slots, hmask, rfl⟩ | ⟨front', tail', slots, htext', hfront, hmask, rfl⟩)
    · have hdot : '.' ∉ tail := fun hmem => hmask.not_dot_mem (by simp [htext, hmem])
      simp [hmask.triple, hdot, (parseSlots_iff hcolon).2 hmask, Except.map]
    · obtain ⟨hdot, hcolon'⟩ := hmask.mem
      obtain ⟨rfl, rfl⟩ := tail_unique htail hcolon' (htext.symm.trans htext')
      obtain ⟨v6, hv6, hzeros⟩ := (mapped_front_iff hstd).2 hfront
      simp [htext, triple_mapped hfront (ne_nil_of_mem hdot) htail, hdot, hv6, hzeros,
        (parseIpv4Wildcard_iff hdot).2 ⟨slots, hmask, rfl⟩]

end ClientAcl
