/-
**Reading a client access list.**

An allow-list is one line of tokens between commas.  A token is `*`, `loopback`, an address as the
standard library writes it, or a mask: octets or hextets of which some are `*`.  A mask is read into
slots, eight for IPv6 and four for IPv4, and the slots are compiled into the bits of a rule; the
mask of an IPv4 address in its IPv6 form becomes an IPv4 rule.
-/

import Mathlib
import TorSocks5.ClientAcl
import TorSocks5.SlotMask
import TorSocks5.Splitting

set_option autoImplicit false

namespace ClientAcl

/-- A token that is no rule, and why. -/
structure AllowedClientsError where
  token : List Char
  reason : String
  deriving DecidableEq

/-- The parsers of the standard library. -/
structure AddressParsers where
  ipFromStr : List Char → Option IpAddr
  ipv6FromStr : List Char → Option (BitVec 128)

/-! ### Components -/

/-- A decimal octet without leading zeros.  A length is counted in characters here, which makes no
difference: only digits are accepted. -/
def parseV4Octet (component : List Char) : Option (BitVec 8) :=
  if component = [] ∨ 3 < component.length then none
  else if 1 < component.length ∧ component.head? = some '0' then none
  else if component.all Char.isDigit = false then none
  else (Text.parseUnsigned 256 component).map (BitVec.ofNat 8)

/-- One to four hexadecimal digits, or a whole `*`. -/
def parseV6Hextet (group : List Char) : Option (Option (BitVec 16)) :=
  if group = ['*'] then some none
  else if group = [] ∨ 4 < group.length ∨ (group.all fun c => (Text.hexDigit c).isSome) = false then
    none
  else (Text.parseHex 65536 group).map fun n => some (BitVec.ofNat 16 n)

/-- An octet, or a whole `*`. -/
def parseV4Component (component : List Char) : Option (Option (BitVec 8)) :=
  if component = ['*'] then some none else (parseV4Octet component).map some

/-- The components are written into the slots one after the other.  A `*` leaves its slot free. -/
def fillSlots {α : Type} (read : List Char → Option (Option α)) (bad : AllowedClientsError) :
    List (List Char) → ℕ → List (Option α) → Except AllowedClientsError (List (Option α))
  | [], _, slots => .ok slots
  | component :: components, i, slots =>
    match read component with
    | none => .error bad
    | some value => fillSlots read bad components (i + 1) (slots.set i value)

/-- `copy_within`: the slots from `first` to `last` are copied to `dest`. -/
def copyWithin {α : Type} (slots : List α) (first last dest : ℕ) : List α :=
  slots.take dest ++ (slots.drop first).take (last - first) ++ slots.drop (dest + (last - first))

/-- The slots from `first` to `last` are set to zero. -/
def fillZeros (slots : List (Option (BitVec 16))) (first last : ℕ) : List (Option (BitVec 16)) :=
  slots.take first ++ List.replicate (last - first) (some 0) ++ slots.drop last

/-! ### Rules -/

def ruleFromV4Slots (slots : List (Option (BitVec 8))) : Rule :=
  .v4 (SlotMask.compile 32 slots).1 (SlotMask.compile 32 slots).2

def ruleFromV6Slots (slots : List (Option (BitVec 16))) : Rule :=
  .v6 (SlotMask.compile 128 slots).1 (SlotMask.compile 128 slots).2

/-- The hextets `0:0:0:0:0:ffff` of a mapped address. -/
def mappedPrefix : List (BitVec 16) := [0, 0, 0, 0, 0, 0xffff]

/-- A hextet as two octets; a free one is two free ones. -/
def toOctets : Option (BitVec 16) → List (Option (BitVec 8))
  | none => [none, none]
  | some v => [some ((v >>> 8).setWidth 8), some (v.setWidth 8)]

/-- The octets of a mask behind the prefix of the mapped addresses. -/
def splitMappedV4 (slots : List (Option (BitVec 16))) : Option (List (Option (BitVec 8))) :=
  if slots.take 6 = mappedPrefix.map some then some ((slots.drop 6).flatMap toOctets) else none

/-! ### Masks -/

def parseIpv4Wildcard (token : List Char) : Except AllowedClientsError Rule :=
  let components := token.splitOn '.'
  if 4 < components.length then .error ⟨token, "more than 4 IPv4 components"⟩
  else if components.length < 4 ∧ components.getLast? ≠ some ['*'] then
    .error ⟨token, "shorthand with fewer than 4 components must end in `*`"⟩
  else
    (fillSlots parseV4Component
      ⟨token, "not a decimal octet 0-255 or a whole `*` (leading zeros forbidden)"⟩
      components 0 (List.replicate 4 none)).map ruleFromV4Slots

/-- The groups of one side of a double colon. -/
def groupsOf (side : List Char) : List (List Char) := if side = [] then [] else side.splitOn ':'

/-- The hextets that stand in a row are moved apart: those on the right to the end, and zeros
between. -/
def spread (slots : List (Option (BitVec 16))) (left right : ℕ) : List (Option (BitVec 16)) :=
  fillZeros (copyWithin slots left (left + right) (8 - right)) left (8 - right)

/-- The slots of an IPv6 mask. -/
def parseSlots (token : List Char) : Except AllowedClientsError (List (Option (BitVec 16))) :=
  let bad : AllowedClientsError := ⟨token, "not a hex hextet 0-ffff or a whole `*`"⟩
  match Text.splitAround [':', ':'] token with
  | none =>
    let groups := token.splitOn ':'
    if 8 < groups.length then .error ⟨token, "more than 8 hextets"⟩
    else if groups.length < 8 ∧ groups.getLast? ≠ some ['*'] then
      .error ⟨token, "shorthand with fewer than 8 hextets must end in `*`"⟩
    else fillSlots parseV6Hextet bad groups 0 (List.replicate 8 none)
  | some (left, right) =>
    if 7 < (groupsOf left).length + (groupsOf right).length then
      .error ⟨token, "`::` must compress at least one hextet (8 hextets max)"⟩
    else
      (fillSlots parseV6Hextet bad (groupsOf left ++ groupsOf right) 0
        (List.replicate 8 none)).map
          fun slots => spread slots (groupsOf left).length (groupsOf right).length

/-- The hextets of an address. -/
def segments (v6 : BitVec 128) : List (BitVec 16) := (List.range 8).map (SlotMask.slot 16 v6)

/-- A dotted tail is an IPv4 mask, and stands behind the prefix of the mapped addresses only. -/
def parseMappedTail (std : AddressParsers) (token front tail : List Char) :
    Except AllowedClientsError Rule :=
  match std.ipv6FromStr (front ++ [':', '0', ':', '0']) with
  | none => .error ⟨token, "не является валидным IPv6-префиксом перед IPv4-хвостом"⟩
  | some v6 =>
    if segments v6 ≠ mappedPrefix ++ [0, 0] then
      .error ⟨token, "точечный IPv4-хвост разрешён только в точном mapped-префиксе ::ffff:"⟩
    else parseIpv4Wildcard tail

/-- The rule of the slots of an IPv6 mask. -/
def ruleOfSlots (slots : List (Option (BitVec 16))) : Rule :=
  match splitMappedV4 slots with
  | some octets => ruleFromV4Slots octets
  | none => ruleFromV6Slots slots

def parseIpv6Wildcard (std : AddressParsers) (token : List Char) :
    Except AllowedClientsError Rule :=
  if (Text.splitAround [':', ':', ':'] token).isSome then
    .error ⟨token, "triple `:` is not a valid compression"⟩
  else
    match Text.rsplitOnce ':' token with
    | some (front, tail) =>
      if '.' ∈ tail then parseMappedTail std token front tail
      else (parseSlots token).map ruleOfSlots
    | none => (parseSlots token).map ruleOfSlots

/-! ### Tokens and lists -/

/-- The rule of an address; a mapped one is an IPv4 rule. -/
def literalRule (ip : IpAddr) : Rule :=
  match normalizePeer ip with
  | .v4 bits => .v4 bits (BitVec.allOnes 32)
  | .v6 bits => .v6 bits (BitVec.allOnes 128)

def parseToken (std : AddressParsers) (token : List Char) : Except AllowedClientsError Rule :=
  if token = [] then .error ⟨token, "empty token between commas"⟩
  else if token = ['*'] then .ok .any
  else if token = "loopback".toList then .ok .loopback
  else
    match std.ipFromStr token with
    | some ip => .ok (literalRule ip)
    | none =>
      if ':' ∈ token then parseIpv6Wildcard std token
      else if '.' ∈ token then parseIpv4Wildcard token
      else .error ⟨token, "not `*`, `loopback`, an IP literal or a wildcard mask"⟩

/-- The tokens of a list. -/
def tokens (source : List Char) : List (List Char) := (source.splitOn ',').map trim

def parse (std : AddressParsers) (source : List Char) : Except AllowedClientsError (List Rule) :=
  if tokens source = [[]] then
    .error ⟨trim source, "the list is empty; use `*` to allow every client"⟩
  else (tokens source).mapM (parseToken std)

/-! ### Lists of results -/

theorem ok_of_map {ε α β : Type} {g : α → β} {r : Except ε α} {b : β} (h : r.map g = .ok b) :
    ∃ a, r = .ok a ∧ b = g a := by
  cases r with
  | error e => cases h
  | ok a => exact ⟨a, rfl, (Except.ok.inj h).symm⟩

theorem mapM_ok_iff {ε α β : Type} {g : α → Except ε β} {l : List α} : ∀ {bs : List β},
    l.mapM g = .ok bs ↔ List.Forall₂ (fun a b => g a = .ok b) l bs := by
  induction l with
  | nil => simp [pure, Except.pure, eq_comm]
  | cons a l ih =>
    intro bs
    rw [List.mapM_cons, List.forall₂_cons_left_iff]
    simp only [← ih]
    cases g a <;> cases l.mapM g <;> simp [bind, Except.bind, pure, Except.pure, eq_comm]

theorem tokens_ne_nil (source : List Char) : tokens source ≠ [] := by
  rw [tokens, Ne, List.map_eq_nil_iff]
  exact List.splitOn_ne_nil ',' source

theorem ne_nil_of_parse {std : AddressParsers} {source : List Char} {rules : List Rule}
    (h : parse std source = .ok rules) : rules ≠ [] := by
  rintro rfl
  rw [parse] at h
  split_ifs at h
  exact tokens_ne_nil source (List.forall₂_nil_right_iff.1 (mapM_ok_iff.1 h))

/-- `AllowedClients::from_str`. -/
def AllowedClients.fromStr (std : AddressParsers) (source : String) :
    Except AllowedClientsError AllowedClients :=
  match h : parse std source.toList with
  | .ok rules => .ok ⟨source, rules, ne_nil_of_parse h⟩
  | .error e => .error e

/-! ### What is written into the slots -/

section Slots

variable {α : Type} {read : List Char → Option (Option α)} {bad : AllowedClientsError}

theorem fillSlots_append (components : List (List Char)) : ∀ (done : List (Option α)) (free : ℕ)
    (slots : List (Option α)), components.length ≤ free →
    (fillSlots read bad components done.length (done ++ List.replicate free none) = .ok slots ↔
      ∃ values, List.Forall₂ (fun c v => read c = some v) components values ∧
        slots = done ++ values ++ List.replicate (free - components.length) none) := by
  induction components with
  | nil => simp [fillSlots, eq_comm]
  | cons component components ih =>
    intro done free slots hfree
    obtain ⟨free, rfl⟩ := Nat.exists_eq_add_one_of_ne_zero (Nat.ne_zero_of_lt hfree)
    rw [fillSlots]
    cases hread : read component with
    | none => simp [hread, List.forall₂_cons_left_iff]
    | some value =>
      have hset : (done ++ List.replicate (free + 1) none).set done.length value =
          (done ++ [value]) ++ List.replicate free none := by
        simp [List.set_append_right, List.replicate_succ]
      have hrest := ih (done ++ [value]) free slots (Nat.le_of_succ_le_succ hfree)
      rw [List.length_append, List.length_singleton] at hrest
      simp only [hset, hrest, List.forall₂_cons_left_iff, hread, List.length_cons]
      grind

theorem fillSlots_eq {components : List (List Char)} {size : ℕ} {slots : List (Option α)}
    (hle : components.length ≤ size) :
    fillSlots read bad components 0 (List.replicate size none) = .ok slots ↔
      ∃ values, List.Forall₂ (fun c v => read c = some v) components values ∧
        slots = values ++ List.replicate (size - components.length) none :=
  fillSlots_append components [] size slots hle

end Slots

/-- **The slots around a double colon**: the hextets on either side, and zeros between. -/
theorem spread_eq {left right : List (Option (BitVec 16))} (hle : left.length + right.length ≤ 7) :
    spread (left ++ right ++ List.replicate (8 - (left ++ right).length) none) left.length
        right.length =
      left ++ List.replicate (8 - left.length - right.length) (some 0) ++ right := by
  set slots := left ++ right ++ List.replicate (8 - (left ++ right).length) none with hslots
  have hlength : slots.length = 8 := by
    simp [hslots]
    omega
  -- what is copied to the end is what stands on the right
  have hcopy : copyWithin slots left.length (left.length + right.length) (8 - right.length) =
      slots.take (8 - right.length) ++ right := by
    have hend : slots.drop (8 - right.length + (left.length + right.length - left.length)) = [] :=
      List.drop_eq_nil_iff.2 (by omega)
    rw [copyWithin, hend, List.append_nil]
    simp [hslots]
  have htake : (slots.take (8 - right.length)).length = 8 - right.length := by
    rw [List.length_take]
    omega
  have hleft : (slots.take (8 - right.length) ++ right).take left.length = left := by
    rw [List.take_append_of_le_length (by omega), List.take_take, Nat.min_eq_left (by omega),
      hslots, List.append_assoc, List.take_left]
  rw [spread, hcopy, fillZeros, hleft, List.drop_left' htake]
  congr 3
  omega

end ClientAcl
