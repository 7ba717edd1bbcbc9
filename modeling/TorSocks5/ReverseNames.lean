/-
**Names of addresses, and the questions that are answered at home.**

Before the cache and the tunnel are asked, the server answers what concerns the machine it runs on:
`localhost` and the names below it, the reverse names of loopback addresses, and a question for the
pointer of one of the addresses it listens on.  A reverse name spells an address from its end: four
decimal octets before `.in-addr.arpa`, or thirty-two hexadecimal digits before `.ip6.arpa`.
-/

import Mathlib
import TorSocks5.ClientAcl
import TorSocks5.DnsMessage
import TorSocks5.Pairing
import TorSocks5.SlotMask
import TorSocks5.Text

set_option autoImplicit false

namespace ServerLocal

open List

open ClientAcl (IpAddr normalizePeer)
open DnsServer (DnsClass Name Query RecordType second)

/-! ### Reading a reverse name -/

/-- The ending of the names of IPv4 addresses. -/
def inAddr : List Char := ".in-addr.arpa".toList

/-- The ending of the names of IPv6 addresses. -/
def ip6 : List Char := ".ip6.arpa".toList

/-- `str::parse::<u8>`. -/
def octet (label : List Char) : Option (BitVec 8) :=
  (Text.parseUnsigned 256 label).map (BitVec.ofNat 8)

/-- A label of one character, which is a hexadecimal digit. -/
def nibble : List Char → Option ℕ
  | [c] => Text.hexDigit c
  | _ => none

/-- Exactly `n` labels are read, one after the other. -/
def readLabels {α : Type} (read : List Char → Option α) : ℕ → List (List Char) → Option (List α)
  | 0, [] => some []
  | 0, _ :: _ => none
  | _ + 1, [] => none
  | n + 1, label :: labels => do
      let a ← read label
      let rest ← readLabels read n labels
      some (a :: rest)

/-- `Ipv4Addr::from`, of four octets. -/
def fromOctets (octets : List (BitVec 8)) : BitVec 32 := (SlotMask.compile 32 (octets.map some)).1

/-- A digit is shifted in from the right. -/
def shiftIn (value : BitVec 128) (digit : ℕ) : BitVec 128 := value <<< 4 ||| BitVec.ofNat 128 digit

/-- `Ipv6Addr::from`, of the number that the digits make. -/
def fromNibbles (digits : List ℕ) : BitVec 128 := digits.foldl shiftIn 0

/-- `reverse_ip`. -/
def reverseIp (host : List Char) : Option IpAddr :=
  match host.dropSuffix? inAddr with
  | some body => (readLabels octet 4 (body.splitOn '.').reverse).map fun octets =>
    .v4 (fromOctets octets)
  | none => do
      let body ← host.dropSuffix? ip6
      let digits ← readLabels nibble 32 (body.splitOn '.').reverse
      some (.v6 (fromNibbles digits))

/-! ### The answers -/

/-- `canonical`: a mapped address is the IPv4 address. -/
def canonical (ip : IpAddr) : IpAddr := normalizePeer ip

/-- `IpAddr::is_loopback`. -/
def isLoopback : IpAddr → Bool
  | .v4 bits => bits >>> 24 == 127#32
  | .v6 bits => bits == 1#128

/-- `IpAddr::is_unspecified`. -/
def isUnspecified : IpAddr → Bool
  | .v4 bits => bits == 0#32
  | .v6 bits => bits == 0#128

/-- The record types the local answers have data for. -/
def typeA : RecordType := .other 1

def typeAaaa : RecordType := .other 28

def typePtr : RecordType := .other 12

/-- The data of a local record. -/
inductive LocalData
  | a (bits : BitVec 32)
  | aaaa (bits : BitVec 128)
  | ptr (target : List Char)
  deriving DecidableEq

/-- A record of a local answer. -/
structure LocalRecord where
  name : Name
  ttl : ℕ
  data : LocalData
  deriving DecidableEq

/-- A local answer: a response to the question, without an error. -/
structure LocalAnswer where
  question : Query
  answers : List LocalRecord
  ttl : ℕ
  resolvedAt : ℤ
  deriving DecidableEq

/-- `localhost`, and the names below it. -/
def isLocalhost (host : List Char) : Bool :=
  host == "localhost".toList || ".localhost".toList.isSuffixOf host

/-- The reverse name of a loopback address. -/
def namesLoopback (host : List Char) : Bool :=
  ((reverseIp host).map canonical).any isLoopback

/-- A question for the pointer of an address that the server listens on. -/
def namesOwn (question : Query) (host : List Char) (endpoints : List IpAddr) : Bool :=
  question.queryType = typePtr && ((reverseIp host).map canonical).any fun ip =>
    !isUnspecified ip && endpoints.any fun endpoint => canonical endpoint == ip

/-- The data that a local answer has. -/
def localData (question : Query) (localhost loopback : Bool) : Option LocalData :=
  if question.queryType = typeA ∧ localhost then some (.a 0x7f000001#32)
  else if question.queryType = typeAaaa ∧ localhost then some (.aaaa 1#128)
  else if question.queryType = typePtr ∧ loopback then some (.ptr "localhost.".toList)
  else none

/-- `answer`, at a reading of the wall clock. -/
def answer (question : Query) (host : List Char) (endpoints : List IpAddr) (explicitOverride : Bool)
    (now : ℤ) : Option LocalAnswer :=
  let localhost := isLocalhost host
  let loopback := namesLoopback host
  let own := namesOwn question host endpoints
  if !localhost && !loopback && (!own || explicitOverride) then none
  else
    let data := if question.queryClass = .internet then
      localData question localhost loopback else none
    some {
      question := question
      answers := data.toList.map fun data => ⟨question.name, 60, data⟩
      ttl := 60 * second
      resolvedAt := now }

/-! ### What a reverse name is -/

/-- Labels, with dots between them. -/
def dotted (labels : List (List Char)) : List Char := ['.'].intercalate labels

/-- The octets of an address, the first one first. -/
def octets (bits : BitVec 32) : List (BitVec 8) := (List.range 4).map (SlotMask.slot 8 bits)

/-- **The reverse name of an address**: its octets in decimal digits, or its hexadecimal digits,
from the last one to the first. -/
inductive ReverseName : List Char → IpAddr → Prop
  | v4 (bits : BitVec 32) :
      ReverseName (dotted ((octets bits).reverse.map fun o => Nat.toDigits 10 o.toNat) ++ inAddr)
        (.v4 bits)
  | v6 {digits : List Char} {bits : BitVec 128} (length : digits.length = 32)
      (value : Text.hexValue digits = some bits.toNat) :
      ReverseName (dotted (digits.reverse.map ([·])) ++ ip6) (.v6 bits)

/-- The label has a sign or a leading zero. -/
def Padded (label : List Char) : Prop :=
  label.head? = some '+' ∨ 1 < label.length ∧ label.head? = some '0'

/-- Four numbers of one byte before `.in-addr.arpa`, not all of them in their plain form. -/
def Sloppy (host : List Char) : Prop :=
  ∃ labels : List (List Char), labels.length = 4 ∧ host = dotted labels ++ inAddr ∧
    (∀ label ∈ labels, (octet label).isSome = true) ∧ ∃ label ∈ labels, Padded label

/-! ### Labels -/

section Labels

variable {α : Type} {read : List Char → Option α} {labels : List (List Char)}

theorem readLabels_eq_some_iff {n : ℕ} {as : List α} :
    readLabels read n labels = some as ↔
      labels.length = n ∧ List.Forall₂ (fun label a => read label = some a) labels as := by
  induction n generalizing labels as with
  | zero => cases labels <;> simp [readLabels, eq_comm]
  | succ n ih =>
    cases labels with
    | nil => simp [readLabels]
    | cons label labels =>
      simp only [readLabels, Option.bind_eq_bind, Option.bind_eq_some_iff, Option.some.injEq, ih]
      constructor
      · rintro ⟨a, ha, rest, ⟨rfl, hread⟩, rfl⟩
        exact ⟨rfl, List.Forall₂.cons ha hread⟩
      · rintro ⟨hlen, _ | ⟨ha, hrest⟩⟩
        exact ⟨_, ha, _, ⟨Nat.succ.inj hlen, hrest⟩, rfl⟩

theorem splitOn_dotted (hne : labels ≠ []) (h : ∀ label ∈ labels, '.' ∉ label) :
    (dotted labels).splitOn '.' = labels :=
  splitOn_intercalate '.' h hne

theorem dotted_splitOn (body : List Char) : dotted (body.splitOn '.') = body :=
  intercalate_splitOn '.'

/-- The labels of a body are read where no dot is. -/
theorem readLabels_body_iff (hread : ∀ label, (read label).isSome = true → '.' ∉ label) {n : ℕ}
    (hn : 0 < n) {body : List Char} {as : List α} :
    readLabels read n (body.splitOn '.').reverse = some as ↔
      ∃ labels : List (List Char), labels.length = n ∧ body = dotted labels.reverse ∧
        List.Forall₂ (fun label a => read label = some a) labels as := by
  rw [readLabels_eq_some_iff]
  constructor
  · rintro ⟨hlen, hlabels⟩
    exact ⟨_, hlen, by rw [reverse_reverse, dotted_splitOn], hlabels⟩
  · rintro ⟨labels, rfl, rfl, hlabels⟩
    have hdots : ∀ label ∈ labels.reverse, '.' ∉ label := by
      intro label hmem
      obtain ⟨a, -, ha⟩ :=
        Pairing.forall₂_exists_right hlabels label (mem_reverse.1 hmem)
      exact hread label (by rw [ha]; rfl)
    rw [splitOn_dotted (by simpa using length_pos_iff.1 hn) hdots, reverse_reverse]
    exact ⟨rfl, hlabels⟩

end Labels

/-! ### Octets -/

theorem octet_not_dot (label : List Char) (h : (octet label).isSome = true) : '.' ∉ label := by
  intro hdot
  obtain ⟨o, ho⟩ := Option.isSome_iff_exists.1 h
  obtain ⟨n, hn, -⟩ := Option.map_eq_some_iff.1 ho
  exact absurd (Text.isDigit_of_parseUnsigned hn '.' hdot) (by decide)

theorem octet_toDigits (o : BitVec 8) : octet (Nat.toDigits 10 o.toNat) = some o := by
  rw [octet, Text.parseUnsigned_toDigits, if_pos o.isLt]
  simp

theorem head_toDigits {n : ℕ} (hn : 0 < n) : (Nat.toDigits 10 n).head? ≠ some '0' := by
  induction n using Nat.strongRecOn with
  | ind n ih =>
    by_cases hlt : n < 10
    · rw [Nat.toDigits_of_lt_base hlt]
      interval_cases n <;> decide
    · rw [← Nat.div_add_mod n 10, ← Nat.toDigits_append_toDigits (by norm_num) (by omega)
        (Nat.mod_lt n (by norm_num)), head?_append_of_ne_nil _ Nat.toDigits_ne_nil]
      exact ih _ (by omega) (by omega)

theorem not_padded_toDigits (n : ℕ) : ¬ Padded (Nat.toDigits 10 n) := by
  rintro (hsign | ⟨hlong, hzero⟩)
  · have hdigit : ('+').isDigit = true := Nat.isDigit_of_mem_toDigits (b := 10) (by norm_num)
      (by norm_num) (mem_of_mem_head? hsign)
    exact absurd hdigit (by decide)
  · refine head_toDigits (Nat.pos_of_ne_zero fun hn => ?_) hzero
    subst hn
    exact absurd hlong (by decide)

variable {label host : List Char} {bits : BitVec 32} {d : ℕ} {ds : List ℕ}
/-- A number that is not padded is read from its digits. -/
theorem eq_toDigits {bound n : ℕ} (h : Text.parseUnsigned bound label = some n)
    (hplain : ¬ Padded label) : label = Nat.toDigits 10 n :=
  Text.eq_toDigits_of_parseUnsigned h (fun hsign => hplain (.inl hsign))
    fun hlong hzero => hplain (.inr ⟨hlong, hzero⟩)

theorem eq_toDigits_of_octet {o : BitVec 8} (h : octet label = some o)
    (hplain : ¬ Padded label) : label = Nat.toDigits 10 o.toNat := by
  obtain ⟨n, hn, rfl⟩ := Option.map_eq_some_iff.1 h
  rw [BitVec.toNat_ofNat, Nat.mod_eq_of_lt (Text.parseUnsigned_lt hn)]
  exact eq_toDigits hn hplain

/-- Four octets make the address that has them. -/
theorem fromOctets_eq_iff {os : List (BitVec 8)} (hlen : os.length = 4) :
    fromOctets os = bits ↔ os = octets bits := by
  have hcovers : SlotMask.Covers (os.map some) (SlotMask.compile 32 (os.map some)).1 :=
    SlotMask.covers_compile (by simp [hlen])
  constructor
  · rintro rfl
    refine List.ext_getElem (by simp [octets, hlen]) fun i hi hi' => ?_
    have hslot := hcovers i os[i] (by rw [List.getElem?_map, List.getElem?_eq_getElem hi]; rfl)
    simp only [octets, List.getElem_map, List.getElem_range]
    exact hslot.symm
  · rintro rfl
    refine SlotMask.eq_of_covers (by rw [hlen]) hcovers fun i v hget => ?_
    rw [List.getElem?_map] at hget
    obtain ⟨o, ho, ⟨⟩⟩ := Option.map_eq_some_iff.1 hget
    obtain ⟨hi, rfl⟩ := List.getElem?_eq_some_iff.1 ho
    simp [octets]

/-! ### IPv4 -/

theorem reverseIp_inAddr (body : List Char) :
    reverseIp (body ++ inAddr) =
      (readLabels octet 4 (body.splitOn '.').reverse).map fun os => .v4 (fromOctets os) := by
  rw [reverseIp, Text.dropSuffix?_append_self]

/-- What is read as an IPv4 address. -/
theorem reverseIp_v4_iff : reverseIp host = some (.v4 bits) ↔
      ∃ labels : List (List Char), labels.length = 4 ∧ host = dotted labels.reverse ++ inAddr ∧
        List.Forall₂ (fun label o => octet label = some o) labels (octets bits) := by
  constructor
  · intro h
    cases hdrop : host.dropSuffix? inAddr with
    | none =>
      -- the other ending makes an address of the other kind
      rw [reverseIp, hdrop] at h
      simp only [Option.bind_eq_bind, Option.bind_eq_some_iff] at h
      obtain ⟨body, -, digits, -, ⟨⟩⟩ := h
    | some body =>
      obtain ⟨ending, rfl, hending⟩ := dropSuffix?_eq_some_iff.1 hdrop
      obtain rfl : ending = inAddr := by simpa using hending
      rw [reverseIp_inAddr] at h
      obtain ⟨os, hos, ⟨⟩⟩ := Option.map_eq_some_iff.1 h
      obtain ⟨labels, hlen, rfl, hlabels⟩ :=
        (readLabels_body_iff octet_not_dot (by norm_num)).1 hos
      rw [← (fromOctets_eq_iff (hlabels.length_eq ▸ hlen)).1 rfl]
      exact ⟨labels, hlen, rfl, hlabels⟩
  · rintro ⟨labels, hlen, rfl, hlabels⟩
    rw [reverseIp_inAddr, (readLabels_body_iff octet_not_dot (by norm_num)).2
      ⟨labels, hlen, rfl, hlabels⟩, Option.map_some,
      (fromOctets_eq_iff (by simp [octets])).2 rfl]

theorem Sloppy.read (h : Sloppy host) : ∃ bits, reverseIp host = some (.v4 bits) := by
  obtain ⟨labels, hlen, rfl, hread, -⟩ := h
  obtain ⟨os, hos⟩ := Pairing.forall₂_exists (R := fun label o => octet label = some o)
    (l := labels.reverse) fun label hmem =>
      Option.isSome_iff_exists.1 (hread label (mem_reverse.1 hmem))
  have hlen' : labels.reverse.length = 4 := by rw [length_reverse, hlen]
  refine ⟨fromOctets os, reverseIp_v4_iff.2 ⟨labels.reverse, hlen', ?_, ?_⟩⟩
  · rw [reverse_reverse]
  · rwa [← (fromOctets_eq_iff (hos.length_eq ▸ hlen')).1 rfl]

theorem dotted_inj {labels labels' : List (List Char)} {ending : List Char}
    (h : dotted labels ++ ending = dotted labels' ++ ending) (hne : labels ≠ [])
      (hne' : labels' ≠ [])
    (hdots : ∀ label ∈ labels, '.' ∉ label) (hdots' : ∀ label ∈ labels', '.' ∉ label) :
    labels = labels' := by
  have hsplit := congrArg (splitOn '.') (append_cancel_right h)
  rwa [splitOn_dotted hne hdots, splitOn_dotted hne' hdots'] at hsplit

/-- **An IPv4 address is read from its reverse name and from sloppy ones.** -/
theorem reverseName_v4_iff :
    ReverseName host (.v4 bits) ↔ reverseIp host = some (.v4 bits) ∧ ¬ Sloppy host := by
  constructor
  · rintro ⟨⟩
    refine ⟨reverseIp_v4_iff.2 ⟨(octets bits).map fun o => Nat.toDigits 10 o.toNat, by simp [octets],
      by rw [map_reverse], ?_⟩, ?_⟩
    · rw [forall₂_map_left_iff, forall₂_same]
      exact fun o _ => octet_toDigits o
    · rintro ⟨labels, hlen, heq, hread, label, hmem, hpadded⟩
      obtain rfl := dotted_inj heq (by simp [octets])
        (by rintro rfl; exact absurd hlen (by decide))
        (forall_mem_map.2 fun o _ => octet_not_dot _ (by rw [octet_toDigits]; rfl))
        (fun l hl => octet_not_dot l (hread l hl))
      obtain ⟨o, -, rfl⟩ := mem_map.1 hmem
      exact not_padded_toDigits _ hpadded
  · rintro ⟨hread, hplain⟩
    obtain ⟨labels, hlen, rfl, hlabels⟩ := reverseIp_v4_iff.1 hread
    have hnone : ∀ label ∈ labels, ¬ Padded label := by
      intro label hmem hpadded
      refine hplain ⟨labels.reverse, by rw [length_reverse, hlen], rfl, fun l hl => ?_,
        label, mem_reverse.2 hmem, hpadded⟩
      obtain ⟨o, -, ho⟩ := Pairing.forall₂_exists_right hlabels l (mem_reverse.1 hl)
      rw [ho]
      rfl
    obtain rfl : labels = (octets bits).map fun o => Nat.toDigits 10 o.toNat := by
      rw [← forall₂_eq_eq_eq, forall₂_map_right_iff]
      refine List.Forall₂.imp ?_ ((forall₂_and_left _ _).2 ⟨hnone, hlabels⟩)
      exact fun label o h => eq_toDigits_of_octet h.2 h.1
    rw [← map_reverse]
    exact .v4 bits

/-! ### IPv6 -/

theorem nibble_eq_some_iff :
    nibble label = some d ↔ ∃ c, label = [c] ∧ Text.hexDigit c = some d := by
  unfold nibble
  split
  · simp
  · next hnot => simpa using fun c hc => absurd hc (hnot c)

theorem hexDigit_not_dot {c : Char} (h : Text.hexDigit c = some d) : c ≠ '.' := by
  rintro rfl
  have hnone : Text.hexDigit '.' = none := by decide
  rw [hnone] at h
  cases h

theorem nibble_not_dot (label : List Char) (h : (nibble label).isSome = true) : '.' ∉ label := by
  obtain ⟨d, hd⟩ := Option.isSome_iff_exists.1 h
  obtain ⟨c, rfl, hc⟩ := nibble_eq_some_iff.1 hd
  rw [mem_singleton]
  exact (hexDigit_not_dot hc).symm

theorem toNat_shiftIn {v : BitVec 128} (hd : d < 16) (hv : v.toNat < 2 ^ 124) :
    (shiftIn v d).toNat = 16 * v.toNat + d := by
  have hshift : v.toNat <<< 4 % 2 ^ 128 = v.toNat <<< 4 := by
    rw [Nat.shiftLeft_eq]
    omega
  rw [shiftIn, BitVec.toNat_or, BitVec.toNat_shiftLeft, hshift, BitVec.toNat_ofNat,
    Nat.mod_eq_of_lt (by omega), ← Nat.shiftLeft_add_eq_or_of_lt (by omega : d < 2 ^ 4),
    Nat.shiftLeft_eq]
  omega

/-- Digits are shifted in to the number they spell. -/
theorem foldlM_digits {digits : List Char}
    (h : List.Forall₂ (fun c d => Text.hexDigit c = some d) digits ds) :
    ∀ v : BitVec 128, (v.toNat + 1) * 16 ^ digits.length ≤ 2 ^ 128 →
      digits.foldlM (fun n c => (Text.hexDigit c).map fun d => 16 * n + d) v.toNat =
        some (ds.foldl shiftIn v).toNat := by
  induction h with
  | nil => exact fun v _ => rfl
  | @cons c d digits ds hc _ ih =>
    intro v hroom
    have hd : d < 16 := Text.hexDigit_lt hc
    have hpow : 1 ≤ 16 ^ digits.length :=
        Nat.one_le_two_pow.trans (Nat.pow_le_pow_left (by norm_num) _)
    rw [length_cons, pow_succ] at hroom
    have hv : v.toNat < 2 ^ 124 := by nlinarith
    have hshift := toNat_shiftIn hd hv
    rw [foldlM_cons, hc]
    simp only [Option.map_some, Option.bind_eq_bind, Option.bind_some, foldl_cons]
    rw [← hshift]
    refine ih _ ?_
    rw [hshift]
    nlinarith

theorem hexValue_digits {digits : List Char} (hlen : digits.length = 32)
    (h : List.Forall₂ (fun c d => Text.hexDigit c = some d) digits ds) :
    Text.hexValue digits = some (fromNibbles ds).toNat :=
  foldlM_digits h 0 (by rw [hlen]; decide)

theorem exists_digits {labels : List (List Char)}
    (h : List.Forall₂ (fun label d => nibble label = some d) labels ds) :
    ∃ digits : List Char, labels = digits.map ([·]) ∧
      List.Forall₂ (fun c d => Text.hexDigit c = some d) digits ds := by
  induction h with
  | nil => exact ⟨[], rfl, List.Forall₂.nil⟩
  | cons hd _ ih =>
    obtain ⟨c, rfl, hc⟩ := nibble_eq_some_iff.1 hd
    obtain ⟨digits, rfl, hdigits⟩ := ih
    exact ⟨c :: digits, rfl, List.Forall₂.cons hc hdigits⟩

theorem reverseIp_ip6 (body : List Char) :
    reverseIp (body ++ ip6) =
      (readLabels nibble 32 (body.splitOn '.').reverse).map fun ds =>
        .v6 (fromNibbles ds) := by
  have hclash : (body ++ ip6).dropSuffix? inAddr = none :=
    Text.dropSuffix?_append_of_clash (by decide) (by decide) body
  rw [reverseIp, hclash, Text.dropSuffix?_append_self]
  cases hread : readLabels nibble 32 (body.splitOn '.').reverse <;> simp [hread]

/-- **An IPv6 address is read from its reverse name only.** -/
theorem reverseIp_v6_iff {bits : BitVec 128} :
    reverseIp host = some (.v6 bits) ↔ ReverseName host (.v6 bits) := by
  constructor
  · intro h
    obtain ⟨body, rfl⟩ : ∃ body, host = body ++ ip6 := by
      rw [reverseIp] at h
      split at h
      · obtain ⟨os, -, ⟨⟩⟩ := Option.map_eq_some_iff.1 h
      · obtain ⟨body, hbody, -⟩ := Option.bind_eq_some_iff.1 h
        obtain ⟨ending, rfl, hending⟩ := dropSuffix?_eq_some_iff.1 hbody
        exact ⟨body, by rw [beq_iff_eq.1 hending]⟩
    rw [reverseIp_ip6] at h
    obtain ⟨ds, hds, ⟨⟩⟩ := Option.map_eq_some_iff.1 h
    obtain ⟨labels, hlen, rfl, hlabels⟩ := (readLabels_body_iff nibble_not_dot (by norm_num)).1 hds
    obtain ⟨digits, rfl, hdigits⟩ := exists_digits hlabels
    rw [length_map] at hlen
    rw [← map_reverse]
    exact .v6 hlen (hexValue_digits hlen hdigits)
  · rintro ⟨⟩
    next digits hlen hvalue =>
      obtain ⟨ds, hdigits⟩ := Pairing.forall₂_exists (R := fun c d => Text.hexDigit c = some d)
        (l := digits) fun c hc => Option.isSome_iff_exists.1 (Text.hexDigit_of_hexValue hvalue c hc)
      have hbits : fromNibbles ds = bits := by
        rw [hexValue_digits hlen hdigits] at hvalue
        exact BitVec.eq_of_toNat_eq (Option.some.inj hvalue)
      rw [reverseIp_ip6, (readLabels_body_iff nibble_not_dot (by norm_num)).2
        ⟨digits.map ([·]), by rw [length_map, hlen], by rw [map_reverse],
          forall₂_map_left_iff.2 hdigits⟩, Option.map_some, hbits]

/-! ### Exactly the reverse names -/

/-- The name is read as an address exactly if it is the reverse name of it. -/
def Recognised (host : List Char) : Prop :=
  ∀ ip, reverseIp host = some ip ↔ ReverseName host ip

theorem recognised_of_not_sloppy (h : ¬ Sloppy host) : Recognised host := by
  rintro (bits | bits)
  · rw [reverseName_v4_iff, and_iff_left h]
  · exact reverseIp_v6_iff

/-- **A name is read as it should be unless it is sloppy.** -/
theorem recognised_iff : Recognised host ↔ ¬ Sloppy host := by
  refine ⟨fun hrecognised hsloppy => ?_, recognised_of_not_sloppy⟩
  obtain ⟨bits, hread⟩ := hsloppy.read
  exact (reverseName_v4_iff.1 ((hrecognised _).1 hread)).2 hsloppy

theorem map_dotted (f : Char → Char) (hf : f '.' = '.') (labels : List (List Char)) :
    (dotted labels).map f = dotted (labels.map (List.map f)) := by
  induction labels with
  | nil => rfl
  | cons label labels ih =>
    cases labels with
    | nil => simp [dotted]
    | cons label' labels =>
      simp only [dotted, map_cons] at ih ⊢
      simp [intercalate_cons_cons, ih, hf]

/-- The reverse names of one address differ in case only. -/
theorem ReverseName.eqIgnoreCase {host' : List Char} {ip : IpAddr} (h : ReverseName host ip)
    (h' : ReverseName host' ip) : eqIgnoreAsciiCase host host' = true := by
  rw [eqIgnoreAsciiCase, beq_iff_eq]
  cases h with
  | v4 bits =>
    cases h'
    rfl
  | @v6 digits bits hlen hvalue =>
    cases h' with
    | @v6 digits' _ hlen' hvalue' =>
      have hcase := Text.map_toLower_of_hexValue (hlen.trans hlen'.symm) hvalue hvalue'
      have hsingle : ∀ ds : List Char, (ds.reverse.map ([·])).map (map Char.toLower) =
          (ds.map Char.toLower).reverse.map ([·]) := by
        simp [map_reverse, Function.comp_def]
      rw [map_append, map_append, map_dotted _ (by decide), map_dotted _ (by decide), hsingle,
        hsingle, hcase]

theorem answer_isSome_iff {question : Query} {endpoints : List IpAddr}
    {explicitOverride : Bool} {now : ℤ} :
    (answer question host endpoints explicitOverride now).isSome = true ↔
      isLocalhost host = true ∨ namesLoopback host = true ∨
        namesOwn question host endpoints = true ∧ explicitOverride = false := by
  unfold answer
  cases isLocalhost host <;> cases namesLoopback host <;>
    cases namesOwn question host endpoints <;> cases explicitOverride <;> simp

theorem ReverseName.not_sloppy {ip : IpAddr} (h : ReverseName host ip) : ¬ Sloppy host := by
  cases ip with
  | v4 bits => exact (reverseName_v4_iff.1 h).2
  | v6 bits =>
    intro hsloppy
    obtain ⟨bits', hread⟩ := hsloppy.read
    cases (reverseIp_v6_iff.2 h).symm.trans hread

/-- The address is a loopback address, or the question is for the pointer of one of the endpoints.
-/
def IsLocal (question : Query) (endpoints : List IpAddr) (ip : IpAddr) : Prop :=
  isLoopback (canonical ip) = true ∨
    question.queryType = typePtr ∧ isUnspecified (canonical ip) = false ∧
      ∃ endpoint ∈ endpoints, canonical endpoint = canonical ip

theorem exists_isLocal {question : Query} {endpoints : List IpAddr}
    (h : namesLoopback host = true ∨ namesOwn question host endpoints = true) :
    ∃ ip, reverseIp host = some ip ∧ IsLocal question endpoints ip := by
  cases hread : reverseIp host with
  | none => simp [namesLoopback, namesOwn, hread] at h
  | some ip => exact ⟨ip, rfl, by simpa [namesLoopback, namesOwn, hread, IsLocal] using h⟩

/-- **Reverse names are recognised exactly, but for the sloppy ones**: a name is read as an address
exactly if it is the reverse name of it; two such names of one address differ in case only; and a
name other than `localhost` that is answered at home is the reverse name of a local address. -/
theorem reverse_names_exact_iff (host : List Char) :
    ((∀ ip, reverseIp host = some ip ↔ ReverseName host ip) ↔ ¬ Sloppy host) ∧
    (∀ host' ip, ¬ Sloppy host → ¬ Sloppy host' → reverseIp host = some ip →
      reverseIp host' = some ip → eqIgnoreAsciiCase host host' = true) ∧
    ∀ question endpoints explicitOverride now,
      (answer question host endpoints explicitOverride now).isSome = true →
      isLocalhost host = false →
        ((∃ ip, ReverseName host ip ∧ IsLocal question endpoints ip) ↔ ¬ Sloppy host) := by
  refine ⟨recognised_iff, ?_, ?_⟩
  · intro host' ip hplain hplain' hread hread'
    have hname := (recognised_of_not_sloppy hplain ip).1 hread
    have hname' := (recognised_of_not_sloppy hplain' ip).1 hread'
    exact hname.eqIgnoreCase hname'
  · intro question endpoints explicitOverride now hanswer hhost
    constructor
    · rintro ⟨ip, hname, -⟩
      exact hname.not_sloppy
    · intro hplain
      have htreated : namesLoopback host = true ∨ namesOwn question host endpoints = true := by
        rcases answer_isSome_iff.1 hanswer with h | h | h
        · rw [hhost] at h
          cases h
        · exact .inl h
        · exact .inr h.1
      obtain ⟨ip, hread, hlocal⟩ := exists_isLocal htreated
      exact ⟨ip, (recognised_of_not_sloppy hplain ip).1 hread, hlocal⟩

/-- The name `01.0.0.127.in-addr.arpa`. -/
def paddedName : List Char := "01.0.0.127.in-addr.arpa".toList

/-- A question for the pointer of a host. -/
def pointerQuestion (host : List Char) : Query :=
  ⟨⟨(host.splitOn '.').map Text.utf8, true⟩, typePtr, .internet⟩

/-- A leading zero is let through: the name is read as a loopback address, whose reverse name it is
not, and a question for its pointer is answered with `localhost`. -/
theorem padded_name_is_loopback :
    reverseIp paddedName = some (.v4 0x7f000001#32) ∧
    ¬ ReverseName paddedName (.v4 0x7f000001#32) ∧
    reverseIp "1.0.0.127.in-addr.arpa".toList = some (.v4 0x7f000001#32) ∧
    eqIgnoreAsciiCase paddedName "1.0.0.127.in-addr.arpa".toList = false ∧
    (answer (pointerQuestion paddedName) paddedName [] false 0).map (·.answers) =
      some [⟨(pointerQuestion paddedName).name, 60, .ptr "localhost.".toList⟩] := by
  refine ⟨by decide +kernel, ?_, by decide +kernel, by decide +kernel, by decide +kernel⟩
  intro hname
  refine hname.not_sloppy ⟨["01".toList, "0".toList, "0".toList, "127".toList], rfl, rfl, ?_,
    "01".toList, List.mem_cons_self, .inr (by decide)⟩
  have hall : (["01".toList, "0".toList, "0".toList, "127".toList].all fun label =>
      (octet label).isSome) = true := by decide +kernel
  exact List.all_eq_true.1 hall

end ServerLocal
