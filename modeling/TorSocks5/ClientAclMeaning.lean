/-
**What the rules of a client access list accept.**

The rule that the parser compiles from a token accepts the addresses that the token stands for.  A
mask without a `*` is also read by the parsers of the standard library, which come first; both
readings stand for the same addresses, so that a token has one meaning.
-/

import Mathlib
import TorSocks5.ClientAclGrammar

set_option autoImplicit false

namespace ClientAcl

open Pairing
open SlotMask (Covers)

/-! ### Mapped addresses -/

section Bits

variable {bits : BitVec 128}

theorem slot_toNat {w k : ℕ} (a : BitVec w) (i : ℕ) :
    (SlotMask.slot k a i).toNat = a.toNat / 2 ^ (w - k - k * i) % 2 ^ k := by
  rw [SlotMask.slot, BitVec.toNat_setWidth, BitVec.toNat_ushiftRight, Nat.shiftRight_eq_div_pow]
  rfl

/-- The mapped addresses are those with the prefix. -/
theorem mapped_iff : bits >>> 32 = 0xffff#128 ↔ Covers (mappedPrefix.map some) bits := by
  have hlt := bits.isLt
  rw [covers_iff_segments (by decide)]
  change _ ↔ [SlotMask.slot 16 bits 0, SlotMask.slot 16 bits 1, SlotMask.slot 16 bits 2,
    SlotMask.slot 16 bits 3, SlotMask.slot 16 bits 4, SlotMask.slot 16 bits 5] =
      [0#16, 0#16, 0#16, 0#16, 0#16, 0xffff#16]
  simp only [List.cons.injEq, and_true, ← BitVec.toNat_inj, slot_toNat, BitVec.toNat_ushiftRight,
    Nat.shiftRight_eq_div_pow, BitVec.toNat_ofNat]
  norm_num
  omega

theorem normalizePeer_of_covers (h : Covers (mappedPrefix.map some) bits) :
    normalizePeer (.v6 bits) = .v4 (bits.setWidth 32) := by
  rw [normalizePeer, toIpv4Mapped, if_pos (mapped_iff.2 h)]

theorem normalizePeer_of_not_covers (h : ¬ Covers (mappedPrefix.map some) bits) :
    normalizePeer (.v6 bits) = .v6 bits := by
  rw [normalizePeer, toIpv4Mapped, if_neg fun hmapped => h (mapped_iff.1 hmapped)]

/-- The bits in front of the last two hextets are those of the first six. -/
theorem upper_unique {bits' : BitVec 128} {hextets : List (BitVec 16)}
    (hlength : hextets.length = 6)
    (h : Covers (hextets.map some) bits) (h' : Covers (hextets.map some) bits')
    (hlower : bits.setWidth 32 = bits'.setWidth 32) : bits = bits' := by
  have hlt := bits.isLt
  have hlt' := bits'.isLt
  rw [covers_iff_segments (by omega), hlength] at h h'
  have hsame : [SlotMask.slot 16 bits 0, SlotMask.slot 16 bits 1, SlotMask.slot 16 bits 2,
      SlotMask.slot 16 bits 3, SlotMask.slot 16 bits 4, SlotMask.slot 16 bits 5] =
      [SlotMask.slot 16 bits' 0, SlotMask.slot 16 bits' 1, SlotMask.slot 16 bits' 2,
        SlotMask.slot 16 bits' 3, SlotMask.slot 16 bits' 4, SlotMask.slot 16 bits' 5] :=
    h.trans h'.symm
  simp only [List.cons.injEq, and_true, ← BitVec.toNat_inj, slot_toNat] at hsame
  rw [← BitVec.toNat_inj, BitVec.toNat_setWidth, BitVec.toNat_setWidth] at hlower
  rw [← BitVec.toNat_inj]
  norm_num at hsame hlower
  omega

/-- The octets of the last two hextets are those of the mapped address. -/
theorem covers_octets {v w : BitVec 16} (hv : SlotMask.slot 16 bits 6 = v)
    (hw : SlotMask.slot 16 bits 7 = w) :
    Covers (List.map some [(v >>> 8).setWidth 8, v.setWidth 8, (w >>> 8).setWidth 8, w.setWidth 8])
      (bits.setWidth 32) := by
  have hlt := bits.isLt
  rw [← BitVec.toNat_inj, slot_toNat] at hv hw
  have hoctets : ∀ i : Fin 4, SlotMask.slot 8 (bits.setWidth 32) i =
      [(v >>> 8).setWidth 8, v.setWidth 8, (w >>> 8).setWidth 8, w.setWidth 8].get i := by
    intro i
    rw [← BitVec.toNat_inj, slot_toNat, BitVec.toNat_setWidth]
    fin_cases i
    all_goals
      simp [BitVec.toNat_setWidth, BitVec.toNat_ushiftRight, Nat.shiftRight_eq_div_pow, ← hv, ← hw]
      try omega
  intro i o hget
  rw [List.getElem?_map] at hget
  obtain ⟨_, ho', heq⟩ := Option.map_eq_some_iff.1 hget
  obtain ⟨hi, rfl⟩ := List.getElem?_eq_some_iff.1 ho'
  exact (hoctets ⟨i, hi⟩).trans (Option.some.inj heq)

end Bits

/-! ### Rules -/

/-- The rule accepts the peers of the set. -/
def Means (rule : Rule) (meaning : Set IpAddr) : Prop :=
  ∀ ip, rule.accepts (normalizePeer ip) = true ↔ ip ∈ meaning

variable {S : Set IpAddr} {text : List Char} {bits : BitVec 128} {ip : IpAddr}
theorem Means.unique {rule : Rule} {S' : Set IpAddr} (h : Means rule S) (h' : Means rule S') :
    S = S' :=
  Set.ext fun ip => (h ip).symm.trans (h' ip)

theorem means_any : Means .any Set.univ := fun _ => ⟨fun _ => trivial, fun _ => rfl⟩

theorem means_loopback : Means .loopback
    { ip | (∃ bits, normalizePeer ip = .v4 bits ∧ SlotMask.slot 8 bits 0 = 127) ∨
      normalizePeer ip = .v6 1 } := by
  intro ip
  rw [Set.mem_ofPred_eq]
  cases normalizePeer ip with
  | v4 bits =>
    have hoctet : bits >>> 24 = 127#32 ↔ SlotMask.slot 8 bits 0 = 127#8 := by
      have hlt := bits.isLt
      rw [← BitVec.toNat_inj, ← BitVec.toNat_inj, slot_toNat, BitVec.toNat_ushiftRight,
        Nat.shiftRight_eq_div_pow]
      norm_num
      omega
    simp [Rule.accepts, hoctet]
  | v6 bits => simp [Rule.accepts]

theorem means_v4 {slots : List (Option (BitVec 8))} (hlength : slots.length = 4) :
    Means (ruleFromV4Slots slots) (v4Meaning slots) := by
  intro ip
  rw [v4Meaning, Set.mem_ofPred_eq]
  cases normalizePeer ip with
  | v4 bits =>
    rw [ruleFromV4Slots, Rule.accepts, beq_iff_eq, SlotMask.and_mask_eq_iff (by omega)]
    simp
  | v6 bits => simp [ruleFromV4Slots, Rule.accepts]

theorem means_v6 {slots : List (Option (BitVec 16))} (hlength : slots.length = 8) :
    Means (ruleOfSlots slots) (v6Meaning slots) := by
  unfold ruleOfSlots splitMappedV4 v6Meaning
  split_ifs with hmapped
  · refine means_v4 ?_
    -- a hextet is two octets, free or not
    have hoctets (slot : Option (BitVec 16)) : (toOctets slot).length = 2 := by cases slot <;> rfl
    simp [List.length_flatMap, hoctets, hlength]
  · intro ip
    rw [Set.mem_ofPred_eq]
    cases normalizePeer ip with
    | v4 bits => simp [ruleFromV6Slots, Rule.accepts]
    | v6 bits =>
      simp only [ruleFromV6Slots, Rule.accepts, beq_iff_eq]
      rw [SlotMask.and_mask_eq_iff (by omega)]
      simp

theorem means_literal (ip : IpAddr) :
    Means (literalRule ip) { peer | normalizePeer peer = normalizePeer ip } := by
  intro peer
  rw [Set.mem_ofPred_eq, literalRule]
  cases normalizePeer ip <;> cases normalizePeer peer <;>
    simp [Rule.accepts, BitVec.and_allOnes, -BitVec.reduceAllOnes]

/-! ### Addresses -/

theorem V6Literal.colon_mem (h : V6Literal text bits) : ':' ∈ text := by
  rcases h with ⟨hextets, hspelled, -⟩ | ⟨front, quad, hextets, rfl, -⟩
  · exact V6Mask.mem (.inl hspelled)
  · simp

theorem QuadLiteral.mem {bits : BitVec 32} (h : QuadLiteral text bits) :
    '.' ∈ text ∧ ':' ∉ text := by
  obtain ⟨octets, -, hmask, -⟩ := h.mask
  exact hmask.mem

theorem Literal.separator_mem (h : Literal text ip) : '.' ∈ text ∨ ':' ∈ text := by
  cases ip with
  | v4 bits => exact .inl (QuadLiteral.mem h).1
  | v6 bits => exact .inr (V6Literal.colon_mem h)

/-- Only the mixed form has a dot. -/
theorem not_spells_of_dot {n : ℕ} {front tail : List Char} {slots : List (Option (BitVec 16))}
    (hdot : '.' ∈ tail) : ¬ Spells n (front ++ ':' :: tail) slots := by
  generalize htext : front ++ ':' :: tail = text
  have hmem : '.' ∈ text := by simp [← htext, hdot]
  intro hspelled
  cases hspelled with
  | full hvalues _ => exact not_dot_mem_intercalate hvalues hmem
  | compressed hleft hright _ =>
    simp [not_dot_mem_intercalate hleft, not_dot_mem_intercalate hright] at hmem

theorem quadLiteral_unique {bits bits' : BitVec 32} (h : QuadLiteral text bits)
    (h' : QuadLiteral text bits') : bits = bits' := by
  obtain ⟨octets, hlength, hmask, hcovers⟩ := h.mask
  obtain ⟨octets', -, hmask', hcovers'⟩ := h'.mask
  rw [hmask'.unique hmask] at hcovers'
  exact SlotMask.eq_of_covers (by rw [hlength]) hcovers hcovers'

theorem v6Literal_unique {bits' : BitVec 128} (h : V6Literal text bits)
    (h' : V6Literal text bits') : bits = bits' := by
  rcases h with ⟨hextets, hspelled, hcovers⟩ | ⟨front, quad, hextets, rfl, hquad, hspelled, hcovers⟩
  · rcases h' with ⟨hextets', hspelled', hcovers'⟩ | ⟨front, quad, hextets', rfl, hquad, -, -⟩
    · rw [V6Mask.unique (.inl hspelled') (.inl hspelled)] at hcovers'
      have hlength : hextets.length = 8 := by simpa using hspelled.length
      exact SlotMask.eq_of_covers (by rw [hlength]) hcovers hcovers'
    · exact absurd hspelled (not_spells_of_dot hquad.mem.1)
  · rcases h' with ⟨hextets', hspelled', -⟩ | ⟨front', quad', hextets', htext, hquad', hspelled',
      hcovers'⟩
    · exact absurd hspelled' (not_spells_of_dot hquad.mem.1)
    · obtain ⟨rfl, rfl⟩ := tail_unique hquad.mem.2 hquad'.mem.2 htext
      have hslots := V6Mask.unique (.inl hspelled') (.inl hspelled)
      rw [List.map_append, List.map_append] at hslots
      rw [List.append_cancel_right hslots] at hcovers'
      have hlength : hextets.length = 6 := by simpa using hspelled.length
      exact upper_unique hlength hcovers hcovers' (quadLiteral_unique hquad hquad')

/-- **An address has one value.** -/
theorem literal_unique {ip' : IpAddr} (h : Literal text ip) (h' : Literal text ip') : ip = ip' := by
  have hquad : ∀ {bits bits'}, QuadLiteral text bits → ¬ V6Literal text bits' :=
    fun hquad hv6 => hquad.mem.2 hv6.colon_mem
  cases ip <;> cases ip'
  · exact congrArg IpAddr.v4 (quadLiteral_unique h h')
  · exact absurd h' (hquad h)
  · exact absurd h (hquad h')
  · exact congrArg IpAddr.v6 (v6Literal_unique h h')

/-! ### Addresses that are masks -/

theorem v4Meaning_of_covers {octets : List (BitVec 8)} (hlength : octets.length = 4)
    {bits : BitVec 32}
    (h : Covers (octets.map some) bits) :
    v4Meaning (octets.map some) = { peer | normalizePeer peer = .v4 bits } := by
  ext peer
  refine ⟨fun ⟨bits', hpeer, hcovers⟩ => ?_, fun hpeer => ⟨bits, hpeer, h⟩⟩
  rw [Set.mem_ofPred_eq, hpeer, SlotMask.eq_of_covers (by rw [hlength]) hcovers h]

theorem v6Meaning_of_covers {hextets : List (BitVec 16)} (hlength : hextets.length = 8)
    (h : Covers (hextets.map some) bits) :
    v6Meaning (hextets.map some) = { peer | normalizePeer peer = normalizePeer (.v6 bits) } := by
  have hsegments := (covers_iff_segments (by omega)).1 h
  rw [hlength] at hsegments
  have hsix : (hextets.map some).take 6 = mappedPrefix.map some ↔
      Covers (mappedPrefix.map some) bits := by
    rw [covers_iff_segments (by decide), ← List.map_take,
      List.map_inj_right fun _ _ => Option.some.inj, ← hsegments]
    exact Iff.rfl
  unfold v6Meaning
  by_cases hmapped : Covers (mappedPrefix.map some) bits
  · have htail : (hextets.map some).drop 6 =
        [some (SlotMask.slot 16 bits 6), some (SlotMask.slot 16 bits 7)] := by
      rw [← hsegments]
      rfl
    rw [if_pos (hsix.2 hmapped), normalizePeer_of_covers hmapped, htail]
    exact v4Meaning_of_covers rfl (covers_octets rfl rfl)
  · rw [if_neg (hsix.not.2 hmapped), normalizePeer_of_not_covers hmapped]
    ext peer
    refine ⟨fun ⟨bits', hpeer, hcovers⟩ => ?_, fun hpeer => ⟨bits, hpeer, h⟩⟩
    rw [Set.mem_ofPred_eq, hpeer, SlotMask.eq_of_covers (by rw [hlength]) hcovers h]

/-- **A mask that is an address stands for it.** -/
theorem denotes_literal (hliteral : Literal text ip)
    (h : Denotes text S) : S = { peer | normalizePeer peer = normalizePeer ip } := by
  cases h with
  | any | loopback => exact absurd hliteral.separator_mem (by decide)
  | literal hliteral' => rw [literal_unique hliteral hliteral']
  | v4Mask hmask =>
    cases ip with
    | v4 bits =>
      obtain ⟨octets, hlength, hmask', hcovers⟩ := QuadLiteral.mask hliteral
      rw [hmask.unique hmask']
      exact v4Meaning_of_covers hlength hcovers
    | v6 bits => exact absurd (V6Literal.colon_mem hliteral) hmask.mem.2
  | v6Mask hmask =>
    cases ip with
    | v4 bits => exact absurd (QuadLiteral.mem hliteral).1 hmask.not_dot_mem
    | v6 bits =>
      rcases hliteral with ⟨hextets, hspelled, hcovers⟩ | ⟨front, quad, hextets, rfl, hquad, -, -⟩
      · rw [hmask.unique (.inl hspelled)]
        exact v6Meaning_of_covers (by simpa using hspelled.length) hcovers
      · exact absurd (by simp [hquad.mem.1]) hmask.not_dot_mem
  | @mapped front tail slots hfront hmask =>
    cases ip with
    | v4 bits => exact absurd (by simp) (QuadLiteral.mem hliteral).2
    | v6 bits =>
      rcases hliteral with ⟨hextets, hspelled, -⟩ |
        ⟨front', quad, hextets, htext, hquad, hspelled, hcovers⟩
      · exact absurd hspelled (not_spells_of_dot hmask.mem.1)
      · obtain ⟨octets, hlength, hmask', hoctets⟩ := hquad.mask
        obtain ⟨rfl, rfl⟩ := tail_unique hmask.mem.2 hmask'.mem.2 htext
        have hslots := V6Mask.unique (.inl hspelled) (.inl (spells_zeros_iff.2 hfront))
        rw [List.map_append, List.map_append] at hslots
        rw [List.append_cancel_right hslots] at hcovers
        rw [normalizePeer_of_covers hcovers, hmask.unique hmask']
        exact v4Meaning_of_covers hlength hoctets

/-! ### Tokens -/

section Tokens

variable {std : AddressParsers}

theorem ne_word_of_separator (h : '.' ∈ text ∨ ':' ∈ text) :
    text ≠ [] ∧ text ≠ ['*'] ∧ text ≠ "loopback".toList := by
  refine ⟨?_, ?_, ?_⟩ <;> rintro rfl <;> revert h <;> decide

theorem parseToken_of_none (h : '.' ∈ text ∨ ':' ∈ text) (hip : std.ipFromStr text = none) :
    parseToken std text =
      if ':' ∈ text then parseIpv6Wildcard std text else parseIpv4Wildcard text := by
  obtain ⟨hnil, hstar, hloopback⟩ := ne_word_of_separator h
  rw [parseToken, if_neg hnil, if_neg hstar, if_neg hloopback, hip]
  grind

/-- **A token the parser accepts stands for the peers that its rule accepts.** -/
theorem exists_of_parseToken (hstd : Standard std) {rule : Rule}
    (h : parseToken std text = .ok rule) : ∃ S, Denotes text S ∧ Means rule S := by
  rcases eq_or_ne text ['*'] with rfl | hstar
  · cases h
    exact ⟨_, .any, means_any⟩
  rcases eq_or_ne text "loopback".toList with rfl | hloopback
  · cases h
    exact ⟨_, .loopback, means_loopback⟩
  rw [parseToken, if_neg hstar, if_neg hloopback] at h
  cases hip : std.ipFromStr text with simp only [hip] at h
  | some ip =>
    split_ifs at h
    cases h
    exact ⟨_, .literal ((hstd.ip text ip).1 hip), means_literal ip⟩
  | none =>
    split_ifs at h with hnil hcolon hdot
    · rw [parseIpv6Wildcard_iff hstd hcolon] at h
      rcases h with ⟨slots, hmask, rfl⟩ | ⟨front, tail, slots, rfl, hfront, hmask, rfl⟩
      · exact ⟨_, .v6Mask hmask, means_v6 hmask.length⟩
      · exact ⟨_, .mapped hfront hmask, means_v4 hmask.length⟩
    · obtain ⟨slots, hmask, rfl⟩ := (parseIpv4Wildcard_iff hdot).1 h
      exact ⟨_, .v4Mask hmask, means_v4 hmask.length⟩

theorem parseToken_of_literal (hstd : Standard std)
    (h : Denotes text S) (hip : std.ipFromStr text = some ip) :
    ∃ rule, parseToken std text = .ok rule ∧ Means rule S := by
  have hliteral := (hstd.ip text ip).1 hip
  obtain ⟨hnil, hstar, hloopback⟩ := ne_word_of_separator hliteral.separator_mem
  refine ⟨literalRule ip, ?_, denotes_literal hliteral h ▸ means_literal ip⟩
  rw [parseToken, if_neg hnil, if_neg hstar, if_neg hloopback, hip]

/-- **The parser accepts the tokens that stand for something.** -/
theorem parseToken_of_denotes (hstd : Standard std)
    (h : Denotes text S) : ∃ rule, parseToken std text = .ok rule ∧ Means rule S := by
  cases hip : std.ipFromStr text with
  | some ip => exact parseToken_of_literal hstd h hip
  | none =>
    cases h with
    | any => exact ⟨.any, rfl, means_any⟩
    | loopback => exact ⟨.loopback, rfl, means_loopback⟩
    | literal hliteral => cases hip.symm.trans ((hstd.ip _ _).2 hliteral)
    | v4Mask hmask =>
      obtain ⟨hdot, hcolon⟩ := hmask.mem
      refine ⟨_, ?_, means_v4 hmask.length⟩
      rw [parseToken_of_none (.inl hdot) hip, if_neg hcolon, parseIpv4Wildcard_iff hdot]
      exact ⟨_, hmask, rfl⟩
    | v6Mask hmask =>
      refine ⟨_, ?_, means_v6 hmask.length⟩
      rw [parseToken_of_none (.inr hmask.mem) hip, if_pos hmask.mem,
        parseIpv6Wildcard_iff hstd hmask.mem]
      exact .inl ⟨_, hmask, rfl⟩
    | @mapped front tail slots hfront hmask =>
      have hcolon : ':' ∈ front ++ ':' :: tail := List.mem_append_right _ List.mem_cons_self
      refine ⟨_, ?_, means_v4 hmask.length⟩
      rw [parseToken_of_none (.inr hcolon) hip, if_pos hcolon, parseIpv6Wildcard_iff hstd hcolon]
      exact .inr ⟨front, tail, _, rfl, hfront, hmask, rfl⟩

theorem denotes_unique (hstd : Standard std) {S' : Set IpAddr}
    (h : Denotes text S) (h' : Denotes text S') : S = S' := by
  obtain ⟨rule, hrule, hmeans⟩ := parseToken_of_denotes hstd h
  obtain ⟨rule', hrule', hmeans'⟩ := parseToken_of_denotes hstd h'
  obtain rfl : rule = rule' := Except.ok.inj (hrule.symm.trans hrule')
  exact hmeans.unique hmeans'

/-! ### Lists -/

theorem fromStr_ok_iff {source : String} {l : AllowedClients} :
    AllowedClients.fromStr std source = .ok l ↔
      l.source = source ∧ parse std source.toList = .ok l.rules := by
  unfold AllowedClients.fromStr
  constructor
  · intro h
    split at h <;> cases h
    exact ⟨rfl, ‹_›⟩
  · rintro ⟨rfl, hrules⟩
    split <;> simp_all

/-- No token between the commas is empty in a list that is accepted. -/
theorem parse_ok_iff {source : List Char} {rules : List Rule} :
    parse std source = .ok rules ↔
      List.Forall₂ (fun text rule => parseToken std text = .ok rule) (tokens source) rules := by
  rw [parse, ← mapM_ok_iff]
  split_ifs with hempty
  · simp [hempty, parseToken]
  · rfl

/-- A client access list means what its grammar says.  Every token has at most one meaning; the
parser accepts a text exactly when each of its trimmed tokens between commas has one; and the list
it reads then allows exactly the peers that some token stands for. -/
theorem acl_means_grammar (hstd : Standard std) :
    (∀ text S S', Denotes text S → Denotes text S' → S = S') ∧
    ∀ source : String,
      ((∃ l, AllowedClients.fromStr std source = .ok l) ↔
        ∀ text ∈ tokens source.toList, ∃ S, Denotes text S) ∧
      ∀ l, AllowedClients.fromStr std source = .ok l → ∀ ip,
        (l.allows ip = true ↔ ∃ text ∈ tokens source.toList, ∃ S, Denotes text S ∧ ip ∈ S) := by
  refine ⟨fun text S S' h h' => denotes_unique hstd h h', fun source => ⟨⟨?_, ?_⟩, ?_⟩⟩
  · rintro ⟨l, hl⟩ text htext
    have hrules := parse_ok_iff.1 (fromStr_ok_iff.1 hl).2
    obtain ⟨rule, -, hrule⟩ := forall₂_exists_right hrules text htext
    exact (exists_of_parseToken hstd hrule).imp fun _ h => h.1
  · intro hall
    obtain ⟨rules, hrules⟩ := forall₂_exists fun text htext =>
      let ⟨_, hdenotes⟩ := hall text htext
      (parseToken_of_denotes hstd hdenotes).imp fun _ h => h.1
    have hparse := parse_ok_iff.2 hrules
    exact ⟨⟨source, rules, ne_nil_of_parse hparse⟩, fromStr_ok_iff.2 ⟨rfl, hparse⟩⟩
  · intro l hl ip
    have hrules := parse_ok_iff.1 (fromStr_ok_iff.1 hl).2
    rw [allows_iff]
    constructor
    · rintro ⟨rule, hrule, haccepts⟩
      obtain ⟨text, htext, hparse⟩ := forall₂_exists_left hrules rule hrule
      obtain ⟨S, hdenotes, hmeans⟩ := exists_of_parseToken hstd hparse
      exact ⟨text, htext, S, hdenotes, (hmeans ip).1 haccepts⟩
    · rintro ⟨text, htext, S, hdenotes, hmem⟩
      obtain ⟨rule, hrule, hparse⟩ := forall₂_exists_right hrules text htext
      obtain ⟨rule', hparse', hmeans⟩ := parseToken_of_denotes hstd hdenotes
      obtain rfl : rule = rule' := Except.ok.inj (hparse.symm.trans hparse')
      exact ⟨rule, hrule, (hmeans ip).2 hmem⟩

end Tokens

/-- Parsers that read the addresses. -/
noncomputable def standardParsers : AddressParsers := by
  classical exact
    { ipFromStr := fun text => if h : ∃ ip, Literal text ip then some h.choose else none
      ipv6FromStr := fun text => if h : ∃ bits, V6Literal text bits then some h.choose else none }

theorem standard_standardParsers : Standard standardParsers where
  ip text ip := by
    simp only [standardParsers]
    constructor
    · intro h
      split_ifs at h with hex
      cases h
      exact hex.choose_spec
    · intro h
      have hex : ∃ ip, Literal text ip := ⟨ip, h⟩
      rw [dif_pos hex, literal_unique hex.choose_spec h]
  ipv6 text bits := by
    simp only [standardParsers]
    constructor
    · intro h
      split_ifs at h with hex
      cases h
      exact hex.choose_spec
    · intro h
      have hex : ∃ bits, V6Literal text bits := ⟨bits, h⟩
      rw [dif_pos hex, v6Literal_unique hex.choose_spec h]

/-- A list with a word and a mask in it. -/
theorem acl_means_grammar_mask :
    ∃ l, AllowedClients.fromStr standardParsers "loopback, 10.*" = .ok l ∧
      l.allows (.v4 0x0a010203) = true ∧ l.allows (.v4 0x0b010203) = false := by
  obtain ⟨hunique, hlists⟩ := acl_means_grammar standard_standardParsers
  obtain ⟨haccepts, hallows⟩ := hlists "loopback, 10.*"
  have htokens : tokens "loopback, 10.*".toList = ["loopback".toList, "10.*".toList] := by
    decide +kernel
  have hmask : Denotes "10.*".toList (v4Meaning [some 10, none, none, none]) := by
    refine .v4Mask ⟨["10".toList, "*".toList], [some 10, none], ?_, by decide, by decide,
      fun _ => rfl, by decide, rfl⟩
    exact .cons (.inr ⟨10, rfl, by decide⟩) (.cons (.inl ⟨rfl, rfl⟩) .nil)
  simp only [htokens, List.mem_pair] at haccepts hallows
  obtain ⟨l, hl⟩ := haccepts.2 fun text htext => by
    rcases htext with rfl | rfl
    · exact ⟨_, .loopback⟩
    · exact ⟨_, hmask⟩
  refine ⟨l, hl, ?_, ?_⟩
  · rw [hallows l hl]
    exact ⟨_, .inr rfl, _, hmask, 0x0a010203, rfl,
      (SlotMask.and_mask_eq_iff (by decide) _).1 (by decide)⟩
  · rw [← Bool.not_eq_true, hallows l hl]
    rintro ⟨text, rfl | rfl, S, hdenotes, hmem⟩
    · rw [hunique _ _ _ hdenotes .loopback] at hmem
      rcases hmem with ⟨bits, ⟨⟩, ⟨⟩⟩ | ⟨⟨⟩⟩
    · rw [hunique _ _ _ hdenotes hmask] at hmem
      obtain ⟨bits, ⟨⟩, hcovers⟩ := hmem
      exact absurd ((SlotMask.and_mask_eq_iff (by decide) _).2 hcovers) (by decide)

end ClientAcl
