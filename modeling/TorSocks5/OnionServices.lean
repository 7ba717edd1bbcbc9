/-
**The list of onion services in the configuration.**

The entries are checked one after the other, then together.  The ports of a mapping are read by the
number parser of the standard library, which takes a plus sign; the target is kept as it was
written, so the sign stays in it.
-/

import TorSocks5.Splitting

set_option autoImplicit false

namespace OnionServices

structure OnionServicePort where
  onionPort : ℕ
  target : List Char
  deriving DecidableEq

structure OnionServiceEntry where
  nickname : List Char
  enabled : Bool
  circuitHops : ℕ
  ports : List OnionServicePort
  deriving DecidableEq

structure OnionServiceEntryRaw where
  nickname : List Char
  enabled : Bool
  circuitHops : ℕ
  ports : List (List Char)

def maxNicknameLen : ℕ := 25

/-- Compared byte by byte in the source; no byte of a longer character is one of these. -/
def nicknameChar (c : Char) : Bool := c.isAlphanum || c == '_' || c == '-'

def hostChar (c : Char) : Bool := c.isAlphanum || c == '.' || c == '-' || c == '_'

/-- `validate_nickname`. -/
def validateNickname (nickname : List Char) : Except String Unit :=
  if nickname = [] then .error "nickname must not be empty"
  else if maxNicknameLen < (Text.utf8 nickname).length then
    .error s!"nickname is {(Text.utf8 nickname).length} bytes long (max {maxNicknameLen})"
  else if !nickname.all nicknameChar then
    .error "nickname must only contain A-Z a-z 0-9 _ -"
  else .ok ()

section Parse

-- whether `str::parse::<Ipv6Addr>` succeeds
variable (isIpv6 : List Char → Bool)

/-- `validate_target_host`. -/
def validateTargetHost (host : List Char) : Except String Unit :=
  match host.dropPrefix? ['['] with
  | some inner =>
    match inner.dropSuffix? [']'] with
    | none => .error "bracketed IPv6 host must be [address]"
    | some inner => if isIpv6 inner then .ok () else .error "invalid bracketed IPv6 host"
  | none =>
    if host = [] then .error "target host must not be empty"
    else if ':' ∈ host then .error "IPv6 hosts must be bracketed ([address]:port)"
    else if host.any (fun c => !hostChar c) then
      .error "host must only contain A-Z a-z 0-9 . _ -"
    else .ok ()

/-- `parse_port_mapping`. -/
def parsePortMapping (raw : List Char) : Except String OnionServicePort :=
  let invalid (reason : String) : String :=
    "invalid port mapping `" ++ String.ofList raw ++ "` (expected onion_port=host:port): " ++ reason
  match Text.splitAround ['='] raw with
  | none => .error (invalid "missing `=`")
  | some (onion, target) =>
    match Text.parseUnsigned 65536 onion with
    | none => .error (invalid "onion port must be a decimal port in 1..=65535")
    | some onionPort =>
      if onionPort = 0 then .error (invalid "onion port must be in 1..=65535 (not zero)")
      else
        match Text.rsplitOnce ':' target with
        | none => .error (invalid "target must be host:port")
        | some (host, port) =>
          match validateTargetHost isIpv6 host with
          | .error reason => .error (invalid reason)
          | .ok () =>
            match Text.parseUnsigned 65536 port with
            | none => .error (invalid "target port must be a decimal port in 1..=65535")
            | some port =>
              if port = 0 then .error (invalid "target port must be in 1..=65535 (not zero)")
              else .ok ⟨onionPort, target⟩

/-- `Serialize` of a mapping. -/
def serialize (p : OnionServicePort) : List Char := Nat.toDigits 10 p.onionPort ++ '=' :: p.target

/-- The loop over the mappings of an entry, after the onion ports `seen`. -/
def validatePorts (path : String) :
    List (List Char) → List ℕ → Except String (List OnionServicePort)
  | [], _ => .ok []
  | raw :: raws, seen =>
    match parsePortMapping isIpv6 raw with
    | .error reason => .error s!"{path}.ports: {reason}"
    | .ok p =>
      if p.onionPort ∈ seen then .error s!"{path}.ports: duplicate onion port {p.onionPort}"
      else (validatePorts path raws (p.onionPort :: seen)).map (p :: ·)

/-- The first loop of `validate_entries`, from the entry `idx` on, after the nicknames `seen`. -/
def validateEach : ℕ → List OnionServiceEntryRaw → List (List Char) →
    Except String (List OnionServiceEntry)
  | _, [], _ => .ok []
  | idx, entry :: rest, seen =>
    let path := s!"onion_services[{idx}]"
    let nickname := String.ofList entry.nickname
    match validateNickname entry.nickname with
    | .error reason => .error s!"{path}.nickname: invalid nickname '{nickname}' ({reason})"
    | .ok () =>
      if seen.contains entry.nickname then
        .error s!"onion_services: duplicate nickname '{nickname}'"
      else if ¬ (2 ≤ entry.circuitHops ∧ entry.circuitHops ≤ 4) then
        .error (s!"{path}.circuit_hops: circuit_hops must be 2, 3, or 4 " ++
          s!"(got {entry.circuitHops})")
      else if entry.ports = [] then
        .error s!"{path}.ports: at least one port mapping is required"
      else
        match validatePorts isIpv6 path entry.ports [] with
        | .error e => .error e
        | .ok ports =>
          (validateEach (idx + 1) rest (entry.nickname :: seen)).map
            (⟨entry.nickname, entry.enabled, entry.circuitHops, ports⟩ :: ·)

/-- The second loop of `validate_entries`. -/
def checkHops : ℕ → Option (ℕ × ℕ) → List OnionServiceEntry → Except String Unit
  | _, _, [] => .ok ()
  | idx, reference, entry :: rest =>
    if entry.enabled then
      match reference with
      | none => checkHops (idx + 1) (some (idx, entry.circuitHops)) rest
      | some (refIdx, hops) =>
        if hops ≠ entry.circuitHops then
          .error ("onion_services: all enabled services must use the same circuit_hops " ++
            "(one circuit length per process): " ++
            s!"onion_services[{refIdx}].circuit_hops: {hops} != " ++
            s!"onion_services[{idx}].circuit_hops: {entry.circuitHops}")
        else checkHops (idx + 1) reference rest
    else checkHops (idx + 1) reference rest

/-- `validate_entries`. -/
def validateEntries (raw : List OnionServiceEntryRaw) : Except String (List OnionServiceEntry) :=
  match validateEach isIpv6 0 raw [] with
  | .error e => .error e
  | .ok entries => (checkHops 0 none entries).map fun _ => entries

/-! ### What is accepted -/

/-- Decimal digits that denote a port. -/
def IsPort (s : List Char) : Prop := s ≠ [] ∧ (∀ c ∈ s, c.isDigit = true) ∧
  1 ≤ Nat.ofDigitChars 10 s 0 ∧ Nat.ofDigitChars 10 s 0 ≤ 65535

def IsHost (host : List Char) : Prop :=
  (∃ inner, host = '[' :: inner ++ [']'] ∧ isIpv6 inner = true) ∨
    (host ≠ [] ∧ ∀ c ∈ host, hostChar c = true)

/-- The form `D=H:P`. -/
def WellFormed (raw : List Char) : Prop :=
  ∃ d h p, raw = d ++ '=' :: (h ++ ':' :: p) ∧ IsPort d ∧ IsHost isIpv6 h ∧ IsPort p

/-- One of the two ports is written with a plus sign. -/
def Signed (raw : List Char) : Prop :=
  ∃ d target h p, Text.splitAround ['='] raw = some (d, target) ∧
    Text.rsplitOnce ':' target = some (h, p) ∧ (d.head? = some '+' ∨ p.head? = some '+')

/-- What an entry is made from, and what has been checked of it. -/
structure Checked (raw : OnionServiceEntryRaw) (entry : OnionServiceEntry) : Prop where
  nickname : entry.nickname = raw.nickname
  enabled : entry.enabled = raw.enabled
  circuitHops : entry.circuitHops = raw.circuitHops
  nicknameLen : 1 ≤ entry.nickname.length ∧ entry.nickname.length ≤ maxNicknameLen
  nicknameChars : ∀ c ∈ entry.nickname, nicknameChar c = true
  hops : 2 ≤ entry.circuitHops ∧ entry.circuitHops ≤ 4
  nonempty : entry.ports ≠ []
  parsed : List.Forall₂ (fun text p => parsePortMapping isIpv6 text = .ok p) raw.ports entry.ports
  distinct : (entry.ports.map (·.onionPort)).Nodup

variable {isIpv6}

theorem isPort_of_parse {s : List Char} {n : ℕ} (h : Text.parseUnsigned 65536 s = some n)
    (hn : n ≠ 0) (hsign : s.head? ≠ some '+') : IsPort s := by
  have hplain : (s.dropPrefix? ['+']).getD s = s := by
    cases s with
    | nil => rfl
    | cons c cs =>
      have hc : c ≠ '+' := by simpa using hsign
      simp [List.dropPrefix?, hc]
  rw [Text.parseUnsigned, hplain] at h
  split_ifs at h with hread
  cases h
  exact ⟨hread.1, List.all_eq_true.mp hread.2.1, by omega, by omega⟩

theorem isHost_of_validate {host : List Char} (h : validateTargetHost isIpv6 host = .ok ()) :
    IsHost isIpv6 host := by
  unfold validateTargetHost at h
  split at h
  · next inner hinner =>
    obtain ⟨p, rfl, hp⟩ := List.dropPrefix?_eq_some_iff.1 hinner
    obtain rfl : p = ['['] := by simpa using hp
    split at h
    · cases h
    · next body hbody =>
      obtain ⟨q, rfl, hq⟩ := List.dropSuffix?_eq_some_iff.1 hbody
      obtain rfl : q = [']'] := by simpa using hq
      split_ifs at h with hip
      exact .inl ⟨body, rfl, hip⟩
  · split_ifs at h with hnil hcolon hany
    exact .inr ⟨hnil, by simpa using hany⟩

/-- What an accepted mapping is made of. -/
theorem parts_of_parse {raw : List Char} {m : OnionServicePort}
    (h : parsePortMapping isIpv6 raw = .ok m) : ∃ d host p n,
      Text.splitAround ['='] raw = some (d, m.target) ∧
      Text.parseUnsigned 65536 d = some m.onionPort ∧ m.onionPort ≠ 0 ∧
      Text.rsplitOnce ':' m.target = some (host, p) ∧ validateTargetHost isIpv6 host = .ok () ∧
      Text.parseUnsigned 65536 p = some n ∧ n ≠ 0 := by
  simp only [parsePortMapping] at h
  split at h
  · cases h
  next d target hsplit =>
  split at h
  · cases h
  next onionPort hd =>
  split_ifs at h with hzero
  split at h
  · cases h
  next host p hrsplit =>
  split at h
  · cases h
  next hhost =>
  split at h
  · cases h
  next n hp =>
  split_ifs at h with hn
  cases h
  exact ⟨d, host, p, n, hsplit, hd, hzero, hrsplit, hhost, hp, hn⟩

theorem wellFormed_iff_not_signed {raw : List Char} {m : OnionServicePort}
    (h : parsePortMapping isIpv6 raw = .ok m) : WellFormed isIpv6 raw ↔ ¬ Signed raw := by
  obtain ⟨d, host, p, n, hsplit, hd, hzero, hrsplit, hhost, hp, hn⟩ := parts_of_parse h
  constructor
  · rintro ⟨d', h', p', rfl, hd', -, hp'⟩ ⟨d₂, target, h₂, p₂, hsplit', hrsplit', hsign⟩
    have hplus : ∀ {s : List Char}, IsPort s → s.head? ≠ some '+' := fun hs heq =>
      absurd (hs.2.1 '+' (List.mem_of_mem_head? heq)) (by decide)
    have hnot : ∀ {s : List Char} {c : Char}, IsPort s → c.isDigit = false → c ∉ s :=
      fun hs hc hmem => by simp [hs.2.1 _ hmem] at hc
    rw [Text.splitAround_singleton (hnot hd' (by decide))] at hsplit'
    cases hsplit'
    rw [Text.rsplitOnce_eq_some_iff.mpr ⟨rfl, hnot hp' (by decide)⟩] at hrsplit'
    cases hrsplit'
    exact hsign.elim (hplus hd') (hplus hp')
  · intro hsigned
    have hraw := Text.eq_of_splitAround hsplit
    rw [(Text.rsplitOnce_eq_some_iff.mp hrsplit).1] at hraw
    refine ⟨d, host, p, by simpa using hraw, isPort_of_parse hd hzero fun hs => hsigned ?_,
      isHost_of_validate hhost, isPort_of_parse hp hn fun hs => hsigned ?_⟩
    · exact ⟨d, _, host, p, hsplit, hrsplit, .inl hs⟩
    · exact ⟨d, _, host, p, hsplit, hrsplit, .inr hs⟩

theorem parse_serialize {raw : List Char} {m : OnionServicePort}
    (h : parsePortMapping isIpv6 raw = .ok m) : parsePortMapping isIpv6 (serialize m) = .ok m := by
  obtain ⟨d, host, p, n, -, hd, hzero, hrsplit, hhost, hp, hn⟩ := parts_of_parse h
  have hdigits := Text.parseUnsigned_toDigits 65536 m.onionPort
  rw [if_pos (Text.parseUnsigned_lt hd)] at hdigits
  have hsplit := Text.splitAround_singleton (c := '=') (l := Nat.toDigits 10 m.onionPort)
    (fun hc => absurd (Nat.isDigit_of_mem_toDigits (by norm_num) (by norm_num) hc) (by decide))
    m.target
  unfold parsePortMapping serialize
  simp only [hsplit, hdigits, if_neg hzero, hrsplit, hhost, hp, if_neg hn]

theorem of_validateNickname {s : List Char} (h : validateNickname s = .ok ()) :
    (1 ≤ s.length ∧ s.length ≤ maxNicknameLen) ∧ ∀ c ∈ s, nicknameChar c = true := by
  unfold validateNickname at h
  split_ifs at h with hnil hlong hchars
  have hall : ∀ c ∈ s, nicknameChar c = true := by simpa using hchars
  have hascii : ∀ c ∈ s, c.toNat < 128 := by
    intro c hc
    have hcase := hall c hc
    simp only [nicknameChar, Char.isAlphanum, Char.isAlpha, Char.isUpper, Char.isLower,
      Char.isDigit, Bool.or_eq_true, Bool.and_eq_true, decide_eq_true_eq, beq_iff_eq,
      UInt32.le_iff_toNat_le] at hcase
    rcases hcase with ((((⟨-, hle⟩ | ⟨-, hle⟩) | ⟨-, hle⟩) | rfl) | rfl)
    any_goals exact lt_of_le_of_lt hle (by decide)
    all_goals decide
  rw [Text.length_utf8 hascii] at hlong
  exact ⟨⟨List.length_pos_iff.mpr hnil, by omega⟩, hall⟩

theorem exists_of_forall₂ {α β : Type} {R : α → β → Prop} {l : List α} {l' : List β}
    (h : List.Forall₂ R l l') : (∀ a ∈ l, ∃ b, R a b) ∧ ∀ b ∈ l', ∃ a, R a b := by
  induction h with
  | nil => simp
  | cons hr _ ih =>
    simp only [List.mem_cons, forall_eq_or_imp]
    exact ⟨⟨⟨_, hr⟩, ih.1⟩, ⟨_, hr⟩, ih.2⟩

theorem of_validatePorts {path : String} {raws : List (List Char)} {seen : List ℕ}
    {ports : List OnionServicePort} (h : validatePorts isIpv6 path raws seen = .ok ports) :
    List.Forall₂ (fun text p => parsePortMapping isIpv6 text = .ok p) raws ports ∧
      (ports.map (·.onionPort)).Nodup ∧ ∀ p ∈ ports, p.onionPort ∉ seen := by
  induction raws generalizing seen ports with
  | nil =>
    cases h
    simp
  | cons raw raws ih =>
    rw [validatePorts] at h
    split at h
    · cases h
    next p hp =>
    split_ifs at h with hseen
    cases hrest : validatePorts isIpv6 path raws (p.onionPort :: seen) with
    | error e => rw [hrest] at h; cases h
    | ok rest =>
      rw [hrest] at h
      cases h
      obtain ⟨hall, hnodup, hfresh⟩ := ih hrest
      exact ⟨.cons hp hall, by grind, by grind⟩

theorem of_validateEach {idx : ℕ} {raws : List OnionServiceEntryRaw} {seen : List (List Char)}
    {entries : List OnionServiceEntry} (h : validateEach isIpv6 idx raws seen = .ok entries) :
    List.Forall₂ (Checked isIpv6) raws entries ∧ (entries.map (·.nickname)).Nodup ∧
      ∀ e ∈ entries, e.nickname ∉ seen := by
  induction raws generalizing idx seen entries with
  | nil =>
    cases h
    simp
  | cons raw raws ih =>
    simp only [validateEach] at h
    split at h
    · cases h
    next hname =>
    split_ifs at h with hseen hhops hports
    rw [List.contains_iff_mem] at hseen
    split at h
    · cases h
    next ports hvalid =>
    cases hrest : validateEach isIpv6 (idx + 1) raws (raw.nickname :: seen) with
    | error e => rw [hrest] at h; cases h
    | ok rest =>
      rw [hrest] at h
      cases h
      obtain ⟨hall, hnodup, hfresh⟩ := ih hrest
      obtain ⟨hparsed, hdistinct, -⟩ := of_validatePorts hvalid
      obtain ⟨hlen, hchars⟩ := of_validateNickname hname
      have hne : ports ≠ [] := by
        rintro rfl
        exact hports (List.forall₂_nil_right_iff.mp hparsed)
      exact ⟨.cons ⟨rfl, rfl, rfl, hlen, hchars, hhops, hne, hparsed, hdistinct⟩ hall, by grind,
        by grind⟩

theorem of_checkHops {idx : ℕ} {reference : Option (ℕ × ℕ)} {entries : List OnionServiceEntry}
    (h : checkHops idx reference entries = .ok ()) :
    ∃ hops, (∀ r ∈ reference, r.2 = hops) ∧
      ∀ e ∈ entries, e.enabled = true → e.circuitHops = hops := by
  induction entries generalizing idx reference with
  | nil => cases reference <;> simp
  | cons entry entries ih =>
    unfold checkHops at h
    split_ifs at h with henabled
    · split at h
      · obtain ⟨hops, href, hall⟩ := ih h
        exact ⟨hops, by simp, by simpa [henabled] using ⟨href _ rfl, hall⟩⟩
      · split_ifs at h with hne
        obtain ⟨hops, href, hall⟩ := ih h
        refine ⟨hops, href, ?_⟩
        simpa [henabled] using ⟨(not_not.mp hne).symm.trans (href _ rfl), hall⟩
    · obtain ⟨hops, href, hall⟩ := ih h
      exact ⟨hops, href, by simpa [henabled] using hall⟩

end Parse

/-- **Accepted lists.**  For every list of entries that is accepted: each entry is made from its raw
entry with a good nickname, a good hop count, at least one mapping and distinct onion ports; the
nicknames are distinct; the enabled entries have one hop count; every mapping is read back from its
serialized form; and the raw mappings are all well-formed exactly if none has a signed port. -/
theorem accepted_iff_unsigned (isIpv6 : List Char → Bool) {raw : List OnionServiceEntryRaw}
    {entries : List OnionServiceEntry} (h : validateEntries isIpv6 raw = .ok entries) :
    List.Forall₂ (Checked isIpv6) raw entries ∧ (entries.map (·.nickname)).Nodup ∧
    (∃ hops, ∀ e ∈ entries, e.enabled = true → e.circuitHops = hops) ∧
    (∀ e ∈ entries, ∀ p ∈ e.ports, parsePortMapping isIpv6 (serialize p) = .ok p) ∧
    ((∀ r ∈ raw, ∀ text ∈ r.ports, WellFormed isIpv6 text) ↔
      ∀ r ∈ raw, ∀ text ∈ r.ports, ¬ Signed text) := by
  unfold validateEntries at h
  split at h
  · cases h
  next entries' heach =>
  cases hhops : checkHops 0 none entries' with
  | error e => rw [hhops] at h; cases h
  | ok _ =>
    rw [hhops] at h
    cases h
    obtain ⟨hall, hnodup, -⟩ := of_validateEach heach
    obtain ⟨hops, -, hsame⟩ := of_checkHops hhops
    refine ⟨hall, hnodup, ⟨hops, hsame⟩, ?_, ?_⟩
    · intro e he p hp
      obtain ⟨r, hchecked⟩ := (exists_of_forall₂ hall).2 e he
      obtain ⟨text, hparse⟩ := (exists_of_forall₂ hchecked.parsed).2 p hp
      exact parse_serialize hparse
    · refine forall₂_congr fun r hr => forall₂_congr fun text htext => ?_
      obtain ⟨e, hchecked⟩ := (exists_of_forall₂ hall).1 r hr
      obtain ⟨p, hparse⟩ := (exists_of_forall₂ hchecked.parsed).1 text htext
      exact wellFormed_iff_not_signed hparse

/-- An enabled service with one mapping. -/
def single (mapping : String) : List OnionServiceEntryRaw :=
  [⟨"web".toList, true, 4, [mapping.toList]⟩]

theorem accepted_iff_unsigned_single :
    (∀ r ∈ single "80=h:8080", ∀ text ∈ r.ports, WellFormed (fun _ => false) text) ↔
      ∀ r ∈ single "80=h:8080", ∀ text ∈ r.ports, ¬ Signed text :=
  have h : validateEntries (fun _ => false) (single "80=h:8080") =
      .ok [⟨"web".toList, true, 4, [⟨80, "h:8080".toList⟩]⟩] := by decide +kernel
  (accepted_iff_unsigned _ h).2.2.2.2

/-- **A sign stays in the target.** -/
theorem signed_port_accepted :
    validateEntries (fun _ => false) (single "80=h:+8080") =
      .ok [⟨"web".toList, true, 4, [⟨80, "h:+8080".toList⟩]⟩] ∧
    Signed "80=h:+8080".toList := by
  refine ⟨by decide +kernel, "80".toList, "h:+8080".toList, "h".toList, "+8080".toList, ?_⟩
  decide +kernel

end OnionServices
