/-
**Bridge lines with hints among them.**

The lines of a configuration, or of a shared list, are bridge lines and DNS hints in any order.  The
hints are set aside; of the bridge lines those that cannot be used are counted and dropped, and of
each bridge the first line is kept.  Then a hint is let through only if its host is one that a kept
bridge has to look up: a list that nobody vouches for can say something about its own bridges and
about nothing else.
-/

import TorSocks5.BridgeTarget
import TorSocks5.OrderedSet

set_option autoImplicit false

namespace BridgeTarget

open List

open ClientAcl (IpAddr)
open Dns (DnsHint parseAddrs stampBeyondFutureTolerance)
open OrderedSet (firsts)

/-! ### Hint lines -/

/-- `DNS_HINT_PREFIX`. -/
def dnsHintPrefix : List Char := "# xorbot:dns ".toList

def isHint (line : List Char) : Bool := dnsHintPrefix.isPrefixOf line

/-- `parse_dns_hint_line`, at a reading of the wall clock. -/
def parseDnsHintLine (lib : Library) (now : ℕ) (line : List Char) :
    Option (DnsHint (List Char) IpAddr) := do
  let rest ← line.dropPrefix? dnsHintPrefix
  match Text.words rest with
  | host :: addrs :: stamp :: _ =>
    let resolvedAtUnix ← Text.parseUnsigned (2 ^ 64) stamp
    if (parseAddrs lib.ipText addrs).isEmpty || stampBeyondFutureTolerance resolvedAtUnix now then none
    else some ⟨host, parseAddrs lib.ipText addrs, resolvedAtUnix⟩
  | _ => none

/-! ### The loop -/

/-- The variables of the loop. -/
structure Scan where
  bridges : List BridgeLine
  hintLines : List (List Char)
  seen : List BridgeIdentity
  duplicates : ℕ
  rejected : ℕ

def Scan.start : Scan := ⟨[], [], [], 0, 0⟩

/-- One line; an error has the index of the line and the line itself. -/
def scanLine (lib : Library) (scan : Scan) (line : List Char × ℕ) : Except (ℕ × List Char) Scan :=
  if isHint line.1 then Except.ok { scan with hintLines := scan.hintLines ++ [line.1] }
  else
    match lib.parseLine line.1 with
    | none => Except.error (line.2, line.1)
    | some bridge =>
      if !usableForTor bridge then Except.ok { scan with rejected := scan.rejected + 1 }
      else if bridgeIdentity lib bridge ∈ scan.seen then
        Except.ok { scan with duplicates := scan.duplicates + 1 }
      else
        Except.ok { scan with
          seen := scan.seen ++ [bridgeIdentity lib bridge]
          bridges := scan.bridges ++ [bridge] }

/-- `ParsedBridges`. -/
structure ParsedBridges where
  bridges : List BridgeLine
  duplicates : ℕ
  rejected : ℕ
  dnsHints : List (DnsHint (List Char) IpAddr)
  deriving DecidableEq

/-- The hints whose host is one that these bridges have to look up. -/
def inScope (lib : Library) (now : ℕ) (bridges : List BridgeLine) (hintLines : List (List Char)) :
    List (DnsHint (List Char) IpAddr) :=
  (hintLines.filterMap (parseDnsHintLine lib now)).filter fun hint =>
    (bridges.filterMap (dnsHostnameOf lib)).contains hint.host

/-- `BridgesConfig::parsed`. -/
def parsedLines (lib : Library) (now : ℕ) (lines : List (List Char)) :
    Except (ℕ × List Char) ParsedBridges := do
  let scan ← lines.zipIdx.foldlM (scanLine lib) Scan.start
  Except.ok {
    bridges := scan.bridges
    duplicates := scan.duplicates
    rejected := scan.rejected
    dnsHints := inScope lib now scan.bridges scan.hintLines }

/-! ### What the result should be -/

def hintLines (lines : List (List Char)) : List (List Char) := lines.filter isHint

def bridgeLines (lines : List (List Char)) : List (List Char) := lines.filter fun line =>
    !isHint line

/-- The bridges of the bridge lines. -/
def allBridges (lib : Library) (lines : List (List Char)) : List BridgeLine :=
  (bridgeLines lines).filterMap lib.parseLine

/-- Those that can be used. -/
def usableBridges (lib : Library) (lines : List (List Char)) : List BridgeLine :=
  (allBridges lib lines).filter usableForTor

/-- Of each of those the first line. -/
def keptBridges (lib : Library) (lines : List (List Char)) : List BridgeLine :=
  firsts (bridgeIdentity lib) (usableBridges lib lines)

/-- What the loop ends with. -/
def scanned (lib : Library) (lines : List (List Char)) : Scan where
  bridges := keptBridges lib lines
  hintLines := hintLines lines
  seen := (keptBridges lib lines).map (bridgeIdentity lib)
  duplicates := (usableBridges lib lines).length - (keptBridges lib lines).length
  rejected := ((allBridges lib lines).filter fun bridge => !usableForTor bridge).length

/-- The result. -/
def expected (lib : Library) (now : ℕ) (lines : List (List Char)) : ParsedBridges where
  bridges := keptBridges lib lines
  duplicates := (usableBridges lib lines).length - (keptBridges lib lines).length
  rejected := ((allBridges lib lines).filter fun bridge => !usableForTor bridge).length
  dnsHints := inScope lib now (keptBridges lib lines) (hintLines lines)

/-- Every bridge line is one. -/
def AllParse (lib : Library) (lines : List (List Char)) : Prop :=
  ∀ line ∈ bridgeLines lines, (lib.parseLine line).isSome = true

/-! ### One line more -/

section Concat

variable {lib : Library} {lines : List (List Char)} {line : List Char}

theorem hintLines_concat (lines : List (List Char)) (line : List Char) :
    hintLines (lines ++ [line]) = hintLines lines ++ if isHint line then [line] else [] := by
  rw [hintLines, filter_append, filter_singleton]
  cases isHint line <;> rfl

theorem bridgeLines_concat (lines : List (List Char)) (line : List Char) :
    bridgeLines (lines ++ [line]) = bridgeLines lines ++ if isHint line then [] else [line] := by
  rw [bridgeLines, filter_append, filter_singleton]
  cases isHint line <;> rfl

theorem length_kept_le (lib : Library) (lines : List (List Char)) :
    (keptBridges lib lines).length ≤ (usableBridges lib lines).length :=
  (OrderedSet.firsts_sublist _ _).length_le

theorem scanned_concat_hint (hhint : isHint line = true) :
    scanned lib (lines ++ [line]) =
      { scanned lib lines with hintLines := (scanned lib lines).hintLines ++ [line] } := by
  simp only [scanned, keptBridges, usableBridges, allBridges, bridgeLines_concat, hintLines_concat,
    hhint, if_true, append_nil]

theorem allBridges_concat (hhint : isHint line = false) {bridge : BridgeLine}
    (hparse : lib.parseLine line = some bridge) :
    allBridges lib (lines ++ [line]) = allBridges lib lines ++ [bridge] := by
  rw [allBridges, bridgeLines_concat, hhint, if_neg Bool.false_ne_true, filterMap_append]
  simp [allBridges, hparse]

theorem hintLines_concat_bridge (hhint : isHint line = false) :
    hintLines (lines ++ [line]) = hintLines lines := by
  rw [hintLines_concat, hhint, if_neg Bool.false_ne_true, append_nil]

theorem scanned_concat_rejected (hhint : isHint line = false) {bridge : BridgeLine}
    (hparse : lib.parseLine line = some bridge) (husable : usableForTor bridge = false) :
    scanned lib (lines ++ [line]) =
      { scanned lib lines with rejected := (scanned lib lines).rejected + 1 } := by
  have husables : usableBridges lib (lines ++ [line]) = usableBridges lib lines := by
    rw [usableBridges, allBridges_concat hhint hparse, filter_append]
    simp [usableBridges, husable]
  simp only [scanned, keptBridges, husables, hintLines_concat_bridge hhint,
    allBridges_concat hhint hparse, filter_append, length_append]
  simp [husable]

theorem usableBridges_concat (hhint : isHint line = false) {bridge : BridgeLine}
    (hparse : lib.parseLine line = some bridge) (husable : usableForTor bridge = true) :
    usableBridges lib (lines ++ [line]) = usableBridges lib lines ++ [bridge] := by
  rw [usableBridges, allBridges_concat hhint hparse, filter_append]
  simp [usableBridges, husable]

theorem rejected_concat (hhint : isHint line = false) {bridge : BridgeLine}
    (hparse : lib.parseLine line = some bridge) (husable : usableForTor bridge = true) :
    ((allBridges lib (lines ++ [line])).filter fun b => !usableForTor b) =
      (allBridges lib lines).filter fun b => !usableForTor b := by
  rw [allBridges_concat hhint hparse, filter_append]
  simp [husable]

/-- Another line of a bridge is counted. -/
theorem scanned_concat_duplicate (hhint : isHint line = false) {bridge : BridgeLine}
    (hparse : lib.parseLine line = some bridge) (husable : usableForTor bridge = true)
    (hseen : bridgeIdentity lib bridge ∈ (scanned lib lines).seen) :
    scanned lib (lines ++ [line]) =
      { scanned lib lines with duplicates := (scanned lib lines).duplicates + 1 } := by
  have hkept : keptBridges lib (lines ++ [line]) = keptBridges lib lines := by
    rw [keptBridges, usableBridges_concat hhint hparse husable, OrderedSet.firsts_concat,
      if_pos ((OrderedSet.mem_map_firsts _).1 hseen)]
    rfl
  have hle := length_kept_le lib lines
  simp only [scanned, hkept, hintLines_concat_bridge hhint, rejected_concat hhint hparse husable,
    usableBridges_concat hhint hparse husable, length_append, length_singleton]
  congr 1
  omega

/-- The first line of a bridge is kept. -/
theorem scanned_concat_new (hhint : isHint line = false) {bridge : BridgeLine}
    (hparse : lib.parseLine line = some bridge) (husable : usableForTor bridge = true)
    (hseen : bridgeIdentity lib bridge ∉ (scanned lib lines).seen) :
    scanned lib (lines ++ [line]) =
      { scanned lib lines with
        seen := (scanned lib lines).seen ++ [bridgeIdentity lib bridge]
        bridges := (scanned lib lines).bridges ++ [bridge] } := by
  have hkept : keptBridges lib (lines ++ [line]) = keptBridges lib lines ++ [bridge] := by
    rw [keptBridges, usableBridges_concat hhint hparse husable, OrderedSet.firsts_concat,
      if_neg fun h => hseen ((OrderedSet.mem_map_firsts _).2 h)]
    rfl
  simp only [scanned, hkept, hintLines_concat_bridge hhint, rejected_concat hhint hparse husable,
    usableBridges_concat hhint hparse husable, length_append, length_singleton,
    map_append, map_singleton]
  congr 1
  omega

end Concat

/-! ### The loop over all lines -/

variable {lib : Library} {lines : List (List Char)} {line : List Char} {now : ℕ}
  {bridges : List BridgeLine}
theorem allParse_concat : AllParse lib (lines ++ [line]) ↔
      AllParse lib lines ∧ (isHint line = false → (lib.parseLine line).isSome = true) := by
  unfold AllParse
  rw [bridgeLines_concat]
  cases isHint line <;> simp [or_imp, forall_and]

/-- One line, after lines that have been read. -/
theorem scanLine_scanned (lib : Library) (lines : List (List Char)) (line : List Char) (idx : ℕ) :
    scanLine lib (scanned lib lines) (line, idx) =
      if isHint line = false ∧ lib.parseLine line = none then Except.error (idx, line)
      else Except.ok (scanned lib (lines ++ [line])) := by
  unfold scanLine
  cases hhint : isHint line with
  | true => rw [if_pos rfl, if_neg (by simp), scanned_concat_hint hhint]
  | false =>
    rw [if_neg Bool.false_ne_true]
    cases hparse : lib.parseLine line with
    | none => rw [if_pos ⟨rfl, rfl⟩]
    | some bridge =>
      rw [if_neg (by simp)]
      cases husable : usableForTor bridge with
      | false => simp [husable, scanned_concat_rejected hhint hparse husable]
      | true =>
        by_cases hseen : bridgeIdentity lib bridge ∈ (scanned lib lines).seen
        · simp [husable, hseen, scanned_concat_duplicate hhint hparse husable hseen]
        · simp [husable, hseen, scanned_concat_new hhint hparse husable hseen]

/-- **The loop over the lines.**  It ends well exactly if every bridge line is one. -/
theorem scan_eq_ok_iff {scan : Scan} :
    lines.zipIdx.foldlM (scanLine lib) Scan.start = Except.ok scan ↔
      AllParse lib lines ∧ scan = scanned lib lines := by
  induction lines using reverseRecOn generalizing scan with
  | nil =>
    refine ⟨fun h => ⟨fun line hline => absurd hline not_mem_nil, ?_⟩, fun h => h.2 ▸ rfl⟩
    exact (Except.ok.inj h).symm
  | append_singleton lines line ih =>
    rw [zipIdx_append, foldlM_append, allParse_concat]
    simp only [zipIdx_singleton, foldlM_cons, foldlM_nil]
    constructor
    · intro h
      cases hscan : lines.zipIdx.foldlM (scanLine lib) Scan.start with
      | error e =>
        rw [hscan] at h
        cases h
      | ok before =>
        obtain ⟨hall, rfl⟩ := ih.1 hscan
        rw [hscan] at h
        change (scanLine lib (scanned lib lines) (line, _) >>= fun s => Except.ok s) = _ at h
        rw [scanLine_scanned] at h
        split_ifs at h with hbad <;> cases h
        exact ⟨⟨hall, fun hhint => Option.isSome_iff_ne_none.2 fun hnone => hbad ⟨hhint, hnone⟩⟩,
          rfl⟩
    · rintro ⟨⟨hall, hline⟩, rfl⟩
      rw [ih.2 ⟨hall, rfl⟩]
      change (scanLine lib (scanned lib lines) (line, _) >>= fun s => Except.ok s) = _
      rw [scanLine_scanned, if_neg fun h => by simpa [h.2] using hline h.1]
      rfl

/-- **What is parsed depends on the bridge lines and on the hint lines.** -/
theorem parsedLines_eq_ok_iff {r : ParsedBridges} :
    parsedLines lib now lines = Except.ok r ↔ AllParse lib lines ∧ r = expected lib now lines := by
  unfold parsedLines
  cases hscan : lines.zipIdx.foldlM (scanLine lib) Scan.start with
  | error e =>
    refine iff_of_false nofun fun h => ?_
    cases (scan_eq_ok_iff.2 ⟨h.1, rfl⟩).symm.trans hscan
  | ok scan =>
    obtain ⟨hall, rfl⟩ := scan_eq_ok_iff.1 hscan
    exact ⟨fun h => ⟨hall, (Except.ok.inj h).symm⟩, fun h => h.2 ▸ rfl⟩

/-! ### Counting -/

theorem length_hintLines_add (lines : List (List Char)) :
    (bridgeLines lines).length + (hintLines lines).length = lines.length := by
  have hsplit := (filter_append_perm isHint lines).length_eq
  rw [length_append] at hsplit
  rw [hintLines, bridgeLines]
  omega

theorem length_allBridges (h : AllParse lib lines) :
    (allBridges lib lines).length = (bridgeLines lines).length := by
  unfold allBridges
  unfold AllParse at h
  generalize bridgeLines lines = ls at h
  induction ls with
  | nil => rfl
  | cons l ls ih =>
    rw [forall_mem_cons] at h
    obtain ⟨bridge, hbridge⟩ := Option.isSome_iff_exists.1 h.1
    rw [filterMap_cons, hbridge, length_cons, length_cons, ih h.2]

theorem length_usable_add (lib : Library) (lines : List (List Char)) :
    (usableBridges lib lines).length +
      ((allBridges lib lines).filter fun bridge => !usableForTor bridge).length =
        (allBridges lib lines).length := by
  have hsplit := (filter_append_perm usableForTor (allBridges lib lines)).length_eq
  rwa [length_append] at hsplit

theorem length_expected (h : AllParse lib lines) :
    (expected lib now lines).bridges.length + (expected lib now lines).duplicates +
      (expected lib now lines).rejected + (hintLines lines).length = lines.length := by
  have hlines := length_hintLines_add lines
  have hall := length_allBridges h
  have husable := length_usable_add lib lines
  have hkept := length_kept_le lib lines
  simp only [expected]
  omega

/-! ### Confinement -/

/-- The hint line says nothing about a host that one of the bridges has to look up. -/
def OutOfScope (lib : Library) (now : ℕ) (bridges : List BridgeLine) (line : List Char) : Prop :=
  ∀ hint, parseDnsHintLine lib now line = some hint →
    ∀ bridge ∈ bridges, dnsHostnameOf lib bridge ≠ some hint.host

theorem mem_hosts {host : List Char} :
    (bridges.filterMap (dnsHostnameOf lib)).contains host = true ↔
      ∃ bridge ∈ bridges, dnsHostnameOf lib bridge = some host := by
  rw [contains_iff_mem, mem_filterMap]

/-- A hint out of scope is not let through. -/
theorem inScope_of_outOfScope
    (h : OutOfScope lib now bridges line) (before after : List (List Char)) :
    inScope lib now bridges (before ++ line :: after) =
      inScope lib now bridges (before ++ after) := by
  simp only [inScope, filterMap_append, filterMap_cons, filter_append]
  cases hparse : parseDnsHintLine lib now line with
  | none => rfl
  | some hint =>
    have hout : ¬ (bridges.filterMap (dnsHostnameOf lib)).contains hint.host = true := by
      rw [mem_hosts]
      exact fun ⟨bridge, hbridge, hhost⟩ => h hint hparse bridge hbridge hhost
    change _ ++ filter _ (hint :: _) = _
    rw [filter_cons, if_neg hout]

theorem bridgeLines_insert (hhint : isHint line = true) (before after : List (List Char)) :
    bridgeLines (before ++ line :: after) = bridgeLines (before ++ after) := by
  rw [bridgeLines, bridgeLines, filter_append, filter_append,
    filter_cons_of_neg (by simp [hhint])]

theorem inScope_insert (hhint : isHint line = true) (hout : OutOfScope lib now bridges line)
    (before after : List (List Char)) :
    inScope lib now bridges (hintLines (before ++ line :: after)) =
      inScope lib now bridges (hintLines (before ++ after)) := by
  rw [hintLines, hintLines, filter_append, filter_append, filter_cons_of_pos hhint,
    inScope_of_outOfScope hout]

/-- **The hints of a list are confined to its own bridges.** -/
theorem hints_confined (lib : Library) (now : ℕ) (lines : List (List Char)) (r : ParsedBridges)
    (h : parsedLines lib now lines = Except.ok r) :
    r.bridges = firsts (bridgeIdentity lib)
      ((((lines.filter fun line => !isHint line).filterMap lib.parseLine)).filter usableForTor) ∧
    r.bridges.length + r.duplicates + r.rejected + (lines.filter isHint).length = lines.length ∧
    r.dnsHints = ((lines.filter isHint).filterMap (parseDnsHintLine lib now)).filter (fun hint =>
      (r.bridges.filterMap (dnsHostnameOf lib)).contains hint.host) ∧
    (∀ lines', lines'.filter isHint = lines.filter isHint →
      (lines'.filter fun line => !isHint line) = (lines.filter fun line => !isHint line) →
      parsedLines lib now lines' = Except.ok r) ∧
    (∀ before line after, lines = before ++ after → isHint line = true →
      OutOfScope lib now r.bridges line →
      parsedLines lib now (before ++ line :: after) = Except.ok r) ∧
    ∀ before line after, lines = before ++ line :: after → isHint line = true →
      OutOfScope lib now r.bridges line → parsedLines lib now (before ++ after) = Except.ok r := by
  obtain ⟨hall, rfl⟩ := parsedLines_eq_ok_iff.1 h
  -- the bridge lines decide whether all parse, and with the hint lines they decide the result
  have hsame : ∀ lines', bridgeLines lines' = bridgeLines lines →
      inScope lib now (keptBridges lib lines) (hintLines lines') =
        inScope lib now (keptBridges lib lines) (hintLines lines) →
      parsedLines lib now lines' = Except.ok (expected lib now lines) := by
    intro lines' hbridges hhints
    rw [parsedLines_eq_ok_iff]
    refine ⟨by rwa [AllParse, hbridges], ?_⟩
    simp only [expected, keptBridges, usableBridges, allBridges, hbridges] at hhints ⊢
    rw [hhints]
  refine ⟨rfl, length_expected hall, rfl, ?_, ?_, ?_⟩
  · intro lines' hhints hbridges
    refine hsame lines' hbridges ?_
    rw [hintLines, hhints, hintLines]
  · rintro before line after rfl hhint hout
    exact hsame _ (bridgeLines_insert hhint before after) (inScope_insert hhint hout before after)
  · rintro before line after rfl hhint hout
    exact hsame _ (bridgeLines_insert hhint before after).symm
      (inScope_insert hhint hout before after).symm

/-- A library that takes a line for the host of a WebTunnel bridge and knows one address. -/
def hostLibrary : Library where
  parseLine line := some ⟨some webtunnel, (IpAddr.v4 0, 443), none, [("url".toList, line)]⟩
  parseUrl text := UrlResult.parsed ⟨"https".toList, some text, none, some 443, [], none⟩
  validServerName _ := true
  parseSocketAddr _ := none
  parseIpv6 _ := none
  ipText := ⟨fun _ => "0.0.0.0".toList, fun s => if s =
    "0.0.0.0".toList then some (IpAddr.v4 0) else none⟩

/-- A bridge twice, a hint for its host, and a hint for another host. -/
def mixedLines : List (List Char) :=
  ["a.example".toList, "# xorbot:dns a.example 0.0.0.0 5".toList,
    "# xorbot:dns b.example 0.0.0.0 5".toList, "a.example".toList]

/-- The bridge, one duplicate, and the hint for its host. -/
def mixedResult : ParsedBridges :=
  ⟨[⟨some webtunnel, (IpAddr.v4 0, 443), none, [("url".toList, "a.example".toList)]⟩], 1, 0,
    [⟨"a.example".toList, [IpAddr.v4 0], 5⟩]⟩

/-- The hints may as well come first, and the one that is out of scope may be left out. -/
theorem hints_confined_mixed :
    parsedLines hostLibrary 5 mixedLines = Except.ok mixedResult ∧
    parsedLines hostLibrary 5 ["# xorbot:dns a.example 0.0.0.0 5".toList,
      "# xorbot:dns b.example 0.0.0.0 5".toList, "a.example".toList, "a.example".toList] =
        Except.ok mixedResult ∧
    parsedLines hostLibrary 5 ["a.example".toList, "# xorbot:dns a.example 0.0.0.0 5".toList,
      "a.example".toList] = Except.ok mixedResult := by
  have hparsed : parsedLines hostLibrary 5 mixedLines = Except.ok mixedResult := by decide +kernel
  obtain ⟨-, -, -, hmove, -, hdelete⟩ := hints_confined hostLibrary 5 mixedLines mixedResult hparsed
  refine ⟨hparsed, hmove _ (by decide +kernel) (by decide +kernel), ?_⟩
  refine hdelete ["a.example".toList, "# xorbot:dns a.example 0.0.0.0 5".toList]
    "# xorbot:dns b.example 0.0.0.0 5".toList ["a.example".toList] rfl (by decide +kernel) ?_
  intro hint hhint bridge hbridge
  have hline : parseDnsHintLine hostLibrary 5 "# xorbot:dns b.example 0.0.0.0 5".toList =
      some ⟨"b.example".toList, [IpAddr.v4 0], 5⟩ := by decide +kernel
  rw [hline] at hhint
  cases hhint
  obtain rfl := List.mem_singleton.1 hbridge
  decide +kernel

end BridgeTarget
