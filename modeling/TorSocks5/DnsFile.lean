/-
**The file of the fallback store, and the hints.**

A save writes one line for each host: the host, its addresses with commas between them, and the
wall-clock stamp of the answer, with tabs between the three.  A load reads a file line by line,
skips what it cannot read, and merges the rest into the fallback store; so does an import with the
hints it is given.
-/

import TorSocks5.DnsSnapshot
import TorSocks5.Splitting

set_option autoImplicit false

namespace Dns

variable {Host Addr : Type}

/-! ### The format -/

/-- `Display` and `FromStr` of an address. -/
structure AddrText (Addr : Type) where
  display : Addr → List Char
  parse : List Char → Option Addr

/-- An address is read as it was written, and its text has none of the separators. -/
structure AddrText.Law (fmt : AddrText Addr) : Prop where
  parse_display : ∀ a, fmt.parse (fmt.display a) = some a
  display_ne_nil : ∀ a, fmt.display a ≠ []
  comma : ∀ a, ',' ∉ fmt.display a
  tab : ∀ a, '\t' ∉ fmt.display a
  newline : ∀ a, '\n' ∉ fmt.display a

/-- A host without a tab or a line feed. -/
def Clean (host : List Char) : Prop := '\t' ∉ host ∧ '\n' ∉ host

/-- `format_persisted_line`. -/
def formatPersistedLine (fmt : AddrText Addr) (host : List Char) (entry : PersistedAnswer Addr) :
    List Char :=
  host ++ '\t' :: ([','].intercalate (entry.addrs.map fmt.display) ++
    '\t' :: Nat.toDigits 10 entry.resolvedAtUnix)

/-- The addresses of a line: what is empty or cannot be read is left out. -/
def parseAddrs (fmt : AddrText Addr) (s : List Char) : List Addr :=
  ((s.splitOn ',').filter (· ≠ [])).filterMap fmt.parse

/-- `parse_persisted_line`, at a reading of the wall clock. -/
def parsePersistedLine (fmt : AddrText Addr) (now : ℕ) (line : List Char) :
    Option (List Char × PersistedAnswer Addr) := do
  let (host, rest) ← Text.splitAround ['\t'] line
  let (addrs, stamp) ← Text.splitAround ['\t'] rest
  let resolvedAtUnix ← Text.parseUnsigned (2 ^ 64) (trim stamp)
  if (parseAddrs fmt addrs).isEmpty || stampBeyondFutureTolerance resolvedAtUnix now then none
  else some (host, ⟨parseAddrs fmt addrs, resolvedAtUnix⟩)

/-- The contents of the file of a save. -/
def persistedText (fmt : AddrText Addr) (lines : List (PersistSnapshot (List Char) Addr)) :
    List Char :=
  ['\n'].intercalate (lines.map fun l => formatPersistedLine fmt l.host ⟨l.addrs, l.resolvedAtUnix⟩)

/-! ### What arrives at the fallback store -/

/-- `DnsHint`. -/
structure DnsHint (Host Addr : Type) where
  host : Host
  addrs : List Addr
  resolvedAtUnix : ℕ
  deriving DecidableEq

/-- The entry of a hint. -/
def DnsHint.entry (hint : DnsHint Host Addr) : Host × PersistedAnswer Addr :=
  (hint.host, ⟨hint.addrs, hint.resolvedAtUnix⟩)

/-- Merges, one after the other. -/
def mergeAll [DecidableEq Host] (store : Table Host (PersistedAnswer Addr))
    (entries : List (Host × PersistedAnswer Addr)) : Table Host (PersistedAnswer Addr) :=
  entries.foldl (fun store e => mergeDiskFallbackEntry store e.1 e.2) store

/-- What a load reads from a file; `clock i` is the reading of the wall clock at line `i`. -/
def fileEntries (fmt : AddrText Addr) (clock : ℕ → ℕ) (text : List Char) :
    List (List Char × PersistedAnswer Addr) :=
  (Text.lines text).zipIdx.filterMap fun l => parsePersistedLine fmt (clock l.2) l.1

/-- `load_persisted_dns_cache`. -/
def loadText (fmt : AddrText Addr) (clock : ℕ → ℕ)
    (store : Table (List Char) (PersistedAnswer Addr))
    (text : List Char) : Table (List Char) (PersistedAnswer Addr) :=
  mergeAll store (fileEntries fmt clock text)

/-- `seed_disk_fallback`. -/
def seedDiskFallback [DecidableEq Host] (store : Table Host (PersistedAnswer Addr))
    (hints : List (DnsHint Host Addr)) : Table Host (PersistedAnswer Addr) :=
  mergeAll store (hints.map DnsHint.entry)

theorem mergeAll_append [DecidableEq Host] (store : Table Host (PersistedAnswer Addr))
    (entries entries' : List (Host × PersistedAnswer Addr)) :
    mergeAll store (entries ++ entries') = mergeAll (mergeAll store entries) entries' :=
  List.foldl_append

/-! ### Reading what was written -/

section Format

variable {fmt : AddrText Addr} (law : fmt.Law)

include law

theorem parseAddrs_display (addrs : List Addr) :
    parseAddrs fmt ([','].intercalate (addrs.map fmt.display)) = addrs := by
  cases addrs with
  | nil => rfl
  | cons a addrs =>
    rw [parseAddrs, List.splitOn_intercalate ',' (List.forall_mem_map.2 fun b _ => law.comma b)
      (by simp), List.filter_eq_self.2 (List.forall_mem_map.2 fun b _ => by
        simpa using law.display_ne_nil b), List.filterMap_map]
    have hparse : fmt.parse ∘ fmt.display = some := funext law.parse_display
    rw [hparse, List.filterMap_some]

omit law in
theorem not_mem_displayed {c : Char} (hc : ∀ a, c ∉ fmt.display a) (hcomma : c ≠ ',')
    (addrs : List Addr) : c ∉ [','].intercalate (addrs.map fmt.display) := by
  intro hmem
  rcases Text.mem_intercalate hmem with h | ⟨s, hs, hcs⟩
  · exact hcomma h
  · obtain ⟨a, -, rfl⟩ := List.mem_map.1 hs
    exact hc a hcs

/-- **A line is read as what was written, if it is accepted.** -/
theorem parse_format_iff {host : List Char} (hhost : Clean host) {entry : PersistedAnswer Addr}
    {now : ℕ} {read : List Char × PersistedAnswer Addr} :
    parsePersistedLine fmt now (formatPersistedLine fmt host entry) = some read ↔
      read = (host, entry) ∧ entry.resolvedAtUnix < 2 ^ 64 ∧
        accepted now ⟨host, entry.addrs, entry.resolvedAtUnix⟩ = true := by
  have hdigits : trim (Nat.toDigits 10 entry.resolvedAtUnix) =
      Nat.toDigits 10 entry.resolvedAtUnix := by
    have hword := (Text.isWord_toDigits entry.resolvedAtUnix).2
    exact trim_eq_self (fun c hc => hword c (List.mem_of_mem_head? hc))
      fun c hc => hword c (List.mem_of_getLast? hc)
  have hguard : accepted now (⟨host, entry.addrs, entry.resolvedAtUnix⟩ :
      PersistSnapshot (List Char) Addr) = !(entry.addrs.isEmpty ||
        stampBeyondFutureTolerance entry.resolvedAtUnix now) := by
    simp [accepted]
  rw [parsePersistedLine, formatPersistedLine, Text.splitAround_singleton hhost.1]
  simp only [Option.bind_eq_bind, Option.bind_some]
  rw [Text.splitAround_singleton (not_mem_displayed law.tab (by decide) _)]
  simp only [Option.bind_some]
  rw [hdigits, Text.parseUnsigned_toDigits, parseAddrs_display law, hguard]
  split_ifs with hstamp
  · rw [Option.bind_some]
    cases entry.addrs.isEmpty || stampBeyondFutureTolerance entry.resolvedAtUnix now with
    | true => simp
    | false => exact ⟨fun h => ⟨(Option.some.inj h).symm, hstamp, rfl⟩, fun h => h.1 ▸ rfl⟩
  · exact iff_of_false nofun fun h => hstamp h.2.1

/-- A line of a file. -/
theorem format_line {host : List Char} (hhost : Clean host) (entry : PersistedAnswer Addr) :
    '\n' ∉ formatPersistedLine fmt host entry ∧
      (formatPersistedLine fmt host entry).getLast? ≠ some '\r' ∧
        formatPersistedLine fmt host entry ≠ [] := by
  have hdigit : ∀ c ∈ Nat.toDigits 10 entry.resolvedAtUnix, isWhite c = false :=
    (Text.isWord_toDigits entry.resolvedAtUnix).2
  refine ⟨?_, fun hlast => ?_, by simp [formatPersistedLine]⟩
  · simp only [formatPersistedLine, List.mem_append, List.mem_cons, not_or]
    exact ⟨hhost.2, by decide, not_mem_displayed law.newline (by decide) _, by decide,
      fun hmem => absurd (hdigit _ hmem) (by decide)⟩
  · have hend : formatPersistedLine fmt host entry =
        (host ++ '\t' :: ([','].intercalate (entry.addrs.map fmt.display) ++ ['\t'])) ++
          Nat.toDigits 10 entry.resolvedAtUnix := by
      simp [formatPersistedLine]
    rw [hend, List.getLast?_append_of_ne_nil _ Nat.toDigits_ne_nil] at hlast
    exact absurd (hdigit _ (List.mem_of_getLast? hlast)) (by decide)

theorem lines_persistedText {lines : List (PersistSnapshot (List Char) Addr)}
    (hclean : ∀ l ∈ lines, Clean l.host) :
    Text.lines (persistedText fmt lines) =
      lines.map fun l => formatPersistedLine fmt l.host ⟨l.addrs, l.resolvedAtUnix⟩ := by
  refine Text.lines_intercalate (List.forall_mem_map.2 fun l hl => ?_)
    (List.forall_mem_map.2 fun l hl => ?_) (List.forall_mem_map.2 fun l hl => ?_)
  · exact (format_line law (hclean l hl) _).1
  · exact (format_line law (hclean l hl) _).2.1
  · exact (format_line law (hclean l hl) _).2.2

/-- What is read from the file of a save stands in it. -/
theorem mem_fileEntries {lines : List (PersistSnapshot (List Char) Addr)}
    (hclean : ∀ l ∈ lines, Clean l.host) {clock : ℕ → ℕ} {host : List Char}
    {entry : PersistedAnswer Addr}
    (h : (host, entry) ∈ fileEntries fmt clock (persistedText fmt lines)) :
    entry.addrs ≠ [] ∧ ⟨host, entry.addrs, entry.resolvedAtUnix⟩ ∈ lines := by
  rw [fileEntries, lines_persistedText law hclean] at h
  obtain ⟨⟨text, i⟩, hmem, hread⟩ := List.mem_filterMap.1 h
  obtain ⟨l, hl, rfl⟩ := List.mem_map.1 (List.fst_mem_of_mem_zipIdx hmem)
  obtain ⟨heq, -, hok⟩ := (parse_format_iff law (hclean l hl)).1 hread
  cases heq
  refine ⟨fun hnil => ?_, hl⟩
  rw [accepted, hnil] at hok
  cases hok

end Format

end Dns
