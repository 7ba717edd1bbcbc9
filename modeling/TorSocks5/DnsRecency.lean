/-
**The recency merge, and the order of what arrives.**

Loaded files, imported hints and flushes hand their answers to the fallback store one by one, in an
order that nobody arranges.  A merge keeps what is there unless the newcomer is strictly newer, so
the store ends up with an answer of the greatest stamp for every host.  If two answers of a host
share that stamp, it is the first of them to arrive that stays, and the order does matter.
-/

import TorSocks5.DnsFile
import TorSocks5.Latest

set_option autoImplicit false

namespace Dns

open Latest (IsLatest keep latest)

variable {Host Addr : Type} [DecidableEq Host]

/-! ### The answers of one host -/

/-- The answers of a host, in the order in which they arrive. -/
def answersOf (host : Host) (entries : List (Host × PersistedAnswer Addr)) :
    List (PersistedAnswer Addr) :=
  (entries.filter fun e => e.1 = host).map Prod.snd

variable {host : Host} {entries : List (Host × PersistedAnswer Addr)}
theorem mem_answersOf
    {entry : PersistedAnswer Addr} : entry ∈ answersOf host entries ↔ (host, entry) ∈ entries := by
  simp [answersOf]

omit [DecidableEq Host] in
theorem keep_eq_newer (existing : Option (PersistedAnswer Addr)) (entry : PersistedAnswer Addr) :
    keep PersistedAnswer.resolvedAtUnix existing entry = some (newer existing entry) := by
  cases existing with
  | none => rfl
  | some p =>
    rw [keep, newer]
    split_ifs <;> rfl

/-- **What a host is left with is the latest of its own answers.** -/
theorem get_mergeAll (entries : List (Host × PersistedAnswer Addr)) (host : Host) :
    (mergeAll ∅ entries).get host = latest PersistedAnswer.resolvedAtUnix
      (answersOf host entries) := by
  induction entries using List.reverseRecOn with
  | nil => rfl
  | append_singleton entries e ih =>
    have hmerge : mergeAll ∅ (entries ++ [e]) =
        mergeDiskFallbackEntry (mergeAll ∅ entries) e.1 e.2 := mergeAll_append _ _ _
    rw [hmerge, get_merge]
    split_ifs with hhost
    · have hanswers : answersOf host (entries ++ [e]) = answersOf host entries ++ [e.2] := by
        simp [answersOf, hhost]
      rw [hanswers, Latest.latest_concat, keep_eq_newer, ← ih, hhost]
    · have hanswers : answersOf host (entries ++ [e]) = answersOf host entries := by
        simp [answersOf, Ne.symm hhost]
      rw [hanswers, ih]

/-! ### Every order -/

/-- An answer of the greatest stamp of its host. -/
def IsNewest (entries : List (Host × PersistedAnswer Addr)) (host : Host)
    (entry : PersistedAnswer Addr) : Prop :=
  (host, entry) ∈ entries ∧
    ∀ entry', (host, entry') ∈ entries → entry'.resolvedAtUnix ≤ entry.resolvedAtUnix

/-- No host has two answers of its greatest stamp. -/
def OneNewest (entries : List (Host × PersistedAnswer Addr)) : Prop :=
  ∀ host entry entry', IsNewest entries host entry → IsNewest entries host entry' → entry = entry'

/-- In every order the store ends up the same, and it has the answer of the greatest stamp for each
host. -/
structure OrderFree (entries : List (Host × PersistedAnswer Addr)) : Prop where
  same : ∀ entries', entries'.Perm entries → ∀ host,
    (mergeAll ∅ entries').get host = (mergeAll ∅ entries).get host
  newest : ∀ host entry, (mergeAll ∅ entries).get host = some entry ↔ IsNewest entries host entry

theorem isNewest_iff {entry : PersistedAnswer Addr} : IsNewest entries host entry ↔
      IsLatest PersistedAnswer.resolvedAtUnix (answersOf host entries) entry := by
  simp only [IsNewest, IsLatest, mem_answersOf]

theorem perm_answersOf {entries' : List (Host × PersistedAnswer Addr)}
    (h : entries'.Perm entries) (host : Host) :
    (answersOf host entries').Perm (answersOf host entries) :=
  (h.filter _).map _

/-- The answers of a host can be brought into any order. -/
theorem exists_answersOf {l : List (PersistedAnswer Addr)} (h : l.Perm (answersOf host entries)) :
    ∃ entries', entries'.Perm entries ∧ answersOf host entries' = l := by
  refine ⟨l.map (Prod.mk host) ++ entries.filter fun e => !decide (e.1 = host), ?_, ?_⟩
  · have hown : (answersOf host entries).map (Prod.mk host) =
        entries.filter fun e => e.1 = host := by
      rw [answersOf, List.map_map]
      refine (List.map_congr_left fun e he => ?_).trans (List.map_id _)
      rw [Function.comp, ← of_decide_eq_true (List.mem_filter.1 he).2]
      rfl
    refine ((h.map _).append_right _).trans ?_
    rw [hown]
    exact List.filter_append_perm _ entries
  · simp [answersOf, List.filter_filter, List.filter_map, Function.comp_def]

/-- **The order does not matter exactly if every host has one newest answer.** -/
theorem orderFree_iff : OrderFree entries ↔ OneNewest entries := by
  constructor
  · intro h host entry entry' hnewest hnewest'
    rw [isNewest_iff] at hnewest hnewest'
    refine (Latest.forall_perm_iff.1 fun l hl => ?_) entry entry' hnewest hnewest'
    obtain ⟨entries', hperm, rfl⟩ := exists_answersOf hl
    rw [← get_mergeAll, ← get_mergeAll]
    exact h.same entries' hperm host
  · intro h
    have hone (host entry entry')
        (hnewest : IsLatest PersistedAnswer.resolvedAtUnix (answersOf host entries) entry)
        (hnewest' : IsLatest PersistedAnswer.resolvedAtUnix (answersOf host entries) entry') :
        entry = entry' :=
      h host entry entry' (isNewest_iff.2 hnewest) (isNewest_iff.2 hnewest')
    constructor
    · intro entries' hperm host
      rw [get_mergeAll, get_mergeAll]
      exact Latest.forall_perm_iff.2 (hone host) _ (perm_answersOf hperm host)
    · intro host entry
      rw [get_mergeAll, Latest.latest_eq_some_iff (hone host), isNewest_iff]

/-! ### Loads and imports -/

/-- **The recency merge does not depend on the order exactly if every host has one newest answer**;
and then a load and an import may come in either order, whatever has arrived before. -/
theorem recency_merge_iff (fmt : AddrText Addr) :
    (∀ entries : List (List Char × PersistedAnswer Addr), OrderFree entries ↔ OneNewest entries) ∧
    ∀ (earlier : List (List Char × PersistedAnswer Addr)) (clock : ℕ → ℕ) (text : List Char)
      (hints : List (DnsHint (List Char) Addr)),
      OneNewest (earlier ++ fileEntries fmt clock text ++ hints.map DnsHint.entry) →
      ∀ host, (seedDiskFallback (loadText fmt clock (mergeAll ∅ earlier) text) hints).get host =
        (loadText fmt clock (seedDiskFallback (mergeAll ∅ earlier) hints) text).get host := by
  refine ⟨fun entries => orderFree_iff, ?_⟩
  intro earlier clock text hints hone host
  have hfirst : seedDiskFallback (loadText fmt clock (mergeAll ∅ earlier) text) hints =
      mergeAll ∅ (earlier ++ fileEntries fmt clock text ++ hints.map DnsHint.entry) := by
    rw [mergeAll_append, mergeAll_append, seedDiskFallback, loadText]
  have hsecond : loadText fmt clock (seedDiskFallback (mergeAll ∅ earlier) hints) text =
      mergeAll ∅ (earlier ++ hints.map DnsHint.entry ++ fileEntries fmt clock text) := by
    rw [mergeAll_append, mergeAll_append, seedDiskFallback, loadText]
  have hperm : (earlier ++ hints.map DnsHint.entry ++ fileEntries fmt clock text).Perm
      (earlier ++ fileEntries fmt clock text ++ hints.map DnsHint.entry) := by
    rw [List.append_assoc, List.append_assoc]
    exact List.perm_append_comm.append_left earlier
  rw [hfirst, hsecond]
  exact ((orderFree_iff.2 hone).same _ hperm host).symm

/-- Addresses that are their own text. -/
def plainText : AddrText (List Char) := ⟨id, some⟩

/-- The file with the line of one answer. -/
def oneLine : List Char := "bridge.example\t192.0.2.1\t1700000000".toList

/-- A hint for the same host with the same stamp and another address. -/
def sameStamp : DnsHint (List Char) (List Char) :=
  ⟨"bridge.example".toList, ["192.0.2.2".toList], 1700000000⟩

/-- With two answers of one stamp the first to arrive stays: a load before an import leaves the
address of the file, an import before a load the address of the hint. -/
theorem equal_stamps_first_stays :
    (seedDiskFallback (loadText plainText (fun _ => 1700000000) ∅ oneLine) [sameStamp]).get
        sameStamp.host = some ⟨["192.0.2.1".toList], 1700000000⟩ ∧
    (loadText plainText (fun _ => 1700000000) (seedDiskFallback ∅ [sameStamp]) oneLine).get
        sameStamp.host = some ⟨["192.0.2.2".toList], 1700000000⟩ := by
  constructor <;> decide +kernel

end Dns
