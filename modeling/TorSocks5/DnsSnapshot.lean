/-
**What a save keeps of the two stores.**

A save writes, for every host that has one, the usable positive answer of the live cache, and the
unexpired answer of the fallback store for the other hosts.  Within the fallback store the newest
answer wins; between the stores the live cache wins, also when the fallback store has a newer answer
(an imported hint or a loaded file may be newer than what this process resolved).  So the line of a
host is the newest answer known for it exactly when the live answer is not older than the fallback.
-/

import TorSocks5.DnsFlush
import Mathlib

set_option autoImplicit false

namespace Dns

variable {Host Addr : Type*}

/-! ### Loading a file -/

/-- `DNS_TIMESTAMP_FUTURE_TOLERANCE`, in seconds. -/
def dnsTimestampFutureTolerance : ℕ := 5 * 60

/-- `stamp_beyond_future_tolerance`. -/
def stampBeyondFutureTolerance (resolvedAtUnix now : ℕ) : Bool :=
  dnsTimestampFutureTolerance < resolvedAtUnix - now

/-- What `parse_persisted_line` asks of a line that has the right shape. -/
def accepted (now : ℕ) (line : PersistSnapshot Host Addr) : Bool :=
  !line.addrs.isEmpty && !stampBeyondFutureTolerance line.resolvedAtUnix now

variable [DecidableEq Host]

/-- `load_persisted_dns_cache` on the lines of a file. -/
def loadPersistedDnsCache (store : Table Host (PersistedAnswer Addr)) (now : ℕ)
    (lines : List (PersistSnapshot Host Addr)) : Table Host (PersistedAnswer Addr) :=
  (lines.filter (accepted now)).foldl
    (fun store line => mergeDiskFallbackEntry store line.host ⟨line.addrs, line.resolvedAtUnix⟩)
    store

/-- What a load leaves for a host: the newest of what was there and the accepted lines of the
host. -/
theorem get_load (now : ℕ) (host : Host) (lines : List (PersistSnapshot Host Addr)) :
    ∀ store : Table Host (PersistedAnswer Addr),
      (loadPersistedDnsCache store now lines).get host =
        (((lines.filter fun l => l.host = host).filter (accepted now)).foldl
          (fun existing line => some (newer existing ⟨line.addrs, line.resolvedAtUnix⟩))
          (store.get host)) := by
  induction lines with
  | nil => exact fun _ => rfl
  | cons l lines ih =>
    intro store
    cases hl : accepted now l with
    | false =>
      have hskip : loadPersistedDnsCache store now (l :: lines) =
          loadPersistedDnsCache store now lines := by
        simp [loadPersistedDnsCache, hl]
      rw [hskip, ih]
      by_cases hh : l.host = host <;> simp [hh, hl]
    | true =>
      have htake : loadPersistedDnsCache store now (l :: lines) = loadPersistedDnsCache
          (mergeDiskFallbackEntry store l.host ⟨l.addrs, l.resolvedAtUnix⟩) now lines := by
        simp [loadPersistedDnsCache, hl]
      rw [htake, ih, get_merge]
      rcases eq_or_ne l.host host with rfl | hh
      · simp [hl]
      · simp [hh, hh.symm]

/-! ### The newest answer of a host -/

/-- The stamps of the answers of a host that may be saved: that of its usable positive live entry
and that of its unexpired fallback entry. -/
def knownStamps (cache : Table Host (CachedAnswer Addr)) (store : Table Host (PersistedAnswer Addr))
    (nowInstant now : ℕ) (host : Host) : Set ℕ :=
  {r | (∃ e, cache.get host = some e ∧ exportable e nowInstant = true ∧ e.resolvedAtUnix = r) ∨
    ∃ p, store.get host = some p ∧ unexpired p now = true ∧ p.resolvedAtUnix = r}

/-- The live entry of the host is exported although the fallback entry is newer. -/
def LiveOlder (cache : Table Host (CachedAnswer Addr)) (store : Table Host (PersistedAnswer Addr))
    (nowInstant now : ℕ) (host : Host) : Prop :=
  ∃ e p, cache.get host = some e ∧ exportable e nowInstant = true ∧ store.get host = some p ∧
    unexpired p now = true ∧ e.resolvedAtUnix < p.resolvedAtUnix

variable {cache : Table Host (CachedAnswer Addr)} {store : Table Host (PersistedAnswer Addr)}
  {nowInstant now : ℕ} {host : Host}
/-- The line of a host that has an answer to save. -/
theorem bestKnownAnswer_cases (h : (knownStamps cache store nowInstant now host).Nonempty) :
    (∃ e, cache.get host = some e ∧ exportable e nowInstant = true ∧
      bestKnownAnswer cache store nowInstant now host =
        some ⟨host, e.addrs, e.resolvedAtUnix⟩) ∨
    (∀ e, cache.get host = some e → exportable e nowInstant = false) ∧
      ∃ p, store.get host = some p ∧ unexpired p now = true ∧
        bestKnownAnswer cache store nowInstant now host =
          some ⟨host, p.addrs, p.resolvedAtUnix⟩ := by
  by_cases hlive : ∃ e, cache.get host = some e ∧ exportable e nowInstant = true
  · obtain ⟨e, hg, hexp⟩ := hlive
    exact .inl ⟨e, hg, hexp, by simp [bestKnownAnswer, hg, hexp, Option.filter]⟩
  · have hnone (e) (hg : cache.get host = some e) : exportable e nowInstant = false :=
      Bool.eq_false_iff.2 fun hexp => hlive ⟨e, hg, hexp⟩
    refine .inr ⟨hnone, ?_⟩
    obtain ⟨r, ⟨e, hg, hexp, -⟩ | ⟨p, hg, hfresh, -⟩⟩ := h
    · exact absurd ⟨e, hg, hexp⟩ hlive
    · have hfilter : ((cache.get host).filter fun e => exportable e nowInstant) = none := by
        simpa [Option.filter_eq_none_iff] using hnone
      have hstore : ((store.get host).filter fun e => unexpired e now) = some p :=
        Option.filter_eq_some_iff.2 ⟨hg, hfresh⟩
      exact ⟨p, hg, hfresh, by rw [bestKnownAnswer, hfilter, hstore]; rfl⟩

/-- A load never lowers the stamp of a host. -/
theorem le_stamp_load {p : PersistedAnswer Addr} (hp : store.get host = some p) (now : ℕ)
    (lines : List (PersistSnapshot Host Addr)) :
    ∃ q, (loadPersistedDnsCache store now lines).get host = some q ∧
      p.resolvedAtUnix ≤ q.resolvedAtUnix := by
  rw [get_load, hp]
  generalize (lines.filter fun l => l.host = host).filter (accepted now) = ls
  clear hp
  induction ls generalizing p with
  | nil => exact ⟨p, rfl, le_rfl⟩
  | cons l ls ih =>
    obtain ⟨q, hq, hle⟩ := ih (p := newer (some p) ⟨l.addrs, l.resolvedAtUnix⟩)
    exact ⟨q, hq, ((le_stamp_newer (some p) ⟨l.addrs, l.resolvedAtUnix⟩).2 p rfl).trans hle⟩

theorem eq_line_of_get_load {lines : List (PersistSnapshot Host Addr)}
    {line : PersistSnapshot Host Addr} (hline : (lines.filter fun l => l.host = host) = [line]) {q : PersistedAnswer Addr}
    (hq : (loadPersistedDnsCache ∅ now lines).get host = some q) :
    q = ⟨line.addrs, line.resolvedAtUnix⟩ := by
  rw [get_load, hline] at hq
  cases hacc : accepted now line with
  | false => simp [hacc] at hq
  | true => simpa [hacc, newer, eq_comm] using hq

/-- The live entry is the newest answer of the host unless the fallback entry is newer. -/
theorem isGreatest_live_iff
    {e : CachedAnswer Addr} (hg : cache.get host = some e) (hexp : exportable e nowInstant = true) :
    IsGreatest (knownStamps cache store nowInstant now host) e.resolvedAtUnix ↔
      ¬ LiveOlder cache store nowInstant now host := by
  constructor
  · rintro ⟨-, hup⟩ ⟨e', p, hg', -, hp, hfresh, hlt⟩
    obtain rfl := Option.some.inj (hg.symm.trans hg')
    exact hlt.not_ge (hup (.inr ⟨p, hp, hfresh, rfl⟩))
  · refine fun hnot => ⟨.inl ⟨e, hg, hexp, rfl⟩, ?_⟩
    rintro r (⟨e', hg', -, rfl⟩ | ⟨p, hp, hfresh, rfl⟩)
    · rw [Option.some.inj (hg.symm.trans hg')]
    · exact not_lt.1 fun hlt => hnot ⟨e, p, hg, hexp, hp, hfresh, hlt⟩

theorem isGreatest_fallback (hnone : ∀ e, cache.get host = some e → exportable e nowInstant = false)
    {p : PersistedAnswer Addr} (hp : store.get host = some p) (hfresh : unexpired p now = true) :
    IsGreatest (knownStamps cache store nowInstant now host) p.resolvedAtUnix := by
  refine ⟨.inr ⟨p, hp, hfresh, rfl⟩, ?_⟩
  rintro r (⟨e, hg, hexp, rfl⟩ | ⟨q, hq, -, rfl⟩)
  · cases (hnone e hg).symm.trans hexp
  · rw [Option.some.inj (hp.symm.trans hq)]

/-- A live cache and a fallback store with an answer of wall time `1000` and one of wall time `900`
for the same host. -/
def liveAndFallback : Table ℕ (CachedAnswer ℕ) × Table ℕ (PersistedAnswer ℕ) :=
  (Table.insert ∅ 5 ⟨[8], secs 60, 1000, 0, 1⟩, Table.insert ∅ 5 ⟨[9], 900⟩)

/-- A publish at wall time `1000`, then the import of a hint of wall time `2000`, then a save. -/
def hintAfterAnswer : List (Action ℕ ℕ) :=
  [.tick 0 1000, .begin 0, .answer 0 5 [8] 0, .stamp 0, .lock 0,
    .compare 0, .insert 0, .tick (secs 1000) 2000,
    .seed 1 [(5, ⟨[9], 2000⟩)], .merge 1, .finish 1, .save 2,
    .readInstant 2, .readLive 2, .readWall 2, .readFallback 2]

end Dns
