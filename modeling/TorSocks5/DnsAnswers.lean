/-
**The two stores of DNS answers: the live cache and the fallback store.**

The live DoH cache keeps resolutions, positive ones and failures, on the monotonic clock; the
fallback store keeps positive answers under the wall-clock stamp of the moment they were obtained.
This file has the functions of `dns.rs`, `dns_hint.rs` and `dns_invalidation.rs` that read and
change the two, as functions of the contents of the stores and of the readings of the clocks.  An
`Instant` is a number of nanoseconds, a wall-clock stamp a number of seconds.
-/

import TorSocks5.Table
import Mathlib

set_option autoImplicit false

namespace Dns

variable {Host Addr : Type*}

/-! ### Entries and constants -/

/-- A `Duration` of whole seconds, in nanoseconds. -/
def secs (n : ℕ) : ℕ := n * 1000000000

/-- `DNS_MIN_TTL`. -/
def dnsMinTtl : ℕ := secs 60

/-- `DNS_MAX_TTL`. -/
def dnsMaxTtl : ℕ := secs (30 * 60)

/-- `DNS_NEGATIVE_TTL`. -/
def dnsNegativeTtl : ℕ := secs 120

/-- `DNS_CACHE_CAP`. -/
def dnsCacheCap : ℕ := 2048

/-- `DNS_STALE_FALLBACK_WINDOW.as_secs()`. -/
def dnsStaleFallbackWindowSecs : ℕ := 24 * 60 * 60

/-- `DNS_STALE_FALLBACK_WINDOW`. -/
def dnsStaleFallbackWindow : ℕ := secs dnsStaleFallbackWindowSecs

/-- One remembered resolution; an empty address list is a remembered failure. -/
structure CachedAnswer (Addr : Type*) where
  addrs : List Addr
  /-- On the monotonic clock. -/
  expiresAt : ℕ
  /-- Wall-clock time at which the answer was obtained. -/
  resolvedAtUnix : ℕ
  generation : ℕ
  version : ℕ
  deriving DecidableEq

/-- An answer of the fallback store. -/
structure PersistedAnswer (Addr : Type*) where
  addrs : List Addr
  resolvedAtUnix : ℕ
  deriving DecidableEq

/-- One line of a save. -/
structure PersistSnapshot (Host Addr : Type*) where
  host : Host
  addrs : List Addr
  resolvedAtUnix : ℕ
  deriving DecidableEq

/-- The identity of one value of the cache. -/
structure CacheIdentity where
  generation : ℕ
  version : ℕ
  deriving DecidableEq

/-- `cache_identity`. -/
def cacheIdentity (entry : CachedAnswer Addr) : CacheIdentity := ⟨entry.generation, entry.version⟩

/-- `live_entry_is_usable`. -/
def liveEntryIsUsable (entry : CachedAnswer Addr) (now : ℕ) : Bool :=
  now < entry.expiresAt || now - entry.expiresAt ≤ dnsStaleFallbackWindow

/-- A live entry that may be exported: a positive answer that is usable. -/
def exportable (entry : CachedAnswer Addr) (now : ℕ) : Bool :=
  !entry.addrs.isEmpty && liveEntryIsUsable entry now

/-- A fallback entry inside the window. -/
def unexpired (entry : PersistedAnswer Addr) (now : ℕ) : Bool :=
  now - entry.resolvedAtUnix ≤ dnsStaleFallbackWindowSecs

/-- The `clamp` of `remember_doh_answer_if_generation_observed`. -/
def clampTtl (validFor : ℕ) : ℕ := max dnsMinTtl (min validFor dnsMaxTtl)

variable [DecidableEq Host]

/-! ### The live cache -/

/-- The hosts that a full cache sheds: the quarter that expires first. -/
def shed (cache : Table Host (CachedAnswer Addr)) : List Host :=
  ((cache.entries.insertionSort fun a b => a.2.expiresAt ≤ b.2.expiresAt).take
    (dnsCacheCap / 4)).map Sigma.fst

/-- What is left of the cache before an insert: a full cache is swept by the fallback window, and if
it is still full it sheds the entries closest to falling out of the window. -/
def sweep (cache : Table Host (CachedAnswer Addr)) (now : ℕ) : Table Host (CachedAnswer Addr) :=
  if dnsCacheCap ≤ cache.len then
    let kept := cache.retain fun _ entry => now < entry.expiresAt + dnsStaleFallbackWindow
    if dnsCacheCap ≤ kept.len then kept.removeAll (shed kept) else kept
  else cache

/-- `insert_capped`; the generation and the version of the answer have been set. -/
def insertCapped (cache : Table Host (CachedAnswer Addr)) (host : Host)
    (answer : CachedAnswer Addr) (now : ℕ) : Table Host (CachedAnswer Addr) :=
  (sweep cache now).insert host answer

/-- The test of `remember_doh_failure_if_generation`: a fresh positive answer of the generation. -/
def freshPositive (cache : Table Host (CachedAnswer Addr)) (host : Host) (gen now : ℕ) : Bool :=
  (cache.get host).any fun entry =>
    entry.generation == gen && !entry.addrs.isEmpty && decide (now < entry.expiresAt)

/-- `cached_doh_answer_observed`. -/
def cachedDohAnswerObserved (cache : Table Host (CachedAnswer Addr)) (host : Host) (now : ℕ) :
    Option (List Addr × CacheIdentity) :=
  (cache.get host).bind fun entry =>
    if entry.expiresAt ≤ now then none else some (entry.addrs, cacheIdentity entry)

/-- `stale_fallback_answer_observed`. -/
def staleFallbackAnswerObserved (cache : Table Host (CachedAnswer Addr)) (host : Host)
    (now : ℕ) : Option (List Addr × CacheIdentity) :=
  (cache.get host).bind fun entry =>
    if entry.addrs.isEmpty then none
    else if now < entry.expiresAt ∨ dnsStaleFallbackWindow < now - entry.expiresAt then none
    else some (entry.addrs, cacheIdentity entry)

/-- The test of `invalidate_if_current` under the mutex. -/
def observedIsCurrent [DecidableEq Addr] (entry : CachedAnswer Addr) (observed : CacheIdentity)
    (triedAddrs : List Addr) : Bool :=
  cacheIdentity entry == observed && !entry.addrs.isEmpty && !triedAddrs.isEmpty &&
    triedAddrs.all fun ip => entry.addrs.contains ip

/-- What `flush_dns_cache` preserves of the live cache. -/
def preserved (cache : Table Host (CachedAnswer Addr)) (now : ℕ) :
    List (Host × PersistedAnswer Addr) :=
  (cache.retain fun _ entry => exportable entry now).entries.map fun b =>
    (b.1, ⟨b.2.addrs, b.2.resolvedAtUnix⟩)

/-! ### The fallback store -/

/-- `merge_disk_fallback_entry`. -/
def mergeDiskFallbackEntry (store : Table Host (PersistedAnswer Addr)) (host : Host)
    (entry : PersistedAnswer Addr) : Table Host (PersistedAnswer Addr) :=
  if (store.get host).any fun existing => entry.resolvedAtUnix ≤ existing.resolvedAtUnix then store
  else store.insert host entry

/-! ### Saves and exports -/

/-- The live part of `capture_persist_snapshots_with_generation`. -/
def liveSnapshot (cache : Table Host (CachedAnswer Addr)) (nowInstant : ℕ) :
    List (PersistSnapshot Host Addr) :=
  (cache.retain fun _ entry => exportable entry nowInstant).entries.map fun b =>
    ⟨b.1, b.2.addrs, b.2.resolvedAtUnix⟩

/-- The fallback part, without the hosts of the live part. -/
def diskSnapshot (store : Table Host (PersistedAnswer Addr))
    (live : List (PersistSnapshot Host Addr)) (now : ℕ) : List (PersistSnapshot Host Addr) :=
  (store.retain fun host entry => !(live.map PersistSnapshot.host).contains host &&
    unexpired entry now).entries.map fun b => ⟨b.1, b.2.addrs, b.2.resolvedAtUnix⟩

/-- `best_known_answer`: the live cache first, then the fallback store. -/
def bestKnownAnswer (cache : Table Host (CachedAnswer Addr))
    (store : Table Host (PersistedAnswer Addr)) (nowInstant now : ℕ) (host : Host) :
    Option (PersistSnapshot Host Addr) :=
  match (cache.get host).filter fun entry => exportable entry nowInstant with
  | some entry => some ⟨host, entry.addrs, entry.resolvedAtUnix⟩
  | none => ((store.get host).filter fun entry => unexpired entry now).map fun entry =>
    ⟨host, entry.addrs, entry.resolvedAtUnix⟩

/-! ### Inserts into the live cache -/

omit [DecidableEq Host] in
theorem shed_sublist (cache : Table Host (CachedAnswer Addr)) :
    ∃ l, (shed cache).Sublist l ∧ l.Perm cache.keys :=
  ⟨_, (List.take_sublist _ _).map _, (List.perm_insertionSort _ _).map _⟩

omit [DecidableEq Host] in
theorem length_shed (cache : Table Host (CachedAnswer Addr)) :
    (shed cache).length = min (dnsCacheCap / 4) cache.len := by
  simp [shed, Table.len]

variable {cache : Table Host (CachedAnswer Addr)} {now : ℕ} {k : Host} {entry : CachedAnswer Addr}
/-- A sweep of a cache within its cap leaves room for one more entry. -/
theorem len_sweep_lt (h : cache.len ≤ dnsCacheCap)
    (now : ℕ) : (sweep cache now).len < dnsCacheCap := by
  unfold sweep
  split_ifs with hfull
  · have hle := Table.len_retain_le cache fun _ entry =>
      decide (now < entry.expiresAt + dnsStaleFallbackWindow)
    generalize cache.retain _ = kept at hle ⊢
    simp only
    split_ifs with hstill
    · obtain ⟨l, hsub, hperm⟩ := shed_sublist kept
      have hlen := Table.len_removeAll (shed kept) kept
        ((hperm.nodup_iff.2 (AList.keys_nodup _)).sublist hsub)
        fun k hk => hperm.mem_iff.1 (hsub.subset hk)
      rw [length_shed] at hlen
      simp only [dnsCacheCap] at *
      omega
    · omega
  · omega

/-- **An insert keeps the live cache within its cap.** -/
theorem len_insertCapped_le
    (h : cache.len ≤ dnsCacheCap) (host : Host) (answer : CachedAnswer Addr) (now : ℕ) :
    (insertCapped cache host answer now).len ≤ dnsCacheCap :=
  (Table.len_insert_le _ _ _).trans (len_sweep_lt h now)

theorem get_of_get_sweep (h : (sweep cache now).get k = some entry) : cache.get k = some entry := by
  unfold sweep at h
  simp only at h
  split_ifs at h
  · rw [Table.get_removeAll] at h
    split_ifs at h
    exact (Table.get_of_get_retain h).1
  · exact (Table.get_of_get_retain h).1
  · exact h

@[simp] theorem get_insertCapped_self (cache : Table Host (CachedAnswer Addr)) (host : Host)
    (answer : CachedAnswer Addr) (now : ℕ) :
    (insertCapped cache host answer now).get host = some answer := Table.get_insert_self _ _ _

theorem get_of_get_insertCapped {host : Host} {answer : CachedAnswer Addr} (hne : k ≠ host)
    (h : (insertCapped cache host answer now).get k = some entry) : cache.get k = some entry := by
  rw [insertCapped, Table.get_insert_of_ne _ hne] at h
  exact get_of_get_sweep h

/-! ### Merges into the fallback store -/

/-- What a host is bound to after a merge. -/
def newer (existing : Option (PersistedAnswer Addr)) (entry : PersistedAnswer Addr) :
    PersistedAnswer Addr :=
  match existing with
  | some p => if entry.resolvedAtUnix ≤ p.resolvedAtUnix then p else entry
  | none => entry

omit [DecidableEq Host] in
theorem le_stamp_newer (existing : Option (PersistedAnswer Addr)) (entry : PersistedAnswer Addr) :
    entry.resolvedAtUnix ≤ (newer existing entry).resolvedAtUnix ∧
      ∀ p, existing = some p → p.resolvedAtUnix ≤ (newer existing entry).resolvedAtUnix := by
  cases existing with
  | none => exact ⟨le_rfl, nofun⟩
  | some q =>
    simp only [newer, Option.some.injEq]
    split_ifs <;> grind

/-- A merge sets the host to the newer of the two answers and changes no other host. -/
theorem get_merge (store : Table Host (PersistedAnswer Addr)) (host : Host)
    (entry : PersistedAnswer Addr) (k : Host) :
    (mergeDiskFallbackEntry store host entry).get k =
      if k = host then some (newer (store.get host) entry) else store.get k := by
  unfold mergeDiskFallbackEntry
  rcases eq_or_ne k host with rfl | hk
  · cases hp : store.get k with
    | none => simp [newer]
    | some p => by_cases hle : entry.resolvedAtUnix ≤ p.resolvedAtUnix <;> simp [newer, hle, hp]
  · rw [if_neg hk]
    split_ifs
    · rfl
    · exact Table.get_insert_of_ne _ hk _

theorem le_stamp_merge_self (store : Table Host (PersistedAnswer Addr)) (host : Host)
    (entry : PersistedAnswer Addr) :
    ∃ p, (mergeDiskFallbackEntry store host entry).get host = some p ∧
      entry.resolvedAtUnix ≤ p.resolvedAtUnix :=
  ⟨_, by rw [get_merge, if_pos rfl], (le_stamp_newer _ _).1⟩

/-- **A merge never lowers a stamp.** -/
theorem le_stamp_merge {store : Table Host (PersistedAnswer Addr)}
    {p : PersistedAnswer Addr} (hp : store.get k = some p) (host : Host)
    (entry : PersistedAnswer Addr) :
    ∃ q, (mergeDiskFallbackEntry store host entry).get k = some q ∧
      p.resolvedAtUnix ≤ q.resolvedAtUnix := by
  rw [get_merge]
  split_ifs with hk
  · subst hk
    exact ⟨_, rfl, (le_stamp_newer _ _).2 p hp⟩
  · exact ⟨p, hp, le_rfl⟩

/-! ### The lines of a save -/

theorem mem_preserved {host : Host} (h : cache.get host = some entry)
    (hexport : exportable entry now) :
    (host, ⟨entry.addrs, entry.resolvedAtUnix⟩) ∈ preserved cache now := by
  refine List.mem_map.2 ⟨⟨host, entry⟩, Table.mem_entries.2 ?_, rfl⟩
  rw [Table.get_retain, h]
  exact Option.filter_eq_some_iff.2 ⟨rfl, hexport⟩

theorem filter_liveSnapshot (cache : Table Host (CachedAnswer Addr)) (nowInstant : ℕ)
    (host : Host) : ((liveSnapshot cache nowInstant).filter fun l => l.host = host) =
      ((cache.get host).filter fun e => exportable e nowInstant).toList.map fun e =>
        ⟨host, e.addrs, e.resolvedAtUnix⟩ :=
  Table.filter_render cache _ (fun k e => ⟨k, e.addrs, e.resolvedAtUnix⟩) PersistSnapshot.host
    (fun _ _ => rfl) host

/-- The fallback lines of a host: none if the host has a live line. -/
theorem filter_diskSnapshot (store : Table Host (PersistedAnswer Addr))
    (live : List (PersistSnapshot Host Addr)) (now : ℕ) (host : Host) :
    ((diskSnapshot store live now).filter fun l => l.host = host) =
      if host ∈ live.map PersistSnapshot.host then []
      else ((store.get host).filter fun e => unexpired e now).toList.map fun e =>
        ⟨host, e.addrs, e.resolvedAtUnix⟩ := by
  rw [diskSnapshot, Table.filter_render store _ (fun k e => ⟨k, e.addrs, e.resolvedAtUnix⟩)
    PersistSnapshot.host (fun _ _ => rfl) host]
  split_ifs with hlive
  · have hin : (live.map PersistSnapshot.host).contains host = true := by simpa using hlive
    simp only [hin, Bool.not_true, Bool.false_and]
    cases store.get host <;> rfl
  · simp [hlive]

/-- **The lines of a save.**  A host has the line of its best known answer and no other. -/
theorem filter_snapshots (cache : Table Host (CachedAnswer Addr))
    (store : Table Host (PersistedAnswer Addr)) (nowInstant now : ℕ) (host : Host) :
    ((liveSnapshot cache nowInstant ++
      diskSnapshot store (liveSnapshot cache nowInstant) now).filter fun l => l.host = host) =
      (bestKnownAnswer cache store nowInstant now host).toList := by
  have hlive := filter_liveSnapshot cache nowInstant host
  have hin : host ∈ (liveSnapshot cache nowInstant).map PersistSnapshot.host ↔
      ((liveSnapshot cache nowInstant).filter fun l => l.host = host) ≠ [] := by
    simp [List.filter_eq_nil_iff]
  rw [List.filter_append, filter_diskSnapshot, bestKnownAnswer]
  simp only [hin, hlive]
  cases (cache.get host).filter fun e => exportable e nowInstant with
  | none =>
    simp
    cases (store.get host).filter fun e => unexpired e now <;> rfl
  | some e => simp

end Dns
