/-
**Resolving a name, tier by tier.**

A lookup asks the live cache; if the cache knows nothing it asks the providers; if they fail it
falls back to an expired answer of the live cache, then to the fallback store; and if there is none
it remembers the failure and leaves the name to the system resolver, if it may.
-/

import Mathlib
import TorSocks5.AddrOrder
import TorSocks5.DnsProvenance

set_option autoImplicit false

namespace Dns

variable {Addr : Type}

/-! ### The lookup -/

/-- `ResolverPolicy`. -/
structure ResolverPolicy where
  dohEnabled : Bool
  systemFallback : Bool
  deriving DecidableEq

/-- `ResolvedAddrs`. -/
structure ResolvedAddrs (Addr : Type) where
  addrs : List (Addr × ℕ)
  cacheIdentity : Option CacheIdentity
  deriving DecidableEq

/-- What a lookup meets: the result of the coalesced search among the providers, and that of the
system resolver. -/
structure Outside (Addr : Type) where
  providers : Option (List Addr × Option CacheIdentity)
  system : Except (List Char) (List Addr)

/-- The readings of the clocks: at the look into the live cache, at the look for a stale answer, and
of the wall clock at the look into the fallback store. -/
structure Readings where
  cached : ℕ
  stale : ℕ
  wall : ℕ

/-- `host:port`. -/
def target (host : List Char) (port : ℕ) : List Char := host ++ ':' :: Nat.toDigits 10 port

section Lookup

variable [DecidableEq Addr] (isIpv6 : Addr → Bool)

/-- The last part of `resolve_addrs_observed`: the system resolver, if the policy permits it. -/
def systemLookup (host : List Char) (port : ℕ) (policy : ResolverPolicy) (outside : Outside Addr) :
    Except (List Char) (ResolvedAddrs Addr) :=
  if policy.systemFallback then
    match outside.system with
    | Except.error e =>
      Except.error ("system DNS lookup failed for ".toList ++ target host port ++ ": ".toList ++ e)
    | Except.ok ips =>
      if ips.isEmpty then
        Except.error ("system DNS lookup returned no addresses for ".toList ++ target host port)
      else Except.ok ⟨orderCandidates isIpv6 ips port, none⟩
  else
    Except.error ("no DNS resolver available for ".toList ++ target host port ++
      " (DoH disabled/failed and system fallback disabled)".toList)

/-- `resolve_addrs_observed`, without interference; the second component says whether it goes on to
remember a failure. -/
def resolveAddrsObserved (live : Table (List Char) (CachedAnswer Addr))
    (fallback : Table (List Char) (PersistedAnswer Addr)) (host : List Char) (port : ℕ)
    (policy : ResolverPolicy) (outside : Outside Addr) (t : Readings) :
    Except (List Char) (ResolvedAddrs Addr) × Bool :=
  let query := host.rdropWhile (· == '.')
  if policy.dohEnabled then
    match cachedDohAnswerObserved live query t.cached with
    | some (ips, identity) =>
      if ips.isEmpty then (systemLookup isIpv6 host port policy outside, false)
      else (Except.ok ⟨orderCandidates isIpv6 ips port, some identity⟩, false)
    | none =>
      match outside.providers with
      | some (ips, identity) => (Except.ok ⟨orderCandidates isIpv6 ips port, identity⟩, false)
      | none =>
        match staleFallbackAnswerObserved live query t.stale with
        | some (stale, identity) =>
          (Except.ok ⟨orderCandidates isIpv6 stale port, some identity⟩, false)
        | none =>
          match diskFallbackAnswer fallback query t.wall with
          | some persisted => (Except.ok ⟨orderCandidates isIpv6 persisted port, none⟩, false)
          | none => (systemLookup isIpv6 host port policy outside, true)
  else (systemLookup isIpv6 host port policy outside, false)

/-- `resolve_addrs`. -/
def resolveAddrs (live : Table (List Char) (CachedAnswer Addr))
    (fallback : Table (List Char) (PersistedAnswer Addr)) (host : List Char) (port : ℕ)
    (policy : ResolverPolicy) (outside : Outside Addr) (t : Readings) :
    Except (List Char) (List (Addr × ℕ)) :=
  (resolveAddrsObserved isIpv6 live fallback host port policy outside t).1.map ResolvedAddrs.addrs

end Lookup

/-! ### What is known of a host -/

/-- A positive answer that has not expired. -/
def FreshPositive (live : Table (List Char) (CachedAnswer Addr)) (host : List Char) (now : ℕ) :
    Prop :=
  ∃ entry, live.get host = some entry ∧ entry.addrs ≠ [] ∧ now < entry.expiresAt

/-- A failure that has not expired. -/
def RememberedFailure (live : Table (List Char) (CachedAnswer Addr)) (host : List Char) (now : ℕ) :
    Prop :=
  ∃ entry, live.get host = some entry ∧ entry.addrs = [] ∧ now < entry.expiresAt

/-- A positive answer of the live cache, expired and inside the fallback window. -/
def staleLive (live : Table (List Char) (CachedAnswer Addr)) (host : List Char) (now : ℕ) :
    Option (List Addr) :=
  ((live.get host).filter fun entry => !entry.addrs.isEmpty && decide (entry.expiresAt ≤ now) &&
    decide (now ≤ entry.expiresAt + dnsStaleFallbackWindow)).map CachedAnswer.addrs

/-- An answer of the fallback store inside the window. -/
def storedAnswer (fallback : Table (List Char) (PersistedAnswer Addr)) (host : List Char)
    (wall : ℕ) :
    Option (List Addr) :=
  ((fallback.get host).filter fun entry =>
    decide (wall ≤ entry.resolvedAtUnix + dnsStaleFallbackWindowSecs)).map PersistedAnswer.addrs

/-- The last resort: the expired answer of the live cache, or else the answer of the fallback store.
-/
def lastResort (live : Table (List Char) (CachedAnswer Addr))
    (fallback : Table (List Char) (PersistedAnswer Addr)) (host : List Char) (t : Readings) :
    Option (List Addr) :=
  (staleLive live host t.stale).or (storedAnswer fallback host t.wall)

/-! ### The tiers -/

section Tiers

variable {live : Table (List Char) (CachedAnswer Addr)}
  {fallback : Table (List Char) (PersistedAnswer Addr)} {host : List Char}

theorem staleFallbackAnswer_eq (now : ℕ) :
    (staleFallbackAnswerObserved live host now).map Prod.fst = staleLive live host now := by
  unfold staleFallbackAnswerObserved staleLive
  cases live.get host with
  | none => rfl
  | some entry => grind [Option.filter]

theorem diskFallbackAnswer_eq (wall : ℕ) :
    diskFallbackAnswer fallback host wall = storedAnswer fallback host wall := by
  unfold diskFallbackAnswer storedAnswer
  cases fallback.get host with
  | none => rfl
  | some entry => grind [Option.filter]

/-- The live cache has nothing to say if neither kind of entry is there. -/
theorem cachedDohAnswer_eq_none {now : ℕ} (hfresh : ¬ FreshPositive live host now)
    (hfailure : ¬ RememberedFailure live host now) :
      cachedDohAnswerObserved live host now = none := by
  unfold cachedDohAnswerObserved
  cases hget : live.get host with
  | none => rfl
  | some entry =>
    have hexpired : entry.expiresAt ≤ now := by
      by_contra! hlt
      exact (em (entry.addrs = [])).elim (hfailure ⟨entry, hget, ·, hlt⟩) (hfresh ⟨entry, hget, ·, hlt⟩)
    rw [Option.bind_some, if_pos hexpired]

theorem RememberedFailure.cached {now : ℕ} (h : RememberedFailure live host now) :
    ∃ identity, cachedDohAnswerObserved live host now = some ([], identity) := by
  obtain ⟨entry, hget, haddrs, hlt⟩ := h
  refine ⟨cacheIdentity entry, ?_⟩
  rw [cachedDohAnswerObserved, hget, Option.bind_some, if_neg (by omega), haddrs]

end Tiers

/-! ### The last resort -/

section LastResort

variable [DecidableEq Addr] {isIpv6 : Addr → Bool} {live : Table (List Char) (CachedAnswer Addr)}
  {fallback : Table (List Char) (PersistedAnswer Addr)} {host : List Char} {port : ℕ}
  {policy : ResolverPolicy} {t : Readings}

omit [DecidableEq Addr] in
theorem query_eq (h : host.getLast? ≠ some '.') : host.rdropWhile (· == '.') = host := by
  rw [List.rdropWhile_eq_self_iff]
  intro hne hdot
  simp [List.getLast?_eq_getLast_of_ne_nil hne, beq_iff_eq.1 hdot] at h

/-- When the providers fail and nothing has been heard of the host lately, the last resort is used.
-/
theorem resolveAddrs_of_lastResort (hdot : host.getLast? ≠ some '.')
    (hdoh : policy.dohEnabled = true)
    (hcached : cachedDohAnswerObserved live host t.cached = none) {addrs : List Addr}
    (hlast : lastResort live fallback host t = some addrs)
    (system : Except (List Char) (List Addr)) :
    resolveAddrs isIpv6 live fallback host port policy ⟨none, system⟩ t =
      Except.ok (orderCandidates isIpv6 addrs port) := by
  rw [lastResort, ← staleFallbackAnswer_eq, ← diskFallbackAnswer_eq] at hlast
  simp only [resolveAddrs, resolveAddrsObserved, query_eq hdot, hdoh, hcached, if_true]
  cases hstale : staleFallbackAnswerObserved live host t.stale with rw [hstale] at hlast
  | some answer =>
    cases hlast
    rfl
  | none =>
    rw [Option.map_none, Option.none_or] at hlast
    rw [hlast]
    rfl

theorem resolveAddrs_of_rememberedFailure (hdot : host.getLast? ≠ some '.')
    (hdoh : policy.dohEnabled = true) (hfailure : RememberedFailure live host t.cached)
    (outside : Outside Addr) :
    resolveAddrs isIpv6 live fallback host port policy outside t =
      (systemLookup isIpv6 host port policy outside).map ResolvedAddrs.addrs := by
  obtain ⟨identity, hcached⟩ := hfailure.cached
  simp only [resolveAddrs, resolveAddrsObserved, query_eq hdot, hdoh, hcached, if_true]
  rfl

/-- **The last resort is used exactly if no failure is remembered.**  The live cache holds no
positive answer that has not expired, the providers fail, and an answer is known all the same: it is
returned, whatever the system resolver would say, unless a failure is remembered; and the addresses
that are returned are among its own. -/
theorem last_resort_used_iff (isIpv6 : Addr → Bool) (s : State (List Char) Addr) (host : List Char)
    (port : ℕ) (policy : ResolverPolicy) (t : Readings) (hdot : host.getLast? ≠ some '.')
    (hdoh : policy.dohEnabled = true)
    (hfresh : ¬ FreshPositive s.live host t.cached) {addrs : List Addr}
    (hlast : lastResort s.live s.fallback host t = some addrs) :
    ((∀ system, resolveAddrs isIpv6 s.live s.fallback host port policy ⟨none, system⟩ t =
        Except.ok (orderCandidates isIpv6 addrs port)) ↔ ¬ RememberedFailure s.live host t.cached) ∧
    ∀ target ∈ orderCandidates isIpv6 addrs port, target.1 ∈ addrs ∧ target.2 = port := by
  refine ⟨?_, fun target htarget => mem_of_mem_orderCandidates htarget⟩
  constructor
  · intro hused hfailure
    -- the system resolver may fail as well
    have herror := hused (Except.error [])
    rw [resolveAddrs_of_rememberedFailure hdot hdoh hfailure, systemLookup] at herror
    split at herror
    · cases herror
    · cases herror
  · intro hfailure system
    exact resolveAddrs_of_lastResort hdot hdoh (cachedDohAnswer_eq_none hfresh hfailure) hlast system

end LastResort

/-- A host whose lookup has failed. -/
def failedHost : List Char := "bridge.example".toList

/-- A lookup fails at wall time `1000` and the failure is remembered; then a hint of wall time `990`
is imported. -/
def failureThenHint : List (Action (List Char) ℕ) :=
  [.tick 0 1000, .begin 0, .fail 0 failedHost, .lock 0, .compare 0,
    .look 0, .expire 0, .stamp 0, .insert 0,
    .seed 1 [(failedHost, ⟨[8], 990⟩)], .merge 1, .finish 1]

/-- Without the failure: the hint alone. -/
def hintAlone : List (Action (List Char) ℕ) :=
  [.tick 0 1000, .seed 1 [(failedHost, ⟨[8], 990⟩)], .merge 1, .finish 1]

/-- The clocks one minute later. -/
def minuteLater : Readings := ⟨secs 60, secs 60, 1060⟩

/-- The state that actions lead to. -/
def reached (actions : List (Action (List Char) ℕ)) :
    State (List Char) ℕ := machine.after init actions

/-- The hint is used where nothing has failed before. -/
theorem last_resort_used_iff_hintAlone :
    resolveAddrs (fun _ => false) (reached hintAlone).live (reached hintAlone).fallback failedHost 443
      ⟨true, false⟩ ⟨none, Except.error []⟩ minuteLater = Except.ok [(8, 443)] := by
  have hlast : lastResort (reached hintAlone).live (reached hintAlone).fallback failedHost minuteLater =
      some [8] := by decide +kernel
  have hlive : (reached hintAlone).live.get failedHost = none := by decide +kernel
  have hused := (last_resort_used_iff (fun _ => false) (reached hintAlone) failedHost 443 ⟨true, false⟩
    minuteLater (by decide) rfl (by rintro ⟨entry, hget, -⟩; rw [hlive] at hget; cases hget) hlast).1.2
    (by rintro ⟨entry, hget, -⟩; rw [hlive] at hget; cases hget)
  exact hused (Except.error [])

/-- **A failure hides a hint that comes after it**: in a state that is reached, a minute after the
failure, the hint is known and inside the window, and the lookup fails. -/
theorem failure_hides_hint :
    machine.Run Machine.anyStep init failureThenHint (reached failureThenHint) ∧
    lastResort (reached failureThenHint).live (reached failureThenHint).fallback failedHost
      minuteLater = some [8] ∧
    ¬ FreshPositive (reached failureThenHint).live failedHost minuteLater.cached ∧
    ∃ e, resolveAddrs (fun _ => false) (reached failureThenHint).live
      (reached failureThenHint).fallback failedHost 443 ⟨true, false⟩ ⟨none, Except.error []⟩
      minuteLater = Except.error e := by
  have hexec : machine.exec init failureThenHint = some (reached failureThenHint) :=
    Machine.exec_eq_after (by decide +kernel)
  have hentry : (reached failureThenHint).live.get failedHost =
      some ⟨[], dnsNegativeTtl, 1000, 0, 1⟩ := by decide +kernel
  refine ⟨Machine.Run.of_exec hexec, by decide +kernel, ?_, ?_⟩
  · rintro ⟨entry, hget, hne, -⟩
    rw [hentry] at hget
    cases hget
    exact hne rfl
  · rw [resolveAddrs_of_rememberedFailure (by decide) rfl ⟨_, hentry, rfl, by decide⟩]
    exact ⟨_, rfl⟩

end Dns
