/-
**The health of the bridges.**

The store keeps one entry for every bridge identity it has heard of: when the bridge was tried and
answered, how often, and which sources offered it.  The operations here are those by which a running
process changes it: the outcome of a probe round, what the circuits and channels of the tunnel
report, and where a bridge came from.
-/

import TorSocks5.CandidatePool
import TorSocks5.Table

set_option autoImplicit false

namespace BridgeStore

/-! ### Entries -/

/-- The largest value of a counter, which also marks a retired bridge. -/
def u32Max : ℕ := 2 ^ 32 - 1

/-- `saturating_add(1)`. -/
def bump (counter : ℕ) : ℕ := min (counter + 1) u32Max

/-- What is known of a bridge.  Times and durations are in nanoseconds. -/
structure Meta where
  lastOk : Option ℤ
  lastAttempt : ℤ
  lastLatency : ℕ
  fails : ℕ
  okCount : ℕ
  channelOkCount : ℕ
  lastChannelOk : Option ℤ
  verifiedCount : ℕ
  lastVerified : Option ℤ
  lastVerificationAttempt : Option ℤ
  circuitFails : ℕ
  lastCircuitObservation : ℤ
  sources : Finset (List Char)
  deriving DecidableEq

/-- A bridge and what is known of it. -/
structure Entry (B : Type) extends Meta where
  bridge : B
  deriving DecidableEq

abbrev Store (B K : Type) := Table K (Entry B)

/-- The entry of a bridge that was never heard of. -/
def Entry.fresh {B : Type} (bridge : B) (latency : ℕ) (now : ℤ) : Entry B where
  bridge := bridge
  lastOk := none
  lastAttempt := now
  lastLatency := latency
  fails := 0
  okCount := 0
  channelOkCount := 0
  lastChannelOk := none
  verifiedCount := 0
  lastVerified := none
  lastVerificationAttempt := none
  circuitFails := 0
  lastCircuitObservation := now
  sources := ∅

/-- The counters fit into 32 bits. -/
structure Meta.Fits (m : Meta) : Prop where
  fails : m.fails ≤ u32Max
  okCount : m.okCount ≤ u32Max
  channelOkCount : m.channelOkCount ≤ u32Max
  verifiedCount : m.verifiedCount ≤ u32Max
  circuitFails : m.circuitFails ≤ u32Max

theorem one_le_u32Max : 1 ≤ u32Max := by decide

theorem bump_le (counter : ℕ) : bump counter ≤ u32Max := min_le_right _ _

theorem Entry.fits_fresh {B : Type} (bridge : B) (latency : ℕ) (now : ℤ) :
    (Entry.fresh bridge latency now).Fits :=
  ⟨Nat.zero_le _, Nat.zero_le _, Nat.zero_le _, Nat.zero_le _, Nat.zero_le _⟩

/-! ### Operations -/

variable {B K : Type} [DecidableEq K] (f : BridgeFormat B K)

/-- The entry of a bridge is changed, and made first if there is none. -/
def upsert (s : Store B K) (bridge : B) (fresh : Entry B) (change : Entry B → Entry B) :
    Store B K :=
  Table.insert s (f.key bridge) (change ((Table.get s (f.key bridge)).getD fresh))

/-- The entry of a bridge is changed, if there is one. -/
def modify (s : Store B K) (bridge : B) (change : Entry B → Entry B) : Store B K :=
  match Table.get s (f.key bridge) with
  | some e => Table.insert s (f.key bridge) (change e)
  | none => s

def recordAt (s : Store B K) (bridge : B) (latency : ℕ) (now : ℤ) : Store B K :=
  upsert f s bridge (.fresh bridge latency now) fun e => { e with
    bridge := bridge
    lastOk := some now
    lastAttempt := now
    lastLatency := latency
    fails := 0
    okCount := bump e.okCount }

/-- A failed probe counts at most once in a window. -/
def noteFailureAt (s : Store B K) (bridge : B) (now : ℤ) (window : ℕ) : Store B K × Bool :=
  match Table.get s (f.key bridge) with
  | some e =>
    if window ≤ now - e.lastAttempt then
      (Table.insert s (f.key bridge) { e with fails := bump e.fails, lastAttempt := now }, true)
    else (s, false)
  | none => (Table.insert s (f.key bridge) { Entry.fresh bridge 0 now with fails := 1 }, true)

/-- A failed circuit counts at most once in a window. -/
def noteCircuitFailureAt (s : Store B K) (bridge : B) (now : ℤ) (window : ℕ) : Store B K × Bool :=
  match Table.get s (f.key bridge) with
  | some e =>
    if window ≤ now - e.lastCircuitObservation then
      (Table.insert s (f.key bridge) { e with
        circuitFails := bump e.circuitFails, lastCircuitObservation := now }, true)
    else (s, false)
  | none => (Table.insert s (f.key bridge) { Entry.fresh bridge 0 now with circuitFails := 1 }, true)

def notePermanentFailureAt (s : Store B K) (bridge : B) (now : ℤ) : Store B K :=
  upsert f s bridge (.fresh bridge 0 now) fun e => { e with
    circuitFails := u32Max, lastCircuitObservation := now }

def noteSourceAt (s : Store B K) (bridge : B) (source : List Char) (now : ℤ) : Store B K :=
  upsert f s bridge (.fresh bridge 0 now) fun e => { e with sources := insert source e.sources }

def noteCircuitSuccessAt (s : Store B K) (bridge : B) (now : ℤ) : Store B K :=
  modify f s bridge fun e => { e with circuitFails := 0, lastCircuitObservation := now }

def noteChannelSuccessAt (s : Store B K) (bridge : B) (now : ℤ) : Store B K :=
  modify f s bridge fun e => { e with
    channelOkCount := bump e.channelOkCount, lastChannelOk := some now }

def noteCircuitVerifiedAt (s : Store B K) (bridge : B) (now : ℤ) : Store B K :=
  modify f s bridge fun e => { e with
    verifiedCount := bump e.verifiedCount
    lastVerified := some now
    lastVerificationAttempt := some now }

def noteVerificationAttemptAt (s : Store B K) (bridge : B) (now : ℤ) : Store B K :=
  modify f s bridge fun e => { e with lastVerificationAttempt := some now }

/-- The entry has failed too often, on either layer. -/
def dead (maxFails maxCircuitFails : ℕ) (e : Entry B) : Bool :=
  maxFails ≤ e.fails || maxCircuitFails ≤ e.circuitFails

omit [DecidableEq K] in
/-- The dead entries are removed, and their bridges are returned. -/
def prune (s : Store B K) (maxFails maxCircuitFails : ℕ) : Store B K × List B :=
  (Table.retain s fun _ e => !dead maxFails maxCircuitFails e,
    (s.entries.filter fun b => dead maxFails maxCircuitFails b.2).map fun b => b.2.bridge)

/-- The store after the outcome of a probe round is recorded, and before it is pruned. -/
def recorded (s : Store B K) (probed : List B) (alive : List (B × ℕ)) (now : ℤ) (failWindow : ℕ) :
    Store B K :=
  probed.foldl (fun s bridge =>
    if f.key bridge ∈ alive.map (fun a => f.key a.1) then s
    else (noteFailureAt f s bridge now failWindow).1)
    (alive.foldl (fun s a => recordAt f s a.1 a.2 now) s)

/-- The outcome of a probe round: what answered, and what was tried and did not. -/
def noteProbeRound (s : Store B K) (probed : List B) (alive : List (B × ℕ)) (now : ℤ)
    (failWindow maxFails maxCircuitFails : ℕ) : Store B K × List B :=
  let aliveKeys := alive.map fun a => f.key a.1
  let s := alive.foldl (fun s a => recordAt f s a.1 a.2 now) s
  let s := probed.foldl (fun s bridge =>
    if f.key bridge ∈ aliveKeys then s else (noteFailureAt f s bridge now failWindow).1) s
  prune s maxFails maxCircuitFails

/-- An operation on the store. -/
inductive Observation (B : Type)
  | record (bridge : B) (latency : ℕ) (now : ℤ)
  | probeRound (probed : List B) (alive : List (B × ℕ)) (now : ℤ)
      (failWindow maxFails maxCircuitFails : ℕ)
  | failure (bridge : B) (now : ℤ) (window : ℕ)
  | circuitFailure (bridge : B) (now : ℤ) (window : ℕ)
  | permanentFailure (bridge : B) (now : ℤ)
  | source (bridge : B) (source : List Char) (now : ℤ)
  | circuitSuccess (bridge : B) (now : ℤ)
  | channelSuccess (bridge : B) (now : ℤ)
  | circuitVerified (bridge : B) (now : ℤ)
  | verificationAttempt (bridge : B) (now : ℤ)

def observe (s : Store B K) : Observation B → Store B K
  | .record bridge latency now => recordAt f s bridge latency now
  | .probeRound probed alive now failWindow maxFails maxCircuitFails =>
    (noteProbeRound f s probed alive now failWindow maxFails maxCircuitFails).1
  | .failure bridge now window => (noteFailureAt f s bridge now window).1
  | .circuitFailure bridge now window => (noteCircuitFailureAt f s bridge now window).1
  | .permanentFailure bridge now => notePermanentFailureAt f s bridge now
  | .source bridge source now => noteSourceAt f s bridge source now
  | .circuitSuccess bridge now => noteCircuitSuccessAt f s bridge now
  | .channelSuccess bridge now => noteChannelSuccessAt f s bridge now
  | .circuitVerified bridge now => noteCircuitVerifiedAt f s bridge now
  | .verificationAttempt bridge now => noteVerificationAttemptAt f s bridge now

def observeAll (s : Store B K) (observations : List (Observation B)) : Store B K :=
  observations.foldl (observe f) s

/-! ### What an operation does to the entries -/

section Lookups

variable {f} (s : Store B K) (bridge : B) (change : Entry B → Entry B) (k : K)

theorem get_upsert (fresh : Entry B) : Table.get (upsert f s bridge fresh change) k =
    if k = f.key bridge then some (change ((Table.get s k).getD fresh)) else Table.get s k := by
  unfold upsert
  split_ifs with hk
  · rw [hk, Table.get_insert_self]
  · exact Table.get_insert_of_ne s hk _

theorem get_modify : Table.get (modify f s bridge change) k =
    if k = f.key bridge then (Table.get s k).map change else Table.get s k := by
  unfold modify
  split_ifs with hk
  · subst hk
    cases hget : Table.get s (f.key bridge) with
    | none => exact hget
    | some e => exact Table.get_insert_self s (f.key bridge) (change e)
  · cases Table.get s (f.key bridge) with
    | none => rfl
    | some e => exact Table.get_insert_of_ne s hk (change e)

end Lookups

/-! ### Entries stay under their identities -/

/-- Every entry stands under the identity of its bridge, and its counters fit. -/
def WellKept (s : Store B K) : Prop :=
  ∀ k e, Table.get s k = some e → f.key e.bridge = k ∧ e.Fits

variable {f} {s : Store B K}

theorem wellKept_empty : WellKept f (∅ : Store B K) := by
  intro k e h
  simp at h

theorem WellKept.insert (h : WellKept f s) {k : K} {e : Entry B} (hkey : f.key e.bridge = k)
    (hfits : e.Fits) : WellKept f (Table.insert s k e) := by
  intro k' e' hget
  rcases eq_or_ne k' k with rfl | hk
  · cases (Table.get_insert_self ..).symm.trans hget
    exact ⟨hkey, hfits⟩
  · exact h k' e' ((Table.get_insert_of_ne s hk e).symm.trans hget)

/-- A change that keeps the identity and the bounds, made to an entry that may be new. -/
theorem WellKept.upsert (h : WellKept f s) {bridge : B} {fresh : Entry B}
    {change : Entry B → Entry B} (hfresh : f.key fresh.bridge = f.key bridge ∧ fresh.Fits)
    (hchange : ∀ e, f.key e.bridge = f.key bridge → e.Fits →
      f.key (change e).bridge = f.key bridge ∧ (change e).Fits) :
    WellKept f (upsert f s bridge fresh change) := by
  unfold BridgeStore.upsert
  have hboth : ∀ e, f.key e.bridge = f.key bridge ∧ e.Fits →
      WellKept f (Table.insert s (f.key bridge) (change e)) := fun e he =>
    have hnew := hchange e he.1 he.2
    h.insert hnew.1 hnew.2
  cases hget : Table.get s (f.key bridge) with
  | none => exact hboth fresh hfresh
  | some e => exact hboth e (h _ e hget)

theorem WellKept.modify (h : WellKept f s) {bridge : B} {change : Entry B → Entry B}
    (hchange : ∀ e, f.key e.bridge = f.key bridge → e.Fits →
      f.key (change e).bridge = f.key bridge ∧ (change e).Fits) :
    WellKept f (modify f s bridge change) := by
  unfold BridgeStore.modify
  split
  · next e hget =>
    obtain ⟨hkey, hfits⟩ := hchange e (h _ e hget).1 (h _ e hget).2
    exact h.insert hkey hfits
  · exact h

theorem wellKept_recordAt (h : WellKept f s) (bridge : B) (latency : ℕ) (now : ℤ) :
    WellKept f (recordAt f s bridge latency now) := by
  exact h.upsert ⟨rfl, Entry.fits_fresh _ _ _⟩ fun e _ hfits =>
    ⟨rfl, { hfits with fails := Nat.zero_le _, okCount := bump_le _ }⟩

theorem wellKept_noteFailureAt (h : WellKept f s) (bridge : B) (now : ℤ) (window : ℕ) :
    WellKept f (noteFailureAt f s bridge now window).1 := by
  unfold noteFailureAt
  split
  · next e hget =>
    obtain ⟨hkey, hfits⟩ := h _ e hget
    split
    · exact h.insert hkey { hfits with fails := bump_le _ }
    · exact h
  · exact h.insert rfl ⟨one_le_u32Max, Nat.zero_le _, Nat.zero_le _, Nat.zero_le _, Nat.zero_le _⟩

theorem wellKept_noteCircuitFailureAt (h : WellKept f s) (bridge : B) (now : ℤ) (window : ℕ) :
    WellKept f (noteCircuitFailureAt f s bridge now window).1 := by
  unfold noteCircuitFailureAt
  split
  · next e hget =>
    obtain ⟨hkey, hfits⟩ := h _ e hget
    split
    · exact h.insert hkey { hfits with circuitFails := bump_le _ }
    · exact h
  · exact h.insert rfl ⟨Nat.zero_le _, Nat.zero_le _, Nat.zero_le _, Nat.zero_le _,
      one_le_u32Max⟩

theorem wellKept_prune (h : WellKept f s) (maxFails maxCircuitFails : ℕ) :
    WellKept f (prune s maxFails maxCircuitFails).1 := by
  intro k e hget
  simp only [prune, Table.get_retain] at hget
  exact h k e (Option.filter_eq_some_iff.1 hget).1

theorem wellKept_recorded (h : WellKept f s) (probed : List B) (alive : List (B × ℕ)) (now : ℤ)
    (failWindow : ℕ) : WellKept f (recorded f s probed alive now failWindow) := by
  refine List.foldlRecOn probed _ ?_ fun s hs bridge _ => ?_
  · exact List.foldlRecOn alive _ h fun s hs a _ => wellKept_recordAt hs a.1 a.2 now
  · split
    · exact hs
    · exact wellKept_noteFailureAt hs bridge now failWindow

theorem noteProbeRound_eq (s : Store B K) (probed : List B) (alive : List (B × ℕ)) (now : ℤ)
    (failWindow maxFails maxCircuitFails : ℕ) :
    noteProbeRound f s probed alive now failWindow maxFails maxCircuitFails =
      prune (recorded f s probed alive now failWindow) maxFails maxCircuitFails := rfl

theorem wellKept_noteProbeRound (h : WellKept f s) (probed : List B) (alive : List (B × ℕ))
    (now : ℤ) (failWindow maxFails maxCircuitFails : ℕ) :
    WellKept f (noteProbeRound f s probed alive now failWindow maxFails maxCircuitFails).1 :=
  wellKept_prune (wellKept_recorded h probed alive now failWindow) maxFails maxCircuitFails

/-- **Every operation keeps the entries under their identities** and their counters in bounds. -/
theorem wellKept_observe (h : WellKept f s) (o : Observation B) : WellKept f (observe f s o) := by
  cases o with
  | record => exact wellKept_recordAt h _ _ _
  | probeRound => exact wellKept_noteProbeRound h _ _ _ _ _ _
  | failure => exact wellKept_noteFailureAt h _ _ _
  | circuitFailure => exact wellKept_noteCircuitFailureAt h _ _ _
  | permanentFailure =>
    exact h.upsert ⟨rfl, Entry.fits_fresh _ _ _⟩ fun e hkey hfits =>
      ⟨hkey, { hfits with circuitFails := le_rfl }⟩
  | source =>
    exact h.upsert ⟨rfl, Entry.fits_fresh _ _ _⟩ fun e hkey hfits => ⟨hkey, { hfits with }⟩
  | circuitSuccess =>
    exact h.modify fun e hkey hfits => ⟨hkey, { hfits with circuitFails := Nat.zero_le _ }⟩
  | channelSuccess =>
    exact h.modify fun e hkey hfits => ⟨hkey, { hfits with channelOkCount := bump_le _ }⟩
  | circuitVerified =>
    exact h.modify fun e hkey hfits => ⟨hkey, { hfits with verifiedCount := bump_le _ }⟩
  | verificationAttempt => exact h.modify fun e hkey hfits => ⟨hkey, { hfits with }⟩

theorem wellKept_observeAll (h : WellKept f s) (observations : List (Observation B)) :
    WellKept f (observeAll f s observations) := by
  induction observations generalizing s with
  | nil => exact h
  | cons o os ih => exact ih (wellKept_observe h o)

end BridgeStore
