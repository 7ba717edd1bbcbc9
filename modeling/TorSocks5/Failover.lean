/-
**The soft-failover watchdog.**

At every tick this watchdog looks at the bridges that are in use and tells the guard manager that a
bridge has failed, if many circuits through it failed and there is a clearly healthier alternative.
Such a signal takes a bridge out of rotation, so the watchdog must not signal the whole pool away: a
signal needs evidence of this run, a bridge is signalled only so often and after a cooldown, and the
healthiest bridges are never signalled.
-/

import Mathlib
import TorSocks5.Machine
import TorSocks5.Table
import TorSocks5.TopK

set_option autoImplicit false

namespace Failover

open List

/-! ### The ranking of the bridge warmer -/

/-- What the store knows of a bridge; `cobs` is the time of the last circuit observation. -/
structure Health where
  tcpFails : ℕ
  circuitFails : ℕ
  verifiedCount : ℕ
  okCount : ℕ
  cobs : Option ℤ
  deriving DecidableEq

/-- The warming rank, best first. -/
def warmingRank (a b : Health) : Ordering :=
  ((compare a.circuitFails b.circuitFails).then
    (compare b.verifiedCount a.verifiedCount)).then (compare b.okCount a.okCount)

/-- A candidate that answers probes, with its place in the input. -/
structure RankedCandidate (B : Type*) where
  position : ℕ
  bridge : B
  health : Health

section Ranking

variable {B : Type*}

def RankedCandidate.cmp (a b : RankedCandidate B) : Ordering :=
  (warmingRank a.health b.health).then (compare a.position b.position)

/-- A candidate is at least as good as another. -/
def RankedCandidate.Le (a b : RankedCandidate B) : Prop := (a.cmp b).isLE = true

instance : DecidableRel (RankedCandidate.Le (B := B)) :=
  fun a b => inferInstanceAs (Decidable ((a.cmp b).isLE = true))

instance : Std.TransCmp (RankedCandidate.cmp (B := B)) :=
  inferInstanceAs (Std.TransCmp (compareLex
    (compareLex (compareLex (compareOn fun c : RankedCandidate B => c.health.circuitFails)
        fun a b => compareOn (fun c : RankedCandidate B => c.health.verifiedCount) b a)
      fun a b => compareOn (fun c : RankedCandidate B => c.health.okCount) b a)
    (compareOn RankedCandidate.position)))

instance : Std.Total (RankedCandidate.Le (B := B)) := by
  refine ⟨fun a b => ?_⟩
  unfold RankedCandidate.Le
  have hswap : b.cmp a = (a.cmp b).swap := Std.OrientedCmp.eq_swap
  rw [hswap]
  cases a.cmp b <;> simp

instance : IsTrans (RankedCandidate B) RankedCandidate.Le :=
  ⟨fun _ _ _ hab hbc => Std.TransCmp.isLE_trans hab hbc⟩

/-- The candidates that answer probes. -/
def ranked (candidates : List (B × Health)) : List (RankedCandidate B) :=
  (candidates.zipIdx.filter fun c => c.1.2.tcpFails = 0).map fun c => ⟨c.2, c.1.1, c.1.2⟩

def selectTopN (candidates : List (B × Health)) (n : ℕ) : List B :=
  (TopK.takeBest RankedCandidate.Le (ranked candidates) n).map RankedCandidate.bridge

variable (display : B → List Char)

/-- The health of the best candidate, which is found by its text. -/
def healthiest (candidates : List (B × Health)) : Option Health :=
  (selectTopN candidates 1).head?.bind fun winner =>
    (candidates.find? fun c => display c.1 = display winner).map Prod.snd

theorem mem_ranked {candidates : List (B × Health)} {x : RankedCandidate B}
    (h : x ∈ ranked candidates) : (x.bridge, x.health) ∈ candidates ∧ x.health.tcpFails = 0 := by
  obtain ⟨⟨⟨b, health⟩, i⟩, hc, rfl⟩ := mem_map.1 h
  obtain ⟨hmem, htcp⟩ := mem_filter.1 hc
  exact ⟨mem_of_getElem? (mem_zipIdx_iff_getElem?.1 hmem), by simpa using htcp⟩

theorem exists_mem_ranked {candidates : List (B × Health)} {c : B × Health}
    (h : c ∈ candidates) (htcp : c.2.tcpFails = 0) :
    ∃ x ∈ ranked candidates, x.health = c.2 := by
  obtain ⟨i, hi, rfl⟩ := getElem_of_mem h
  refine ⟨⟨i, candidates[i].1, candidates[i].2⟩, ?_, rfl⟩
  refine mem_map.2 ⟨(candidates[i], i), mem_filter.2 ⟨?_, by simpa using htcp⟩, rfl⟩
  exact mem_zipIdx_iff_getElem?.2 (getElem?_eq_getElem hi)

theorem circuitFails_le_of_le {a b : RankedCandidate B} (h : a.Le b) :
    a.health.circuitFails ≤ b.health.circuitFails := by
  by_contra hlt
  have hgt : compare a.health.circuitFails b.health.circuitFails = .gt :=
    compare_gt_iff_gt.2 (not_le.1 hlt)
  simp [RankedCandidate.Le, RankedCandidate.cmp, warmingRank, hgt] at h

/-- The best candidate answers probes, and no other that does has fewer failed circuits. -/
theorem healthiest_spec {candidates : List (B × Health)} {best : Health}
    (hdistinct : (candidates.map fun c => display c.1).Nodup)
    (h : healthiest display candidates = some best) :
    (∃ c ∈ candidates, c.2 = best ∧ c.2.tcpFails = 0) ∧
      ∀ c ∈ candidates, c.2.tcpFails = 0 → best.circuitFails ≤ c.2.circuitFails := by
  rcases TopK.takeBest_one (r := RankedCandidate.Le) (ranked candidates) with
    ⟨-, hnone⟩ | ⟨x, hx, hmem, hbest⟩
  · simp [healthiest, selectTopN, hnone] at h
  · obtain ⟨hcand, htcp⟩ := mem_ranked hmem
    simp only [healthiest, selectTopN, hx, map_cons, map_nil, head?_cons,
      Option.bind_some, Option.map_eq_some_iff] at h
    obtain ⟨c, hfind, rfl⟩ := h
    have hc : c ∈ candidates := mem_of_find?_eq_some hfind
    have htext : display c.1 = display x.bridge := by simpa using find?_some hfind
    -- the text determines the candidate
    obtain rfl := inj_on_of_nodup_map hdistinct hc hcand htext
    refine ⟨⟨_, hc, rfl, htcp⟩, ?_⟩
    intro c' hc' htcp'
    obtain ⟨y, hy, hyhealth⟩ := exists_mem_ranked hc' htcp'
    rw [← hyhealth]
    exact circuitFails_le_of_le (hbest y hy)

end Ranking

/-! ### The rules -/

/-- The part of the reloaded configuration that the loop reads. -/
structure Config where
  failoverMinCircuitFails : ℕ
  failoverMinMargin : ℕ

def shouldSignalFailover (currentCircuitFails bestAlternativeCircuitFails threshold minMargin : ℕ) :
    Bool :=
  if currentCircuitFails < threshold then false
  else minMargin ≤ currentCircuitFails - bestAlternativeCircuitFails

def maxSignalsPerBridge : ℕ := 3

/-- What the loop remembers of a bridge. -/
structure SignalRecord where
  last : Option ℕ
  count : ℕ
  exhaustedLogged : Bool

instance : Inhabited SignalRecord := ⟨⟨none, 0, false⟩⟩

def evidenceIsFresh (cobs : Option ℤ) (taskStart : ℤ) :
    Bool := cobs.any fun cobs => taskStart < cobs

def signalBudgetAvailable (signalsSent : ℕ) : Bool := signalsSent < maxSignalsPerBridge

theorem shouldSignalFailover_of_le {current best threshold minMargin : ℕ} (hle : current ≤ best)
    (hmargin : 1 ≤ minMargin) : shouldSignalFailover current best threshold minMargin = false := by
  unfold shouldSignalFailover
  split
  · rfl
  · rw [decide_eq_false_iff_not]
    omega

/-! ### The loop -/

/-- What the consideration of a candidate meets: how long it is since the one before, whether the
signal succeeds, and how long it takes. -/
structure Call where
  wait : ℕ
  succeeds : Bool
  duration : ℕ

/-- What a tick meets. -/
structure Tick (B : Type*) where
  wait : ℕ
  tunnel : Bool
  /-- The configuration, unless it cannot be loaded. -/
  config : Option Config
  /-- The configured bridges with their health. -/
  configured : List (B × Health)
  active : List B
  /-- The calls, by the position of the candidate. -/
  calls : ℕ → Call

/-- A signal that was sent, with the time of the check and the time after it. -/
structure Signal where
  line : List Char
  health : Health
  start : ℕ
  stop : ℕ
  succeeded : Bool

/-- The variables of the loop, with the time and the signals, the latest first. -/
structure State where
  signalled : Table (List Char) SignalRecord
  clock : ℕ
  signals : List Signal

def State.start (clock : ℕ) : State := ⟨∅, clock, []⟩

/-- The record of a bridge line. -/
def State.record (s : State) (line : List Char) :
    SignalRecord := (s.signalled.get line).getD default

/-- Time passes. -/
def State.pause (s : State) (wait : ℕ) : State := { s with clock := s.clock + wait }

/-- The record of a bridge line is written. -/
def State.write (s : State) (line : List Char) (record : SignalRecord) : State :=
  { s with signalled := s.signalled.insert line record }

/-- A bridge is signalled. -/
def signalBridgeFailure (s : State) (line : List Char) (health : Health) (call : Call) : State :=
  let stop := s.clock + call.duration
  let record := s.record line
  { signalled := s.signalled.insert line
      (if call.succeeds then { record with last := some stop, count := record.count + 1 }
        else record)
    clock := stop
    signals := ⟨line, health, s.clock, stop, call.succeeds⟩ :: s.signals }

/-- A degraded bridge: the cooldown and the budget are checked. -/
def signalWithin (cooldown : ℕ) (s : State) (line : List Char) (health : Health) (call : Call) :
    State :=
  let record := s.record line
  if record.last.any fun last => s.clock - last < cooldown then s.write line record
  else if signalBudgetAvailable record.count = false then
    s.write line { record with exhaustedLogged := true }
  else signalBridgeFailure s line health call

variable {B : Type*} [DecidableEq B] (display : B → List Char) (cooldown : ℕ) (taskStart : ℤ)

/-- The candidates other than the one at a position. -/
def alternatives (candidates : List (B × Health)) (idx : ℕ) : List (B × Health) :=
  (candidates.zipIdx.filter fun c => c.2 ≠ idx).map Prod.fst

/-- The turn of the inner loop for a candidate. -/
def consider (cfg : Config) (calls : ℕ → Call) (candidates : List (B × Health)) (s : State)
    (entry : (B × Health) × ℕ) : State :=
  let s := s.pause (calls entry.2).wait
  let health := entry.1.2
  if health.circuitFails < cfg.failoverMinCircuitFails then s
  else if evidenceIsFresh health.cobs taskStart = false then s
  else
    match healthiest display (alternatives candidates entry.2) with
    | none => s
    | some best =>
      if shouldSignalFailover health.circuitFails best.circuitFails cfg.failoverMinCircuitFails
          cfg.failoverMinMargin = false then s
      else signalWithin cooldown s (display entry.1.1) health (calls entry.2)

/-- The candidates of a tick: the configured bridges that are in use. -/
def Tick.candidates (t : Tick B) : List (B × Health) := t.configured.filter fun c => c.1 ∈ t.active

/-- One turn of the loop. -/
def tick (s : State) (t : Tick B) : State :=
  let s := s.pause t.wait
  if t.tunnel = false then s
  else
    match t.config with
    | none => s
    | some cfg =>
      if t.candidates.length < 2 then s
      else t.candidates.zipIdx.foldl
        (consider display cooldown taskStart cfg t.calls t.candidates) s

def failover : Machine State (Tick B) := ⟨fun s t => some (tick display cooldown taskStart s t)⟩

/-! ### What a consideration can do -/

theorem State.record_write (s : State) (line line' : List Char) (record : SignalRecord) :
    (s.write line record).record line' = if line' = line then record else s.record line' := by
  unfold State.record State.write
  rw [Table.get_insert]
  split_ifs <;> rfl

/-- The record of a line after a signal. -/
theorem record_signalBridgeFailure (s : State) (line line' : List Char) (health : Health)
    (call : Call) : (signalBridgeFailure s line health call).record line' =
      if line' = line ∧ call.succeeds = true then
        { s.record line with
          last := some (s.clock + call.duration), count := (s.record line).count + 1 }
      else s.record line' := by
  refine (s.record_write line line' _).trans ?_
  rcases eq_or_ne line' line with rfl | hline
  · cases call.succeeds <;> simp
  · simp [hline]

/-- A candidate is degraded, on fresh evidence, against the best of the others. -/
structure Degraded (cfg : Config) (candidates : List (B × Health)) (entry : (B × Health) × ℕ) :
    Prop where
  fresh : evidenceIsFresh entry.1.2.cobs taskStart = true
  worse : ∃ best, healthiest display (alternatives candidates entry.2) = some best ∧
    shouldSignalFailover entry.1.2.circuitFails best.circuitFails cfg.failoverMinCircuitFails
      cfg.failoverMinMargin = true

/-- A candidate is left alone or signalled. -/
inductive Considered (cfg : Config) (candidates : List (B × Health)) (s : State)
    (entry : (B × Health) × ℕ) : State → Prop
  | left {t : State} : t.signals = s.signals → s.clock ≤ t.clock →
      (∀ line, (t.record line).last = (s.record line).last ∧
        (t.record line).count = (s.record line).count) →
      Considered cfg candidates s entry t
  | signalled {wait : ℕ} {call : Call} :
      Degraded display taskStart cfg candidates entry →
      (∀ last, (s.record (display entry.1.1)).last = some last →
        ¬ s.clock + wait - last < cooldown) →
      (s.record (display entry.1.1)).count < maxSignalsPerBridge →
      Considered cfg candidates s entry
        (signalBridgeFailure (s.pause wait) (display entry.1.1) entry.1.2 call)

variable {display cooldown taskStart}

omit [DecidableEq B] in
theorem Considered.of_write {cfg : Config} {candidates : List (B × Health)} {s : State}
    {entry : (B × Health) × ℕ} (wait : ℕ) (line : List Char) (exhaustedLogged : Bool) :
    Considered display cooldown taskStart cfg candidates s entry ((s.pause wait).write line
      { s.record line with exhaustedLogged := exhaustedLogged }) := by
  refine .left rfl (Nat.le_add_right _ _) fun line' => ?_
  rw [State.record_write]
  split_ifs with h
  · subst h
    exact ⟨rfl, rfl⟩
  · exact ⟨rfl, rfl⟩

omit [DecidableEq B] in
theorem consider_cases (cfg : Config) (calls : ℕ → Call) (candidates : List (B × Health))
    (s : State) (entry : (B × Health) × ℕ) :
    Considered display cooldown taskStart cfg candidates s entry
      (consider display cooldown taskStart cfg calls candidates s entry) := by
  have hleft : Considered display cooldown taskStart cfg candidates s entry
      (s.pause (calls entry.2).wait) :=
    .left rfl (Nat.le_add_right _ _) fun _ => ⟨rfl, rfl⟩
  unfold consider
  dsimp only
  split
  · exact hleft
  split
  · exact hleft
  next hfresh =>
  split
  · exact hleft
  next best hbest =>
  split
  · exact hleft
  next hsignal =>
  unfold signalWithin
  dsimp only
  split
  · exact Considered.of_write _ _ (s.record (display entry.1.1)).exhaustedLogged
  next hcool =>
  split
  · exact Considered.of_write _ _ true
  next hbudget =>
  refine .signalled ⟨Bool.eq_true_of_not_eq_false hfresh, best, hbest,
    Bool.eq_true_of_not_eq_false hsignal⟩ (fun last hlast helapsed => hcool ?_) ?_
  · have hrecord : ((s.pause (calls entry.2).wait).record (display entry.1.1)).last =
        some last := hlast
    rw [hrecord]
    exact decide_eq_true helapsed
  · exact of_decide_eq_true (Bool.eq_true_of_not_eq_false hbudget)

/-! ### What holds of every run -/

/-- How often a bridge line was signalled with success. -/
def successes (line : List Char) (signals : List Signal) : ℕ :=
  signals.countP fun g => g.line = line && g.succeeded

/-- Every signal is far enough from every earlier one of the same line that succeeded. -/
def Spaced (cooldown : ℕ) (signals : List Signal) : Prop :=
  signals.Pairwise fun g e => e.line = g.line → e.succeeded = true → e.stop + cooldown ≤ g.start

/-- What the loop keeps of its signals. -/
structure Bounded (cooldown : ℕ) (taskStart : ℤ) (s : State) : Prop where
  past : ∀ line last, (s.record line).last = some last → last ≤ s.clock
  last : ∀ g ∈ s.signals, g.succeeded = true →
    ∃ last, (s.record g.line).last = some last ∧ g.stop ≤ last
  count : ∀ line, (s.record line).count = successes line s.signals
  budget : ∀ line, successes line s.signals ≤ maxSignalsPerBridge
  spaced : Spaced cooldown s.signals
  fresh : ∀ g ∈ s.signals, evidenceIsFresh g.health.cobs taskStart = true

theorem bounded_start (clock : ℕ) : Bounded cooldown taskStart (.start clock) where
  past := by simp [State.record, State.start, default]
  last := by simp [State.start]
  count _ := rfl
  budget _ := Nat.zero_le _
  spaced := List.Pairwise.nil
  fresh := by simp [State.start]

section Steps

variable {cfg : Config} {candidates : List (B × Health)} {s t : State}
  {entry : (B × Health) × ℕ}

/-- Nothing but the flag of a record and the time has changed. -/
theorem Bounded.of_left (h : Bounded cooldown taskStart s) (hsignals : t.signals = s.signals)
    (hclock : s.clock ≤ t.clock) (hrecord : ∀ line, (t.record line).last = (s.record line).last ∧
      (t.record line).count = (s.record line).count) : Bounded cooldown taskStart t where
  past line last hlast := (h.past line last ((hrecord line).1 ▸ hlast)).trans hclock
  last g hg hsucc := (hrecord g.line).1 ▸ h.last g (hsignals ▸ hg) hsucc
  count line := by
    rw [(hrecord line).2, hsignals]
    exact h.count line
  budget := hsignals ▸ h.budget
  spaced := hsignals ▸ h.spaced
  fresh := hsignals ▸ h.fresh

theorem successes_signal (s : State) (line line' : List Char) (health : Health) (call : Call) :
    successes line' (signalBridgeFailure s line health call).signals =
      successes line' s.signals + if line' = line ∧ call.succeeds = true then 1 else 0 := by
  simp only [successes, signalBridgeFailure, countP_cons, Bool.and_eq_true,
    decide_eq_true_eq, eq_comm (a := line)]

theorem Bounded.signalled (h : Bounded cooldown taskStart s) {wait : ℕ} {call : Call}
    {line : List Char} {health : Health} (hfresh : evidenceIsFresh health.cobs taskStart = true)
    (hcool : ∀ last, (s.record line).last = some last → ¬ s.clock + wait - last < cooldown)
    (hbudget : (s.record line).count < maxSignalsPerBridge) :
    Bounded cooldown taskStart (signalBridgeFailure (s.pause wait) line health call) := by
  constructor
  case past =>
    intro line' last hlast
    rw [record_signalBridgeFailure] at hlast
    split_ifs at hlast
    · cases hlast
      exact le_refl _
    · exact (h.past line' last hlast).trans (by simp [signalBridgeFailure, State.pause]; omega)
  case last =>
    intro g hg hsucc
    rw [record_signalBridgeFailure]
    rcases mem_cons.1 hg with rfl | hg
    · rw [if_pos ⟨rfl, hsucc⟩]
      exact ⟨_, rfl, le_refl _⟩
    · obtain ⟨last, hlast, hstop⟩ := h.last g hg hsucc
      split_ifs
      · have hpast := h.past _ _ hlast
        exact ⟨_, rfl, by simp only [State.pause]; omega⟩
      · exact ⟨last, hlast, hstop⟩
  case count =>
    intro line'
    have hcount := h.count line'
    rw [record_signalBridgeFailure, successes_signal]
    split_ifs with hit
    · obtain ⟨rfl, -⟩ := hit
      exact congrArg (· + 1) hcount
    · exact hcount
  case budget =>
    intro line'
    have hle := h.budget line'
    have hcount := h.count line'
    rw [successes_signal, show (s.pause wait).signals = s.signals from rfl]
    split_ifs with hit
    · obtain ⟨rfl, -⟩ := hit
      omega
    · exact hle
  case spaced =>
    refine pairwise_cons.2 ⟨fun e he hline hsucc => ?_, h.spaced⟩
    obtain ⟨last, hlast, hstop⟩ := h.last e he hsucc
    rw [hline] at hlast
    have hpast := h.past _ _ hlast
    have helapsed := hcool last hlast
    simp only [State.pause]
    omega
  case fresh => exact forall_mem_cons.2 ⟨hfresh, h.fresh⟩

omit [DecidableEq B] in
theorem bounded_considered (h : Bounded cooldown taskStart s)
    (hstep : Considered display cooldown taskStart cfg candidates s entry t) :
    Bounded cooldown taskStart t := by
  cases hstep with
  | left hsignals hclock hrecord => exact h.of_left hsignals hclock hrecord
  | signalled hdegraded hcool hbudget => exact h.signalled hdegraded.fresh hcool hbudget

omit [DecidableEq B] in
theorem Considered.signals (h : Considered display cooldown taskStart cfg candidates s entry t) :
    ∃ new, t.signals = new ++ s.signals ∧ ∀ g ∈ new,
      Degraded display taskStart cfg candidates entry ∧ g.line = display entry.1.1 ∧
        g.health = entry.1.2 := by
  cases h with
  | left hsignals _ _ => exact ⟨[], hsignals, by simp⟩
  | signalled hdegraded _ _ =>
    exact ⟨[_], rfl, forall_mem_singleton.2 ⟨hdegraded, rfl, rfl⟩⟩

variable (display) in
omit [DecidableEq B] in
/-- The inner loop keeps the bounds, and its signals are for degraded candidates. -/
theorem foldl_consider (cfg : Config) (calls : ℕ → Call) (candidates : List (B × Health))
    (entries : List ((B × Health) × ℕ)) : ∀ s, Bounded cooldown taskStart s →
      let t := entries.foldl (consider display cooldown taskStart cfg calls candidates) s
      Bounded cooldown taskStart t ∧ ∃ new, t.signals = new ++ s.signals ∧ ∀ g ∈ new,
        ∃ entry ∈ entries, Degraded display taskStart cfg candidates entry ∧
          g.line = display entry.1.1 ∧ g.health = entry.1.2 := by
  induction entries with
  | nil => exact fun s h => ⟨h, [], rfl, by simp⟩
  | cons entry entries ih =>
    intro s h
    have hstep : Considered display cooldown taskStart cfg candidates s entry _ :=
      consider_cases cfg calls candidates s entry
    obtain ⟨first, hfirst, hentry⟩ := hstep.signals
    obtain ⟨hbounded, rest, hrest, hentries⟩ := ih _ (bounded_considered h hstep)
    refine ⟨hbounded, rest ++ first, ?_, forall_mem_append.2 ⟨fun g hg => ?_, fun g hg => ?_⟩⟩
    · rw [foldl_cons, hrest, hfirst, append_assoc]
    · obtain ⟨entry', hmem, hdegraded⟩ := hentries g hg
      exact ⟨entry', mem_cons_of_mem _ hmem, hdegraded⟩
    · exact ⟨entry, mem_cons_self, hentry g hg⟩

variable (display) in
/-- A tick keeps the bounds, and its signals are for degraded candidates of the tick. -/
theorem bounded_tick (h : Bounded cooldown taskStart s) (t : Tick B) :
    let s' := tick display cooldown taskStart s t
    Bounded cooldown taskStart s' ∧ ∃ new, s'.signals = new ++ s.signals ∧ ∀ g ∈ new,
      ∃ cfg entry, t.config = some cfg ∧ entry ∈ t.candidates.zipIdx ∧
        Degraded display taskStart cfg t.candidates entry ∧
        g.line = display entry.1.1 ∧ g.health = entry.1.2 := by
  have hpause : Bounded cooldown taskStart (s.pause t.wait) :=
    h.of_left rfl (Nat.le_add_right _ _) fun _ => ⟨rfl, rfl⟩
  unfold tick
  dsimp only
  split
  · exact ⟨hpause, [], rfl, by simp⟩
  split
  · exact ⟨hpause, [], rfl, by simp⟩
  next cfg hcfg =>
  split
  · exact ⟨hpause, [], rfl, by simp⟩
  obtain ⟨hbounded, new, hnew, hfrom⟩ :=
    foldl_consider display cfg t.calls t.candidates t.candidates.zipIdx _ hpause
  refine ⟨hbounded, new, hnew, fun g hg => ?_⟩
  obtain ⟨entry, hmem, hdegraded⟩ := hfrom g hg
  exact ⟨cfg, entry, hcfg, hmem, hdegraded⟩

end Steps

theorem bounded_of_run {clock : ℕ} {ts : List (Tick B)} {s : State}
    (h : (failover display cooldown taskStart).Run Machine.anyStep (.start clock) ts s) :
    Bounded cooldown taskStart s := by
  refine h.invariant ?_ (bounded_start clock)
  rintro u t v hu - ⟨⟩
  exact (bounded_tick display hu t).1

/-! ### The healthiest bridges -/

omit [DecidableEq B] in
theorem mem_alternatives {candidates : List (B × Health)} {idx : ℕ} {c : B × Health}
    (h : c ∈ alternatives candidates idx) : c ∈ candidates := by
  obtain ⟨⟨c', i⟩, hmem, rfl⟩ := mem_map.1 h
  exact mem_of_getElem? (mem_zipIdx_iff_getElem?.1 (mem_filter.1 hmem).1)

omit [DecidableEq B] in
theorem nodup_alternatives {candidates : List (B × Health)}
    (h : (candidates.map fun c => display c.1).Nodup) (idx : ℕ) :
    ((alternatives candidates idx).map fun c => display c.1).Nodup := by
  have hsub : (alternatives candidates idx).Sublist candidates := by
    have := (filter_sublist (l := candidates.zipIdx) (p := fun c => c.2 ≠ idx)).map Prod.fst
    rwa [zipIdx_map_fst] at this
  exact h.sublist (hsub.map _)

omit [DecidableEq B] in
theorem not_degraded {cfg : Config} {candidates : List (B × Health)} {entry : (B × Health) × ℕ}
    (hmargin : 1 ≤ cfg.failoverMinMargin)
    (hdistinct : (candidates.map fun c => display c.1).Nodup)
    (hleast : ∀ c ∈ candidates, c.2.tcpFails = 0 → entry.1.2.circuitFails ≤ c.2.circuitFails) :
    ¬ Degraded display taskStart cfg candidates entry := by
  rintro ⟨-, best, hbest, hsignal⟩
  obtain ⟨⟨c, hc, rfl, htcp⟩, -⟩ :=
    healthiest_spec display (nodup_alternatives hdistinct entry.2) hbest
  rw [shouldSignalFailover_of_le (hleast c (mem_alternatives hc) htcp) hmargin] at hsignal
  exact Bool.false_ne_true hsignal

/-- **The pool is spared.**  In every run a bridge line is signalled with success at most three
times, every signal is a cooldown away from the earlier ones of its line that succeeded, and every
signal rests on evidence that is newer than the task.  And at a tick with a positive margin and
distinct lines, the signals are for candidates of the tick, none of them for one with no more failed
circuits than any candidate that answers probes; so if one answers, at least one of those is not
signalled. -/
theorem spares_pool (clock : ℕ) (ts : List (Tick B)) (s : State)
    (hrun : (failover display cooldown taskStart).Run Machine.anyStep (.start clock) ts s) :
    (∀ line, successes line s.signals ≤ maxSignalsPerBridge) ∧ Spaced cooldown s.signals ∧
    (∀ g ∈ s.signals, ∃ cobs, g.health.cobs = some cobs ∧ taskStart < cobs) ∧
    ∀ t : Tick B, (∀ cfg, t.config = some cfg → 1 ≤ cfg.failoverMinMargin) →
      (t.configured.map fun c => display c.1).Nodup →
      ∃ new, (tick display cooldown taskStart s t).signals = new ++ s.signals ∧
        (∀ g ∈ new, ∃ c ∈ t.candidates, g.line = display c.1 ∧ g.health = c.2) ∧
        (∀ c ∈ t.candidates,
          (∀ c' ∈ t.candidates, c'.2.tcpFails = 0 → c.2.circuitFails ≤ c'.2.circuitFails) →
          ∀ g ∈ new, g.line ≠ display c.1) ∧
        ((∃ c ∈ t.candidates, c.2.tcpFails = 0) →
          ∃ c ∈ t.candidates, c.2.tcpFails = 0 ∧ ∀ g ∈ new, g.line ≠ display c.1) := by
  have hbounded := bounded_of_run hrun
  refine ⟨hbounded.budget, hbounded.spaced, ?_, ?_⟩
  · intro g hg
    simpa [evidenceIsFresh, Option.any_eq_true] using hbounded.fresh g hg
  intro t hmargin hdistinct
  have hdistinct' : (t.candidates.map fun c => display c.1).Nodup :=
    hdistinct.sublist (List.filter_sublist.map _)
  obtain ⟨-, new, hnew, hfrom⟩ := bounded_tick display hbounded t
  have hspared : ∀ c ∈ t.candidates,
      (∀ c' ∈ t.candidates, c'.2.tcpFails = 0 → c.2.circuitFails ≤ c'.2.circuitFails) →
      ∀ g ∈ new, g.line ≠ display c.1 := by
    intro c hc hleast g hg hline
    obtain ⟨cfg, entry, hcfg, hmem, hdegraded, hentry, -⟩ := hfrom g hg
    have hsame : entry.1 = c := List.inj_on_of_nodup_map hdistinct'
      (List.mem_of_getElem? (List.mem_zipIdx_iff_getElem?.1 hmem)) hc (hentry.symm.trans hline)
    subst hsame
    exact not_degraded (hmargin cfg hcfg) hdistinct' hleast hdegraded
  refine ⟨new, hnew, ?_, hspared, ?_⟩
  · intro g hg
    obtain ⟨cfg, entry, -, hmem, -, hline, hhealth⟩ := hfrom g hg
    exact ⟨entry.1, List.mem_of_getElem? (List.mem_zipIdx_iff_getElem?.1 hmem), hline, hhealth⟩
  · rintro ⟨c₀, hc₀, htcp₀⟩
    -- a candidate with the fewest failed circuits among those that answer
    have hsome : ∃ n, ∃ c ∈ t.candidates, c.2.tcpFails = 0 ∧ c.2.circuitFails = n :=
      ⟨_, c₀, hc₀, htcp₀, rfl⟩
    classical
    obtain ⟨c, hc, htcp, hleast⟩ := Nat.find_spec hsome
    refine ⟨c, hc, htcp, hspared c hc ?_⟩
    intro c' hc' htcp'
    rw [hleast]
    exact Nat.find_min' hsome ⟨c', hc', htcp', rfl⟩

/-- A tick with a degraded bridge and a healthy one. -/
def sampleTick : Tick (List Char) where
  wait := 60
  tunnel := true
  config := some ⟨3, 2⟩
  configured := [("a".toList, ⟨0, 5, 0, 1, some 7⟩), ("b".toList, ⟨0, 0, 1, 1, none⟩)]
  active := ["a".toList, "b".toList]
  calls := fun _ => ⟨0, true, 1⟩

/-- Two such ticks within the cooldown: the degraded bridge is signalled once, and a third tick
after the cooldown does not signal the other one. -/
theorem spares_pool_sampleTick : ∃ s,
    (failover id 100 3).Run Machine.anyStep (.start 0) [sampleTick, sampleTick] s ∧
    s.signals.map Signal.line = ["a".toList] ∧ successes "a".toList s.signals ≤ 3 ∧
    ∃ new, (tick id 100 3 s sampleTick).signals = new ++ s.signals ∧
      ∀ g ∈ new, g.line ≠ "b".toList := by
  have hrun : (failover id 100 3).Run Machine.anyStep (.start 0) [sampleTick, sampleTick] _ :=
    Machine.Run.of_exec rfl
  obtain ⟨hbudget, -, -, htick⟩ := spares_pool 0 _ _ hrun
  obtain ⟨new, hnew, -, hspared, -⟩ := htick sampleTick (by
    intro cfg hcfg
    cases hcfg
    decide) (by decide)
  refine ⟨_, hrun, by decide +kernel, hbudget _, new, hnew, ?_⟩
  exact hspared ("b".toList, ⟨0, 0, 1, 1, none⟩) (by decide +kernel) (by
    intro c _ _
    exact Nat.zero_le _)

end Failover
