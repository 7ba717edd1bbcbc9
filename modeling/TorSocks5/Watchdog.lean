/-
**The stale-channel watchdog.**

At every tick the watchdog compares the counters of the tunnel with those of the tick before.  If no
connection has succeeded for a while although attempts are made and bridges answer, it heals: it
terminates all channels and sees whether the client connects again.  Two things hold it back.  A
*gate* declines when the failures of the tick are of a kind that new channels do not cure, but only
so many times in a row; and a *cooldown* keeps heals apart, a longer one after three failed heals in
a row.
-/

import Mathlib
import TorSocks5.Machine

set_option autoImplicit false

namespace Watchdog

/-! ### The rules -/

def u32Max : ℕ := 2 ^ 32 - 1

/-- A second, in nanoseconds. -/
def second : ℕ := 1000000000

def minAttemptsToTrigger : ℕ := 3

def consecutiveFailuresBeforeBackoff : ℕ := 3

def extendedRebuildCooldown : ℕ := 30 * 60 * second

def gatedTicksBeforeOverride : ℕ := 2

def shouldDeclineRebuild (newRemoteTimeout newAccessFailed newNetTimeout : ℕ) : Bool :=
  if newRemoteTimeout = 0 ∧ newAccessFailed = 0 ∧ newNetTimeout = 0 then false
  else
    let netIsStrictMax := newNetTimeout > newRemoteTimeout && newNetTimeout > newAccessFailed
    !netIsStrictMax && (newRemoteTimeout > 0 || newAccessFailed > 0)

def shouldOverrideDecline (gatedTicks : ℕ) : Bool := gatedTicksBeforeOverride ≤ gatedTicks

def stepGatedTicks (gatedTicks : ℕ) (gateDeclined : Bool) : ℕ :=
  if gateDeclined then min (gatedTicks + 1) u32Max else gatedTicks

def resetGatedTicksOnSuccess (gatedTicks : ℕ) (successSincePrevTick : Bool) : ℕ :=
  if successSincePrevTick then 0 else gatedTicks

structure Config where
  staleAfterSecs : ℕ
  rebuildCooldownSecs : ℕ

/-- The configured cooldown, in nanoseconds. -/
def Config.cooldown (cfg : Config) : ℕ := cfg.rebuildCooldownSecs * second

inductive HealResult
  | healed
  | stillUnhealthy
  | terminateFailed
  deriving DecidableEq

/-! ### The loop -/

/-- The counters of the tunnel. -/
structure Health where
  lastSuccess : ℕ
  attempts : ℕ
  remoteTimeout : ℕ
  accessFailed : ℕ
  netTimeout : ℕ

/-- What a tick meets: the wall clock, the counters, the bridges, how long it is since the tick
before, the tunnel, and the heal if there is one. -/
structure Reading extends Health where
  nowSecs : ℕ
  alive : ℕ
  wait : ℕ
  tunnel : Bool
  result : HealResult
  duration : ℕ

/-- A performed heal: when it began and ended, and what came of it. -/
structure Heal where
  start : ℕ
  stop : ℕ
  result : HealResult

/-- What is true of a tick. -/
structure Record where
  /-- The three conditions held. -/
  triggered : Bool
  /-- They held, and the gate declined. -/
  declined : Bool
  /-- The effective cooldown had elapsed. -/
  elapsed : Bool
  tunnel : Bool
  /-- A success was observed since the tick before. -/
  succeeded : Bool
  healed : Bool

/-- The variables of the loop, with the time, the heals and the ticks, the latest first. -/
structure State where
  prev : Health
  gatedTicks : ℕ
  lastRebuild : Option ℕ
  consecutiveFailures : ℕ
  clock : ℕ
  heals : List Heal
  log : List Record

/-- The loop is entered. -/
def State.start (health : Health) (clock : ℕ) : State := ⟨health, 0, none, 0, clock, [], []⟩

/-- No success within the stale window, enough attempts, and a bridge that answers. -/
def triggered (cfg : Config) (startedSecs : ℕ) (s : State) (r : Reading) : Bool :=
  let anchor := if r.lastSuccess ≠ 0 then r.lastSuccess else startedSecs
  let sinceAnchor := r.nowSecs - anchor
  !(sinceAnchor < cfg.staleAfterSecs) &&
    !(r.attempts - s.prev.attempts < minAttemptsToTrigger) && r.alive ≠ 0

def gateDeclined (s : State) (r : Reading) : Bool :=
  shouldDeclineRebuild (r.remoteTimeout - s.prev.remoteTimeout)
    (r.accessFailed - s.prev.accessFailed) (r.netTimeout - s.prev.netTimeout)

def effectiveCooldown (cfg : Config) (s : State) : ℕ :=
  if consecutiveFailuresBeforeBackoff ≤ s.consecutiveFailures then extendedRebuildCooldown
  else cfg.cooldown

/-- The effective cooldown has elapsed at some time. -/
def cooldownElapsed (cfg : Config) (s : State) (now : ℕ) : Bool :=
  match s.lastRebuild with
  | none => true
  | some last => !(now - last < effectiveCooldown cfg s)

/-- The record of a tick. -/
def record (cfg : Config) (startedSecs : ℕ) (s : State) (r : Reading) (healed : Bool) : Record where
  triggered := triggered cfg startedSecs s r
  declined := triggered cfg startedSecs s r && gateDeclined s r
  elapsed := cooldownElapsed cfg s (s.clock + r.wait)
  tunnel := r.tunnel
  succeeded := r.lastSuccess ≠ s.prev.lastSuccess
  healed := healed

/-- A turn that comes to its end without a heal, with so many gated ticks. -/
def pass (cfg : Config) (startedSecs : ℕ) (s : State) (r : Reading) (gatedTicks : ℕ) : State :=
  { s with
    prev := r.toHealth
    gatedTicks := gatedTicks
    clock := s.clock + r.wait
    log := record cfg startedSecs s r false :: s.log }

/-- A turn with a heal. -/
def healNow (cfg : Config) (startedSecs : ℕ) (s : State) (r : Reading) : State :=
  let stop := s.clock + r.wait + r.duration
  { prev := r.toHealth
    gatedTicks := 0
    lastRebuild := some stop
    consecutiveFailures :=
      match r.result with
      | .healed => 0
      | .stillUnhealthy => min (s.consecutiveFailures + 1) u32Max
      | .terminateFailed => min (s.consecutiveFailures + 1) u32Max
    clock := stop
    heals := ⟨s.clock + r.wait, stop, r.result⟩ :: s.heals
    log := record cfg startedSecs s r true :: s.log }

/-- One turn of the loop. -/
def tick (cfg : Config) (startedSecs : ℕ) (s : State) (r : Reading) : State :=
  let gatedTicks := resetGatedTicksOnSuccess s.gatedTicks (r.lastSuccess ≠ s.prev.lastSuccess)
  if triggered cfg startedSecs s r = false then pass cfg startedSecs s r gatedTicks
  else
    let gatedTicks := stepGatedTicks gatedTicks (gateDeclined s r)
    if gateDeclined s r && !shouldOverrideDecline gatedTicks then
      pass cfg startedSecs s r gatedTicks
    else if cooldownElapsed cfg s (s.clock + r.wait) = false then
      pass cfg startedSecs s r gatedTicks
    else if r.tunnel = false then pass cfg startedSecs s r gatedTicks
    else healNow cfg startedSecs s r

def watchdog (cfg : Config) (startedSecs : ℕ) : Machine State Reading :=
  ⟨fun s r => some (tick cfg startedSecs s r)⟩

/-! ### What a tick can be -/

section Ticks

variable {cfg : Config} {startedSecs : ℕ} {s : State} {r : Reading}

/-- The gated ticks once the gate has been asked. -/
def gatedAfter (cfg : Config) (startedSecs : ℕ) (s : State) (r : Reading) : ℕ :=
  let gatedTicks := resetGatedTicksOnSuccess s.gatedTicks (r.lastSuccess ≠ s.prev.lastSuccess)
  stepGatedTicks gatedTicks (triggered cfg startedSecs s r && gateDeclined s r)

/-- A tick passes or heals. -/
inductive Tick (cfg : Config) (startedSecs : ℕ) (s : State) (r : Reading) : State → Prop
  /-- It passes for a reason. -/
  | passed : triggered cfg startedSecs s r = false ∨
        (gateDeclined s r = true ∧ gatedAfter cfg startedSecs s r < gatedTicksBeforeOverride) ∨
        cooldownElapsed cfg s (s.clock + r.wait) = false ∨ r.tunnel = false →
      Tick cfg startedSecs s r (pass cfg startedSecs s r (gatedAfter cfg startedSecs s r))
  | healed : triggered cfg startedSecs s r = true →
      (gateDeclined s r = true → gatedTicksBeforeOverride ≤ gatedAfter cfg startedSecs s r) →
      cooldownElapsed cfg s (s.clock + r.wait) = true → r.tunnel = true →
      Tick cfg startedSecs s r (healNow cfg startedSecs s r)

theorem tick_cases (cfg : Config) (startedSecs : ℕ) (s : State) (r : Reading) :
    Tick cfg startedSecs s r (tick cfg startedSecs s r) := by
  cases htrig : triggered cfg startedSecs s r with
  | false =>
    have htick : tick cfg startedSecs s r =
        pass cfg startedSecs s r (gatedAfter cfg startedSecs s r) := by
      simp [tick, gatedAfter, htrig, stepGatedTicks]
    rw [htick]
    exact .passed (.inl htrig)
  | true =>
    have hgated : gatedAfter cfg startedSecs s r = stepGatedTicks
        (resetGatedTicksOnSuccess s.gatedTicks (r.lastSuccess ≠ s.prev.lastSuccess))
        (gateDeclined s r) := by
      simp [gatedAfter, htrig]
    unfold tick
    simp only [htrig, Bool.true_eq_false, if_false, ← hgated]
    split_ifs with hgate hcool htunnel
    · simp only [shouldOverrideDecline, Bool.and_eq_true, Bool.not_eq_true',
        decide_eq_false_iff_not, not_le] at hgate
      exact .passed (.inr (.inl hgate))
    · exact .passed (.inr (.inr (.inl hcool)))
    · exact .passed (.inr (.inr (.inr htunnel)))
    · refine .healed htrig (fun hdeclined => ?_) (Bool.eq_true_of_not_eq_false hcool)
        (Bool.eq_true_of_not_eq_false htunnel)
      simpa [hdeclined, shouldOverrideDecline] using hgate

end Ticks

/-! ### Heals keep their distance -/

/-- How many heals failed in a row, up to the latest. -/
def streak : List Heal → ℕ
  | [] => 0
  | h :: hs => if h.result = .healed then 0 else streak hs + 1

/-- A heal may begin at some time: the configured cooldown after every heal before it, and the
extended one after every heal that was at least the third failed one in a row. -/
def MayBegin (cfg : Config) (start : ℕ) (heals : List Heal) : Prop :=
  ∀ between earlier e, heals = between ++ e :: earlier →
    e.stop + cfg.cooldown ≤ start ∧
      (consecutiveFailuresBeforeBackoff ≤ streak (e :: earlier) →
        e.stop + extendedRebuildCooldown ≤ start)

/-- Any two heals are far enough apart, from the end of the earlier one to the begin of the later.
-/
def Spaced (cfg : Config) (heals : List Heal) : Prop :=
  ∀ later earlier h, heals = later ++ h :: earlier → MayBegin cfg h.start earlier

theorem spaced_cons {cfg : Config} {h : Heal} {hs : List Heal} :
    Spaced cfg (h :: hs) ↔ MayBegin cfg h.start hs ∧ Spaced cfg hs := by
  refine ⟨fun hall => ⟨hall [] hs h rfl, fun later earlier h' heq => ?_⟩, ?_⟩
  · exact hall (h :: later) earlier h' (by rw [heq, List.cons_append])
  · rintro ⟨hhead, htail⟩ (_ | ⟨x, later⟩) earlier h' heq
    · cases heq
      exact hhead
    · exact htail later earlier h' (List.cons.inj heq).2

/-- After the latest heal it is enough to wait for that one. -/
theorem mayBegin_cons {cfg : Config} {start : ℕ} {e : Heal} {hs : List Heal}
    (hspaced : Spaced cfg (e :: hs)) (horder : e.start ≤ e.stop)
    (hcooldown : e.stop + cfg.cooldown ≤ start)
    (hextended : consecutiveFailuresBeforeBackoff ≤ streak (e :: hs) →
      e.stop + extendedRebuildCooldown ≤ start) : MayBegin cfg start (e :: hs) := by
  rintro (_ | ⟨x, between⟩) earlier e' heq
  · cases heq
    exact ⟨hcooldown, hextended⟩
  · -- an older heal was already far enough before the latest one
    obtain ⟨hnormal, hlong⟩ :=
      (spaced_cons.1 hspaced).1 between earlier e' (List.cons.inj heq).2
    exact ⟨by omega, fun hstreak => by have := hlong hstreak; omega⟩

/-- What the loop keeps of its heals. -/
structure Paced (cfg : Config) (s : State) : Prop where
  last : s.lastRebuild = s.heals.head?.map Heal.stop
  failures : s.consecutiveFailures = min (streak s.heals) u32Max
  order : ∀ h ∈ s.heals, h.start ≤ h.stop
  past : ∀ h ∈ s.heals, h.stop ≤ s.clock
  spaced : Spaced cfg s.heals

section Heals

variable {cfg : Config} {startedSecs : ℕ} {s t : State} {r : Reading}

theorem paced_start (health : Health) (clock : ℕ) : Paced cfg (.start health clock) := by
  exact ⟨rfl, rfl, by simp [State.start], by simp [State.start], by simp [State.start, Spaced]⟩

theorem streak_healNow (h : Paced cfg s) : (healNow cfg startedSecs s r).consecutiveFailures =
    min (streak (healNow cfg startedSecs s r).heals) u32Max := by
  have hfailures := h.failures
  cases hresult : r.result <;>
    simp only [healNow, streak, hresult, reduceCtorEq, if_true, if_false] <;> omega

/-- A heal that the cooldown lets through may begin. -/
theorem mayBegin_of_elapsed (hcfg : cfg.cooldown ≤ extendedRebuildCooldown) (h : Paced cfg s)
    {now : ℕ} (hnow : s.clock ≤ now) (helapsed : cooldownElapsed cfg s now = true) :
    MayBegin cfg now s.heals := by
  obtain ⟨hlast, hfailures, horder, hpast, hspaced⟩ := h
  cases hheals : s.heals with
  | nil => exact fun between _ _ heq => by simp at heq
  | cons e hs =>
    rw [hheals] at hlast hfailures hspaced horder hpast
    have hstop : e.stop ≤ s.clock := hpast e List.mem_cons_self
    simp only [cooldownElapsed, hlast, List.head?_cons, Option.map_some, Bool.not_eq_true',
      decide_eq_false_iff_not, not_lt] at helapsed
    refine mayBegin_cons hspaced (horder e List.mem_cons_self) ?_ fun hstreak => ?_
    · -- either cooldown is at least the configured one
      unfold effectiveCooldown at helapsed
      split at helapsed <;> omega
    · have hbackoff : consecutiveFailuresBeforeBackoff ≤ s.consecutiveFailures := by
        unfold consecutiveFailuresBeforeBackoff at hstreak ⊢
        unfold u32Max at hfailures
        omega
      rw [effectiveCooldown, if_pos hbackoff] at helapsed
      omega

theorem paced_tick (hcfg : cfg.cooldown ≤ extendedRebuildCooldown) (h : Paced cfg s)
    (htick : Tick cfg startedSecs s r t) : Paced cfg t := by
  cases htick with
  | passed _ =>
    exact ⟨h.last, h.failures, h.order,
      fun e he => (h.past e he).trans (Nat.le_add_right _ _), h.spaced⟩
  | healed _ _ helapsed _ =>
    have hbegin := mayBegin_of_elapsed hcfg h (Nat.le_add_right s.clock r.wait) helapsed
    refine ⟨rfl, streak_healNow h, List.forall_mem_cons.2 ⟨Nat.le_add_right _ _, h.order⟩,
      List.forall_mem_cons.2 ⟨le_rfl, fun e he => ?_⟩, spaced_cons.2 ⟨hbegin, h.spaced⟩⟩
    have hpast := h.past e he
    simp only [healNow]
    omega

theorem paced_of_run (hcfg : cfg.cooldown ≤ extendedRebuildCooldown) {health : Health}
    {clock : ℕ} {rs : List Reading}
    (h : (watchdog cfg startedSecs).Run Machine.anyStep (.start health clock) rs s) :
    Paced cfg s := by
  refine h.invariant ?_ (paced_start health clock)
  intro u r v hu _ hstep
  cases hstep
  exact paced_tick hcfg hu (tick_cases cfg startedSecs u r)

end Heals

/-! ### A cooldown that is too long -/

/-- A tick of an outage after so many ticks and so long a time, with a heal that fails at once. -/
def outage (cfg : Config) (startedSecs attempts wait : ℕ) : Reading where
  lastSuccess := 0
  attempts := attempts
  remoteTimeout := 0
  accessFailed := 0
  netTimeout := 0
  nowSecs := startedSecs + cfg.staleAfterSecs
  alive := 1
  wait := wait
  tunnel := true
  result := .stillUnhealthy
  duration := 0

/-- Three failed heals at the configured distance, and a fourth one after the extended cooldown. -/
def outages (cfg : Config) (startedSecs : ℕ) : List Reading :=
  [outage cfg startedSecs 3 0, outage cfg startedSecs 6 cfg.cooldown,
    outage cfg startedSecs 9 cfg.cooldown, outage cfg startedSecs 12 extendedRebuildCooldown]

theorem tick_eq_healNow {cfg : Config} {startedSecs : ℕ} {s : State} {r : Reading}
    (htrig : triggered cfg startedSecs s r = true) (hgate : gateDeclined s r = false)
    (helapsed : cooldownElapsed cfg s (s.clock + r.wait) = true) (htunnel : r.tunnel = true) :
    tick cfg startedSecs s r = healNow cfg startedSecs s r := by
  simp [tick, htrig, hgate, helapsed, htunnel]

theorem tick_outage {cfg : Config} {startedSecs attempts wait : ℕ} {s : State}
    (hattempts : s.prev.attempts + 3 ≤ attempts)
    (helapsed : cooldownElapsed cfg s (s.clock + wait) = true) :
    tick cfg startedSecs s (outage cfg startedSecs attempts wait) =
      healNow cfg startedSecs s (outage cfg startedSecs attempts wait) := by
  refine tick_eq_healNow ?_ (by simp [gateDeclined, outage, shouldDeclineRebuild]) helapsed rfl
  have henough : ¬ attempts - s.prev.attempts < minAttemptsToTrigger := by
    unfold minAttemptsToTrigger
    omega
  simp [triggered, outage, henough]

/-- The heals of these ticks. -/
def outageHeals (cfg : Config) : List Heal :=
  [⟨cfg.cooldown + cfg.cooldown + extendedRebuildCooldown,
      cfg.cooldown + cfg.cooldown + extendedRebuildCooldown, .stillUnhealthy⟩,
    ⟨cfg.cooldown + cfg.cooldown, cfg.cooldown + cfg.cooldown, .stillUnhealthy⟩,
    ⟨cfg.cooldown, cfg.cooldown, .stillUnhealthy⟩, ⟨0, 0, .stillUnhealthy⟩]

theorem outages_run (cfg : Config) (startedSecs : ℕ) : ∃ s,
    (watchdog cfg startedSecs).Run Machine.anyStep (.start ⟨0, 0, 0, 0, 0⟩ 0)
      (outages cfg startedSecs) s ∧ s.heals = outageHeals cfg := by
  set s₀ : State := .start ⟨0, 0, 0, 0, 0⟩ 0 with hs₀
  set s₁ := healNow cfg startedSecs s₀ (outage cfg startedSecs 3 0) with hs₁
  set s₂ := healNow cfg startedSecs s₁ (outage cfg startedSecs 6 cfg.cooldown) with hs₂
  set s₃ := healNow cfg startedSecs s₂ (outage cfg startedSecs 9 cfg.cooldown) with hs₃
  set s₄ := healNow cfg startedSecs s₃ (outage cfg startedSecs 12 extendedRebuildCooldown) with hs₄
  have h₁ : tick cfg startedSecs s₀ (outage cfg startedSecs 3 0) = s₁ :=
    tick_outage (by decide) rfl
  have hlater : tick cfg startedSecs s₁ (outage cfg startedSecs 6 cfg.cooldown) = s₂ ∧
      tick cfg startedSecs s₂ (outage cfg startedSecs 9 cfg.cooldown) = s₃ ∧
      tick cfg startedSecs s₃ (outage cfg startedSecs 12 extendedRebuildCooldown) = s₄ := by
    refine ⟨?_, ?_, ?_⟩ <;> apply tick_outage <;> simp [cooldownElapsed, effectiveCooldown, hs₃,
      hs₂, hs₁, hs₀, healNow, outage, State.start, consecutiveFailuresBeforeBackoff, u32Max]
  refine ⟨s₄, Machine.Run.of_exec ?_, ?_⟩
  · simp only [outages, Machine.exec_cons, Machine.exec_nil, watchdog, h₁, hlater,
      Option.bind_some]
  · simp [hs₄, hs₃, hs₂, hs₁, hs₀, healNow, outage, State.start, outageHeals, Nat.add_assoc]

/-- **Heals keep their distance exactly if the configured cooldown is at most the extended one.**
The distance is the configured cooldown, from the end of a heal to the begin of any later one, and
after at least three failed heals in a row also the extended cooldown. -/
theorem spaced_iff (cfg : Config) (startedSecs : ℕ) :
    (∀ health clock rs s,
      (watchdog cfg startedSecs).Run Machine.anyStep (.start health clock) rs s →
      Spaced cfg s.heals) ↔ cfg.rebuildCooldownSecs ≤ 30 * 60 := by
  have hunits : cfg.cooldown ≤ extendedRebuildCooldown ↔ cfg.rebuildCooldownSecs ≤ 30 * 60 := by
    unfold Config.cooldown extendedRebuildCooldown second
    omega
  rw [← hunits]
  constructor
  · intro hall
    obtain ⟨s, hrun, hheals⟩ := outages_run cfg startedSecs
    have hspaced := hall _ _ _ _ hrun
    rw [hheals] at hspaced
    have hlast := (hspaced [] _ _ rfl [] _ _ rfl).1
    simp only at hlast
    omega
  · intro hcfg health clock rs s hrun
    exact (paced_of_run hcfg hrun).spaced

/-- With a cooldown of an hour, three failed heals are followed by a fourth after half an hour. -/
theorem long_cooldown_is_cut : ∃ s,
    (watchdog ⟨180, 3600⟩ 0).Run Machine.anyStep (.start ⟨0, 0, 0, 0, 0⟩ 0)
      (outages ⟨180, 3600⟩ 0) s ∧
    s.heals.map (fun h => (h.start / second, h.stop / second)) =
      [(9000, 9000), (7200, 7200), (3600, 3600), (0, 0)] := by
  obtain ⟨s, hrun, hheals⟩ := outages_run ⟨180, 3600⟩ 0
  exact ⟨s, hrun, by rw [hheals]; decide⟩

/-! ### The gate -/

/-- A tick that counts: the three conditions held and the gate declined. -/
def Record.counts (record : Record) : ℕ := if record.declined then 1 else 0

/-- The ticks that were declined since the last heal and since the last observed success, over the
ticks from the latest on. -/
def declinedSince : List Record → ℕ
  | [] => 0
  | record :: earlier =>
    if record.healed then 0
    else record.counts + if record.succeeded then 0 else declinedSince earlier

/-- What the gated ticks stand for. -/
structure Gated (s : State) : Prop where
  count : s.gatedTicks = min (declinedSince s.log) u32Max
  /-- A tick that nothing but the gate kept from healing has left its mark. -/
  armed : ∀ record earlier, s.log = record :: earlier → record.triggered = true →
    record.elapsed = true → record.tunnel = true → record.healed = false → 1 ≤ s.gatedTicks
  /-- Two ticks of an outage, one after the other, bring a heal. -/
  reacts : ∀ later second first earlier, s.log = later ++ second :: first :: earlier →
    first.triggered = true → second.triggered = true → first.elapsed = true →
    second.elapsed = true → first.tunnel = true → second.tunnel = true →
    second.succeeded = false → first.healed = true ∨ second.healed = true
  /-- A declined tick heals only after enough declined ticks. -/
  overrides : ∀ later record earlier, s.log = later ++ record :: earlier → record.healed = true →
    record.declined = true → gatedTicksBeforeOverride ≤
      record.counts + if record.succeeded then 0 else declinedSince earlier

section Gate

variable {cfg : Config} {startedSecs : ℕ} {s t : State} {r : Reading}

theorem gated_start (health : Health) (clock : ℕ) : Gated (.start health clock) := by
  exact ⟨rfl, by simp [State.start], by simp [State.start], by simp [State.start]⟩

theorem gatedAfter_eq (hcount : s.gatedTicks = min (declinedSince s.log) u32Max) (healed : Bool) :
    gatedAfter cfg startedSecs s r =
      min ((record cfg startedSecs s r healed).counts +
        if (record cfg startedSecs s r healed).succeeded then 0 else declinedSince s.log)
        u32Max := by
  simp only [gatedAfter, stepGatedTicks, resetGatedTicksOnSuccess, record, Record.counts]
  by_cases hdeclined : (triggered cfg startedSecs s r && gateDeclined s r) = true <;>
    by_cases hsame : r.lastSuccess = s.prev.lastSuccess <;>
    simp only [hdeclined, hsame, ne_eq, not_true_eq_false, not_false_eq_true, decide_true,
      decide_false, Bool.false_eq_true, if_true, if_false] <;> omega

theorem gatedAfter_of_declined (htrig : triggered cfg startedSecs s r = true)
    (hgate : gateDeclined s r = true) : 1 ≤ gatedAfter cfg startedSecs s r := by
  simp only [gatedAfter, stepGatedTicks, htrig, hgate, Bool.and_self, if_true]
  unfold u32Max
  omega

theorem gated_pass (h : Gated s) (hreason : triggered cfg startedSecs s r = false ∨
      (gateDeclined s r = true ∧ gatedAfter cfg startedSecs s r < gatedTicksBeforeOverride) ∨
      cooldownElapsed cfg s (s.clock + r.wait) = false ∨ r.tunnel = false) :
    Gated (pass cfg startedSecs s r (gatedAfter cfg startedSecs s r)) := by
  -- what is left of the reasons once the other conditions hold
  have hgate : triggered cfg startedSecs s r = true →
      cooldownElapsed cfg s (s.clock + r.wait) = true → r.tunnel = true →
      gateDeclined s r = true ∧ gatedAfter cfg startedSecs s r < gatedTicksBeforeOverride := by
    intro htrig helapsed htunnel
    simpa [htrig, helapsed, htunnel] using hreason
  constructor
  case count => exact gatedAfter_eq h.count false
  case armed =>
    intro record earlier hlog htrig helapsed htunnel _
    obtain ⟨rfl, -⟩ := List.cons.inj hlog
    exact gatedAfter_of_declined htrig (hgate htrig helapsed htunnel).1
  case reacts =>
    intro later second first earlier hlog hfirst hsecond hcool₁ hcool₂ htun₁ htun₂ hsucc
    rcases List.cons_eq_append_iff.1 hlog with ⟨rfl, hhead⟩ | ⟨later, rfl, hrest⟩
    · obtain ⟨rfl, hrest⟩ := List.cons.inj hhead
      refine .inl (by_contra fun hhealed => ?_)
      -- the first tick was declined, so this one would have been the second in a row
      have harmed := h.armed first earlier hrest.symm hfirst hcool₁ htun₁
        (Bool.eq_false_of_not_eq_true hhealed)
      obtain ⟨hdeclined, hfew⟩ := hgate hsecond hcool₂ htun₂
      have hsame : r.lastSuccess = s.prev.lastSuccess := by simpa [record] using hsucc
      have htrig : triggered cfg startedSecs s r = true := hsecond
      simp only [gatedAfter, stepGatedTicks, resetGatedTicksOnSuccess, hsame, htrig,
        hdeclined, ne_eq, not_true_eq_false, decide_false, Bool.false_eq_true,
        Bool.and_self, if_false, if_true, gatedTicksBeforeOverride, u32Max] at hfew
      omega
    · exact h.reacts later second first earlier hrest hfirst hsecond hcool₁ hcool₂ htun₁ htun₂
        hsucc
  case overrides =>
    intro later rec earlier hlog hhealed
    rcases List.cons_eq_append_iff.1 hlog with ⟨rfl, hhead⟩ | ⟨later, rfl, hrest⟩
    · obtain ⟨rfl, -⟩ := List.cons.inj hhead
      simp [record] at hhealed
    · exact h.overrides later rec earlier hrest hhealed

theorem gated_healNow (h : Gated s) (hgate : gateDeclined s r = true →
      gatedTicksBeforeOverride ≤ gatedAfter cfg startedSecs s r) :
    Gated (healNow cfg startedSecs s r) := by
  constructor
  case count => rfl
  case armed =>
    intro rec earlier hlog _ _ _ hhealed
    obtain ⟨rfl, -⟩ := List.cons.inj hlog
    simp [record] at hhealed
  case reacts =>
    intro later second first earlier hlog
    rcases List.cons_eq_append_iff.1 hlog with ⟨rfl, hhead⟩ | ⟨later, rfl, hrest⟩
    · obtain ⟨rfl, -⟩ := List.cons.inj hhead
      exact fun _ _ _ _ _ _ _ => .inr rfl
    · exact h.reacts later second first earlier hrest
  case overrides =>
    intro later rec earlier hlog hhealed hdeclined
    rcases List.cons_eq_append_iff.1 hlog with ⟨rfl, hhead⟩ | ⟨later, rfl, hrest⟩
    · cases hhead
      have henough := hgate (Bool.and_eq_true_iff.1 hdeclined).2
      rw [gatedAfter_eq h.count true] at henough
      exact henough.trans (min_le_left _ _)
    · exact h.overrides later rec earlier hrest hhealed hdeclined

theorem gated_of_run {health : Health} {clock : ℕ} {rs : List Reading}
    (h : (watchdog cfg startedSecs).Run Machine.anyStep (.start health clock) rs s) :
    Gated s := by
  refine h.invariant (fun u r v hu _ hstep => ?_) (gated_start health clock)
  cases hstep
  have htick := tick_cases cfg startedSecs u r
  generalize tick cfg startedSecs u r = v at htick ⊢
  cases htick with
  | passed hreason => exact gated_pass hu hreason
  | healed _ hgate _ _ => exact gated_healNow hu hgate

end Gate

/-- **Two ticks of an outage bring a heal, and only declined ticks override the gate.**  If on two
ticks, one after the other, the three conditions hold, the cooldown has elapsed and the tunnel is
there, and no success was seen between them, one of the two heals.  A tick that heals although the
gate declines it is, itself counted, at least the second declined one since the last heal and the
last observed success. -/
theorem reacts_to_outage (cfg : Config) (startedSecs : ℕ) (health : Health) (clock : ℕ)
    (rs : List Reading) (s : State)
    (hrun : (watchdog cfg startedSecs).Run Machine.anyStep (.start health clock) rs s) :
    (∀ later second first earlier, s.log = later ++ second :: first :: earlier →
      first.triggered = true → second.triggered = true → first.elapsed = true →
      second.elapsed = true → first.tunnel = true → second.tunnel = true →
      second.succeeded = false → first.healed = true ∨ second.healed = true) ∧
    (∀ later record earlier, s.log = later ++ record :: earlier → record.healed = true →
      record.declined = true → gatedTicksBeforeOverride ≤
        record.counts + if record.succeeded then 0 else declinedSince earlier) := by
  have hgated := gated_of_run hrun
  exact ⟨hgated.reacts, hgated.overrides⟩

/-- A tick of an outage whose failures are all of a kind that the gate declines. -/
def declinedOutage (attempts : ℕ) : Reading where
  lastSuccess := 0
  attempts := attempts
  remoteTimeout := attempts
  accessFailed := 0
  netTimeout := 0
  nowSecs := 1000
  alive := 2
  wait := 45 * second
  tunnel := true
  result := .healed
  duration := second

/-- Two such ticks: the second one heals. -/
theorem reacts_to_outage_declined : ∃ s,
    (watchdog ⟨180, 300⟩ 0).Run Machine.anyStep (.start ⟨0, 0, 0, 0, 0⟩ 0)
      [declinedOutage 4, declinedOutage 8] s ∧
    ∃ second first, s.log = [second, first] ∧ (first.healed = true ∨ second.healed = true) ∧
      first.healed = false ∧ gatedTicksBeforeOverride ≤
        second.counts + if second.succeeded then 0 else declinedSince [first] := by
  let start : State := .start ⟨0, 0, 0, 0, 0⟩ 0
  let passed := tick ⟨180, 300⟩ 0 start (declinedOutage 4)
  have hrun : (watchdog ⟨180, 300⟩ 0).Run Machine.anyStep start [declinedOutage 4, declinedOutage 8]
      (tick ⟨180, 300⟩ 0 passed (declinedOutage 8)) := Machine.Run.of_exec rfl
  have hlog : (tick ⟨180, 300⟩ 0 passed (declinedOutage 8)).log =
      [record ⟨180, 300⟩ 0 passed (declinedOutage 8) true,
        record ⟨180, 300⟩ 0 start (declinedOutage 4) false] := rfl
  obtain ⟨hreacts, hoverrides⟩ := reacts_to_outage _ _ _ _ _ _ hrun
  refine ⟨_, hrun, _, _, hlog, ?_, rfl, ?_⟩
  · exact hreacts [] _ _ [] hlog (by decide) (by decide) (by decide) (by decide) rfl rfl (by decide)
  · exact hoverrides [] _ _ hlog rfl (by decide)

end Watchdog
