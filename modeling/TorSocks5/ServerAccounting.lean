/-
**What the connection counters add up to.**

The counters of a window are bumped by the tasks of the connections and taken over, one after the
other, by the logger.  However the windows fall, the windows of a counter together hold exactly
the number of times it was bumped, so what the totals mean depends only on who bumps what.  A
CONNECT that fails is counted by `handle_client`; when the error that it returns is classified as
one of the CONNECT stage, `accept_loop` counts it again.
-/

import TorSocks5.Server

set_option autoImplicit false

namespace Server

open ClientAcl (IpAddr AllowedClients)
open Users (UsersConfig)

variable {cfg : Config} {users : UsersConfig} {as : List Action} {s t : State} {a : Action}

/-! ### Totals -/

/-- The sum of a counter over all windows: the finished ones, what the running snapshot has taken
over, and what it will find. -/
def State.total (s : State) (k : Counter) : ℕ :=
  s.counts k + s.taken k + (s.windows.map fun w => w.1 k).sum

/-- What the history says a counter was bumped for. -/
def State.tally (s : State) : Counter → ℕ
  | .started => s.history.started.length
  | .connectOk => s.history.connected.length
  | .connectFailed => s.history.refused.length + s.history.filed.length
  | _ => 0

/-- The counters of the CONNECT accounting. -/
def Counter.Tracked (k : Counter) : Prop :=
  k = .started ∨ k = .connectOk ∨ k = .connectFailed

theorem ConnErrorKind.counter_ne {k : Counter} (hk : k.Tracked) (kind : ConnErrorKind) :
    kind.counter ≠ k := by
  rcases hk with rfl | rfl | rfl <;> cases kind <;> exact nofun

/-- No counter comes to its end within one step. -/
def NoOverflow (s : State) (_ : Action) : Prop := ∀ k, s.counts k + 2 < counterSize

/-- Counting without overflow. -/
theorem foldl_bump {c : Counts} {ks : List Counter} (h : ∀ k, c k + ks.length < counterSize)
    (k : Counter) : ks.foldl bump c k = c k + ks.count k := by
  induction ks generalizing c with
  | nil => simp
  | cons k' ks ih =>
    simp only [List.length_cons] at h
    have hbump : ∀ k, bump c k' k = c k + if k' = k then 1 else 0 := by
      intro k
      rcases eq_or_ne k k' with rfl | hk
      · have hlt := h k
        simpa [bump] using Nat.mod_eq_of_lt (by omega)
      · simp [bump, hk, Ne.symm hk]
    rw [List.foldl_cons, ih, hbump, List.count_cons]
    · simp only [beq_iff_eq]
      omega
    · intro k
      have hlt := h k
      rw [hbump]
      split_ifs <;> omega

/-! ### What a step counts -/

/-- A step bumps the counters `ks` and leaves the logger alone. -/
structure Counting (s t : State) (ks : List Counter) : Prop where
  counts : t.counts = ks.foldl bump s.counts
  todo : t.todo = s.todo
  taken : t.taken = s.taken
  windows : t.windows = s.windows
  length : ks.length ≤ 2
  tally : ∀ k, k.Tracked → t.tally k = s.tally k + ks.count k

theorem Counting.quiet (hc : t.counts = s.counts) (htodo : t.todo = s.todo)
    (htaken : t.taken = s.taken) (hw : t.windows = s.windows) (htally : t.tally = s.tally) :
    Counting s t [] :=
  ⟨hc, htodo, htaken, hw, by simp, fun k _ => by rw [htally]; rfl⟩

/-- The counters a failure is counted in. -/
def failureCounters (e : Chain) : List Counter :=
  (classifyConnFailure e).2.counter ::
    if (classifyConnFailure e).1 = .connect then [.connectFailed] else []

/-- The end of a task counts its error. -/
theorem counting_finish (s : State) (i : ℕ) (e : Chain) :
    Counting s (s.finish i (some e)) (failureCounters e) := by
  have hkind : ∀ k : Counter, k.Tracked → (classifyConnFailure e).2.counter ≠ k :=
    fun k hk => ConnErrorKind.counter_ne hk _
  unfold failureCounters
  split_ifs with hstage
  all_goals
    refine ⟨by simp [State.finish, recordFailure, recordError, hstage, State.move], rfl, rfl, rfl,
      by simp, fun k hk => ?_⟩
    have hne := hkind k hk
    rcases hk with rfl | rfl | rfl <;> simp [State.tally, State.finish, State.move, hstage, hne]
  omega

theorem counting_refuse (s : State) (i : ℕ) (e : Chain) :
    Counting s (s.refuse i e) [.connectFailed] := by
  refine ⟨rfl, rfl, rfl, rfl, by simp, ?_⟩
  rintro k (rfl | rfl | rfl)
  · rfl
  · rfl
  · simp [State.tally, State.refuse, State.count, State.move]
    omega

/-- **What a step counts**, other than a step of the logger. -/
theorem Step.counting (h : Step cfg s a t) (ha : a ≠ .swap) : ∃ ks, Counting s t ks := by
  cases h with
  | swapped => exact absurd rfl ha
  | spawned hi =>
    exact ⟨[.started], rfl, rfl, rfl, rfl, by simp, by rintro k (rfl | rfl | rfl) <;> rfl⟩
  | connected hi =>
    exact ⟨[.connectOk], rfl, rfl, rfl, rfl, by simp, by rintro k (rfl | rfl | rfl) <;> rfl⟩
  | relayed hi =>
    exact ⟨[.relayClosed], rfl, rfl, rfl, rfl, by simp, by rintro k (rfl | rfl | rfl) <;> rfl⟩
  | noTunnel tunnel e hi => exact ⟨_, counting_refuse s _ e⟩
  | notConnected e hi => exact ⟨_, counting_refuse s _ _⟩
  | @finished i error hi =>
    cases error with
    | none => exact ⟨[], Counting.quiet rfl rfl rfl rfl rfl⟩
    | some e => exact ⟨_, counting_finish s i e⟩
  | _ => exact ⟨[], Counting.quiet rfl rfl rfl rfl rfl⟩

/-! ### The totals are what was counted -/

/-- **The totals are what was counted**, and the running snapshot has not yet touched what it is
still to take over. -/
structure Balanced (s : State) : Prop where
  total : ∀ k, k.Tracked → s.total k = s.tally k
  todo : s.todo.Nodup
  fresh : ∀ k ∈ s.todo, s.taken k = 0

theorem balanced_init (users : UsersConfig) : Balanced (init users) :=
  ⟨by rintro k (rfl | rfl | rfl) <;> rfl, show Counter.order.Nodup by decide, fun _ _ => rfl⟩

/-- Taking a counter over moves its value from the counter into the window. -/
theorem Balanced.swap (h : Balanced s) : Balanced s.swap := by
  unfold State.swap
  split
  case h_1 k rest htodo =>
    have hnodup := h.todo
    have hfresh := h.fresh
    rw [htodo] at hnodup hfresh
    rw [List.nodup_cons] at hnodup
    obtain ⟨htaken, hfresh⟩ := List.forall_mem_cons.1 hfresh
    refine ⟨fun k' hk' => (?_ : _ = _).trans (h.total k' hk'), hnodup.2, fun k' hk' => ?_⟩
    · rcases eq_or_ne k' k with rfl | hk
      · simp [State.total, htaken]
      · simp [State.total, hk]
    · have hne : k' ≠ k := fun heq => hnodup.1 (heq ▸ hk')
      simpa [hne] using hfresh k' hk'
  case h_2 htodo =>
    refine ⟨fun k hk => (?_ : _ = _).trans (h.total k hk), show Counter.order.Nodup by decide,
      fun _ _ => rfl⟩
    simp [State.total, Nat.add_assoc]

theorem Balanced.counting {ks : List Counter} (h : Balanced s)
    (hc : Counting s t ks) (hno : ∀ k, s.counts k + 2 < counterSize) : Balanced t := by
  refine ⟨fun k hk => ?_, hc.todo ▸ h.todo, fun k hk => ?_⟩
  · have hlen := hc.length
    have hbump : ks.foldl bump s.counts k = s.counts k + ks.count k :=
      foldl_bump (fun k => by have := hno k; omega) k
    have htotal := h.total k hk
    rw [hc.tally k hk, ← htotal, State.total, State.total, hc.counts, hc.taken, hc.windows, hbump]
    omega
  · rw [hc.taken]
    exact h.fresh k (hc.todo ▸ hk)

theorem Balanced.step (h : Balanced s)
    (hno : NoOverflow s a) (hstep : Server.step cfg s a = some t) : Balanced t := by
  rcases eq_or_ne a .swap with rfl | ha
  · cases hstep
    exact h.swap
  · obtain ⟨ks, hks⟩ := (step_cases hstep).counting ha
    exact h.counting hks hno

theorem balanced_of_run (h : (machine cfg).Run NoOverflow (init users) as s) : Balanced s :=
  h.invariant (fun _ _ _ hs hok hstep => hs.step hok hstep) (balanced_init users)

/-! ### One start and one outcome for each connection -/

/-- How far a connection has come: not started, started without a CONNECT outcome, or beyond. -/
def Phase.rank : Phase → ℕ
  | .idle => 0
  | .queued _ => 0
  | .handshaking _ _ => 1
  | .requested _ => 1
  | .onionPassed _ _ => 1
  | .cleared _ => 1
  | .dialing _ => 1
  | _ => 2

/-- The connections with a CONNECT outcome. -/
def History.outcomes (h : History) : List ℕ := h.connected ++ h.refused

/-- What a step does to the connections. -/
inductive Turn (s t : State) : Prop
  /-- Nothing. -/
  | still : t.conns = s.conns → t.history.started = s.history.started →
      t.history.outcomes = s.history.outcomes → Turn s t
  /-- A connection moves on, to where nothing is known of it or where as much is known. -/
  | move (i : ℕ) (p : Phase) : t.conns = Function.update s.conns i p →
      t.history.started = s.history.started → t.history.outcomes = s.history.outcomes →
      p.rank = 2 ∨ p.rank = (s.conns i).rank → Turn s t
  /-- A connection starts. -/
  | start (i : ℕ) (p : Phase) : t.conns = Function.update s.conns i p →
      t.history.started = i :: s.history.started → t.history.outcomes = s.history.outcomes →
      (s.conns i).rank = 0 → p.rank = 1 → Turn s t
  /-- The CONNECT of a connection succeeds or fails. -/
  | outcome (i : ℕ) (p : Phase) : t.conns = Function.update s.conns i p →
      t.history.started = s.history.started →
      t.history.outcomes.Perm (i :: s.history.outcomes) →
      (s.conns i).rank = 1 → p.rank = 2 → Turn s t

theorem State.swap_conns (s : State) : s.swap.conns = s.conns := by
  unfold State.swap
  split <;> rfl

theorem State.swap_history (s : State) : s.swap.history = s.history := by
  unfold State.swap
  split <;> rfl

theorem turn_refuse {i : ℕ} (e : Chain) (hi : (s.conns i).rank = 1) : Turn s (s.refuse i e) :=
  .outcome i _ rfl rfl List.perm_middle hi rfl

/-- **What a step does to the connections.** -/
theorem Step.turn (h : Step cfg s a t) : Turn s t := by
  cases h with
  | @accepted i _ hi | @verified i _ _ _ _ _ hi | @requested i _ _ _ _ hi | @onionPassed i _ hi
  | @cleared i _ _ _ hi | @dialed i _ _ hi =>
    exact .move i _ rfl rfl rfl (.inr (hi ▸ rfl))
  | @spawned i peer hi => exact .start i _ rfl rfl rfl (hi ▸ rfl) rfl
  | @noTunnel i _ _ e hi => exact turn_refuse e (hi ▸ rfl)
  | @notConnected i _ e hi => exact turn_refuse _ (hi ▸ rfl)
  | @connected i _ hi =>
    exact .outcome i _ rfl rfl (List.Perm.refl _) (hi ▸ rfl) rfl
  | @finished i error hi => cases error <;> exact .move i _ rfl rfl rfl (.inl rfl)
  | swapped => exact .still s.swap_conns (by rw [s.swap_history]) (by rw [s.swap_history])
  | reloaded users => exact .still rfl rfl rfl
  | _ => exact .move _ _ rfl rfl rfl (.inl rfl)

/-- **The ledger.**  A connection is started once and has one CONNECT outcome at most, after its
start. -/
structure Ledger (s : State) : Prop where
  started : s.history.started.Nodup
  outcomes : s.history.outcomes.Nodup
  subset : ∀ i ∈ s.history.outcomes, i ∈ s.history.started
  notStarted : ∀ i, (s.conns i).rank = 0 → i ∉ s.history.started
  undecided : ∀ i, (s.conns i).rank = 1 → i ∈ s.history.started ∧ i ∉ s.history.outcomes

theorem ledger_init (users : UsersConfig) : Ledger (init users) :=
  ⟨List.nodup_nil, List.nodup_nil, nofun, nofun, nofun⟩

theorem rank_update (conns : ℕ → Phase) (i j : ℕ) (p : Phase) :
    (Function.update conns i p j).rank = if j = i then p.rank else (conns j).rank := by
  rw [Function.update_apply]
  split_ifs <;> rfl

theorem Ledger.turn (h : Ledger s) (hturn : Turn s t) : Ledger t := by
  obtain ⟨hstart, hout, hsub, hnot, hund⟩ := h
  cases hturn with
  | still hconns hstarted houtcomes =>
    exact ⟨by rwa [hstarted], by rwa [houtcomes], by rwa [hstarted, houtcomes],
      by rwa [hstarted, hconns], by rwa [hstarted, houtcomes, hconns]⟩
  | move i p hconns hstarted houtcomes hrank =>
    constructor <;> simp only [hconns, hstarted, houtcomes, rank_update]
    · exact hstart
    · exact hout
    · exact hsub
    · grind
    · grind
  | start i p hconns hstarted houtcomes hold hnew =>
    have hfresh := hnot i hold
    constructor <;> simp only [hconns, hstarted, houtcomes, rank_update]
    · exact List.nodup_cons.2 ⟨hfresh, hstart⟩
    · exact hout
    · exact fun j hj => List.mem_cons_of_mem i (hsub j hj)
    · grind
    · grind
  | outcome i p hconns hstarted houtcomes hold hnew =>
    obtain ⟨hi, hnone⟩ := hund i hold
    constructor <;> simp only [hconns, hstarted, houtcomes.nodup_iff, houtcomes.mem_iff,
      rank_update, List.nodup_cons]
    · exact hstart
    · exact ⟨hnone, hout⟩
    · grind
    · grind
    · grind

theorem ledger_of_run
    {ok : State → Action → Prop} (h : (machine cfg).Run ok (init users) as s) : Ledger s :=
  h.invariant (fun _ _ _ hs _ hstep => hs.turn (step_cases hstep).turn) (ledger_init users)

theorem Ledger.length_le (h : Ledger s) :
    s.history.connected.length + s.history.refused.length ≤ s.history.started.length := by
  have hle := (List.subperm_of_subset h.outcomes h.subset).length_le
  rwa [History.outcomes, List.length_append] at hle

/-! ### The totals are exact -/

/-- The totals of the CONNECT counters are the numbers of connections whose CONNECT succeeded and
failed, and together no more than the connections that were started. -/
def Exact (s : State) : Prop :=
  s.total .connectOk = s.history.connected.length ∧
  s.total .connectFailed = s.history.refused.length ∧
  s.total .connectOk + s.total .connectFailed ≤ s.total .started

/-- An error carries the tag of a failed CONNECT, and neither of the tags that win over it. -/
def ConnectTagged (e : Chain) : Prop :=
  (∃ cause ∈ e, cause.text = stageConnectTor ∨ cause.text = stageConnectUpstream) ∧
  ∀ cause ∈ e, cause.text ≠ stageRelay ∧ cause.text ≠ stageHandshake

/-- These are the errors that are classified as ones of the CONNECT stage. -/
theorem classify_connect_iff (e : Chain) :
    (classifyConnFailure e).1 = .connect ↔ ConnectTagged e := by
  have hstage : (classifyConnFailure e).1 = stageOf e := by
    unfold classifyConnFailure
    split <;> rfl
  rw [hstage, stageOf, ConnectTagged]
  split_ifs with hrelay hshake hconnect <;>
    simp only [List.any_eq_true, beq_iff_eq, Bool.or_eq_true] at * <;> grind

/-- The error that a task ends with, if it ends with one, is not tagged as a failed CONNECT. -/
def NotFiled (s : State) (a : Action) : Prop :=
  ∀ i e, a = .finish i → s.conns i = .returned (some e) → ¬ ConnectTagged e

/-- The condition on the steps of a run: no counter overflows, and no task ends with an error
tagged as a failed CONNECT. -/
def CountedOnce (s : State) (a : Action) : Prop := NoOverflow s a ∧ NotFiled s a

/-- A step files an error, or leaves the filed ones alone. -/
theorem Step.filed_cases (h : Step cfg s a t) : t.history.filed = s.history.filed ∧ NotFiled s a ∨
    (∃ i, t.history.filed = i :: s.history.filed) ∧ ¬ NotFiled s a := by
  cases h with
  | @finished i error hi =>
    cases error with
    | none =>
      refine .inl ⟨rfl, ?_⟩
      rintro j e ⟨rfl⟩ hj
      cases hi.symm.trans hj
    | some e =>
      by_cases hstage : (classifyConnFailure e).1 = .connect
      · refine .inr ⟨⟨i, by simp [State.finish, State.move, hstage]⟩, fun hnot => ?_⟩
        exact hnot i e rfl hi ((classify_connect_iff e).1 hstage)
      · refine .inl ⟨by simp [State.finish, State.move, hstage], ?_⟩
        rintro j e' ⟨rfl⟩ hj
        cases hi.symm.trans hj
        rwa [← classify_connect_iff]
  | swapped => exact .inl ⟨by rw [s.swap_history], nofun⟩
  | _ => exact .inl ⟨rfl, nofun⟩

/-- Nothing is filed exactly in the runs without such an error. -/
theorem filed_eq_nil_iff (h : (machine cfg).Run NoOverflow (init users) as s) :
    s.history.filed = [] ↔ (machine cfg).Run CountedOnce (init users) as s := by
  constructor
  · intro hnil
    induction h with
    | refl => exact .refl _
    | tail _ hno hstep ih =>
      rcases (step_cases hstep).filed_cases with ⟨hsame, hnot⟩ | ⟨⟨i, hcons⟩, -⟩
      · exact (ih (hsame ▸ hnil)).tail ⟨hno, hnot⟩ hstep
      · cases hcons.symm.trans hnil
  · intro hrun
    refine hrun.invariant (I := fun s => s.history.filed = []) (fun s a t hs hok hstep => ?_) rfl
    rcases (step_cases hstep).filed_cases with ⟨hsame, -⟩ | ⟨-, hfiled⟩
    · rw [hsame, hs]
    · exact absurd hok.2 hfiled

/-- **The totals are exact exactly when no error is tagged as a failed CONNECT.**  In every run,
with however many connections and outcomes and whatever windows, the totals over all windows are
the numbers of connections they are named after exactly when no task ends with an error that is
tagged as a failed CONNECT. -/
theorem exact_iff {cfg : Config} {users : UsersConfig} {as : List Action} {s : State}
    (h : (machine cfg).Run NoOverflow (init users) as s) :
    Exact s ↔ (machine cfg).Run CountedOnce (init users) as s := by
  have hbal := balanced_of_run h
  have hok := hbal.total .connectOk (.inr (.inl rfl))
  have hfailed := hbal.total .connectFailed (.inr (.inr rfl))
  have hstarted := hbal.total .started (.inl rfl)
  simp only [State.tally] at hok hfailed hstarted
  rw [← filed_eq_nil_iff h]
  constructor
  · rintro ⟨-, hexact, -⟩
    exact List.length_eq_zero_iff.1 (by omega)
  · intro hnil
    rw [hnil, List.length_nil] at hfailed
    have hle := (ledger_of_run h).length_le
    refine ⟨hok, hfailed, ?_⟩
    omega

/-! ### A refused connection -/

/-- A step bumps no counter by more than two. -/
theorem counts_le (hno : NoOverflow s a)
    (h : step cfg s a = some t) (k : Counter) : t.counts k ≤ s.counts k + 2 := by
  rcases eq_or_ne a .swap with rfl | ha
  · cases h
    unfold State.swap
    split
    · next k' rest _ => by_cases hk : k = k' <;> simp [hk]
    · exact Nat.le_add_right _ _
  · obtain ⟨ks, hks⟩ := (step_cases h).counting ha
    have hlen := hks.length
    rw [hks.counts, foldl_bump (fun k => by have := hno k; omega)]
    have hcount := ks.count_le_length (a := k)
    omega

/-- The counters do not overflow in a run that is not of astronomical length. -/
theorem noOverflow_of_exec : ∀ {as : List Action} {s t : State},
    (machine cfg).exec s as = some t → (∀ k, s.counts k + 2 * as.length < counterSize) →
      (machine cfg).Run NoOverflow s as t := by
  intro as
  induction as with
  | nil =>
    rintro s t ⟨⟩ _
    exact .refl s
  | cons a as ih =>
    intro s t h hlt
    obtain ⟨m, hm, h⟩ := Option.bind_eq_some_iff.1 h
    simp only [List.length_cons] at hlt
    have hno : NoOverflow s a := fun k => by have := hlt k; omega
    refine Machine.Run.head hno hm (ih h fun k => ?_)
    have hle := counts_le hno hm k
    have := hlt k
    omega

theorem noOverflow_of_exec_init
    (h : (machine cfg).exec (init users) as = some s) (hlen : 2 * as.length < counterSize) :
    (machine cfg).Run NoOverflow (init users) as s :=
  noOverflow_of_exec h fun _ => by simpa [init] using hlen

/-- A proxy that lets everybody in and sends everything through Tor. -/
def openProxy : Config := ⟨AllowedClients.everyone, false, false, .tor⟩

/-- A registry without accounts. -/
def noUsers : UsersConfig := ⟨[]⟩

/-- One connection whose CONNECT comes to the given end, followed by a snapshot. -/
def oneConnection (error : Option Chain) (rest : List Action) : List Action :=
  [.accept 0 (.v4 0x7f000001#32), .spawn 0,
    .handshake 0 (.accepted none (some (['a'], 80)) []), .onionGate 0,
    .clientGate 0 true, .dial 0 true, .connect 0 error] ++ rest ++
    [.finish 0] ++ List.replicate 9 .swap

theorem exact_iff_relayed :
    ∃ s, (machine openProxy).exec (init noUsers)
        (oneConnection none [.reply 0 none, .pipe 0 none, .relay 0 none]) =
          some s ∧
      (Exact s ↔ (machine openProxy).Run CountedOnce (init noUsers)
        (oneConnection none [.reply 0 none, .pipe 0 none, .relay 0 none]) s) :=
  ⟨_, rfl, exact_iff (noOverflow_of_exec_init rfl (by decide))⟩

/-- **A refused connection is counted twice.**  One connection whose CONNECT fails: the one window
that is taken after its end shows one connection started and two failed. -/
theorem refusal_counted_twice :
    ∃ s, (machine openProxy).Run NoOverflow (init noUsers)
        (oneConnection (some [⟨"circuit failed", none, some .connect⟩]) []) s ∧
      s.conns 0 = .ended ∧ s.history.refused = [0] ∧
      (s.windows.map fun w => (w.1 .started, w.1 .connectFailed)) = [(1, 2)] ∧
      ¬ Exact s := by
  refine ⟨_, noOverflow_of_exec_init rfl (by decide), rfl, rfl, rfl, ?_⟩
  rintro ⟨-, hfailed, -⟩
  cases hfailed

end Server
