/-
**The verification of circuits is fair.**

A tick of the watchdog asks the store which bridges are due for a verification, those first for
which the last attempt is the longest ago, tries a few of them and records the attempts.  Between
two ticks anything else may happen to the store, as long as nothing changes when a bridge was
verified or tried.
-/

import Mathlib
import TorSocks5.BridgeRanking
import TorSocks5.LeastRecent

set_option autoImplicit false

namespace BridgeStore

open List

variable {B K : Type} [LinearOrder K]

/-! ### Ticks -/

/-- A tick: the store it finds, its time, what it asks the store, and which of the bridges that are
tried it verifies. -/
structure Tick (B K : Type) where
  store : Store B K
  now : ℤ
  maxAge : ℕ
  filter : B → Bool
  verified : B → Bool

/-- A bridge has been tried. -/
def recordAttempt (f : BridgeFormat B K) (verified : B → Bool) (now : ℤ) (s : Store B K)
    (bridge : B) :
    Store B K :=
  if verified bridge then noteCircuitVerifiedAt f s bridge now
  else noteVerificationAttemptAt f s bridge now

def recordAttempts (f : BridgeFormat B K) (verified : B → Bool) (now : ℤ) (s : Store B K)
    (bridges : List B) : Store B K :=
  bridges.foldl (recordAttempt f verified now) s

def Tick.selected (limit : ℕ) (t : Tick B K) : List B :=
  needingCircuitVerification t.store t.now t.maxAge limit t.filter

/-- The store when the tick is over. -/
def Tick.after (f : BridgeFormat B K) (limit : ℕ) (t : Tick B K) : Store B K :=
  recordAttempts f t.verified t.now t.store (t.selected limit)

/-- A bridge that could be selected. -/
def Tick.Eligible (t : Tick B K) (k : K) : Prop :=
  ∃ e, Table.get t.store k = some e ∧ e.isDue t.now t.maxAge t.filter = true

def Tick.Selects (f : BridgeFormat B K) (limit : ℕ) (t : Tick B K) (k : K) : Prop :=
  k ∈ (t.selected limit).map f.key

/-- The timestamps of the verification of a bridge. -/
def Entry.stamps (e : Entry B) : Option ℤ × Option ℤ := (e.lastVerificationAttempt, e.lastVerified)

/-- The timestamps of a bridge when a tick begins; those of a bridge that has been removed from the
store are the ones it had. -/
def remembered (f : BridgeFormat B K) (limit : ℕ) (tick : ℕ → Tick B K) :
    ℕ → K → Option ℤ × Option ℤ
  | 0, k => ((Table.get (tick 0).store k).map Entry.stamps).getD (none, none)
  | i + 1, k => ((Table.get ((tick i).after f limit) k).map Entry.stamps).getD
      (remembered f limit tick i k)

/-- A run of ticks of increasing times: at the first all timestamps are earlier, and between the
ticks none is changed. -/
structure Ticks (f : BridgeFormat B K) (limit : ℕ) where
  length : ℕ
  tick : ℕ → Tick B K
  wellKept : ∀ i < length, WellKept f (tick i).store
  increasing : ∀ i, i + 1 < length → (tick i).now < (tick (i + 1)).now
  early : ∀ k e, Table.get (tick 0).store k = some e → ∀ time,
    e.lastVerificationAttempt = some time ∨ e.lastVerified = some time → time < (tick 0).now
  unchanged : ∀ i, i + 1 < length → ∀ k e, Table.get (tick (i + 1)).store k = some e →
    e.stamps = remembered f limit tick (i + 1) k

/-! ### Recording attempts -/

section Recording

variable {f : BridgeFormat B K} {s : Store B K} {verified : B → Bool} {now : ℤ}

/-- An attempt changes one entry, which is then stamped with its time. -/
theorem get_recordAttempt (bridge : B) (k : K) :
    (k ≠ f.key bridge ∧
        Table.get (recordAttempt f verified now s bridge) k = Table.get s k) ∨
      ∃ change : Entry B → Entry B, (∀ e, (change e).due = some now) ∧ k = f.key bridge ∧
        Table.get (recordAttempt f verified now s bridge) k = (Table.get s k).map change := by
  obtain ⟨change, hdue, hrecord⟩ : ∃ change : Entry B → Entry B, (∀ e, (change e).due = some now) ∧
      recordAttempt f verified now s bridge = modify f s bridge change := by
    unfold recordAttempt
    split <;> exact ⟨_, fun _ => rfl, rfl⟩
  rw [hrecord, get_modify]
  by_cases hk : k = f.key bridge
  · exact .inr ⟨change, hdue, hk, if_pos hk⟩
  · exact .inl ⟨hk, if_neg hk⟩

theorem get_recordAttempts {bridges : List B} {k : K} (hk : k ∉ bridges.map f.key) :
    Table.get (recordAttempts f verified now s bridges) k = Table.get s k := by
  induction bridges generalizing s with
  | nil => rfl
  | cons bridge bridges ih =>
    rw [map_cons, mem_cons, not_or] at hk
    refine (ih hk.2).trans ?_
    rcases get_recordAttempt bridge k with ⟨-, hsame⟩ | ⟨-, -, hkey, -⟩
    · exact hsame
    · exact absurd hkey hk.1

theorem due_recordAttempts_of_due {bridges : List B} {k : K}
    (h : ∃ e, Table.get s k = some e ∧ e.due = some now) :
    ∃ e, Table.get (recordAttempts f verified now s bridges) k = some e ∧ e.due = some now := by
  induction bridges generalizing s with
  | nil => exact h
  | cons bridge bridges ih =>
    obtain ⟨e, hget, hdue⟩ := h
    refine ih ?_
    rcases get_recordAttempt bridge k with ⟨-, hsame⟩ | ⟨change, hchange, -, hget'⟩
    · exact ⟨e, hsame.trans hget, hdue⟩
    · exact ⟨change e, by rw [hget', hget, Option.map_some], hchange e⟩

/-- **A bridge that has been tried is stamped with the time of the tick.** -/
theorem due_recordAttempts {bridges : List B} {k : K} (hk : k ∈ bridges.map f.key)
    (h : (Table.get s k).isSome = true) :
    ∃ e, Table.get (recordAttempts f verified now s bridges) k = some e ∧ e.due = some now := by
  induction bridges generalizing s with
  | nil => cases hk
  | cons bridge bridges ih =>
    obtain ⟨e, hget⟩ := Option.isSome_iff_exists.1 h
    rcases get_recordAttempt bridge k with ⟨hne, hsame⟩ | ⟨change, hchange, -, hget'⟩
    · exact ih ((mem_cons.1 hk).resolve_left hne) (by rw [hsame, hget]; rfl)
    · exact due_recordAttempts_of_due (s := recordAttempt f verified now s bridge)
        ⟨change e, by rw [hget', hget, Option.map_some], hchange e⟩

end Recording

/-! ### What is selected -/

section Selection

variable {f : BridgeFormat B K} {t : Tick B K} {limit : ℕ} {k k' : K}

/-- The entries that are due, in the order in which they are selected. -/
def Tick.queue (t : Tick B K) : List (Entry B) :=
  sortBy dueCmp ((values t.store).filter (Entry.isDue t.now t.maxAge t.filter))

theorem selected_eq (t : Tick B K) (limit : ℕ) :
    t.selected limit = (t.queue.take limit).map fun e => e.bridge :=
  takeRanked_eq dueCmp _ limit

theorem keys_values (h : WellKept f t.store) :
    (values t.store).map (fun e => f.key e.bridge) = (inOrder t.store).map Prod.fst := by
  rw [values, map_map]
  refine map_congr_left fun b hb => ?_
  exact (h b.1 b.2 (mem_inOrder.1 hb)).1

theorem nodup_queue (h : WellKept f t.store) : (t.queue.map fun e => f.key e.bridge).Nodup := by
  have hkeys : ((values t.store).map fun e => f.key e.bridge).Nodup := by
    rw [keys_values h, inOrder, ((perm_insertionSort _ _).map _).nodup_iff, map_map]
    exact t.store.nodupKeys
  have hperm : t.queue.Perm ((values t.store).filter (Entry.isDue t.now t.maxAge t.filter)) :=
    mergeSort_perm _ _
  exact (hperm.map _).nodup_iff.2 (hkeys.sublist (filter_sublist.map _))

theorem mem_queue (h : WellKept f t.store) {e : Entry B} :
    e ∈ t.queue ↔ Table.get t.store (f.key e.bridge) = some e ∧
      e.isDue t.now t.maxAge t.filter = true := by
  rw [Tick.queue, sortBy, mem_mergeSort, mem_filter, values, mem_map]
  refine and_congr_left fun _ => ⟨?_, fun hget => ⟨(f.key e.bridge, e), mem_inOrder.2 hget, rfl⟩⟩
  rintro ⟨⟨k, e'⟩, hmem, rfl⟩
  have hget := mem_inOrder.1 hmem
  rwa [(h k e' hget).1]

theorem eligible_iff (h : WellKept f t.store) :
    t.Eligible k ↔ ∃ e ∈ t.queue, f.key e.bridge = k := by
  constructor
  · rintro ⟨e, hget, hdue⟩
    obtain rfl := (h k e hget).1
    exact ⟨e, (mem_queue h).2 ⟨hget, hdue⟩, rfl⟩
  · rintro ⟨e, he, rfl⟩
    exact ⟨e, (mem_queue h).1 he⟩

theorem selects_iff : t.Selects f limit k ↔ ∃ e ∈ t.queue.take limit, f.key e.bridge = k := by
  rw [Tick.Selects, selected_eq, map_map, mem_map]
  rfl

theorem exists_mem_drop (h : WellKept f t.store) (heligible : t.Eligible k)
    (hselects : ¬ t.Selects f limit k) : ∃ e ∈ t.queue.drop limit, f.key e.bridge = k := by
  obtain ⟨e, he, rfl⟩ := (eligible_iff h).1 heligible
  rw [← take_append_drop limit t.queue, mem_append] at he
  exact ⟨e, he.resolve_left fun htake => hselects (selects_iff.2 ⟨e, htake, rfl⟩), rfl⟩

/-- **The bridges that are selected have waited longest.** -/
theorem due_le_of_selected (h : WellKept f t.store) (hk : t.Selects f limit k)
    (heligible : t.Eligible k') (hk' : ¬ t.Selects f limit k') {e e' : Entry B}
    (he : Table.get t.store k = some e) (he' : Table.get t.store k' = some e') :
    (compare e.due e'.due).isLE = true := by
  have hsorted : t.queue.Pairwise fun a b => (dueCmp a b).isLE = true := by
    refine pairwise_mergeSort (fun a b c => Std.TransCmp.isLE_trans) (fun a b => ?_) _
    have htotal := Std.Total.total (r := TopK.LeOf (dueCmp (B := B))) a b
    simpa [TopK.LeOf] using htotal
  obtain ⟨a, ha, rfl⟩ := selects_iff.1 hk
  obtain ⟨b, hb, rfl⟩ := exists_mem_drop h heligible hk'
  obtain ⟨hgeta, -⟩ := (mem_queue h).1 (mem_of_mem_take ha)
  obtain ⟨hgetb, -⟩ := (mem_queue h).1 (mem_of_mem_drop hb)
  obtain rfl := Option.some.inj (he.symm.trans hgeta)
  obtain rfl := Option.some.inj (he'.symm.trans hgetb)
  rw [← take_append_drop limit t.queue] at hsorted
  exact (pairwise_append.1 hsorted).2.2 _ ha _ hb

/-- If one is left out, as many are selected as the limit allows. -/
theorem card_selected (h : WellKept f t.store) (heligible : t.Eligible k)
    (hselects : ¬ t.Selects f limit k) :
    ((t.selected limit).map f.key).toFinset.card = limit := by
  obtain ⟨e, he, -⟩ := exists_mem_drop h heligible hselects
  have hlong : limit < t.queue.length := by
    have hpos := length_pos_of_mem he
    rw [length_drop] at hpos
    omega
  have hkeys : (t.selected limit).map f.key = (t.queue.map fun e => f.key e.bridge).take limit := by
    rw [selected_eq, map_map, ← map_take]
    rfl
  rw [hkeys, toFinset_card_of_nodup ((nodup_queue h).sublist (take_sublist _ _)),
    length_take, length_map, min_eq_left hlong.le]

end Selection

/-! ### The schedule of a run -/

/-- The time of a stamp; a bridge that was never tried is before all others. -/
def stampTime : Option ℤ → WithBot ℤ
  | none => ⊥
  | some time => time

theorem stampTime_le {a b : Option ℤ} (h : (compare a b).isLE = true) :
    stampTime a ≤ stampTime b := by
  cases a with
  | none => exact bot_le
  | some t =>
    cases b with
    | none => cases h
    | some u => exact WithBot.coe_le_coe.2 (Int.isLE_compare.1 h)

namespace Ticks

variable {f : BridgeFormat B K} {limit : ℕ} (R : Ticks f limit) {i : ℕ} {k : K} {e : Entry B}

/-- The timestamps of a bridge when tick `i` begins. -/
def stamps (i : ℕ) (k : K) : Option ℤ × Option ℤ := remembered f limit R.tick i k

def due (i : ℕ) (k : K) : Option ℤ := (R.stamps i k).1.or (R.stamps i k).2

theorem due_eq (hi : i < R.length) (hget : Table.get (R.tick i).store k = some e) :
    R.due i k = e.due := by
  have hstamps : e.stamps = R.stamps i k := by
    cases i with
    | zero => rw [stamps, remembered, hget, Option.map_some, Option.getD_some]
    | succ i => exact R.unchanged i hi k e hget
  rw [due, ← hstamps]
  rfl

theorem due_succ_of_after (hget : Table.get ((R.tick i).after f limit) k = some e) :
    R.due (i + 1) k = e.due := by
  rw [due, stamps, remembered, hget]
  rfl

theorem due_zero_lt (k : K) : stampTime (R.due 0 k) < (R.tick 0).now := by
  rw [due, stamps, remembered]
  cases hget : Table.get (R.tick 0).store k with
  | none => exact WithBot.bot_lt_coe _
  | some e =>
    have hearly := R.early k e hget
    change stampTime e.due < _
    rw [Entry.due]
    cases hattempt : e.lastVerificationAttempt with
    | some time => exact WithBot.coe_lt_coe.2 (hearly time (.inl hattempt))
    | none =>
      cases hverified : e.lastVerified with
      | none => exact WithBot.bot_lt_coe _
      | some time => exact WithBot.coe_lt_coe.2 (hearly time (.inr hverified))

theorem isSome_of_selects (hi : i < R.length) (hk : (R.tick i).Selects f limit k) :
    ∃ e, Table.get (R.tick i).store k = some e := by
  obtain ⟨e, he, rfl⟩ := selects_iff.1 hk
  exact ⟨e, ((mem_queue (R.wellKept i hi)).1 (mem_of_mem_take he)).1⟩

/-- **The ticks serve the bridge first that was tried the longest ago.** -/
def schedule : LeastRecent.Schedule K ℤ where
  rounds := R.length
  limit := limit
  now i := (R.tick i).now
  stamp i k := stampTime (R.due i k)
  eligible i k := (R.tick i).Eligible k
  served i := (((R.tick i).selected limit).map f.key).toFinset
  increasing := R.increasing
  early := R.due_zero_lt
  oldest := by
    intro i hi k hk k' heligible hk'
    rw [List.mem_toFinset] at hk hk'
    obtain ⟨e, he⟩ := R.isSome_of_selects hi hk
    obtain ⟨e', he', hdue⟩ := heligible
    rw [R.due_eq hi he, R.due_eq hi he']
    exact stampTime_le (due_le_of_selected (R.wellKept i hi) hk ⟨e', he', hdue⟩ hk' he he')
  full := by
    intro i hi k heligible hk
    rw [List.mem_toFinset] at hk
    exact card_selected (R.wellKept i hi) heligible hk
  served_eligible := by
    intro i hi k hk
    rw [List.mem_toFinset] at hk
    obtain ⟨e, he, rfl⟩ := selects_iff.1 hk
    exact (eligible_iff (R.wellKept i hi)).2 ⟨e, List.mem_of_mem_take he, rfl⟩
  stamped := by
    intro i hi k hk
    rw [List.mem_toFinset] at hk
    obtain ⟨e, he⟩ := R.isSome_of_selects (Nat.lt_of_succ_lt hi) hk
    have hafter : ∃ e, Table.get ((R.tick i).after f limit) k = some e ∧
        e.due = some (R.tick i).now :=
      due_recordAttempts hk (by rw [he]; rfl)
    obtain ⟨e', hget, hdue⟩ := hafter
    rw [R.due_succ_of_after hget, hdue]
    rfl
  kept := by
    intro i hi k hk
    rw [List.mem_toFinset] at hk
    have hsame : Table.get ((R.tick i).after f limit) k = Table.get (R.tick i).store k :=
      get_recordAttempts hk
    cases hget : Table.get (R.tick i).store k with
    | some e => rw [R.due_succ_of_after (hsame.trans hget), R.due_eq (Nat.lt_of_succ_lt hi) hget]
    | none =>
      have hstamps : R.stamps (i + 1) k = R.stamps i k := by
        rw [stamps, remembered, hsame, hget]
        rfl
      rw [due, due, hstamps]

end Ticks

/-- **No bridge is passed over for long.**  Between two ticks that select the same bridge, every
bridge that is eligible on all of them is selected on one of them; and if no more than `n` bridges
are ever eligible, a bridge that stays eligible for `⌈n / limit⌉` ticks is selected on one of them.
-/
theorem verification_is_fair {f : BridgeFormat B K} {limit : ℕ} (hlimit : 0 < limit)
    (R : Ticks f limit) :
    (∀ i j k k', i < j → j < R.length → (R.tick i).Selects f limit k →
      (R.tick j).Selects f limit k → (∀ m, i ≤ m → m ≤ j → (R.tick m).Eligible k') →
      ∃ m, i ≤ m ∧ m ≤ j ∧ (R.tick m).Selects f limit k') ∧
    (∀ n (bridges : Finset K), bridges.card ≤ n →
      (∀ i < R.length, ∀ k, (R.tick i).Eligible k → k ∈ bridges) →
      ∀ a k, a < R.length → (R.tick a).Eligible k → a + (n + limit - 1) / limit ≤ R.length →
      (∀ m < (n + limit - 1) / limit, (R.tick (a + m)).Eligible k) →
      ∃ m < (n + limit - 1) / limit, (R.tick (a + m)).Selects f limit k) := by
  constructor
  · intro i j k k' hij hj hk hk' heligible
    obtain ⟨m, him, hmj, hm⟩ := R.schedule.served_between hij hj (List.mem_toFinset.2 hk)
      (List.mem_toFinset.2 hk') heligible
    exact ⟨m, him, hmj, List.mem_toFinset.1 hm⟩
  · intro n bridges hcard hbridges a k ha hfirst hwindow heligible
    have henough : n ≤ (n + limit - 1) / limit * limit := by
      have hmod := Nat.div_add_mod (n + limit - 1) limit
      have hlt := Nat.mod_lt (n + limit - 1) hlimit
      rw [Nat.mul_comm] at hmod
      omega
    obtain ⟨m, hm, hserved⟩ := R.schedule.served_within hcard hbridges henough hwindow ha hfirst
      heligible
    exact ⟨m, hm, List.mem_toFinset.1 hserved⟩

/-! ### Ticks with nothing between them -/

theorem wellKept_recordAttempts {f : BridgeFormat B K} {s : Store B K} (h : WellKept f s)
    (verified : B → Bool) (now : ℤ) (bridges : List B) :
    WellKept f (recordAttempts f verified now s bridges) := by
  refine foldlRecOn bridges _ h fun s hs bridge _ => ?_
  unfold recordAttempt
  split
  · exact wellKept_observe hs (.circuitVerified bridge now)
  · exact wellKept_observe hs (.verificationAttempt bridge now)

/-- A tick every second, and nothing between the ticks. -/
def aloneTick (f : BridgeFormat B K) (limit : ℕ) (s : Store B K) : ℕ → Tick B K
  | 0 => ⟨s, 0, 0, fun _ => true, fun _ => false⟩
  | i + 1 => ⟨(aloneTick f limit s i).after f limit, i + 1, 0, fun _ => true, fun _ => false⟩

theorem now_aloneTick (f : BridgeFormat B K) (limit : ℕ) (s : Store B K) (i : ℕ) :
    (aloneTick f limit s i).now = i := by
  cases i <;> rfl

def aloneTicks {f : BridgeFormat B K} (limit : ℕ) {s : Store B K} (h : WellKept f s)
    (hearly : ∀ k e, Table.get s k = some e → ∀ time,
      e.lastVerificationAttempt = some time ∨ e.lastVerified = some time → time < 0) (length : ℕ) :
    Ticks f limit where
  length := length
  tick := aloneTick f limit s
  wellKept := by
    intro i hi
    induction i with
    | zero => exact h
    | succ i ih => exact wellKept_recordAttempts (ih (by omega)) _ _ _
  increasing := by
    intro i _
    rw [now_aloneTick, now_aloneTick]
    omega
  early := hearly
  unchanged := by
    intro i _ k e hget
    have hafter : Table.get ((aloneTick f limit s i).after f limit) k = some e := hget
    rw [remembered, hafter]
    rfl

/-- Two bridges that have carried a channel. -/
def provenStore : Store ℕ ℕ :=
  observeAll numberFormat ∅
    [.record 1 0 0, .record 2 0 0, .channelSuccess 1 0, .channelSuccess 2 0]

def provenTicks : Ticks numberFormat 1 :=
  aloneTicks 1 (wellKept_observeAll wellKept_empty _ : WellKept numberFormat provenStore)
    (by
      intro k e hget time htime
      have hnever : ∀ b ∈ provenStore.entries, b.2.stamps = (none, none) := by decide
      have hstamps := hnever ⟨k, e⟩ (Table.mem_entries.2 hget)
      rcases htime with htime | htime
      · exact absurd (htime.symm.trans (congrArg Prod.fst hstamps)) (by simp)
      · exact absurd (htime.symm.trans (congrArg Prod.snd hstamps)) (by simp))
    3

theorem verification_is_fair_proven :
    (provenTicks.tick 0).selected 1 = [1] ∧ (provenTicks.tick 2).selected 1 = [1] ∧
      ∃ m, 0 ≤ m ∧ m ≤ 2 ∧ (provenTicks.tick m).Selects numberFormat 1 2 := by
  have hfirst : (provenTicks.tick 0).selected 1 = [1] := by decide +kernel
  have hsecond : (provenTicks.tick 2).selected 1 = [1] := by decide +kernel
  refine ⟨hfirst, hsecond, (verification_is_fair one_pos provenTicks).1 0 2 1 2 (by decide) (by decide)
    ?_ ?_ ?_⟩
  · rw [Tick.Selects, hfirst]
    exact List.mem_singleton.2 rfl
  · rw [Tick.Selects, hsecond]
    exact List.mem_singleton.2 rfl
  · have hdue : ∀ m ≤ 2, ((Table.get (provenTicks.tick m).store 2).any fun e =>
        e.isDue (provenTicks.tick m).now (provenTicks.tick m).maxAge (provenTicks.tick m).filter) =
          true := by decide +kernel
    intro m _ hm
    obtain ⟨e, hget, he⟩ := (Option.any_eq_true _ _).1 (hdue m hm)
    exact ⟨e, hget, he⟩

end BridgeStore
