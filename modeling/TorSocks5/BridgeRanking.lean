/-
**Rankings of the bridges.**

The store answers questions of the form "which bridges are the best": the entries are gone through
in the order of the map, those that qualify are ranked, and a bounded heap keeps as many as are
asked for.  Entries that are ranked alike are told apart by their places in the map, and so what
comes out is what a stable sort would put first.  The bridge warmer selects from its candidates in
the same way.
-/

import Mathlib
import TorSocks5.BridgeStore
import TorSocks5.Failover

set_option autoImplicit false

namespace BridgeStore

variable {B K : Type}

/-! ### Entries and rankings -/

def Entry.isRetired (e : Entry B) : Bool := e.circuitFails == u32Max

def Entry.isProvenAlive (e : Entry B) : Bool :=
    e.fails == 0 && decide (0 < e.okCount) && !e.isRetired

/-- The health ranking, best first. -/
def rankCmp (a b : Entry B) : Ordering :=
  (compare b.verifiedCount a.verifiedCount).then <|
    (compare b.lastVerified a.lastVerified).then <|
    (compare b.channelOkCount a.channelOkCount).then <|
    (compare b.lastChannelOk a.lastChannelOk).then <|
    (compare b.okCount a.okCount).then (compare a.lastLatency b.lastLatency)

/-- The ranking of the bridges that have carried a channel. -/
def channelProvenCmp (a b : Entry B) : Ordering :=
  (compare b.lastChannelOk a.lastChannelOk).then (compare b.channelOkCount a.channelOkCount)

/-- When a verification was last tried, or succeeded. -/
def Entry.due (e : Entry B) : Option ℤ := e.lastVerificationAttempt.or e.lastVerified

/-- The ranking of the bridges that are due for a verification. -/
def dueCmp (a b : Entry B) : Ordering := compare a.due b.due

instance : Std.TransCmp (rankCmp (B := B)) :=
  inferInstanceAs (Std.TransCmp (compareLex (fun a b => compareOn (fun e : Entry B => e.verifiedCount) b a)
    (compareLex (fun a b => compareOn (fun e : Entry B => e.lastVerified) b a)
      (compareLex (fun a b => compareOn (fun e : Entry B => e.channelOkCount) b a)
        (compareLex (fun a b => compareOn (fun e : Entry B => e.lastChannelOk) b a)
          (compareLex (fun a b => compareOn (fun e : Entry B => e.okCount) b a)
            (compareOn fun e : Entry B => e.lastLatency)))))))

instance : Std.TransCmp (channelProvenCmp (B := B)) :=
  inferInstanceAs (Std.TransCmp (compareLex
    (fun a b => compareOn (fun e : Entry B => e.lastChannelOk) b a)
    (fun a b => compareOn (fun e : Entry B => e.channelOkCount) b a)))

instance : Std.TransCmp (dueCmp (B := B)) :=
  inferInstanceAs (Std.TransCmp (compareOn (Entry.due (B := B))))

/-- An entry with its place among those that qualify. -/
structure Ranked (B : Type) where
  position : ℕ
  entry : Entry B

/-- A ranking, with the place of an entry as the final tie-breaker. -/
def Ranked.cmp (rank : Entry B → Entry B → Ordering) : Ranked B → Ranked B → Ordering :=
  TopK.ahead rank Ranked.entry Ranked.position

/-- The best of some entries, by their ranks and places. -/
def takeRanked (rank : Entry B → Entry B → Ordering) (entries : List (Entry B)) (limit : ℕ) :
    List B :=
  (TopK.heapBest (TopK.LeOf (Ranked.cmp rank)) (entries.zipIdx.map fun e => ⟨e.2, e.1⟩) limit).map
    fun ranked => ranked.entry.bridge

def rankAndTake (healthy : List (Entry B)) (limit : ℕ) : List B := takeRanked rankCmp healthy limit

/-! ### The questions -/

section Questions

variable [LinearOrder K]

/-- The entries with their identities, in the order of the map. -/
def inOrder (s : Store B K) : List (K × Entry B) :=
  (s.entries.map fun b => (b.1, b.2)).insertionSort fun a b => a.1 ≤ b.1

def values (s : Store B K) : List (Entry B) := (inOrder s).map Prod.snd

def channelProvenBridges (s : Store B K) (limit : ℕ) : List B :=
  takeRanked channelProvenCmp
    ((values s).filter fun e => decide (0 < e.channelOkCount) && !e.isRetired) limit

def healthiestBridges (s : Store B K) (limit : ℕ) : List B :=
  rankAndTake ((values s).filter Entry.isProvenAlive) limit

def healthiestAmong (f : BridgeFormat B K) (s : Store B K) (candidates : List B) (limit : ℕ) :
    List B :=
  rankAndTake (((inOrder s).filter fun b =>
    b.2.isProvenAlive && decide (b.1 ∈ candidates.map f.key)).map Prod.snd) limit

/-- The entry is due, and its bridge passes the filter. -/
def Entry.isDue (now : ℤ) (maxAge : ℕ) (filter : B → Bool) (e : Entry B) : Bool :=
  decide (0 < e.channelOkCount) && !e.isRetired &&
    (match e.lastVerified with
      | none => true
      | some t => decide (maxAge ≤ now - t)) && filter e.bridge

def needingCircuitVerification (s : Store B K) (now : ℤ) (maxAge limit : ℕ)
    (filter : B → Bool) : List B :=
  takeRanked dueCmp ((values s).filter (Entry.isDue now maxAge filter)) limit

end Questions

/-! ### To rank is to sort -/

/-- Sort by a ranking, stably. -/
def sortBy (rank : Entry B → Entry B → Ordering) (entries : List (Entry B)) : List (Entry B) :=
  entries.mergeSort fun a b => (rank a b).isLE

/-- **To rank and take is to sort stably and take.** -/
theorem takeRanked_eq (rank : Entry B → Entry B → Ordering) [Std.TransCmp rank]
    (entries : List (Entry B)) (limit : ℕ) :
    takeRanked rank entries limit = ((sortBy rank entries).take limit).map fun e => e.bridge := by
  have horder : TopK.InOrder Ranked.position
      (entries.zipIdx.map fun e => (⟨e.2, e.1⟩ : Ranked B)) :=
    TopK.inOrder_of_sublist_zipIdx (List.Sublist.refl _) _ fun _ => rfl
  have hvalues : (entries.zipIdx.map fun e => (⟨e.2, e.1⟩ : Ranked B)).map Ranked.entry =
      entries := by
    rw [List.map_map]
    exact List.zipIdx_map_fst 0 entries
  have hbest : (TopK.heapBest (TopK.LeOf (Ranked.cmp rank))
      (entries.zipIdx.map fun e => ⟨e.2, e.1⟩) limit).map Ranked.entry =
        (sortBy rank entries).take limit := by
    rw [Ranked.cmp, TopK.map_heapBest horder, hvalues, sortBy]
  rw [takeRanked, ← hbest, List.map_map]
  rfl

theorem filter_sortBy (rank : Entry B → Entry B → Ordering) [Std.TransCmp rank] (p : Entry B → Bool)
    (entries : List (Entry B)) :
    (sortBy rank entries).filter p = sortBy rank (entries.filter p) := by
  have hsort (l : List (Entry B)) : sortBy rank l = l.insertionSort (TopK.LeOf rank) := by
    simp only [TopK.insertionSort_eq_mergeSort, TopK.decide_leOf, sortBy]
  rw [hsort, hsort, TopK.filter_insertionSort]

section Stores

variable [LinearOrder K] {f : BridgeFormat B K} {s : Store B K}

theorem mem_inOrder {k : K} {e : Entry B} : (k, e) ∈ inOrder s ↔ Table.get s k = some e := by
  rw [inOrder, (List.perm_insertionSort _ _).mem_iff, List.mem_map]
  constructor
  · rintro ⟨b, hb, heq⟩
    cases heq
    exact Table.mem_entries.1 hb
  · intro hget
    exact ⟨⟨k, e⟩, Table.mem_entries.2 hget, rfl⟩

theorem length_values (s : Store B K) : (values s).length = s.len := by
  rw [values, List.length_map, inOrder, List.length_insertionSort, List.length_map]
  rfl

theorem filter_inOrder (h : WellKept f s) (p : Entry B → Bool) (ks : List K) :
    ((inOrder s).filter fun b => p b.2 && decide (b.1 ∈ ks)).map Prod.snd =
      ((values s).filter p).filter fun e => decide (f.key e.bridge ∈ ks) := by
  rw [values, List.filter_filter, List.filter_map]
  congr 1
  refine List.filter_congr fun b hb => ?_
  obtain ⟨hkey, -⟩ := h b.1 b.2 (mem_inOrder.1 hb)
  simp only [Function.comp_apply, hkey]
  exact Bool.and_comm _ _

theorem healthiestBridges_eq (s : Store B K) (limit : ℕ) :
    healthiestBridges s limit =
      ((sortBy rankCmp ((values s).filter Entry.isProvenAlive)).take limit).map fun e => e.bridge :=
  takeRanked_eq rankCmp _ limit

/-- **The healthiest of some candidates are the first of them among the healthiest of all.** -/
theorem healthiestAmong_eq (h : WellKept f s) (candidates : List B) (limit : ℕ) {all : ℕ}
    (hall : s.len ≤ all) :
    healthiestAmong f s candidates limit = ((healthiestBridges s all).filter fun b =>
      decide (f.key b ∈ candidates.map f.key)).take limit := by
  have hlength : (sortBy rankCmp ((values s).filter Entry.isProvenAlive)).length ≤ all := by
    rw [sortBy, List.length_mergeSort]
    exact (List.length_filter_le _ _).trans ((length_values s).le.trans hall)
  rw [healthiestAmong, filter_inOrder h, rankAndTake, takeRanked_eq, healthiestBridges_eq,
    List.take_of_length_le hlength, List.filter_map, ← List.map_take, ← filter_sortBy]
  rfl

end Stores

/-- The candidates of the bridge warmer, sorted by their rank, stably. -/
theorem selectTopN_eq {B : Type*} (candidates : List (B × Failover.Health)) (n : ℕ) :
    Failover.selectTopN candidates n =
      (((candidates.filter fun c => decide (c.2.tcpFails = 0)).mergeSort fun a b =>
        (Failover.warmingRank a.2 b.2).isLE).take n).map Prod.fst := by
  have hrank : Std.TransCmp fun a b : B × Failover.Health => Failover.warmingRank a.2 b.2 :=
    inferInstanceAs (Std.TransCmp (compareLex
      (compareLex (compareOn fun c : B × Failover.Health => c.2.circuitFails)
        fun a b => compareOn (fun c : B × Failover.Health => c.2.verifiedCount) b a)
      fun a b => compareOn (fun c : B × Failover.Health => c.2.okCount) b a))
  have horder : TopK.InOrder Failover.RankedCandidate.position (Failover.ranked candidates) :=
    TopK.inOrder_of_sublist_zipIdx List.filter_sublist _ fun _ => rfl
  have hvalues : (Failover.ranked candidates).map (fun c => (c.bridge, c.health)) =
      candidates.filter fun c => decide (c.2.tcpFails = 0) := by
    conv_rhs => rw [← List.zipIdx_map_fst 0 candidates, List.filter_map]
    rw [Failover.ranked, List.map_map]
    rfl
  have hbest : (TopK.takeBest (TopK.LeOf (TopK.ahead
      (fun a b : B × Failover.Health => Failover.warmingRank a.2 b.2)
      (fun c : Failover.RankedCandidate B => (c.bridge, c.health)) Failover.RankedCandidate.position))
        (Failover.ranked candidates) n).map (fun c => (c.bridge, c.health)) =
      ((candidates.filter fun c => decide (c.2.tcpFails = 0)).mergeSort fun a b =>
        (Failover.warmingRank a.2 b.2).isLE).take n := by
    rw [TopK.map_takeBest horder, hvalues]
  rw [← hbest, List.map_map]
  rfl

/-- **Selection by a heap is sorting.**  The items a heap selects are the first of the sorted items;
what the store and the bridge warmer select are the first of the entries that qualify, sorted stably
by their ranks; and the healthiest of some candidates are the first of them among the healthiest of
all. -/
theorem selection_is_sorting {B K I : Type} [LinearOrder K] [LinearOrder I] {f : BridgeFormat B K}
    {s : Store B K} (h : WellKept f s) (items : List I) (candidates : List B)
    (warmed : List (B × Failover.Health)) (limit : ℕ) :
    TopK.heapBest (· ≤ ·) items limit = (items.mergeSort fun a b => decide (a ≤ b)).take limit ∧
      TopK.takeBest (· ≤ ·) items limit = (items.mergeSort fun a b => decide (a ≤ b)).take limit ∧
      healthiestBridges s limit =
        ((((values s).filter Entry.isProvenAlive).mergeSort fun a b => (rankCmp a b).isLE).take
          limit).map (fun e => e.bridge) ∧
      channelProvenBridges s limit =
        ((((values s).filter fun e => decide (0 < e.channelOkCount) && !e.isRetired).mergeSort
          fun a b => (channelProvenCmp a b).isLE).take limit).map (fun e => e.bridge) ∧
      (∀ all, s.len ≤ all → healthiestAmong f s candidates limit =
        ((healthiestBridges s all).filter fun b => decide (f.key b ∈ candidates.map f.key)).take
          limit) ∧
      Failover.selectTopN warmed limit =
        (((warmed.filter fun c => decide (c.2.tcpFails = 0)).mergeSort fun a b =>
          (Failover.warmingRank a.2 b.2).isLE).take limit).map Prod.fst :=
  ⟨TopK.heapBest_eq items limit, TopK.takeBest_eq items limit, healthiestBridges_eq s limit,
    takeRanked_eq channelProvenCmp _ limit, fun _ hall =>
      healthiestAmong_eq h candidates limit hall,
    selectTopN_eq warmed limit⟩

/-- Bridges that are numbers. -/
def numberFormat : BridgeFormat ℕ ℕ := ⟨id, fun _ => none, fun _ => [], fun _ => none⟩

/-- A store of three bridges, the second of which has answered twice. -/
def probedStore : Store ℕ ℕ :=
  observeAll numberFormat ∅ [.record 3 20 0, .record 2 10 0, .record 2 10 1, .record 1 20 2]

theorem selection_is_sorting_probed :
    healthiestAmong numberFormat probedStore [3, 1] 1 = [1] ∧
      healthiestAmong numberFormat probedStore [3, 1] 1 =
        ((healthiestBridges probedStore 3).filter fun b => decide (b ∈ [3, 1])).take 1 := by
  have hkept : WellKept numberFormat probedStore := wellKept_observeAll wellKept_empty _
  refine ⟨by decide, ?_⟩
  exact (selection_is_sorting hkept ([] : List ℕ) [3, 1] [] 1).2.2.2.2.1 3 (by decide)

end BridgeStore
