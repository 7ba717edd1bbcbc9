/-
**The best items of a list, by a bounded heap.**

To find the `limit` best of many items one keeps a heap of at most `limit` of them with the worst at
its root: a new item enters while there is room, and afterwards only in the place of a worse one.
The heap is represented by the items it holds, the worst first, so its root is the head of the list.
-/

import Mathlib

set_option autoImplicit false

namespace TopK

open List

variable {I : Type*} (r : I → I → Prop) [DecidableRel r]

/-- An item enters the heap, which is sorted from the worst to the best. -/
def push (item : I) (kept : List I) : List I := kept.orderedInsert (fun a b => r b a) item

/-- An item is offered to a heap with room for `limit` items. -/
def offer (limit : ℕ) (kept : List I) (item : I) : List I :=
  if kept.length < limit then push r item kept
  else
    match kept with
    | [] => []
    | worst :: rest => if r worst item then worst :: rest else push r item rest

/-- The `limit` best items, the best one first. -/
def takeBest (items : List I) (limit : ℕ) : List I :=
  if limit = 0 then []
  else if items.length ≤ limit then items.insertionSort r
  else (items.foldl (offer r limit) []).insertionSort r

/-- The same, without a shortcut. -/
def heapBest (items : List I) (limit : ℕ) : List I :=
  if limit = 0 then [] else (items.foldl (offer r limit) []).insertionSort r

/-- Some items of a list, as many as the limit allows, and none of the others is better. -/
def Best (limit : ℕ) (items kept : List I) : Prop :=
  ∃ dropped, (kept ++ dropped).Perm items ∧ kept.length = min limit items.length ∧
    ∀ k ∈ kept, ∀ d ∈ dropped, r k d

variable {r}

variable {limit : ℕ} {items kept : List I} {a : I}
omit [DecidableRel r] in
theorem Best.of_perm {kept' : List I} (h : Best r limit items kept)
    (hperm : kept'.Perm kept) : Best r limit items kept' := by
  obtain ⟨dropped, hall, hlen, hbetter⟩ := h
  exact ⟨dropped, (hperm.append_right dropped).trans hall, hperm.length_eq.trans hlen,
    fun k hk => hbetter k (hperm.mem_iff.1 hk)⟩

theorem mem_push {item k : I} : k ∈ push r item kept ↔ k = item ∨ k ∈ kept := by
  rw [push, (perm_orderedInsert _ item kept).mem_iff, mem_cons]

variable [Std.Total r] [IsTrans I r]

theorem pairwise_push {item : I} (h : kept.Pairwise fun a b => r b a) :
    (push r item kept).Pairwise fun a b => r b a := by
  have : Std.Total fun a b : I => r b a := ⟨fun a b => Std.Total.total b a⟩
  have : IsTrans I fun a b : I => r b a := ⟨fun a b c hab hbc => IsTrans.trans c b a hbc hab⟩
  exact List.Pairwise.orderedInsert item kept h

/-- The heap holds the best of the items it was offered. -/
theorem best_offer (item : I) (hpos : 0 < limit)
    (hsorted : kept.Pairwise fun a b => r b a) (h : Best r limit items kept) :
    (offer r limit kept item).Pairwise (fun a b => r b a) ∧
      Best r limit (items ++ [item]) (offer r limit kept item) := by
  obtain ⟨dropped, hall, hlen, hbetter⟩ := h
  have hcount := hall.length_eq
  have hmore := (hall.cons item).trans (perm_append_singleton item items).symm
  have htrans : ∀ a b c : I, r a b → r b c → r a c := IsTrans.trans
  rw [length_append] at hcount
  unfold offer
  split
  · -- nothing has been dropped yet
    obtain rfl : dropped = [] := eq_nil_of_length_eq_zero (by omega)
    rw [append_nil] at hmore
    refine ⟨pairwise_push hsorted, [], ?_, ?_, by simp⟩
    · rw [append_nil]
      exact (perm_orderedInsert _ item kept).trans hmore
    · rw [push, orderedInsert_length, length_append, length_singleton]
      omega
  · next hfull =>
    cases kept with
    | nil => exact absurd hpos hfull
    | cons worst rest =>
      obtain ⟨hworst, hrest⟩ := pairwise_cons.1 hsorted
      dsimp only
      split
      · next hkeep =>
        refine ⟨hsorted, item :: dropped, perm_middle.trans hmore, ?_, by grind⟩
        rw [length_append, length_singleton]
        omega
      · next hreplace =>
        have hitem : r item worst := (Std.Total.total item worst).resolve_right hreplace
        refine ⟨pairwise_push hrest, worst :: dropped, ?_, ?_, by grind [mem_push]⟩
        · refine ((perm_orderedInsert _ item rest).append_right _).trans ?_
          exact (perm_middle.cons item).trans hmore
        · rw [push, orderedInsert_length, length_append, length_singleton]
          rw [length_cons] at hlen
          omega

theorem best_foldl (hpos : 0 < limit) (rest : List I) : ∀ items kept : List I,
    (kept.Pairwise fun a b => r b a) → Best r limit items kept →
    Best r limit (items ++ rest) (rest.foldl (offer r limit) kept) := by
  induction rest with
  | nil => exact fun items kept _ h => by simpa using h
  | cons item rest ih =>
    intro items kept hsorted h
    obtain ⟨hsorted', h'⟩ := best_offer item hpos hsorted h
    simpa using ih (items ++ [item]) _ hsorted' h'

/-- **`heapBest` returns the best items in order.** -/
theorem heapBest_spec (items : List I) (limit : ℕ) :
    Best r limit items (heapBest r items limit) ∧ (heapBest r items limit).Pairwise r := by
  unfold heapBest
  split_ifs with hpos
  · subst hpos
    exact ⟨⟨items, .refl _, by simp, by simp⟩, .nil⟩
  · have hbest := best_foldl (r := r) (Nat.pos_of_ne_zero hpos) items [] [] .nil
      ⟨[], .refl _, by simp, by simp⟩
    exact ⟨hbest.of_perm (perm_insertionSort r _), pairwise_insertionSort r _⟩

/-- **`takeBest` returns the best items in order.** -/
theorem takeBest_spec (items : List I) (limit : ℕ) :
    Best r limit items (takeBest r items limit) ∧ (takeBest r items limit).Pairwise r := by
  by_cases hshort : limit ≠ 0 ∧ items.length ≤ limit
  · rw [takeBest, if_neg hshort.1, if_pos hshort.2]
    refine ⟨⟨[], ?_, ?_, by simp⟩, pairwise_insertionSort r items⟩
    · rw [append_nil]
      exact perm_insertionSort r items
    · rw [length_insertionSort, min_eq_right hshort.2]
  · have hheap : takeBest r items limit = heapBest r items limit := by grind [takeBest, heapBest]
    rw [hheap]
    exact heapBest_spec items limit

/-- The one best item is at least as good as every other, and there is one unless there are no
items. -/
theorem takeBest_one (items : List I) :
    (items = [] ∧ takeBest r items 1 = []) ∨
      ∃ x, takeBest r items 1 = [x] ∧ x ∈ items ∧ ∀ y ∈ items, r x y := by
  obtain ⟨⟨dropped, hall, hlen, hbetter⟩, -⟩ := takeBest_spec (r := r) items 1
  cases items with
  | nil => exact .inl ⟨rfl, eq_nil_of_length_eq_zero hlen⟩
  | cons i items =>
    obtain ⟨x, hx⟩ := length_eq_one_iff.1 (hlen.trans (by simp))
    rw [hx] at hall hbetter
    refine .inr ⟨x, hx, hall.mem_iff.1 (by simp), fun y hy => ?_⟩
    rcases mem_append.1 (hall.mem_iff.2 hy) with hy | hy
    · obtain rfl := mem_singleton.1 hy
      exact (Std.Total.total y y).elim id id
    · exact hbetter x mem_cons_self y hy

/-! ### Sorting -/

/-- The best items in order are the first of the sorted items, if equally good items are equal. -/
theorem eq_take_of_best
    (hantisymm : ∀ a ∈ items, ∀ b ∈ items, r a b → r b a → a = b) (h : Best r limit items kept)
    (hsorted : kept.Pairwise r) : kept = (items.insertionSort r).take limit := by
  obtain ⟨dropped, hall, hlen, hbetter⟩ := h
  have hsort := perm_insertionSort r
  have hperm : (kept ++ dropped.insertionSort r).Perm items :=
    ((hsort dropped).append_left kept).trans hall
  have hwhole : kept ++ dropped.insertionSort r = items.insertionSort r := by
    refine List.Perm.eq_of_pairwise (fun a b ha hb => ?_) ?_ (pairwise_insertionSort r items)
      (hperm.trans (hsort items).symm)
    · exact hantisymm a (hperm.mem_iff.1 ha) b ((hsort items).mem_iff.1 hb)
    · refine pairwise_append.2 ⟨hsorted, pairwise_insertionSort r dropped, ?_⟩
      exact fun k hk d hd => hbetter k hk d ((hsort dropped).mem_iff.1 hd)
  rw [← hwhole, take_append, take_of_length_le (by omega)]
  rcases le_total limit items.length with hle | hle
  · simp [hlen, hle]
  · -- nothing has been dropped
    have hcount := hall.length_eq
    rw [length_append, hlen, min_eq_right hle] at hcount
    simp [eq_nil_of_length_eq_zero (show dropped.length = 0 by omega)]

omit [Std.Total r] [IsTrans I r] in
theorem orderedInsert_append {l₁ l₂ : List I} (hbefore : ∀ b ∈ l₁, ¬ r a b)
    (hafter : ∀ b ∈ l₂, r a b) : (l₁ ++ l₂).orderedInsert r a = l₁ ++ a :: l₂ := by
  induction l₁ with
  | nil => cases l₂ <;> simp_all [orderedInsert_cons]
  | cons b l₁ ih => simp_all [orderedInsert_cons]

/-- The insertion sort is the stable sort, also where items are equally good. -/
theorem insertionSort_eq_mergeSort (l : List I) :
    l.insertionSort r = l.mergeSort fun a b => decide (r a b) := by
  have htrans : ∀ a b c : I, decide (r a b) = true → decide (r b c) = true →
      decide (r a c) = true := by
    simpa using fun a b c => IsTrans.trans (r := r) a b c
  have htotal : ∀ a b : I, (decide (r a b) || decide (r b a)) = true := by
    simpa using Std.Total.total (r := r)
  induction l with
  | nil => simp
  | cons a l ih =>
    obtain ⟨l₁, l₂, hcons, hl, hbefore⟩ := mergeSort_cons htrans htotal a l
    have hsorted := pairwise_mergeSort htrans htotal (a :: l)
    rw [hcons] at hsorted
    have hafter : ∀ b ∈ l₂, r a b := fun b hb => of_decide_eq_true
      ((pairwise_cons.1 (pairwise_append.1 hsorted).2.1).1 b hb)
    rw [insertionSort_cons, ih, hl, hcons,
      orderedInsert_append (fun b hb => by simpa using hbefore b hb) hafter]

theorem heapBest_eq_take (hantisymm : ∀ a ∈ items, ∀ b ∈ items, r a b → r b a → a = b) (limit : ℕ) :
    heapBest r items limit = (items.insertionSort r).take limit := by
  obtain ⟨hbest, hsorted⟩ := heapBest_spec (r := r) items limit
  exact eq_take_of_best hantisymm hbest hsorted

theorem takeBest_eq_take (hantisymm : ∀ a ∈ items, ∀ b ∈ items, r a b → r b a → a = b) (limit : ℕ) :
    takeBest r items limit = (items.insertionSort r).take limit := by
  obtain ⟨hbest, hsorted⟩ := takeBest_spec (r := r) items limit
  exact eq_take_of_best hantisymm hbest hsorted

/-- **Under a total order the best items are the first of the sorted items.** -/
theorem heapBest_eq {J : Type*} [LinearOrder J] (items : List J) (limit : ℕ) :
    heapBest (· ≤ ·) items limit = (items.mergeSort fun a b => decide (a ≤ b)).take limit := by
  rw [heapBest_eq_take (fun a _ b _ hab hba => le_antisymm hab hba), insertionSort_eq_mergeSort]

theorem takeBest_eq {J : Type*} [LinearOrder J] (items : List J) (limit : ℕ) :
    takeBest (· ≤ ·) items limit = (items.mergeSort fun a b => decide (a ≤ b)).take limit := by
  rw [takeBest_eq_take (fun a _ b _ hab hba => le_antisymm hab hba), insertionSort_eq_mergeSort]

omit [Std.Total r] in
theorem filter_orderedInsert (p : I → Bool) (a : I) {l : List I} (hsorted : l.Pairwise r) :
    (l.orderedInsert r a).filter p =
      if p a then (l.filter p).orderedInsert r a else l.filter p := by
  induction l with
  | nil => cases hp : p a <;> simp [hp]
  | cons b l ih =>
    obtain ⟨hb, hl⟩ := pairwise_cons.1 hsorted
    by_cases hab : r a b
    · -- the item goes before all the others
      have htrans : ∀ c, r b c → r a c := fun c => IsTrans.trans a b c hab
      have hfirst : ((b :: l).filter p).orderedInsert r a = a :: (b :: l).filter p :=
        @orderedInsert_append _ _ _ _ [] _ (by simp) (by grind)
      rw [orderedInsert_cons, if_pos hab, filter_cons, hfirst]
    · rw [orderedInsert_cons, if_neg hab, filter_cons, ih hl, filter_cons]
      cases hpb : p b <;> cases hpa : p a <;> simp [orderedInsert_cons, hab]

/-- **To sort and to select is to select and to sort.** -/
theorem filter_insertionSort (p : I → Bool) (l : List I) :
    (l.insertionSort r).filter p = (l.filter p).insertionSort r := by
  induction l with
  | nil => rfl
  | cons a l ih =>
    rw [insertionSort_cons, filter_orderedInsert p a (pairwise_insertionSort r l), ih]
    cases hpa : p a <;> simp [hpa]

/-! ### Positions -/

section Positions

variable {α : Type*} (cmp : α → α → Ordering) (value : I → α) (position : I → ℕ)

/-- At least as good by a comparison. -/
def LeOf (a b : α) : Prop := (cmp a b).isLE = true

instance : DecidableRel (LeOf cmp) := fun a b => inferInstanceAs (Decidable ((cmp a b).isLE = true))

instance [Std.TransCmp cmp] : Std.Total (LeOf cmp) := by
  refine ⟨fun a b => ?_⟩
  have hswap : cmp b a = (cmp a b).swap := Std.OrientedCmp.eq_swap
  unfold LeOf
  rw [hswap]
  cases cmp a b <;> simp

instance [Std.TransCmp cmp] : IsTrans α (LeOf cmp) :=
  ⟨fun _ _ _ hab hbc => Std.TransCmp.isLE_trans hab hbc⟩

theorem decide_leOf (a b : α) : decide (LeOf cmp a b) = (cmp a b).isLE := by
  cases h : (cmp a b).isLE <;> simp [LeOf, h]

/-- A comparison of items by their values and, if these are equally good, by their positions. -/
def ahead (a b : I) : Ordering := (cmp (value a) (value b)).then (compare (position a) (position b))

instance [Std.TransCmp cmp] : Std.TransCmp (ahead cmp value position) :=
  have : Std.TransCmp fun a b : I => cmp (value a) (value b) :=
    { eq_swap := Std.OrientedCmp.eq_swap, isLE_trans := Std.TransCmp.isLE_trans }
  inferInstanceAs (Std.TransCmp (compareLex (fun a b => cmp (value a) (value b))
    (compareOn position)))

/-- The items come in the order of their positions. -/
def InOrder (items : List I) : Prop := items.Pairwise fun a b => position a < position b

variable {cmp value position} {items : List I}

theorem inOrder_of_sublist_zipIdx {β : Type*} {l : List β} {some : List (β × ℕ)}
    (hsome : some.Sublist l.zipIdx) (item : β × ℕ → I) (hitem : ∀ e, position (item e) = e.2) :
    InOrder position (some.map item) := by
  have hindices : l.zipIdx.Pairwise fun a b => a.2 < b.2 := by
    have hrange : (l.zipIdx.map Prod.snd).Pairwise (· < ·) := by
      rw [zipIdx_map_snd]
      exact pairwise_lt_range'
    exact pairwise_map.1 hrange
  refine pairwise_map.2 ((hindices.sublist hsome).imp ?_)
  intro a b hlt
  rw [hitem, hitem]
  exact hlt

theorem leOf_ahead_iff {b : I} (h : position a < position b) :
    LeOf (ahead cmp value position) a b ↔ LeOf cmp (value a) (value b) := by
  unfold LeOf ahead
  rw [compare_lt_iff_lt.2 h]
  cases cmp (value a) (value b) <;> simp

/-- Items in order that are equally good are equal. -/
theorem eq_of_leOf_ahead [Std.OrientedCmp cmp] (h : InOrder position items) :
    ∀ a ∈ items, ∀ b ∈ items, LeOf (ahead cmp value position) a b →
      LeOf (ahead cmp value position) b a → a = b := by
  intro a ha b hb hab hba
  refine inj_on_of_nodup_map (pairwise_map.2 (h.imp fun hlt => hlt.ne)) ha hb ?_
  have hswap : cmp (value b) (value a) = (cmp (value a) (value b)).swap := Std.OrientedCmp.eq_swap
  unfold LeOf ahead at hab hba
  rw [hswap] at hba
  cases hcmp : cmp (value a) (value b) <;> simp [hcmp, Nat.isLE_compare] at hab hba
  exact le_antisymm hab hba

theorem map_orderedInsert_ahead {l : List I} (h : ∀ b ∈ l, position a < position b) :
    (l.orderedInsert (LeOf (ahead cmp value position)) a).map value =
      (l.map value).orderedInsert (LeOf cmp) (value a) := by
  induction l with
  | nil => rfl
  | cons b l ih =>
    have hb : LeOf (ahead cmp value position) a b ↔ LeOf cmp (value a) (value b) :=
      leOf_ahead_iff (h b mem_cons_self)
    simp only [orderedInsert_cons, map_cons, hb]
    split_ifs
    · rfl
    · rw [map_cons, ih fun c hc => h c (mem_cons_of_mem b hc)]

/-- **Items in order, sorted with their positions, are sorted stably.** -/
theorem map_insertionSort_ahead (h : InOrder position items) :
    (items.insertionSort (LeOf (ahead cmp value position))).map value =
      (items.map value).insertionSort (LeOf cmp) := by
  induction items with
  | nil => rfl
  | cons a items ih =>
    obtain ⟨ha, hitems⟩ := pairwise_cons.1 h
    rw [insertionSort_cons, map_cons, insertionSort_cons, ← ih hitems,
      map_orderedInsert_ahead fun b hb =>
        ha b ((perm_insertionSort _ items).mem_iff.1 hb)]

/-- **The best items in order are the first of the values sorted stably.** -/
theorem map_heapBest [Std.TransCmp cmp] (h : InOrder position items) (limit : ℕ) :
    (heapBest (LeOf (ahead cmp value position)) items limit).map value =
      ((items.map value).mergeSort fun a b => (cmp a b).isLE).take limit := by
  rw [heapBest_eq_take (eq_of_leOf_ahead h), map_take, map_insertionSort_ahead h,
    insertionSort_eq_mergeSort]
  simp only [decide_leOf]

theorem map_takeBest [Std.TransCmp cmp] (h : InOrder position items) (limit : ℕ) :
    (takeBest (LeOf (ahead cmp value position)) items limit).map value =
      ((items.map value).mergeSort fun a b => (cmp a b).isLE).take limit := by
  rw [takeBest_eq_take (eq_of_leOf_ahead h), map_take, map_insertionSort_ahead h,
    insertionSort_eq_mergeSort]
  simp only [decide_leOf]

end Positions

end TopK
