/-
**Tallies: tables of counts, and sums over groups of keys.**

A table that counts occurrences, kept by adding to the count of a key.  What such a table says is a
list of keys up to order: it *counts* a list when every key has the number of its occurrences.  Sums
over a group of keys are then numbers of occurrences, which is what an aggregation by group
computes.
-/

import TorSocks5.Table

set_option autoImplicit false

namespace Tally

variable {K G : Type*}

/-! ### Pairs and weights -/

/-- The bindings as pairs. -/
def pairs (t : Table K ℕ) : List (K × ℕ) := t.entries.map fun b => (b.1, b.2)

/-- The sum of the pairs whose key passes a test. -/
def weight (l : List (K × ℕ)) (p : K → Bool) : ℕ := ((l.filter fun q => p q.1).map (·.2)).sum

@[simp] theorem weight_nil (p : K → Bool) : weight [] p = 0 := rfl

theorem weight_cons (q : K × ℕ) (l : List (K × ℕ)) (p : K → Bool) :
    weight (q :: l) p = (if p q.1 then q.2 else 0) + weight l p := by
  unfold weight
  by_cases hp : p q.1 = true
  · simp [hp]
  · simp [hp]

theorem weight_map (l : List (K × ℕ)) (f : K → G) (p : G → Bool) :
    weight (l.map fun q => (f q.1, q.2)) p = weight l fun k => p (f k) := by
  induction l with
  | nil => rfl
  | cons q l ih => rw [List.map_cons, weight_cons, weight_cons, ih]

/-- The keys of the pairs, each as often as its count says. -/
private def spread (l : List (K × ℕ)) : List K := l.flatMap fun q => List.replicate q.2 q.1

private theorem countP_spread (l : List (K × ℕ)) (p : K → Bool) :
    (spread l).countP p = weight l p := by
  induction l with
  | nil => rfl
  | cons q l ih =>
    have hsplit : spread (q :: l) = List.replicate q.2 q.1 ++ spread l := rfl
    rw [hsplit, List.countP_append, List.countP_replicate, ih, weight_cons]

theorem weight_filter (l : List (K × ℕ)) (r p : K → Bool) :
    weight (l.filter fun q => r q.1) p = weight l fun k => r k && p k := by
  unfold weight
  rw [List.filter_filter]
  refine congrArg (fun l' : List (K × ℕ) => (l'.map (·.2)).sum) (List.filter_congr ?_)
  intro q _
  rw [Bool.and_comm]

theorem weight_false (l : List (K × ℕ)) : weight l (fun _ => false) = 0 := by
  simp [weight]

variable [DecidableEq K] [DecidableEq G]

/-! ### Counts -/

/-- The count of a key. -/
def total (t : Table K ℕ) (k : K) : ℕ := (t.get k).getD 0

/-- Adding to the count of a key. -/
def add (t : Table K ℕ) (k : K) (n : ℕ) : Table K ℕ := t.insert k (total t k + n)

/-- Adding a list of pairs. -/
def addAll (t : Table K ℕ) (l : List (K × ℕ)) : Table K ℕ := l.foldl (fun t q => add t q.1 q.2) t

@[simp] theorem total_empty (k : K) : total ∅ k = 0 := rfl

theorem total_add (t : Table K ℕ) (k : K) (n : ℕ) (k' : K) :
    total (add t k n) k' = total t k' + if k = k' then n else 0 := by
  rcases eq_or_ne k k' with rfl | hk
  · simp [total, add]
  · simp [total, add, Table.get_insert_of_ne t hk.symm, hk]

theorem total_addAll (l : List (K × ℕ)) : ∀ (t : Table K ℕ) (k : K),
    total (addAll t l) k = total t k + weight l fun k' => k' = k := by
  induction l with
  | nil => exact fun _ _ => rfl
  | cons q l ih =>
    intro t k
    rw [show addAll t (q :: l) = addAll (add t q.1 q.2) l from rfl, ih, total_add, weight_cons]
    simp only [decide_eq_true_eq]
    omega

/-- What is bound after additions was bound before, or was added. -/
theorem mem_of_get_addAll : ∀ {l : List (K × ℕ)} {t : Table K ℕ} {k : K} {n : ℕ},
    (addAll t l).get k = some n → (∃ m, t.get k = some m) ∨ ∃ q ∈ l, q.1 = k := by
  intro l
  induction l with
  | nil => exact fun {t k n} h => .inl ⟨n, h⟩
  | cons q l ih =>
    intro t k n h
    rcases ih (t := add t q.1 q.2) h with ⟨m, hm⟩ | ⟨q', hq', hk⟩
    · by_cases hk : k = q.1
      · exact .inr ⟨q, List.mem_cons_self, hk.symm⟩
      · exact .inl ⟨m, (Table.get_insert_of_ne t hk _).symm.trans hm⟩
    · exact .inr ⟨q', List.mem_cons_of_mem q hq', hk⟩

theorem total_retain (t : Table K ℕ) (p : K → Bool) (k : K) :
    total (t.retain fun k _ => p k) k = if p k then total t k else 0 := by
  unfold total
  rw [Table.get_retain]
  cases t.get k <;> by_cases hp : p k = true <;> simp [Option.filter, hp]

theorem weight_pairs_eq (t : Table K ℕ) (k : K) :
    weight (pairs t) (fun k' => k' = k) = total t k := by
  unfold weight pairs total
  rw [List.filter_map, List.map_map]
  have hfilter : (t.entries.filter ((fun q : K × ℕ => decide (q.1 = k)) ∘ fun b => (b.1, b.2))) =
      (t.get k).toList.map (Sigma.mk k) := Table.filter_key t k
  rw [hfilter]
  cases t.get k <;> simp

/-- **The weight of a group is the number of its occurrences** in a list that the table counts. -/
theorem weight_pairs {t : Table K ℕ} {ks : List K} (h : ∀ k, total t k = ks.count k)
    (p : K → Bool) : weight (pairs t) p = ks.countP p := by
  have hperm : (spread (pairs t)).Perm ks := by
    rw [List.perm_iff_count]
    intro k
    rw [← h, ← weight_pairs_eq, ← countP_spread, List.count]
    rfl
  rw [← countP_spread]
  exact hperm.countP_eq p

/-! ### Groups -/

/-- The sums over the groups of keys with one value. -/
def group (f : K → G) (l : List (K × ℕ)) : Table G ℕ := addAll ∅ (l.map fun q => (f q.1, q.2))

omit [DecidableEq K] in
theorem total_group (f : K → G) (l : List (K × ℕ)) (g : G) :
    total (group f l) g = weight l fun k => f k = g := by
  unfold group
  rw [total_addAll, weight_map]
  simp

omit [DecidableEq K] in
theorem mem_of_get_group {f : K → G} {l : List (K × ℕ)} {g : G} {n : ℕ}
    (h : (group f l).get g = some n) : ∃ q ∈ l, f q.1 = g := by
  rcases mem_of_get_addAll h with ⟨m, hm⟩ | ⟨q, hq, rfl⟩
  · simp at hm
  · obtain ⟨q', hq', rfl⟩ := List.mem_map.1 hq
    exact ⟨q', hq', rfl⟩

/-! ### Positive counts -/

/-- No key is bound to zero. -/
def Positive (t : Table K ℕ) : Prop := ∀ k n, t.get k = some n → 0 < n

theorem positive_empty : Positive (∅ : Table K ℕ) := by
  intro k n h
  simp at h

theorem positive_add {t : Table K ℕ} (h : Positive t) (k : K) {n : ℕ} (hn : 0 < n) :
    Positive (add t k n) := by
  intro k' n' hget
  rcases eq_or_ne k' k with rfl | hk
  · rw [add, Table.get_insert_self] at hget
    cases hget
    omega
  · exact h k' n' ((Table.get_insert_of_ne t hk _).symm.trans hget)

theorem positive_addAll : ∀ {l : List (K × ℕ)} {t : Table K ℕ}, Positive t →
    (∀ q ∈ l, 0 < q.2) → Positive (addAll t l) := by
  intro l
  induction l with
  | nil => exact fun h _ => h
  | cons q l ih =>
    intro t h hl
    rw [List.forall_mem_cons] at hl
    exact ih (positive_add h q.1 hl.1) hl.2

omit [DecidableEq K] in
theorem positive_group (f : K → G) {l : List (K × ℕ)} (h : ∀ q ∈ l, 0 < q.2) :
    Positive (group f l) := by
  exact positive_addAll positive_empty (List.forall_mem_map.2 h)

theorem positive_retain {t : Table K ℕ} (h : Positive t) (p : K → ℕ → Bool) :
    Positive (t.retain p) := by
  intro k n hget
  exact h k n (Table.get_of_get_retain hget).1

theorem pos_of_mem_pairs {t : Table K ℕ} (h : Positive t) : ∀ q ∈ pairs t, 0 < q.2 := by
  intro q hq
  obtain ⟨b, hb, rfl⟩ := List.mem_map.1 hq
  exact h b.1 b.2 (Table.mem_entries.1 hb)

theorem get_of_positive {t : Table K ℕ} (h : Positive t) (k : K) :
    t.get k = if total t k = 0 then none else some (total t k) := by
  unfold total
  cases hget : t.get k with
  | none => rfl
  | some n => simp [(h k n hget).ne']

end Tally
