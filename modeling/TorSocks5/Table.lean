/-
**Tables: finite maps whose bindings come in some order.**

A hash map has at most one binding for a key and hands its bindings out in an order that nothing
promises.  A `Table` is Mathlib's association list without repeated keys: it carries that
invariant, and the order of its list is the order of the next iteration.  `Table.get_of_perm` says
that no lookup sees the order.
-/

import Mathlib

set_option autoImplicit false

/-- A finite map: a list of bindings with no key bound twice. -/
abbrev Table (K V : Type*) := AList (fun _ : K => V)

namespace Table

open List

variable {K V : Type*}

/-- The number of bindings. -/
def len (m : Table K V) : ℕ := m.entries.length

/-- The bindings that pass a test, in the same order. -/
def retain (m : Table K V) (p : K → V → Bool) : Table K V :=
  ⟨m.entries.filter fun b => p b.1 b.2, m.nodupKeys.sublist List.filter_sublist⟩

@[simp] theorem len_empty : (∅ : Table K V).len = 0 := rfl

variable {m m' : Table K V} {k k' : K} {v : V} {p : K → V → Bool}
theorem len_of_perm (h : m.entries.Perm m'.entries) : m.len = m'.len :=
  h.length_eq

theorem length_keys (m : Table K V) : m.keys.length = m.len := by
  simp [AList.keys, keys, len]

theorem len_retain_le (m : Table K V) (p : K → V → Bool) : (m.retain p).len ≤ m.len :=
  length_filter_le _ _

variable [DecidableEq K]

/-- What a key is bound to. -/
def get (m : Table K V) (k : K) : Option V := AList.lookup k m

/-- The table with a key bound anew. -/
def insert (m : Table K V) (k : K) (v : V) : Table K V := AList.insert k v m

/-- The table without a key. -/
def remove (m : Table K V) (k : K) : Table K V := AList.erase k m

/-- The table without the keys of a list. -/
def removeAll (m : Table K V) (ks : List K) : Table K V := ks.foldl remove m

/-! ### Lookups -/

theorem mem_entries {b : (_ : K) × V} :
    b ∈ m.entries ↔ m.get b.1 = some b.2 := AList.mem_lookup_iff.symm

theorem mem_keys_iff : k ∈ m.keys ↔ (m.get k).isSome :=
  AList.lookup_isSome.symm

theorem get_of_perm (h : m.entries.Perm m'.entries) (k : K) :
    m.get k = m'.get k := AList.perm_lookup h

@[simp] theorem get_empty (k : K) : (∅ : Table K V).get k = none := rfl

@[simp] theorem get_insert_self (m : Table K V) (k : K) (v : V) : (m.insert k v).get k = some v :=
  AList.lookup_insert m

theorem get_insert_of_ne (m : Table K V) (h : k' ≠ k) (v : V) :
    (m.insert k v).get k' = m.get k' := AList.lookup_insert_ne h

theorem get_insert (m : Table K V) (k k' : K) (v : V) :
    (m.insert k v).get k' = if k' = k then some v else m.get k' := by
  split
  · next h => rw [h, get_insert_self]
  · next h => exact get_insert_of_ne m h v

@[simp] theorem get_remove_self (m : Table K V) (k : K) : (m.remove k).get k = none :=
  AList.lookup_erase k m

theorem get_remove_of_ne (m : Table K V) (h : k' ≠ k) :
    (m.remove k).get k' = m.get k' := AList.lookup_erase_ne h

theorem get_remove (m : Table K V) (k k' : K) :
    (m.remove k).get k' = if k' = k then none else m.get k' := by
  split
  · next h => rw [h, get_remove_self]
  · next h => exact get_remove_of_ne m h

theorem get_of_get_remove (h : (m.remove k).get k' = some v) : m.get k' = some v := by
  by_cases hk : k' = k
  · subst hk
    simp at h
  · rwa [get_remove_of_ne m hk] at h

theorem get_retain (m : Table K V) (p : K → V → Bool) (k : K) :
    (m.retain p).get k = (m.get k).filter (p k) := by
  refine Option.ext fun v => ?_
  rw [Option.filter_eq_some_iff, ← mem_entries (b := ⟨k, v⟩), ← mem_entries (b := ⟨k, v⟩)]
  simp [retain, mem_filter]

theorem get_of_get_retain (h : (m.retain p).get k = some v) : m.get k = some v ∧ p k v = true := by
  rwa [get_retain, Option.filter_eq_some_iff] at h

theorem get_retain_of (h : ∀ v, p k v = true) : (m.retain p).get k = m.get k := by
  rw [get_retain, funext h]
  cases m.get k <;> rfl

theorem get_removeAll (ks : List K) : ∀ (m : Table K V) (k : K),
    (m.removeAll ks).get k = if k ∈ ks then none else m.get k := by
  induction ks with
  | nil => simp [removeAll]
  | cons x ks ih =>
    intro m k
    rw [show m.removeAll (x :: ks) = (m.remove x).removeAll ks from rfl, ih]
    rcases eq_or_ne k x with rfl | hx
    · simp
    · simp [hx, get_remove_of_ne m hx]

/-- Bindings with distinct keys, inserted one after the other. -/
theorem get_foldl_insert {E : Type*} (key : E → K) (value : E → V) :
    ∀ (es : List E) (m : Table K V), (es.map key).Nodup →
      (get (es.foldl (fun m e => insert m (key e) (value e)) m) k = some v ↔
        (∃ e ∈ es, key e = k ∧ value e = v) ∨ (k ∉ es.map key ∧ m.get k = some v)) := by
  intro es
  induction es with
  | nil => simp
  | cons e es ih =>
    intro m hnd
    rw [map_cons, nodup_cons] at hnd
    rw [foldl_cons, ih _ hnd.2]
    rcases eq_or_ne (key e) k with rfl | hk
    · have hother : ∀ e' ∈ es, key e' ≠ key e := fun e' he' heq =>
        hnd.1 (heq ▸ mem_map_of_mem he')
      rw [get_insert_self]
      grind
    · rw [get_insert_of_ne m hk.symm]
      simp [hk, hk.symm]

private theorem filter_fst_eq (k : K) : ∀ l : List ((_ : K) × V), l.NodupKeys →
    (l.filter fun b => b.1 = k) = (l.dlookup k).toList.map (Sigma.mk k) := by
  intro l
  induction l with
  | nil => exact fun _ => rfl
  | cons b l ih =>
    intro hnd
    rw [nodupKeys_cons] at hnd
    obtain ⟨k', v⟩ := b
    rcases eq_or_ne k' k with rfl | hk
    · have hnone : (l.filter fun b => b.1 = k') = [] := by
        rw [ih hnd.2, dlookup_eq_none.2 hnd.1]
        rfl
      simp [hnone]
    · have hskip : dlookup k (⟨k', v⟩ :: l) = dlookup k l := dlookup_cons_ne l ⟨k', v⟩ hk.symm
      rw [filter_cons_of_neg (by simpa using hk), hskip, ih hnd.2]

theorem filter_key (m : Table K V) (k : K) :
    (m.entries.filter fun b => b.1 = k) = (m.get k).toList.map (Sigma.mk k) :=
  filter_fst_eq k m.entries m.nodupKeys

theorem filter_render {L : Type*} (m : Table K V) (p : K → V → Bool) (f : K → V → L) (key : L → K)
    (hkey : ∀ k v, key (f k v) = k) (k : K) :
    (((m.retain p).entries.map fun b => f b.1 b.2).filter fun l => key l = k) =
      ((m.get k).filter (p k)).toList.map (f k) := by
  have hfun : ((fun l => decide (key l = k)) ∘ fun b : (_ : K) × V => f b.1 b.2) =
      fun b => decide (b.1 = k) := by
    funext b
    simp [hkey]
  rw [filter_map, hfun, filter_key, get_retain, map_map]
  rfl

/-! ### Operations without effect -/

omit [DecidableEq K] in
theorem retain_eq_self (h : ∀ b ∈ m.entries, p b.1 b.2 = true) : m.retain p = m :=
  AList.ext (filter_eq_self.2 h)

theorem remove_eq_self (h : k ∉ m.keys) : m.remove k = m :=
  AList.ext (kerase_of_notMem_keys h)

/-! ### Sums -/

/-- The sum of a weight over the bindings. -/
def sum (m : Table K V) (f : V → ℕ) : ℕ := (m.entries.map fun b => f b.2).sum

omit [DecidableEq K] in
theorem sum_of_perm (h : m.entries.Perm m'.entries) (f : V → ℕ) :
    m.sum f = m'.sum f := (h.map _).sum_eq

omit [DecidableEq K] in
theorem sum_retain_le (m : Table K V) (p : K → V → Bool) (f : V → ℕ) :
    (m.retain p).sum f ≤ m.sum f :=
  (filter_sublist.map _).sum_le_sum (by simp)

theorem sum_insert (m : Table K V) (k : K) (v : V) (f : V → ℕ) :
    (m.insert k v).sum f = (m.remove k).sum f + f v := by
  simp [sum, insert, remove, AList.entries_insert, AList.erase, add_comm]

private theorem sum_kerase (k : K) (v : V) (f : V → ℕ) : ∀ l : List ((_ : K) × V),
    l.dlookup k = some v →
      ((l.kerase k).map fun b => f b.2).sum + f v = (l.map fun b => f b.2).sum := by
  intro l
  induction l with
  | nil => simp
  | cons b l ih =>
    intro h
    obtain ⟨k', v'⟩ := b
    rcases eq_or_ne k' k with rfl | hk
    · obtain rfl : v' = v := by simpa using h
      have hskip : kerase k' (⟨k', v'⟩ :: l) = l := kerase_cons_eq rfl
      simp [hskip, add_comm]
    · rw [dlookup_cons_ne l ⟨k', v'⟩ hk.symm] at h
      have hkeep : kerase k (⟨k', v'⟩ :: l) = ⟨k', v'⟩ :: l.kerase k := kerase_cons_ne hk.symm
      simp only [hkeep, map_cons, sum_cons]
      have hsum := ih h
      omega

theorem sum_remove (h : m.get k = some v) (f : V → ℕ) :
    (m.remove k).sum f + f v = m.sum f := sum_kerase k v f m.entries h

theorem sum_remove_le (m : Table K V) (k : K) (f : V → ℕ) : (m.remove k).sum f ≤ m.sum f :=
  ((kerase_sublist k m.entries).map _).sum_le_sum (by simp)

/-! ### Sizes -/

theorem len_remove_le (m : Table K V) (k : K) : (m.remove k).len ≤ m.len :=
  (kerase_sublist k m.entries).length_le

theorem len_remove_of_mem (h : k ∈ m.keys) : (m.remove k).len + 1 = m.len := by
  have hpos : 0 < m.keys.length := length_pos_of_mem h
  have hkeys : (m.remove k).keys = m.keys.erase k := AList.keys_erase k m
  rw [← length_keys, hkeys, length_erase_of_mem h, ← length_keys]
  omega

theorem len_insert (m : Table K V) (k : K) (v : V) :
    (m.insert k v).len = (m.remove k).len + 1 := by
  simp [len, insert, remove, AList.entries_insert, AList.erase]

theorem len_insert_le (m : Table K V) (k : K) (v : V) : (m.insert k v).len ≤ m.len + 1 := by
  rw [len_insert]
  exact Nat.succ_le_succ (len_remove_le m k)

/-- Removing distinct keys that are bound takes away as many bindings as there are keys. -/
theorem len_removeAll : ∀ (ks : List K) (m : Table K V), ks.Nodup → (∀ k ∈ ks, k ∈ m.keys) →
    (m.removeAll ks).len + ks.length = m.len := by
  intro ks
  induction ks with
  | nil => exact fun _ _ _ => rfl
  | cons x ks ih =>
    intro m hnd hmem
    obtain ⟨hx, hnd⟩ := nodup_cons.1 hnd
    obtain ⟨hmemx, hmem⟩ := forall_mem_cons.1 hmem
    have hlen := ih (m.remove x) hnd fun k hk => by
      rw [mem_keys_iff, get_remove_of_ne m (ne_of_mem_of_not_mem hk hx), ← mem_keys_iff]
      exact hmem k hk
    have hone := len_remove_of_mem hmemx
    rw [show m.removeAll (x :: ks) = (m.remove x).removeAll ks from rfl, length_cons]
    omega

end Table
