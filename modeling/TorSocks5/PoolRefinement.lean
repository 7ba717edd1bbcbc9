/-
**The candidate pool is an ordered set.**

The pool keeps its candidates in a queue and their identities in a set, and every operation updates
the two on its own.  Seen from outside there is one thing only: an insertion-ordered set of bridges,
of which a copy lies in a file.  Every operation of the pool does to its queue what the ordered set
prescribes and answers what it answers; and so does every run of operations, loading and saving
included.
-/

import Mathlib
import TorSocks5.CandidatePool
import TorSocks5.OrderedSet

set_option autoImplicit false

/-- A bridge is displayed on one line, which is read back as the same bridge. -/
def BridgeFormat.Exact {B K : Type*} (f : BridgeFormat B K) : Prop :=
  ∀ b, '\n' ∉ f.display b ∧ f.readLine (f.display b) = some b

namespace CandidatePool

open List

open OrderedSet (firsts)
open Text (lines unlines stripCr lines_unlines trim_stripCr)

variable {B K : Type*} [DecidableEq K] {f : BridgeFormat B K}

/-- The ordered set a pool stands for. -/
def toSet (p : CandidatePool f) : OrderedSet f.key := ⟨p.bridges, p.nodup⟩

theorem mem_keys_iff (p : CandidatePool f) {k : K} : k ∈ p.keys ↔ k ∈ p.bridges.map f.key := by
  rw [p.keys_eq, mem_toFinset]

/-! ### Merging -/

theorem bridges_pushUnique (p : CandidatePool f) (b : B) :
    (p.pushUnique b).1.bridges = (if f.key b ∈ p.keys then p.bridges else p.bridges ++ [b]) ∧
      (p.pushUnique b).2 = decide (f.key b ∉ p.keys) := by
  unfold pushUnique
  split
  · next hmem => simp [hmem]
  · next hmem => simp [hmem]

/-- The loop of `merge`, from any pool and count. -/
theorem foldl_merge (exclude : Finset K) (fetched : List B) : ∀ (p : CandidatePool f) (added : ℕ),
    let merged := fetched.foldl (fun r b =>
      if f.key b ∈ exclude then r
      else if (r.1.pushUnique b).2 then ((r.1.pushUnique b).1, r.2 + 1)
      else r) (p, added)
    let new := firsts f.key (fetched.filter fun b =>
      decide (f.key b ∉ exclude) && decide (f.key b ∉ p.bridges.map f.key))
    merged.1.bridges = p.bridges ++ new ∧ merged.2 = added + new.length := by
  induction fetched with
  | nil => simp [firsts]
  | cons b fetched ih =>
    intro p added
    rw [foldl_cons, filter_cons]
    by_cases hexclude : f.key b ∈ exclude
    · rw [if_pos hexclude, if_neg (by simp [hexclude])]
      exact ih p added
    · obtain ⟨hbridges, hadded⟩ := p.bridges_pushUnique b
      rw [if_neg hexclude, hadded]
      by_cases hmem : f.key b ∈ p.keys
      · have hold : f.key b ∈ p.bridges.map f.key := p.mem_keys_iff.1 hmem
        rw [if_neg (by simpa using hmem), if_neg (by simp [hold])]
        exact ih p added
      · have hnew : f.key b ∉ p.bridges.map f.key := fun h => hmem (p.mem_keys_iff.2 h)
        rw [if_pos (decide_eq_true hmem), if_pos (by simp [hexclude, hnew])]
        rw [if_neg hmem] at hbridges
        obtain ⟨hmerged, hcount⟩ := ih (p.pushUnique b).1 (added + 1)
        -- what is new beside `b` is what was new and is not `b` again
        have hrest : (fetched.filter fun c => decide (f.key c ∉ exclude) &&
            decide (f.key c ∉ (p.pushUnique b).1.bridges.map f.key)) =
            (fetched.filter fun c => decide (f.key c ∉ exclude) &&
              decide (f.key c ∉ p.bridges.map f.key)).filter
                fun c => decide (f.key c ≠ f.key b) := by
          rw [filter_filter, hbridges]
          congr 1
          grind
        rw [hrest, OrderedSet.firsts_filter f.key (fun k => decide (k ≠ f.key b))] at hmerged hcount
        rw [firsts]
        refine ⟨?_, ?_⟩
        · rw [hmerged, hbridges, append_assoc]
          rfl
        · rw [hcount, length_cons]
          omega

/-- **Merging adds the new identities that are not excluded**, and counts them. -/
theorem toSet_merge (p : CandidatePool f) (fetched : List B) (exclude : Finset K) :
    (p.merge fetched exclude).1.toSet =
        p.toSet.addAll (fetched.filter fun b => decide (f.key b ∉ exclude)) ∧
      (p.merge fetched exclude).2 + p.bridges.length =
        (p.toSet.addAll (fetched.filter fun b => decide (f.key b ∉ exclude))).items.length := by
  obtain ⟨hbridges, hcount⟩ := foldl_merge exclude fetched p 0
  have hfilter : (fetched.filter fun b =>
      decide (f.key b ∉ exclude) && decide (f.key b ∉ p.bridges.map f.key)) =
      (fetched.filter fun b => decide (f.key b ∉ exclude)).filter
        fun b => decide (f.key b ∉ p.bridges.map f.key) := by
    simp only [filter_filter, Bool.and_comm]
  rw [hfilter] at hbridges hcount
  refine ⟨OrderedSet.ext (hbridges.trans rfl), (congrArg (· + p.bridges.length) hcount).trans ?_⟩
  rw [OrderedSet.addAll, length_append, Nat.zero_add, Nat.add_comm]
  rfl

/-! ### Taking -/

theorem scan_true (n : ℕ) (bs : List B) : scan (fun _ => true) n bs = (bs.take n, bs.drop n) := by
  fun_induction scan (fun _ => true) n bs with
  | case1 | case2 => rfl
  | case3 n b bs hb ih => rw [ih]; rfl
  | case4 n b bs hb ih => exact absurd rfl hb

theorem scan_fst (hit : B → Bool) (n : ℕ) (bs : List B) :
    (scan hit n bs).1 = (bs.filter hit).take n := by
  fun_induction scan hit n bs with
  | case1 | case2 => rfl
  | case3 n b bs hb ih => rw [filter_cons_of_pos hb, take_succ_cons, ih]
  | case4 n b bs hb ih => rw [filter_cons_of_neg hb, ih]

/-- What a scan leaves is what it does not take. -/
theorem scan_snd (hit : B → Bool) (n : ℕ) (bs : List B) (hnd : (bs.map f.key).Nodup) :
    (scan hit n bs).2 =
      bs.filter fun b => decide (f.key b ∉ (scan hit n bs).1.map f.key) := by
  fun_induction scan hit n bs with
  | case1 bs => simp
  | case2 n => rfl
  | case3 n b bs hb ih =>
    rw [map_cons, nodup_cons] at hnd
    rw [filter_cons_of_neg (by simp)]
    refine (ih hnd.2).trans (filter_congr fun c hc => ?_)
    have hne : f.key c ≠ f.key b := fun heq => hnd.1 (heq ▸ mem_map_of_mem hc)
    simp [hne]
  | case4 n b bs hb ih =>
    rw [map_cons, nodup_cons] at hnd
    have hkept : f.key b ∉ (scan hit (n + 1) bs).1.map f.key := by
      intro hmem
      obtain ⟨c, hc, heq⟩ := mem_map.1 hmem
      rw [scan_fst] at hc
      refine hnd.1 (heq ▸ mem_map_of_mem ?_)
      exact mem_of_mem_filter (mem_of_mem_take hc)
    rw [filter_cons, if_pos (decide_eq_true hkept), ← ih hnd.2]

/-- **Taking takes the first that match**, and leaves the others in order. -/
theorem toSet_takeTransport (p : CandidatePool f) (n : ℕ) (transport : Option String) :
    ((p.takeTransport n transport).1, (p.takeTransport n transport).2.toSet) =
      p.toSet.takeFirst n fun b => transport.all fun name =>
        decide (f.transport b = some name) := by
  have hscan : ∀ hit : B → Bool, (scan hit n p.bridges).1 = (p.toSet.takeFirst n hit).1 ∧
      (scan hit n p.bridges).2 = (p.toSet.takeFirst n hit).2.items := by
    intro hit
    rw [scan_snd (f := f) hit n p.bridges p.nodup, scan_fst]
    exact ⟨rfl, rfl⟩
  cases transport with
  | none =>
    have h := hscan fun _ => true
    rw [scan_true] at h
    exact Prod.ext h.1 (OrderedSet.ext h.2)
  | some name =>
    have h := hscan fun b => decide (f.transport b = some name)
    exact Prod.ext h.1 (OrderedSet.ext h.2)

/-! ### Reordering and removing -/

/-- The identities of some bridges of a transport, if one is given. -/
def matching (f : BridgeFormat B K) (fresh : List B) (transport : Option String) : List K :=
  (fresh.filter fun b => transport.all fun name => decide (f.transport b = some name)).map f.key

/-- **Prioritizing is a stable partition**, with the fresh candidates first. -/
theorem toSet_prioritize (p : CandidatePool f) (fresh : List B) (transport : Option String) :
    (p.prioritize fresh transport).toSet =
      p.toSet.partition fun b => decide (f.key b ∈ matching f fresh transport) := by
  refine OrderedSet.ext ((OrderedSet.mergeSort_decide_le _ p.bridges).trans ?_)
  simp only [mem_toFinset, decide_not, Bool.not_not]
  rfl

/-- **Removing removes the listed identities**, and counts those that were present. -/
theorem toSet_removeAll (p : CandidatePool f) (bs : List B) :
    ((p.removeAll bs).1.toSet, (p.removeAll bs).2) = p.toSet.without (bs.map f.key) := by
  obtain ⟨-, hgone, hcard⟩ := removeKeys_spec (f := f) p.keys bs
  have hset : (removeKeys f p.keys bs).2.1 =
      ((p.bridges.filter fun b => decide (f.key b ∈ bs.map f.key)).map f.key).toFinset := by
    ext k
    rw [hgone, p.mem_keys, mem_toFinset]
    simp only [mem_map, mem_filter, decide_eq_true_eq]
    grind
  have hcount : (removeKeys f p.keys bs).2.2 =
      (p.bridges.filter fun b => decide (f.key b ∈ bs.map f.key)).length := by
    rw [hcard, hset, toFinset_card_of_nodup, length_map]
    exact p.toSet.nodup_filter _
  -- among the identities of the pool, the doomed ones are those listed
  have hkept : (p.bridges.filter fun b => decide (f.key b ∉ (removeKeys f p.keys bs).2.1)) =
      p.bridges.filter fun b => decide (f.key b ∉ bs.map f.key) := by
    refine filter_congr fun b hb => ?_
    simp only [hgone, mem_map, p.mem_keys.2 ⟨b, hb, rfl⟩, true_and]
  unfold removeAll
  split
  · exact Prod.ext (OrderedSet.ext hkept) hcount
  · next hnone =>
    refine Prod.ext (OrderedSet.ext (Eq.trans ?_ hkept)) hcount
    have hempty : (removeKeys f p.keys bs).2.1 = ∅ := Finset.card_eq_zero.1 (by omega)
    exact (filter_eq_self.2 fun b _ => by simp [hempty]).symm

/-- **Rotating moves the listed identities to the back**, in order, and counts them. -/
theorem toSet_rotateToBack (p : CandidatePool f) (bs : List B) :
    ((p.rotateToBack bs).1.toSet, (p.rotateToBack bs).2) =
      (p.toSet.partition fun b => decide (f.key b ∉ bs.map f.key),
        (p.toSet.without (bs.map f.key)).2) := by
  refine Prod.ext (OrderedSet.ext ?_) ?_
  · simp only [rotateToBack, reorder, toSet, OrderedSet.partition, mem_toFinset, decide_not,
      Bool.not_not]
  · simp only [rotateToBack, toSet, OrderedSet.without, mem_toFinset]

/-! ### Files -/

/-- The pool in a file, if there is one. -/
def loadText : Option (List Char) → CandidatePool f
  | none => empty
  | some text => load (lines text)

/-- The text of the file a pool is saved to. -/
def saveText (p : CandidatePool f) : List Char := unlines p.save

theorem nodup_firsts_read (text : Option (List Char)) :
    ((firsts f.key ((text.elim [] lines).filterMap f.readLine)).map f.key).Nodup :=
  OrderedSet.nodup_firsts f.key _

/-- The bridges on the lines of a file, the first of each identity. -/
def shelved (f : BridgeFormat B K) (text : Option (List Char)) : OrderedSet f.key :=
  ⟨firsts f.key ((text.elim [] lines).filterMap f.readLine), nodup_firsts_read text⟩

/-- Loading is merging into the empty pool. -/
theorem load_eq_merge (ls : List (List Char)) :
    (load ls : CandidatePool f) = (empty.merge (ls.filterMap f.readLine) ∅).1 := by
  have hpush : ∀ (bs : List B) (r : CandidatePool f × ℕ),
      (bs.foldl (fun r b => if f.key b ∈ (∅ : Finset K) then r
        else if (r.1.pushUnique b).2 then ((r.1.pushUnique b).1, r.2 + 1) else r) r).1 =
        bs.foldl (fun p b => (p.pushUnique b).1) r.1 := by
    intro bs
    induction bs with
    | nil => exact fun r => rfl
    | cons b bs ih =>
      intro r
      rw [foldl_cons, ih, foldl_cons, if_neg (Finset.notMem_empty _)]
      congr 1
      split_ifs with hold
      · rfl
      · have hmem : f.key b ∈ r.1.keys := by simpa [(r.1.bridges_pushUnique b).2] using hold
        simp [pushUnique, hmem]
  rw [merge, hpush, foldl_filterMap]
  rfl

theorem bridges_load (ls : List (List Char)) :
    (load ls : CandidatePool f).bridges = firsts f.key (ls.filterMap f.readLine) := by
  have hmerge := congrArg OrderedSet.items
    (toSet_merge (empty : CandidatePool f) (ls.filterMap f.readLine) ∅).1
  rw [load_eq_merge]
  refine Eq.trans hmerge ?_
  simp [OrderedSet.addAll, toSet, empty]

theorem toSet_loadText (text : Option (List Char)) :
    (loadText text : CandidatePool f).toSet = shelved f text := by
  cases text with
  | none => rfl
  | some text => exact OrderedSet.ext (bridges_load (lines text))

theorem map_key_read_save (hf : f.Faithful) (p : CandidatePool f) :
    (p.save.filterMap f.readLine).map f.key = p.bridges.map f.key := by
  have hline : ∀ b, (f.readLine (f.display b)).map f.key = some (f.key b) :=
    BridgeFormat.lineKey_display hf
  rw [map_filterMap, save, filterMap_cons, header, f.readLine_comment]
  simp only [Option.map_none, filterMap_cons, f.readLine_nil, filterMap_map,
    Function.comp_def, hline]
  exact congrFun filterMap_eq_map p.bridges

/-- **A saved pool is loaded with the same identities in the same order.** -/
theorem map_key_load_save (hf : f.Faithful) (p : CandidatePool f) :
    (load p.save : CandidatePool f).bridges.map f.key = p.bridges.map f.key := by
  rw [bridges_load, OrderedSet.firsts_of_nodup f.key, map_key_read_save hf p]
  rw [map_key_read_save hf p]
  exact p.nodup

/-- **A saved pool is loaded as it was.** -/
theorem shelved_saveText (hf : f.Exact) (p : CandidatePool f) :
    shelved f (some p.saveText) = p.toSet := by
  have hlines : lines p.saveText = p.save.map stripCr := by
    refine lines_unlines fun l hl => ?_
    rcases mem_cons.1 hl with rfl | hl
    · decide +kernel
    · rcases mem_cons.1 hl with rfl | hl
      · exact not_mem_nil
      · obtain ⟨b, -, rfl⟩ := mem_map.1 hl
        exact (hf b).1
  have hread : ∀ l, f.readLine (stripCr l) = f.readLine l := fun l => by
    rw [BridgeFormat.readLine, BridgeFormat.readLine, trim_stripCr]
  have hbridges : (lines p.saveText).filterMap f.readLine = p.bridges := by
    rw [hlines, filterMap_map]
    simp only [Function.comp_def, hread, save, filterMap_cons, header, f.readLine_comment,
      f.readLine_nil, filterMap_map, (hf _).2, filterMap_some]
  have hitems : (shelved f (some p.saveText)).items =
      firsts f.key ((lines p.saveText).filterMap f.readLine) := rfl
  rw [hbridges, OrderedSet.firsts_of_nodup f.key p.nodup] at hitems
  exact OrderedSet.ext hitems

/-! ### Runs -/

/-- An operation on the pool. -/
inductive Op (B K : Type*)
  | load
  | merge (fetched : List B) (exclude : Finset K)
  | take (n : ℕ)
  | takeTransport (n : ℕ) (transport : Option String)
  | prioritize (fresh : List B) (transport : Option String)
  | removeAll (bridges : List B)
  | rotateToBack (bridges : List B)
  | save

/-- What an operation answers: nothing, a number or some bridges. -/
inductive Answer (B : Type*)
  | done
  | count (n : ℕ)
  | taken (bridges : List B)

/-- A pool and its file. -/
structure Desk (f : BridgeFormat B K) where
  file : Option (List Char)
  pool : CandidatePool f

def Desk.step (d : Desk f) : Op B K → Desk f × Answer B
  | .load => ({ d with pool := loadText d.file }, .done)
  | .merge fetched exclude =>
    ({ d with pool := (d.pool.merge fetched exclude).1 }, .count (d.pool.merge fetched exclude).2)
  | .take n => ({ d with pool := (d.pool.take n).2 }, .taken (d.pool.take n).1)
  | .takeTransport n transport =>
    ({ d with pool := (d.pool.takeTransport n transport).2 },
      .taken (d.pool.takeTransport n transport).1)
  | .prioritize fresh transport => ({ d with pool := d.pool.prioritize fresh transport }, .done)
  | .removeAll bs => ({ d with pool := (d.pool.removeAll bs).1 }, .count (d.pool.removeAll bs).2)
  | .rotateToBack bs =>
    ({ d with pool := (d.pool.rotateToBack bs).1 }, .count (d.pool.rotateToBack bs).2)
  | .save => ({ d with file := some d.pool.saveText }, .done)

/-- An ordered set of bridges, and a copy of it from the past. -/
structure Shelf (f : BridgeFormat B K) where
  saved : OrderedSet f.key
  current : OrderedSet f.key

/-- What the operations do to an ordered set of bridges. -/
def Shelf.step (a : Shelf f) : Op B K → Shelf f × Answer B
  | .load => ({ a with current := a.saved }, .done)
  | .merge fetched exclude =>
    let after := a.current.addAll (fetched.filter fun b => decide (f.key b ∉ exclude))
    ({ a with current := after }, .count (after.items.length - a.current.items.length))
  | .take n =>
    let r := a.current.takeFirst n fun _ => true
    ({ a with current := r.2 }, .taken r.1)
  | .takeTransport n transport =>
    let r := a.current.takeFirst n fun b =>
      transport.all fun name => decide (f.transport b = some name)
    ({ a with current := r.2 }, .taken r.1)
  | .prioritize fresh transport =>
    let fresh := fun b => decide (f.key b ∈ matching f fresh transport)
    ({ a with current := a.current.partition fresh }, .done)
  | .removeAll bs =>
    let r := a.current.without (bs.map f.key)
    ({ a with current := r.1 }, .count r.2)
  | .rotateToBack bs =>
    let others := fun b => decide (f.key b ∉ bs.map f.key)
    ({ a with current := a.current.partition others },
      .count (a.current.without (bs.map f.key)).2)
  | .save => ({ a with saved := a.current }, .done)

/-- The ordered sets that a pool and its file stand for. -/
def Desk.shelf (d : Desk f) : Shelf f := ⟨shelved f d.file, d.pool.toSet⟩

/-- A run, and what its operations answer. -/
def Desk.run (d : Desk f) : List (Op B K) → Desk f × List (Answer B)
  | [] => (d, [])
  | op :: ops => (((d.step op).1.run ops).1, (d.step op).2 :: ((d.step op).1.run ops).2)

def Shelf.run (a : Shelf f) : List (Op B K) → Shelf f × List (Answer B)
  | [] => (a, [])
  | op :: ops => (((a.step op).1.run ops).1, (a.step op).2 :: ((a.step op).1.run ops).2)

/-- **An operation does to a pool and its file what it does to the ordered sets.** -/
theorem step_refines (hf : f.Exact) (d : Desk f) (op : Op B K) :
    (d.step op).1.shelf = (d.shelf.step op).1 ∧ (d.step op).2 = (d.shelf.step op).2 := by
  have htake (n : ℕ) (transport : Option String) :=
    toSet_takeTransport d.pool n transport
  cases op with
  | load => exact ⟨congrArg (Shelf.mk _) (toSet_loadText d.file), rfl⟩
  | merge fetched exclude =>
    obtain ⟨hset, hcount⟩ := toSet_merge d.pool fetched exclude
    exact ⟨congrArg (Shelf.mk _) hset, congrArg Answer.count (Nat.eq_sub_of_add_eq hcount)⟩
  | take n =>
    exact ⟨congrArg (Shelf.mk _) (congrArg Prod.snd (htake n none)),
      congrArg Answer.taken (congrArg Prod.fst (htake n none))⟩
  | takeTransport n transport =>
    exact ⟨congrArg (Shelf.mk _) (congrArg Prod.snd (htake n transport)),
      congrArg Answer.taken (congrArg Prod.fst (htake n transport))⟩
  | prioritize fresh transport =>
    exact ⟨congrArg (Shelf.mk _) (toSet_prioritize d.pool fresh transport), rfl⟩
  | removeAll bs =>
    have hboth := toSet_removeAll d.pool bs
    exact ⟨congrArg (Shelf.mk _) (congrArg Prod.fst hboth),
      congrArg Answer.count (congrArg Prod.snd hboth)⟩
  | rotateToBack bs =>
    have hboth := toSet_rotateToBack d.pool bs
    exact ⟨congrArg (Shelf.mk _) (congrArg Prod.fst hboth),
      congrArg Answer.count (congrArg Prod.snd hboth)⟩
  | save => exact ⟨congrArg (Shelf.mk · _) (shelved_saveText hf d.pool), rfl⟩

theorem run_refines (hf : f.Exact) (ops : List (Op B K)) : ∀ d : Desk f,
    (d.run ops).1.shelf = (d.shelf.run ops).1 ∧ (d.run ops).2 = (d.shelf.run ops).2 := by
  induction ops with
  | nil => exact fun d => ⟨rfl, rfl⟩
  | cons op ops ih =>
    intro d
    obtain ⟨hshelf, hanswer⟩ := step_refines hf d op
    obtain ⟨hshelf', hanswers⟩ := ih (d.step op).1
    rw [Desk.run, Shelf.run, ← hshelf, ← hanswer]
    exact ⟨hshelf', congrArg (cons (d.step op).2) hanswers⟩

/-- **The candidate pool is an ordered set.**  After any run of operations the set of identities is
that of the queue and no identity occurs twice; the queue and the answers are those of the same run
on an insertion-ordered set, where saving keeps a copy and loading takes it back. -/
theorem pool_is_ordered_set {B K : Type} [DecidableEq K] {f : BridgeFormat B K} (hf : f.Exact)
    (d : Desk f) (ops : List (Op B K)) :
    (d.run ops).1.pool.keys = ((d.run ops).1.pool.bridges.map f.key).toFinset ∧
      ((d.run ops).1.pool.bridges.map f.key).Nodup ∧
      (d.run ops).1.pool.bridges = (d.shelf.run ops).1.current.items ∧
      (d.run ops).2 = (d.shelf.run ops).2 := by
  obtain ⟨hshelf, hanswers⟩ := run_refines hf ops d
  refine ⟨(d.run ops).1.pool.keys_eq, (d.run ops).1.pool.nodup, ?_, hanswers⟩
  rw [← hshelf]
  rfl

/-- Two bridges with names of one letter. -/
def letterFormat : BridgeFormat Bool Bool where
  key := id
  transport := fun _ => none
  display := fun b => if b then ['a'] else ['b']
  parse := fun line => if line = ['a'] then some true else if line = ['b'] then some false else none

theorem exact_letterFormat : letterFormat.Exact := by
  unfold BridgeFormat.Exact
  decide

theorem pool_is_ordered_set_letters :
    let d : Desk letterFormat := ⟨none, empty⟩
    let ops := [.merge [true, false, true] ∅, .save, .take 1, .load, .rotateToBack [true]]
    (d.run ops).1.pool.bridges = [false, true] ∧
      (d.run ops).1.pool.bridges = (d.shelf.run ops).1.current.items := by
  intro d ops
  exact ⟨by decide, (pool_is_ordered_set exact_letterFormat d ops).2.2.1⟩

end CandidatePool
