/-
**The candidate pool: a queue of bridges without repeated identities, kept in a file.**

`CandidatePool` holds bridge candidates in insertion order, together with the set of their
identities.  Here the two are one structure with the invariant of the source as fields: the set is
the set of identities of the queue, and no identity occurs twice.  Every operation therefore comes
with a proof that it keeps the set and the queue in step.
-/

import TorSocks5.Text

set_option autoImplicit false

/-! ### Bridges -/

/-- What the program does with a bridge line of type `B`, whose identity has type `K`. -/
structure BridgeFormat (B K : Type*) where
  /-- `bridge_identity`. -/
  key : B → K
  /-- The name of the pluggable transport. -/
  transport : B → Option String
  /-- The bridge as text. -/
  display : B → List Char
  /-- The bridge a text denotes. -/
  parse : List Char → Option B

namespace BridgeFormat

variable {B K : Type*}

/-- A line of a pool file: blank lines, comments and malformed lines hold no bridge. -/
def readLine (f : BridgeFormat B K) (raw : List Char) : Option B :=
  let line := trim raw
  if line = [] ∨ line.head? = some '#' then none else f.parse line

/-- Displaying a bridge and reading the line keeps the identity. -/
def Faithful (f : BridgeFormat B K) : Prop :=
  ∀ b, ∃ b', f.readLine (f.display b) = some b' ∧ f.key b' = f.key b

theorem readLine_comment (f : BridgeFormat B K) (cs : List Char) :
    f.readLine ('#' :: cs) = none := by
  simp [readLine, head_trim (show isWhite '#' = false by decide)]

theorem readLine_nil (f : BridgeFormat B K) : f.readLine [] = none := by
  simp [readLine, trim]

/-- The identity of the bridge on a line. -/
def lineKey (f : BridgeFormat B K) (line : List Char) : Option K :=
  (f.readLine line).map f.key

theorem lineKey_display {f : BridgeFormat B K} (hf : f.Faithful) (b : B) :
    f.lineKey (f.display b) = some (f.key b) := by
  obtain ⟨b', hread, hkey⟩ := hf b
  rw [lineKey, hread, Option.map_some, hkey]

end BridgeFormat

/-! ### The pool -/

/-- Insertion-ordered candidates without repeated identities, and the set of their identities. -/
structure CandidatePool {B K : Type*} [DecidableEq K] (f : BridgeFormat B K) where
  /-- The queue. -/
  bridges : List B
  /-- The identities. -/
  keys : Finset K
  keys_eq : keys = (bridges.map f.key).toFinset
  nodup : (bridges.map f.key).Nodup

namespace CandidatePool

variable {B K : Type*} [DecidableEq K] {f : BridgeFormat B K}

theorem mem_keys (p : CandidatePool f) {k : K} : k ∈ p.keys ↔ ∃ b ∈ p.bridges, f.key b = k := by
  simp [p.keys_eq]

/-- The pool of a missing file. -/
def empty : CandidatePool f := ⟨[], ∅, rfl, List.nodup_nil⟩

/-- Append a bridge unless its identity is present. -/
def pushUnique (p : CandidatePool f) (b : B) : CandidatePool f × Bool :=
  if h : f.key b ∈ p.keys then (p, false)
  else
    (⟨p.bridges ++ [b], insert (f.key b) p.keys, by
        rw [p.keys_eq, List.map_append, List.toFinset_append, Finset.union_comm]
        rfl, by
        rw [List.map_append, List.nodup_append]
        refine ⟨p.nodup, List.nodup_singleton _, ?_⟩
        intro k hk k' hk'
        rintro rfl
        rw [p.keys_eq, List.mem_toFinset] at h
        obtain rfl : k = f.key b := by simpa using hk'
        exact h hk⟩, true)

/-- The pool in the lines of its file. -/
def load (lines : List (List Char)) : CandidatePool f :=
  lines.foldl (fun p raw =>
    match f.readLine raw with
    | some b => (p.pushUnique b).1
    | none => p) empty

/-- The header of the file. -/
def header : List Char :=
  '#' :: " Auto-generated by tor-socks5. Unverified bridge candidate pool.".toList

/-- The lines of the file a pool is saved to. -/
def save (p : CandidatePool f) : List (List Char) :=
  header :: [] :: p.bridges.map f.display

/-- Merge fetched candidates, and count those that are new; identities in `exclude` are skipped. -/
def merge (p : CandidatePool f) (fetched : List B) (exclude : Finset K) : CandidatePool f × ℕ :=
  fetched.foldl (fun r b =>
    if f.key b ∈ exclude then r
    else if (r.1.pushUnique b).2 then ((r.1.pushUnique b).1, r.2 + 1)
    else r) (p, 0)

/-- The identities that are left when those of `bs` are removed one after the other. -/
def eraseAll (f : BridgeFormat B K) (ks : Finset K) (bs : List B) : Finset K :=
  bs.foldl (fun ks b => ks.erase (f.key b)) ks

theorem mem_eraseAll {ks : Finset K} {bs : List B} {k : K} :
    k ∈ eraseAll f ks bs ↔ k ∈ ks ∧ ∀ b ∈ bs, f.key b ≠ k := by
  induction bs generalizing ks with
  | nil => simp [eraseAll]
  | cons b bs ih =>
    rw [show eraseAll f ks (b :: bs) = eraseAll f (ks.erase (f.key b)) bs from rfl, ih]
    simp only [Finset.mem_erase, List.mem_cons, forall_eq_or_imp]
    tauto

/-- What is left of the pool when `taken` is taken out and `rest` remains. -/
def split (p : CandidatePool f) (taken rest : List B) (h : (taken ++ rest).Perm p.bridges) :
    CandidatePool f :=
  have hnodup : ((taken ++ rest).map f.key).Nodup := (h.map f.key).nodup_iff.2 p.nodup
  ⟨rest, eraseAll f p.keys taken, by
    rw [List.map_append, List.nodup_append] at hnodup
    ext k
    rw [mem_eraseAll, p.mem_keys]
    simp only [List.mem_toFinset, List.mem_map]
    constructor
    · rintro ⟨⟨b, hb, rfl⟩, hne⟩
      rcases List.mem_append.1 (h.mem_iff.2 hb) with hb | hb
      · exact absurd rfl (hne b hb)
      · exact ⟨b, hb, rfl⟩
    · rintro ⟨b, hb, rfl⟩
      refine ⟨⟨b, h.mem_iff.1 (List.mem_append_right _ hb), rfl⟩, fun b' hb' heq => ?_⟩
      exact hnodup.2.2 _ (List.mem_map_of_mem hb') _ (List.mem_map_of_mem hb) heq, by
    rw [List.map_append] at hnodup
    exact hnodup.of_append_right⟩

/-- Take the first `n` candidates. -/
def take (p : CandidatePool f) (n : ℕ) : List B × CandidatePool f :=
  (p.bridges.take n, p.split (p.bridges.take n) (p.bridges.drop n) (by
    rw [List.take_append_drop]))

/-- One pass over the queue that moves out the first `n` matches. -/
def scan (hit : B → Bool) : ℕ → List B → List B × List B
  | 0, bs => ([], bs)
  | _ + 1, [] => ([], [])
  | n + 1, b :: bs =>
    if hit b then (b :: (scan hit n bs).1, (scan hit n bs).2)
    else ((scan hit (n + 1) bs).1, b :: (scan hit (n + 1) bs).2)

theorem scan_perm (hit : B → Bool) (n : ℕ) (bs : List B) :
    ((scan hit n bs).1 ++ (scan hit n bs).2).Perm bs := by
  fun_induction scan hit n bs with
  | case1 | case2 => exact List.Perm.refl _
  | case3 n b bs hb ih => exact ih.cons b
  | case4 n b bs hb ih => exact List.perm_middle.trans (ih.cons b)

/-- Take the first `n` candidates of a transport; the others keep their places. -/
def takeTransport (p : CandidatePool f) (n : ℕ) (transport : Option String) :
    List B × CandidatePool f :=
  match transport with
  | none => p.take n
  | some name =>
    let hit := fun b => decide (f.transport b = some name)
    ((scan hit n p.bridges).1, p.split _ _ (scan_perm hit n p.bridges))

/-- The pool with its queue in another order. -/
def reorder (p : CandidatePool f) (bs : List B) (h : bs.Perm p.bridges) : CandidatePool f :=
  ⟨bs, p.keys, by rw [p.keys_eq]; exact (List.toFinset_eq_of_perm _ _ (h.map f.key)).symm,
    (h.map f.key).nodup_iff.2 p.nodup⟩

/-- Put the fresh candidates of a transport first: a stable sort by whether a candidate is not
fresh. -/
def prioritize (p : CandidatePool f) (fresh : List B) (transport : Option String) :
    CandidatePool f :=
  let freshKeys := ((fresh.filter fun b =>
    transport.all fun name => decide (f.transport b = some name)).map f.key).toFinset
  let stale := fun b => decide (f.key b ∉ freshKeys)
  p.reorder (p.bridges.mergeSort fun a b => decide (stale a ≤ stale b)) (List.mergeSort_perm _ _)

/-- The keys left, the keys removed and their number, after removing those of `bs` one after the
other. -/
def removeKeys (f : BridgeFormat B K) (ks : Finset K) (bs : List B) : Finset K × Finset K × ℕ :=
  bs.foldl (fun r b =>
    if f.key b ∈ r.1 then (r.1.erase (f.key b), insert (f.key b) r.2.1, r.2.2 + 1) else r)
    (ks, ∅, 0)

/-- What the loop of `removeAll` keeps: the keys are split into those left and those removed. -/
theorem removeKeys_spec (ks : Finset K) (bs : List B) :
    (∀ k, k ∈ (removeKeys f ks bs).1 ↔ k ∈ ks ∧ ∀ b ∈ bs, f.key b ≠ k) ∧
    (∀ k, k ∈ (removeKeys f ks bs).2.1 ↔ k ∈ ks ∧ ∃ b ∈ bs, f.key b = k) ∧
    (removeKeys f ks bs).2.2 = (removeKeys f ks bs).2.1.card := by
  induction bs using List.reverseRecOn with
  | nil => simp [removeKeys]
  | append_singleton bs b ih =>
    obtain ⟨hleft, hgone, hcard⟩ := ih
    have hstep : removeKeys f ks (bs ++ [b]) =
        if f.key b ∈ (removeKeys f ks bs).1 then
          ((removeKeys f ks bs).1.erase (f.key b),
            insert (f.key b) (removeKeys f ks bs).2.1, (removeKeys f ks bs).2.2 + 1)
        else removeKeys f ks bs := by
      rw [removeKeys, List.foldl_append]
      rfl
    rw [hstep]
    have hone := hleft (f.key b)
    split_ifs with hb
    · refine ⟨by grind, by grind, ?_⟩
      rw [Finset.card_insert_of_notMem (by grind), hcard]
    · exact ⟨by grind, by grind, hcard⟩

/-- Removing a part of the pool by identity. -/
def discard (p : CandidatePool f) (ks doomed : Finset K)
    (h : ∀ k, k ∈ ks ↔ k ∈ p.keys ∧ k ∉ doomed) : CandidatePool f :=
  ⟨p.bridges.filter fun b => decide (f.key b ∉ doomed), ks, by
    ext k
    rw [h, p.mem_keys]
    simp only [List.mem_toFinset, List.mem_map, List.mem_filter, decide_eq_true_eq]
    grind, by
    refine p.nodup.sublist ?_
    exact List.Sublist.map _ List.filter_sublist⟩

theorem removeKeys_left (p : CandidatePool f) (bs : List B) (k : K) :
    k ∈ (removeKeys f p.keys bs).1 ↔ k ∈ p.keys ∧ k ∉ (removeKeys f p.keys bs).2.1 := by
  obtain ⟨hleft, hgone, -⟩ := removeKeys_spec (f := f) p.keys bs
  rw [hleft, hgone]
  grind

theorem removeKeys_none (p : CandidatePool f) (bs : List B)
    (h : ¬ 0 < (removeKeys f p.keys bs).2.2) : (removeKeys f p.keys bs).1 = p.keys := by
  obtain ⟨-, -, hcard⟩ := removeKeys_spec (f := f) p.keys bs
  have hempty : (removeKeys f p.keys bs).2.1 = ∅ := Finset.card_eq_zero.1 (by omega)
  ext k
  rw [p.removeKeys_left bs, hempty]
  simp

/-- Remove the given bridges, by identity, and count those that were present; the queue is only
rebuilt if there was one. -/
def removeAll (p : CandidatePool f) (bs : List B) : CandidatePool f × ℕ :=
  if h : 0 < (removeKeys f p.keys bs).2.2 then
    (p.discard _ _ (p.removeKeys_left bs), (removeKeys f p.keys bs).2.2)
  else
    (⟨p.bridges, (removeKeys f p.keys bs).1, by rw [p.removeKeys_none bs h, p.keys_eq], p.nodup⟩,
      (removeKeys f p.keys bs).2.2)

/-- Move the given bridges to the back, by identity, and count those that were moved. -/
def rotateToBack (p : CandidatePool f) (bs : List B) : CandidatePool f × ℕ :=
  let requested := (bs.map f.key).toFinset
  let rotated := p.bridges.filter fun b => decide (f.key b ∈ requested)
  (p.reorder ((p.bridges.filter fun b => !decide (f.key b ∈ requested)) ++ rotated) (by
    refine List.perm_append_comm.trans ?_
    exact List.filter_append_perm _ _), rotated.length)

/-- `CandidatePool::is_empty`. -/
def isEmpty (p : CandidatePool f) : Bool := p.bridges.isEmpty

/-- `CandidatePool::len`. -/
def len (p : CandidatePool f) : ℕ := p.bridges.length

/-! ### What the operations do to the identities -/

theorem keys_pushUnique (p : CandidatePool f) (b : B) :
    (p.pushUnique b).1.keys = insert (f.key b) p.keys := by
  unfold pushUnique
  split
  case isTrue h => exact (Finset.insert_eq_of_mem h).symm
  case isFalse h => rfl

/-- Loading collects the identities of the lines. -/
theorem mem_keys_load (lines : List (List Char)) (k : K) :
    k ∈ (load lines : CandidatePool f).keys ↔ ∃ line ∈ lines, f.lineKey line = some k := by
  induction lines using List.reverseRecOn with
  | nil => simp [load, empty]
  | append_singleton lines raw ih =>
    have hload : (load (lines ++ [raw]) : CandidatePool f) =
        match f.readLine raw with
        | some b => ((load lines : CandidatePool f).pushUnique b).1
        | none => load lines := by
      rw [load, List.foldl_append]
      rfl
    rw [hload]
    cases hread : f.readLine raw with
    | none => simp [ih, BridgeFormat.lineKey, hread, or_and_right, exists_or]
    | some b =>
      simp [keys_pushUnique, ih, BridgeFormat.lineKey, hread, or_and_right, exists_or,
        or_comm, eq_comm]

/-- **A saved pool is loaded with the same identities.** -/
theorem keys_load_save (hf : f.Faithful) (p : CandidatePool f) :
    (load p.save : CandidatePool f).keys = p.keys := by
  ext k
  rw [mem_keys_load, p.mem_keys]
  have hheader : f.lineKey header = none := by
    rw [BridgeFormat.lineKey, header, f.readLine_comment]
    rfl
  have hblank : f.lineKey [] = none := by
    rw [BridgeFormat.lineKey, f.readLine_nil]
    rfl
  simp [save, hheader, hblank, BridgeFormat.lineKey_display hf]

/-- Merging loses nothing, and adds nothing but what was fetched and is not excluded. -/
theorem keys_merge (p : CandidatePool f) (fetched : List B) (exclude : Finset K) (k : K) :
    k ∈ (p.merge fetched exclude).1.keys ↔
      k ∈ p.keys ∨ k ∉ exclude ∧ ∃ b ∈ fetched, f.key b = k := by
  induction fetched using List.reverseRecOn generalizing k with
  | nil => simp [merge]
  | append_singleton fetched b ih =>
    have hstep : p.merge (fetched ++ [b]) exclude =
        if f.key b ∈ exclude then p.merge fetched exclude
        else if ((p.merge fetched exclude).1.pushUnique b).2 then
          (((p.merge fetched exclude).1.pushUnique b).1, (p.merge fetched exclude).2 + 1)
        else p.merge fetched exclude := by
      rw [merge, List.foldl_append]
      rfl
    have hpush : ((p.merge fetched exclude).1.pushUnique b).2 = true ↔
        f.key b ∉ (p.merge fetched exclude).1.keys := by
      by_cases hnew : f.key b ∈ (p.merge fetched exclude).1.keys <;> simp [pushUnique, hnew]
    rw [hstep]
    simp only [hpush]
    split_ifs <;> simp only [keys_pushUnique, Finset.mem_insert, ih, List.mem_append,
      List.mem_singleton] at * <;> grind

theorem keys_prioritize (p : CandidatePool f) (fresh : List B) (transport : Option String) :
    (p.prioritize fresh transport).keys = p.keys := rfl

theorem keys_removeAll (p : CandidatePool f) (bs : List B) (k : K) :
    k ∈ (p.removeAll bs).1.keys ↔ k ∈ p.keys ∧ ∀ b ∈ bs, f.key b ≠ k := by
  have hkeys : (p.removeAll bs).1.keys = (removeKeys f p.keys bs).1 := by
    unfold removeAll
    split <;> rfl
  rw [hkeys]
  exact (removeKeys_spec p.keys bs).1 k

theorem keys_rotateToBack (p : CandidatePool f) (bs : List B) :
    (p.rotateToBack bs).1.keys = p.keys := rfl

theorem takeTransport_perm (p : CandidatePool f) (n : ℕ) (transport : Option String) :
    ((p.takeTransport n transport).1 ++ (p.takeTransport n transport).2.bridges).Perm
      p.bridges := by
  cases transport with
  | none => simp [takeTransport, take, split]
  | some name => exact scan_perm _ n p.bridges

end CandidatePool

/-! ### The shuffle -/

/-- One round of the generator of `shuffle`. -/
def xorshift (state : UInt64) : UInt64 :=
  let state := state ^^^ (state <<< 13)
  let state := state ^^^ (state >>> 7)
  state ^^^ (state <<< 17)

/-- The loop of `shuffle`, from the index `i` down to `1`. -/
def shuffleFrom {α : Type*} (state : UInt64) : ℕ → Array α → Array α
  | 0, v => v
  | i + 1, v =>
    let state := xorshift state
    shuffleFrom state i (v.swapIfInBounds (i + 1) (state % UInt64.ofNat (i + 2)).toNat)

/-- `shuffle`: Fisher–Yates with a seeded generator; without a seed the list stays as it is. -/
def shuffle {α : Type*} (seed : Option UInt64) (v : List α) : List α :=
  match seed with
  | none => v
  | some seed => (shuffleFrom (seed ||| 1) (v.length - 1) v.toArray).toList

theorem shuffleFrom_perm {α : Type*} (i : ℕ) : ∀ (state : UInt64) (v : Array α),
    (shuffleFrom state i v).toList.Perm v.toList := by
  induction i with
  | zero => exact fun _ v => List.Perm.refl _
  | succ i ih =>
    intro state v
    refine (ih _ _).trans ?_
    unfold Array.swapIfInBounds
    split_ifs
    · exact Array.perm_iff_toList_perm.1 (Array.swap_perm _ _)
    all_goals exact List.Perm.refl _

theorem shuffle_perm {α : Type*} (seed : Option UInt64) (v : List α) :
    (shuffle seed v).Perm v := by
  cases seed with
  | none => exact List.Perm.refl _
  | some seed => exact shuffleFrom_perm _ _ _
