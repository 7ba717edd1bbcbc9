/-
**Masks made of slots.**

A word is cut into slots of equal width, counted from the left.  A pattern fixes the values of some
slots and leaves the others free; it is compiled into two words, the fixed bits and the mask of the
bits that are fixed, and a word is compared with it by two conjunctions.
-/

import Mathlib

set_option autoImplicit false

namespace SlotMask

variable {w k : ℕ}

/-- The distance of a slot from the right end of a word. -/
def shift (w k i : ℕ) : ℕ := w - k - k * i

/-- A slot of a word, counted from the left. -/
def slot (k : ℕ) (a : BitVec w) (i : ℕ) : BitVec k := (a >>> shift w k i).setWidth k

/-- The word has the slots that the pattern fixes. -/
def Covers (slots : List (Option (BitVec k))) (a : BitVec w) : Prop :=
  ∀ i v, slots[i]? = some (some v) → slot k a i = v

/-- The fixed bits of a pattern, and the mask of them. -/
def compile (w : ℕ) (slots : List (Option (BitVec k))) : BitVec w × BitVec w :=
  slots.zipIdx.foldl (fun acc s =>
    match s.1 with
    | some v => (acc.1 ||| v.setWidth w <<< shift w k s.2,
        acc.2 ||| (BitVec.allOnes k).setWidth w <<< shift w k s.2)
    | none => acc) (0, 0)

/-! ### Bits -/

theorem getLsbD_slot (a : BitVec w) (i t : ℕ) :
    (slot k a i).getLsbD t = (decide (t < k) && a.getLsbD (shift w k i + t)) := by
  rw [slot, BitVec.getLsbD_setWidth, BitVec.getLsbD_ushiftRight]

theorem getElem?_append_singleton {α : Type*} (l : List α) (a b : α) (i : ℕ) :
    (l ++ [a])[i]? = some b ↔ l[i]? = some b ∨ i = l.length ∧ b = a := by
  grind

theorem compile_append (slots : List (Option (BitVec k))) (s : Option (BitVec k)) :
    compile w (slots ++ [s]) = match s with
      | some v => ((compile w slots).1 ||| v.setWidth w <<< shift w k slots.length,
          (compile w slots).2 ||| (BitVec.allOnes k).setWidth w <<< shift w k slots.length)
      | none => compile w slots := by
  rw [compile, List.zipIdx_append, List.foldl_append]
  simp only [List.zipIdx_cons, List.zipIdx_nil, List.foldl_cons, List.foldl_nil, Nat.zero_add]
  rfl

/-- The bits that are fixed to one. -/
theorem getLsbD_compile_fst (slots : List (Option (BitVec k))) (j : ℕ) :
    (compile w slots).1.getLsbD j = true ↔ j < w ∧ ∃ i v, slots[i]? = some (some v) ∧
      shift w k i ≤ j ∧ v.getLsbD (j - shift w k i) = true := by
  induction slots using List.reverseRecOn with
  | nil => simp [compile]
  | append_singleton slots s ih =>
    rw [compile_append]
    simp only [getElem?_append_singleton]
    cases s with
    | none => simp [ih]
    | some v =>
      simp only [BitVec.getLsbD_or, Bool.or_eq_true, ih, BitVec.getLsbD_shiftLeft,
        BitVec.getLsbD_setWidth]
      grind

/-- The bits that are fixed. -/
theorem getLsbD_compile_snd (slots : List (Option (BitVec k))) (j : ℕ) :
    (compile w slots).2.getLsbD j = true ↔ j < w ∧ ∃ i v, slots[i]? = some (some v) ∧
      shift w k i ≤ j ∧ j < shift w k i + k := by
  induction slots using List.reverseRecOn with
  | nil => simp [compile]
  | append_singleton slots s ih =>
    rw [compile_append]
    simp only [getElem?_append_singleton]
    cases s with
    | none => simp [ih]
    | some v =>
      simp only [BitVec.getLsbD_or, Bool.or_eq_true, ih, BitVec.getLsbD_shiftLeft,
        BitVec.getLsbD_setWidth, BitVec.getLsbD_allOnes]
      grind

/-! ### Patterns -/

section Patterns

variable {slots : List (Option (BitVec k))}

/-- The slots of a word do not overlap. -/
theorem eq_of_shift_le {i i' j : ℕ} (hi : k * (i + 1) ≤ w) (hi' : k * (i' + 1) ≤ w)
    (hle : shift w k i ≤ j) (hlt : j < shift w k i + k) (hle' : shift w k i' ≤ j)
    (hlt' : j < shift w k i' + k) : i = i' := by
  have hstep : ∀ a b, a < b → k * a + k ≤ k * b := fun a b hab =>
    (Nat.mul_succ k a).symm.le.trans (Nat.mul_le_mul_left k hab)
  have hij := hstep i i'
  have hji := hstep i' i
  rw [Nat.mul_succ] at hi hi'
  unfold shift at *
  omega

theorem mul_succ_le_of_getElem? {i : ℕ} {s : Option (BitVec k)} (hlen : k * slots.length ≤ w)
    (hget : slots[i]? = some s) : k * (i + 1) ≤ w := by
  obtain ⟨hi, -⟩ := List.getElem?_eq_some_iff.1 hget
  exact (Nat.mul_le_mul_left k hi).trans hlen

/-- The fixed bits of a slot are those of its value. -/
theorem getLsbD_compile_slot (hlen : k * slots.length ≤ w) {i : ℕ} {v : BitVec k}
    (hget : slots[i]? = some (some v)) {t : ℕ} (ht : t < k) :
    (compile w slots).1.getLsbD (shift w k i + t) = v.getLsbD t := by
  have hi := mul_succ_le_of_getElem? hlen hget
  have hj : shift w k i + t < w := by
    rw [Nat.mul_succ] at hi
    unfold shift
    omega
  rw [Bool.eq_iff_iff, getLsbD_compile_fst]
  constructor
  · rintro ⟨-, i', v', hget', hle, hbit⟩
    have hlt : shift w k i + t - shift w k i' < k := BitVec.lt_of_getLsbD hbit
    obtain rfl := eq_of_shift_le (mul_succ_le_of_getElem? hlen hget') hi hle (by omega)
      (Nat.le_add_right _ _) (by omega)
    obtain rfl : v' = v := Option.some.inj (Option.some.inj (hget'.symm.trans hget))
    rwa [Nat.add_sub_cancel_left] at hbit
  · exact fun hbit => ⟨hj, i, v, hget, Nat.le_add_right _ _, by rwa [Nat.add_sub_cancel_left]⟩

/-- **A word agrees with the compiled pattern exactly when the pattern covers it.** -/
theorem and_mask_eq_iff (hlen : k * slots.length ≤ w) (a : BitVec w) :
    a &&& (compile w slots).2 = (compile w slots).1 &&& (compile w slots).2 ↔ Covers slots a := by
  constructor
  · intro heq i v hget
    refine BitVec.eq_of_getLsbD_eq fun t ht => ?_
    have hi := mul_succ_le_of_getElem? hlen hget
    have hmask : (compile w slots).2.getLsbD (shift w k i + t) = true := by
      rw [getLsbD_compile_snd]
      refine ⟨?_, i, v, hget, Nat.le_add_right _ _, by omega⟩
      rw [Nat.mul_succ] at hi
      unfold shift
      omega
    have hbit := congrArg (fun b => b.getLsbD (shift w k i + t)) heq
    simp only [BitVec.getLsbD_and, hmask, Bool.and_true] at hbit
    rw [getLsbD_slot, decide_eq_true ht, Bool.true_and, hbit, getLsbD_compile_slot hlen hget ht]
  · intro hcovers
    refine BitVec.eq_of_getLsbD_eq fun j hj => ?_
    rw [BitVec.getLsbD_and, BitVec.getLsbD_and]
    cases hmask : (compile w slots).2.getLsbD j with
    | false => rw [Bool.and_false, Bool.and_false]
    | true =>
      obtain ⟨-, i, v, hget, hle, hlt⟩ := (getLsbD_compile_snd slots j).1 hmask
      obtain ⟨t, rfl⟩ := Nat.exists_eq_add_of_le hle
      have ht : t < k := by omega
      have hslot := congrArg (fun b => b.getLsbD t) (hcovers i v hget)
      simp only [getLsbD_slot, decide_eq_true ht, Bool.true_and] at hslot
      rw [Bool.and_true, Bool.and_true, hslot, getLsbD_compile_slot hlen hget ht]

theorem covers_compile (hlen : k * slots.length ≤ w) : Covers slots (compile w slots).1 :=
  (and_mask_eq_iff hlen _).1 rfl

/-- A pattern that fixes every slot covers one word only. -/
theorem eq_of_covers {values : List (BitVec k)} (hlen : k * values.length = w) {a b : BitVec w}
    (ha : Covers (values.map some) a) (hb : Covers (values.map some) b) : a = b := by
  refine BitVec.eq_of_getLsbD_eq fun j hj => ?_
  have hk : 0 < k := Nat.pos_of_mul_pos_right (show 0 < k * values.length by omega)
  -- the slot of the bit, counted from the left
  have hi : (w - 1 - j) / k < values.length := by
    rw [Nat.div_lt_iff_lt_mul hk, Nat.mul_comm, hlen]
    omega
  have hdiv := Nat.div_add_mod (w - 1 - j) k
  have hmod := Nat.mod_lt (w - 1 - j) hk
  obtain ⟨t, ht, hj'⟩ : ∃ t < k, j = shift w k ((w - 1 - j) / k) + t := by
    have hle := Nat.mul_le_mul_left k hi
    rw [Nat.mul_succ, hlen] at hle
    refine ⟨k - 1 - (w - 1 - j) % k, by omega, ?_⟩
    unfold shift
    omega
  have hget : (values.map some)[(w - 1 - j) / k]? = some (some values[(w - 1 - j) / k]) := by
    simp [hi]
  have hslots := congrArg (fun c => c.getLsbD t) ((ha _ _ hget).trans (hb _ _ hget).symm)
  simp only [getLsbD_slot, decide_eq_true ht, Bool.true_and] at hslots
  rwa [← hj'] at hslots

end Patterns

end SlotMask
