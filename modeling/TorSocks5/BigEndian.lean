/-
**Big-endian integers of a fixed width.**

A number is written as a fixed number of bytes, the most significant one first; a signed number is
written as its residue modulo the number of patterns.  Reading back what was written gives the
number modulo the width, so the number itself when it fits.
-/

import Mathlib

set_option autoImplicit false

namespace BigEndian

/-! ### Unsigned integers -/

/-- The lowest `w` bytes of a number, most significant byte first. -/
def encode : ℕ → ℕ → List UInt8
  | 0, _ => []
  | w + 1, n => encode w (n / 256) ++ [UInt8.ofNat n]

/-- The number that a list of bytes stands for. -/
def decode (bytes : List UInt8) : ℕ := bytes.foldl (fun n b => n * 256 + b.toNat) 0

@[simp] theorem length_encode (w n : ℕ) : (encode w n).length = w := by
  induction w generalizing n with
  | zero => rfl
  | succ w ih => simp [encode, ih]

theorem decode_append_singleton (bytes : List UInt8) (b : UInt8) :
    decode (bytes ++ [b]) = decode bytes * 256 + b.toNat := by
  simp [decode]

theorem decode_encode_mod (w n : ℕ) : decode (encode w n) = n % 256 ^ w := by
  induction w generalizing n with
  | zero => simp [encode, decode, Nat.mod_one]
  | succ w ih =>
    rw [encode, decode_append_singleton, ih, pow_succ, mul_comm (256 ^ w) 256, Nat.mod_mul]
    have hlow : (UInt8.ofNat n).toNat = n % 256 := by simp
    rw [hlow]
    ring

/-- **What fits is read back.** -/
theorem decode_encode {w n : ℕ} (h : n < 256 ^ w) : decode (encode w n) = n := by
  rw [decode_encode_mod, Nat.mod_eq_of_lt h]

/-! ### Signed integers -/

/-- Two's complement in `w` bytes. -/
def encodeSigned (w : ℕ) (n : ℤ) : List UInt8 := encode w (n % 256 ^ w).toNat

/-- The signed number that a list of bytes stands for. -/
def decodeSigned (bytes : List UInt8) : ℤ :=
  if 2 * decode bytes < 256 ^ bytes.length then decode bytes
  else decode bytes - 256 ^ bytes.length

@[simp] theorem length_encodeSigned (w : ℕ) (n : ℤ) : (encodeSigned w n).length = w :=
  length_encode w _

theorem decodeSigned_encodeSigned {w : ℕ} {n : ℤ} (hlo : -(256 ^ w : ℤ) ≤ 2 * n)
    (hhi : 2 * n < 256 ^ w) : decodeSigned (encodeSigned w n) = n := by
  have hpos : (0 : ℤ) < 256 ^ w := by positivity
  have hmod := Int.emod_lt_of_pos n hpos
  have hnonneg := Int.emod_nonneg n hpos.ne'
  have hlt : (n % 256 ^ w).toNat < 256 ^ w := by
    zify
    rw [Int.toNat_of_nonneg hnonneg]
    exact hmod
  have hdec : (decode (encodeSigned w n) : ℤ) = n % 256 ^ w := by
    rw [encodeSigned, decode_encode hlt, Int.toNat_of_nonneg hnonneg]
  unfold decodeSigned
  rw [length_encodeSigned]
  by_cases hn : 0 ≤ n
  · have hres : n % (256 ^ w : ℤ) = n := Int.emod_eq_of_lt hn (by omega)
    rw [hres] at hdec
    rw [if_pos (by zify; omega), hdec]
  · have hres : n % (256 ^ w : ℤ) = n + 256 ^ w := by
      rw [← Int.add_emod_right, Int.emod_eq_of_lt (by omega) (by omega)]
    rw [hres] at hdec
    rw [if_neg (by zify; omega), hdec]
    ring

/-! ### Fields -/

/-- The first `n` bytes and the rest, if there are that many. -/
def split (n : ℕ) (data : List UInt8) : Option (List UInt8 × List UInt8) :=
  if n ≤ data.length then some (data.take n, data.drop n) else none

theorem split_append {n : ℕ} {field : List UInt8} (h : field.length = n) (rest : List UInt8) :
    split n (field ++ rest) = some (field, rest) := by
  subst h
  simp [split]

/-- What follows an input does not change the field that is split off. -/
theorem split_append_of_some {n : ℕ} {data field rest : List UInt8}
    (h : split n data = some (field, rest)) (more : List UInt8) :
    split n (data ++ more) = some (field, rest ++ more) := by
  unfold split at h
  split_ifs at h with hle
  cases h
  have hle' : n ≤ (data ++ more).length := by
    rw [List.length_append]
    omega
  rw [split, if_pos hle', List.take_append_of_le_length hle,
    List.drop_append_of_le_length hle]

/-! ### Digits of any base -/

/-- The lowest `w` digits of a number in base `b`, most significant digit first. -/
def digits (b : ℕ) : ℕ → ℕ → List ℕ
  | 0, _ => []
  | w + 1, n => digits b w (n / b) ++ [n % b]

/-- The number that a list of digits stands for. -/
def value (b : ℕ) (ds : List ℕ) : ℕ := ds.foldl (fun n d => n * b + d) 0

theorem value_append_singleton (b : ℕ) (ds : List ℕ) (d : ℕ) :
    value b (ds ++ [d]) = value b ds * b + d := by
  simp [value]

theorem value_append (b : ℕ) (ds es : List ℕ) :
    value b (ds ++ es) = value b ds * b ^ es.length + value b es := by
  induction es using List.reverseRecOn with
  | nil => simp [value]
  | append_singleton es e ih =>
    rw [← List.append_assoc, value_append_singleton, value_append_singleton, ih,
      List.length_append, List.length_singleton, pow_succ]
    ring

@[simp] theorem length_digits (b w n : ℕ) : (digits b w n).length = w := by
  induction w generalizing n with
  | zero => rfl
  | succ w ih => simp [digits, ih]

theorem digits_lt {b : ℕ} (hb : 0 < b) : ∀ {w n d : ℕ}, d ∈ digits b w n → d < b
  | w + 1, n, d, h => by
    rcases List.mem_append.mp h with h | h
    · exact digits_lt hb h
    · rw [List.mem_singleton.mp h]
      exact Nat.mod_lt n hb

theorem value_digits (b w n : ℕ) : value b (digits b w n) = n % b ^ w := by
  induction w generalizing n with
  | zero => simp [digits, value, Nat.mod_one]
  | succ w ih =>
    rw [digits, value_append_singleton, ih, pow_succ, mul_comm (b ^ w) b, Nat.mod_mul]
    ring

theorem value_lt {b : ℕ} {ds : List ℕ} (h : ∀ d ∈ ds, d < b) : value b ds < b ^ ds.length := by
  induction ds using List.reverseRecOn with
  | nil => simp [value]
  | append_singleton ds d ih =>
    have hd : d < b := h d (by simp)
    have hds := ih fun e he => h e (by simp [he])
    rw [value_append_singleton, List.length_append, List.length_singleton, pow_succ]
    nlinarith

theorem digits_value {b : ℕ} {ds : List ℕ} (h : ∀ d ∈ ds, d < b) :
    digits b ds.length (value b ds) = ds := by
  induction ds using List.reverseRecOn with
  | nil => rfl
  | append_singleton ds d ih =>
    have hd : d < b := h d (by simp)
    rw [List.length_append, List.length_singleton, digits, value_append_singleton,
      mul_comm, Nat.mul_add_div (by omega), Nat.div_eq_of_lt hd, Nat.mul_add_mod,
      Nat.mod_eq_of_lt hd, add_zero, ih fun e he => h e (by simp [he])]

/-- The first digits are those of the number without its last digits. -/
theorem take_digits (b k w n : ℕ) : (digits b (k + w) n).take k = digits b k (n / b ^ w) := by
  induction w generalizing n with
  | zero => simp
  | succ w ih =>
    rw [← add_assoc, digits, List.take_append_of_le_length (by simp), ih, pow_succ',
      Nat.div_div_eq_div_mul]

/-! ### Bytes as digits -/

theorem decode_eq_value (bytes : List UInt8) : decode bytes = value 256 (bytes.map (·.toNat)) := by
  simp [decode, value, List.foldl_map]

theorem encode_eq_digits (w n : ℕ) : encode w n = (digits 256 w n).map UInt8.ofNat := by
  induction w generalizing n with
  | zero => rfl
  | succ w ih =>
    have hlow : UInt8.ofNat n = UInt8.ofNat (n % 256) := UInt8.toNat_inj.mp (by simp)
    rw [encode, digits, List.map_append, ih, hlow]
    rfl

theorem toNat_lt_of_mem (bytes : List UInt8) : ∀ d ∈ bytes.map (·.toNat), d < 256 := by
  simp only [List.mem_map]
  rintro d ⟨b, -, rfl⟩
  exact b.toNat_lt

theorem decode_lt (bytes : List UInt8) : decode bytes < 256 ^ bytes.length := by
  simpa [decode_eq_value] using value_lt (toNat_lt_of_mem bytes)

theorem encode_decode (bytes : List UInt8) : encode bytes.length (decode bytes) = bytes := by
  have h := digits_value (toNat_lt_of_mem bytes)
  rw [List.length_map] at h
  rw [encode_eq_digits, decode_eq_value, h, List.map_map]
  simp [Function.comp_def]

theorem decode_append (l r : List UInt8) :
    decode (l ++ r) = decode l * 256 ^ r.length + decode r := by
  simp only [decode_eq_value, List.map_append, value_append, List.length_map]

end BigEndian
