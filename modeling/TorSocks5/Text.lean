/-
**Texts as lists of characters.**

The functions on texts that the line formats of the program are written and read with: trimming,
lines, words, decimal numbers and UTF-8.  For each there is the lemma that says what it makes of a
text that was put together from parts.
-/

import Mathlib

set_option autoImplicit false

/-! ### White space -/

/-- The characters of the Unicode property `White_Space`. -/
def isWhite (c : Char) : Bool :=
  let n := c.toNat
  (9 ≤ n && n ≤ 13) || n == 0x20 || n == 0x85 || n == 0xA0 || n == 0x1680 ||
    (0x2000 ≤ n && n ≤ 0x200A) || n == 0x2028 || n == 0x2029 || n == 0x202F || n == 0x205F ||
    n == 0x3000

variable {s l : List Char} {bound n : ℕ}
theorem isWhite_of_visible {c : Char} (hlow : 33 ≤ c.toNat) (hhigh : c.toNat < 128) :
    isWhite c = false := by
  simp only [isWhite, Bool.or_eq_false_iff, Bool.and_eq_false_iff, decide_eq_false_iff_not,
    beq_eq_false_iff_ne]
  omega

/-- `str::trim`. -/
def trim (line : List Char) : List Char :=
  (((line.dropWhile isWhite).reverse.dropWhile isWhite).reverse)

/-- `str::eq_ignore_ascii_case`. -/
def eqIgnoreAsciiCase (s t : List Char) : Bool := s.map Char.toLower == t.map Char.toLower

theorem head_trim {c : Char} (h : isWhite c = false) (cs : List Char) :
    (trim (c :: cs)).head? = some c := by
  have hdrop : (c :: cs).dropWhile isWhite = c :: cs := by simp [h]
  rw [trim, hdrop, List.head?_reverse, List.reverse_cons, List.dropWhile_append]
  split <;> simp [h]

theorem trim_eq_self (hhead : ∀ c ∈ s.head?, isWhite c = false)
    (hlast : ∀ c ∈ s.getLast?, isWhite c = false) : trim s = s := by
  have hdrop : ∀ l : List Char, (∀ c ∈ l.head?, isWhite c = false) → l.dropWhile isWhite = l := by
    intro l hl
    cases l <;> simp_all
  rw [trim, hdrop s hhead, hdrop s.reverse (by rwa [List.head?_reverse]), List.reverse_reverse]

theorem trim_append_white {c : Char} (h : isWhite c = true) (s : List Char) :
    trim (s ++ [c]) = trim s := by
  unfold trim
  rw [List.dropWhile_append]
  split
  · next hnil => simp [h, List.isEmpty_iff.1 hnil]
  · simp [h]

namespace Text

open List

/-! ### Beginnings -/

theorem dropPrefix?_append_self (p v : List Char) : (p ++ v).dropPrefix? p = some v :=
  dropPrefix?_eq_some_iff.2 ⟨p, rfl, by simp⟩

theorem dropPrefix?_append_of_clash {p q : List Char} (hpq : ¬ p <+: q) (hqp : ¬ q <+: p)
    (v : List Char) : (p ++ v).dropPrefix? q = none := by
  refine Option.eq_none_iff_forall_ne_some.2 fun w hw => ?_
  obtain ⟨q', heq, hq'⟩ := dropPrefix?_eq_some_iff.1 hw
  obtain rfl : q' = q := by simpa using hq'
  exact ( prefix_or_prefix_of_prefix (prefix_append p v) ⟨w, heq.symm⟩).elim hpq hqp

/-! ### Ends -/

theorem dropSuffix?_append_self (v p : List Char) : (v ++ p).dropSuffix? p = some v :=
  dropSuffix?_eq_some_iff.2 ⟨p, rfl, by simp⟩

theorem dropSuffix?_append_of_clash {p q : List Char} (hpq : ¬ p <:+ q) (hqp : ¬ q <:+ p)
    (v : List Char) : (v ++ p).dropSuffix? q = none := by
  refine Option.eq_none_iff_forall_ne_some.2 fun w hw => ?_
  obtain ⟨q', heq, hq'⟩ := dropSuffix?_eq_some_iff.1 hw
  obtain rfl : q' = q := by simpa using hq'
  exact (suffix_or_suffix_of_suffix (suffix_append v p) ⟨w, heq.symm⟩).elim hpq hqp

/-! ### Lines -/

/-- A carriage return before the end of a line belongs to the end. -/
def stripCr (line : List Char) : List Char := (line.dropSuffix? ['\r']).getD line

/-- `str::lines`: every line feed ends a line, and so does the end of the text unless it stands at
the beginning of a line. -/
def lines (s : List Char) : List (List Char) :=
  let pieces := s.splitOn '\n'
  pieces.dropLast.map stripCr ++ pieces.getLast?.toList.filter (· ≠ [])

/-- The text of some lines. -/
def unlines (ls : List (List Char)) : List Char := ls.flatMap (· ++ ['\n'])

theorem lines_append_newline (h : '\n' ∉ l) (s : List Char) :
    lines (l ++ '\n' :: s) = stripCr l :: lines s := by
  have hsplit : (l ++ '\n' :: s).splitOn '\n' = l :: s.splitOn '\n' :=
    splitOnP_append_cons_of_forall_mem (by grind) '\n' (by simp) s
  obtain ⟨p, ps, hs⟩ := exists_cons_of_ne_nil (splitOn_ne_nil '\n' s)
  simp [lines, hsplit, hs]

theorem lines_unlines {ls : List (List Char)} (h : ∀ l ∈ ls, '\n' ∉ l) :
    lines (unlines ls) = ls.map stripCr := by
  induction ls with
  | nil => rfl
  | cons l ls ih =>
    have hcons : unlines (l :: ls) = l ++ '\n' :: unlines ls := by simp [unlines]
    rw [hcons, lines_append_newline (h l mem_cons_self),
      ih fun l' hl' => h l' (mem_cons_of_mem l hl'), map_cons]

theorem stripCr_of_getLast? (h : l.getLast? ≠ some '\r') : stripCr l = l := by
  unfold stripCr
  cases hdrop : l.dropSuffix? ['\r'] with
  | none => rfl
  | some p =>
    obtain ⟨s, rfl, hs⟩ := dropSuffix?_eq_some_iff.1 hdrop
    obtain rfl : s = ['\r'] := by simpa using hs
    exact absurd getLast?_concat h

theorem lines_intercalate {ls : List (List Char)} (hlf : ∀ l ∈ ls, '\n' ∉ l)
    (hcr : ∀ l ∈ ls, l.getLast? ≠ some '\r') (hne : ∀ l ∈ ls, l ≠ []) :
    lines (['\n'].intercalate ls) = ls := by
  rcases eq_nil_or_concat' ls with rfl | ⟨init, last, rfl⟩
  · rfl
  · have hsplit : (['\n'].intercalate (init ++ [last])).splitOn '\n' = init ++ [last] :=
      splitOn_intercalate '\n' hlf (by simp)
    have hstrip : init.map stripCr = init := by
      rw [map_congr_left fun l hl => stripCr_of_getLast? (hcr l (mem_append_left _ hl))]
      exact map_id' init
    rw [lines, hsplit, dropLast_concat, getLast?_concat, hstrip]
    simp [hne last (by simp)]

theorem trim_stripCr (l : List Char) : trim (stripCr l) = trim l := by
  unfold stripCr
  cases hdrop : l.dropSuffix? ['\r'] with
  | none => rfl
  | some p =>
    obtain ⟨s, rfl, hs⟩ := dropSuffix?_eq_some_iff.1 hdrop
    obtain rfl : s = ['\r'] := by simpa using hs
    exact (trim_append_white (by decide) p).symm

/-! ### Words -/

/-- `str::split_whitespace`. -/
def words (s : List Char) : List (List Char) := (s.splitOnP isWhite).filter (· ≠ [])

/-- A word: not empty, and without white space. -/
def IsWord (w : List Char) : Prop := w ≠ [] ∧ ∀ c ∈ w, isWhite c = false

theorem words_singleton {w : List Char} (h : IsWord w) : words w = [w] := by
  rw [words, splitOnP_eq_singleton h.2]
  simp [h.1]

theorem words_append_space {w : List Char} (h : IsWord w) (s : List Char) :
    words (w ++ ' ' :: s) = w :: words s := by
  rw [words, splitOnP_append_cons_of_forall_mem h.2 ' ' (by decide) s]
  simp [words, h.1]

theorem words_intercalate : ∀ {ws : List (List Char)}, (∀ w ∈ ws, IsWord w) →
    words ([' '].intercalate ws) = ws
  | [], _ => rfl
  | [w], h => by simpa using words_singleton (h w List.mem_cons_self)
  | w :: v :: ws, h => by
      have htail := words_intercalate fun u hu => h u (mem_cons_of_mem w hu)
      simp [intercalate_cons_cons, words_append_space (h w mem_cons_self), htail]

theorem intercalate_ne_nil {ws : List (List Char)} (h : ∀ w ∈ ws, IsWord w) (hne : ws ≠ []) :
    [' '].intercalate ws ≠ [] := by
  intro hnil
  have hwords := words_intercalate h
  rw [hnil] at hwords
  exact hne hwords.symm

/-- Joined words end with a visible character. -/
theorem getLast?_intercalate : ∀ {ws : List (List Char)}, (∀ w ∈ ws, IsWord w) →
    ∀ c ∈ ([' '].intercalate ws).getLast?, isWhite c = false
  | [], _, c, hc => by simp [List.intercalate] at hc
  | [w], h, c, hc =>
      (h w List.mem_cons_self).2 c (List.mem_of_getLast? (by simpa using hc))
  | w :: v :: ws, h, c, hc => by
      have htail := fun u hu => h u (mem_cons_of_mem w hu)
      rw [intercalate_cons_cons,
        getLast?_append_of_ne_nil _ (intercalate_ne_nil htail (by simp))] at hc
      exact getLast?_intercalate htail c hc

/-- A character of a joined text is a separator or from one of the parts. -/
theorem mem_intercalate {sep c : Char} : ∀ {ls : List (List Char)},
    c ∈ [sep].intercalate ls → c = sep ∨ ∃ l ∈ ls, c ∈ l
  | [], h => by simp [List.intercalate] at h
  | [l], h => .inr ⟨l, List.mem_cons_self, by simpa using h⟩
  | l :: l' :: ls, h => by
      have ih := @mem_intercalate sep c (l' :: ls)
      rw [intercalate_cons_cons] at h
      grind

/-! ### Lines that end in two symbols -/

section Terminated

variable {α : Type*} {cr lf : α} {ls ls' : List (List α)} {a b : List α}

/-- Lines, each followed by the two symbols of its end. -/
def terminated (cr lf : α) (ls : List (List α)) : List α := ls.flatMap (· ++ [cr, lf])

theorem terminated_cons (cr lf : α) (l : List α) (ls : List (List α)) :
    terminated cr lf (l :: ls) = l ++ cr :: lf :: terminated cr lf ls := by
  simp [terminated]

theorem terminated_append (cr lf : α) (ls ls' : List (List α)) :
    terminated cr lf (ls ++ ls') = terminated cr lf ls ++ terminated cr lf ls' :=
  flatMap_append

/-- A line in which neither of the two symbols occurs. -/
structure Plain (cr lf : α) (l : List α) : Prop where
  cr : cr ∉ l
  lf : lf ∉ l

/-- **The first symbol of an end is only found in one.** -/
theorem exists_of_terminated_cr (hne : cr ≠ lf) (hls : ∀ l ∈ ls, Plain cr lf l)
    (h : terminated cr lf ls = a ++ cr :: b) :
    ∃ ls₁ l ls₂, ls = ls₁ ++ l :: ls₂ ∧ a = terminated cr lf ls₁ ++ l ∧
      b = lf :: terminated cr lf ls₂ := by
  induction ls generalizing a with
  | nil => simp [terminated] at h
  | cons l ls ih =>
    rw [terminated_cons] at h
    rcases append_eq_append_iff.1 h with ⟨c, rfl, hc⟩ | ⟨c, rfl, hc⟩
    · -- past the line: at its end, or further on
      rcases cons_eq_append_iff.1 hc with ⟨rfl, hb⟩ | ⟨c, rfl, hend⟩
      · exact ⟨[], l, ls, rfl, by simp [terminated], (cons.inj hb).2⟩
      · rcases cons_eq_append_iff.1 hend with ⟨rfl, hb⟩ | ⟨c, rfl, hrest⟩
        · exact absurd (cons.inj hb).1 hne
        · obtain ⟨ls₁, m, ls₂, rfl, rfl, rfl⟩ :=
            ih (fun l' hl' => hls l' (mem_cons_of_mem l hl')) hrest
          exact ⟨l :: ls₁, m, ls₂, rfl, by simp [terminated_cons], rfl⟩
    · -- not within the line
      rcases cons_eq_append_iff.1 hc with ⟨rfl, hb⟩ | ⟨c, rfl, -⟩
      · exact ⟨[], a, ls, by simp, by simp [terminated], (cons.inj hb).2.symm⟩
      · exact absurd (by simp) (hls _ mem_cons_self).cr

/-- **The second symbol of an end is only found in one.** -/
theorem exists_of_terminated_lf (hne : cr ≠ lf) (hls : ∀ l ∈ ls, Plain cr lf l)
    (h : terminated cr lf ls = a ++ lf :: b) :
    ∃ ls₁ l ls₂, ls = ls₁ ++ l :: ls₂ ∧ a = terminated cr lf ls₁ ++ l ++ [cr] ∧
      b = terminated cr lf ls₂ := by
  induction ls generalizing a with
  | nil => simp [terminated] at h
  | cons l ls ih =>
    rw [terminated_cons] at h
    rcases append_eq_append_iff.1 h with ⟨c, rfl, hc⟩ | ⟨c, rfl, hc⟩
    · rcases cons_eq_append_iff.1 hc with ⟨rfl, hb⟩ | ⟨c, rfl, hend⟩
      · exact absurd (cons.inj hb).1.symm hne
      · rcases cons_eq_append_iff.1 hend with ⟨rfl, hb⟩ | ⟨c, rfl, hrest⟩
        · exact ⟨[], l, ls, rfl, by simp [terminated], (cons.inj hb).2⟩
        · obtain ⟨ls₁, m, ls₂, rfl, rfl, rfl⟩ :=
            ih (fun l' hl' => hls l' (mem_cons_of_mem l hl')) hrest
          exact ⟨l :: ls₁, m, ls₂, rfl, by simp [terminated_cons], rfl⟩
    · rcases cons_eq_append_iff.1 hc with ⟨rfl, hb⟩ | ⟨c, rfl, -⟩
      · exact absurd (cons.inj hb).1 hne
      · exact absurd (by simp) (hls _ mem_cons_self).lf

/-- **The lines can be read back.** -/
theorem terminated_injective (hne : cr ≠ lf) (hls : ∀ l ∈ ls, Plain cr lf l)
    (hls' : ∀ l ∈ ls', Plain cr lf l) (h : terminated cr lf ls = terminated cr lf ls') :
      ls = ls' := by
  induction ls' generalizing ls with
  | nil => cases ls <;> simp_all [terminated]
  | cons l' ls' ih =>
    rw [terminated_cons] at h
    obtain ⟨ls₁, l, ls₂, rfl, hl, hrest⟩ := exists_of_terminated_cr hne hls h
    cases ls₁ with
    | nil =>
      obtain rfl : l' = l := by simpa [terminated] using hl
      rw [nil_append,
        ih (fun m hm => hls m (by simp [hm])) (fun m hm => hls' m (by simp [hm]))
          (cons.inj hrest).2.symm]
    | cons m ls₁ =>
      -- the end of an earlier line would be within the first one
      rw [terminated_cons] at hl
      exact absurd (by simp [hl]) (hls' l' mem_cons_self).cr

/-- **An empty line is only found where there is one**: at the end, if it is the only one. -/
theorem nil_of_terminated_empty (hne : cr ≠ lf) (hls : ∀ l ∈ ls, Plain cr lf l)
    (hnonempty : ∀ l ∈ ls, l ≠ [])
    (h : terminated cr lf (ls ++ [[]]) = a ++ cr :: lf :: cr :: lf :: b) : b = [] := by
  have hplain : ∀ l ∈ ls ++ [[]], Plain cr lf l := by
    intro l hl
    rcases mem_append.1 hl with hl | hl
    · exact hls l hl
    · rw [mem_singleton.1 hl]
      exact ⟨not_mem_nil, not_mem_nil⟩
  obtain ⟨ls₁, l, ls₂, hsplit, -, hb⟩ := exists_of_terminated_cr hne hplain h
  rcases ls₂ with - | ⟨- | ⟨c, m⟩, ls₂⟩
  · simp [terminated] at hb
  · simp only [terminated_cons, nil_append, cons.injEq, true_and] at hb
    rcases eq_nil_or_concat' ls₂ with rfl | ⟨ls₃, k, rfl⟩
    · exact hb
    · -- otherwise one of the other lines is empty
      have hlast : ls ++ [[]] = (ls₁ ++ l :: [] :: ls₃) ++ [k] := by simpa using hsplit
      exact absurd rfl (hnonempty [] (by simp [(append_inj' hlast rfl).1]))
  · rw [terminated_cons] at hb
    obtain ⟨rfl, -⟩ := cons.inj (cons.inj hb).2
    exact absurd mem_cons_self (hplain (cr :: m) (by simp [hsplit])).cr

end Terminated

/-! ### Numbers -/

/-- An unsigned decimal number below a bound; a plus sign may stand before it. -/
def parseUnsigned (bound : ℕ) (s : List Char) : Option ℕ :=
  let digits := (s.dropPrefix? ['+']).getD s
  if digits ≠ [] ∧ digits.all Char.isDigit ∧ Nat.ofDigitChars 10 digits 0 < bound then
    some (Nat.ofDigitChars 10 digits 0)
  else none

theorem getD_dropPrefix?_plus (h : s.head? ≠ some '+') : (s.dropPrefix? ['+']).getD s = s := by
  cases s with
  | nil => rfl
  | cons c cs =>
    have hc : c ≠ '+' := by simpa using h
    simp [dropPrefix?, hc]

theorem parseUnsigned_toDigits (bound n : ℕ) :
    parseUnsigned bound (Nat.toDigits 10 n) = if n < bound then some n else none := by
  have hdigit : ∀ c ∈ Nat.toDigits 10 n, c.isDigit = true := fun c hc =>
    Nat.isDigit_of_mem_toDigits (by norm_num) (by norm_num) hc
  have hsign : (Nat.toDigits 10 n).head? ≠ some '+' := fun hhead =>
    absurd (hdigit '+' (mem_of_mem_head? hhead)) (by decide)
  have hvalue : Nat.ofDigitChars 10 (Nat.toDigits 10 n) 0 = n :=
    Nat.ofDigitChars_toDigits (by norm_num) (by norm_num)
  have hall : (Nat.toDigits 10 n).all Char.isDigit = true := all_eq_true.2 hdigit
  simp [parseUnsigned, getD_dropPrefix?_plus hsign, hvalue, hall, Nat.toDigits_ne_nil]

theorem isWord_toDigits (n : ℕ) : IsWord (Nat.toDigits 10 n) := by
  refine ⟨Nat.toDigits_ne_nil, fun c hc => ?_⟩
  have hrange : 48 ≤ c.toNat ∧ c.toNat ≤ 57 := by
    simpa [Char.isDigit, UInt32.le_iff_toNat_le] using
      Nat.isDigit_of_mem_toDigits (by norm_num) (by norm_num) hc
  exact isWhite_of_visible (by omega) (by omega)

/-- Decimal digits without a leading zero are the digits of their number. -/
theorem toDigits_ofDigitChars (hne : s ≠ []) (hdigit : ∀ c ∈ s, c.isDigit = true)
    (hhead : s.head? ≠ some '0') :
    0 < Nat.ofDigitChars 10 s 0 ∧ Nat.toDigits 10 (Nat.ofDigitChars 10 s 0) = s := by
  induction s using reverseRecOn with
  | nil => exact absurd rfl hne
  | append_singleton s c ih =>
    have hc : 48 ≤ c.toNat ∧ c.toNat ≤ 57 := by
      simpa [Char.isDigit, UInt32.le_iff_toNat_le] using hdigit c (by simp)
    have hlast : Nat.toDigits 10 (c.toNat - 48) = [c] := by
      rw [Nat.toDigits_of_lt_base (by omega), cons.injEq]
      refine ⟨Char.toNat_inj.1 ?_, rfl⟩
      rw [Nat.toNat_digitChar_of_lt_ten (by omega)]
      omega
    have hvalue : Nat.ofDigitChars 10 (s ++ [c]) 0 =
        10 * Nat.ofDigitChars 10 s 0 + (c.toNat - 48) := by
      rw [Nat.ofDigitChars, foldl_append]
      rfl
    rw [hvalue]
    rcases eq_or_ne s [] with rfl | hs
    · have hpos : c.toNat ≠ 48 := fun heq => hhead (by rw [(Char.toNat_inj.1 heq : c = '0')]; rfl)
      exact ⟨by omega, by simpa [Nat.ofDigitChars] using hlast⟩
    · obtain ⟨hpos, hdigits⟩ := ih hs (fun d hd => hdigit d (mem_append_left [c] hd)) (by
        rwa [head?_append_of_ne_nil s hs] at hhead)
      refine ⟨by omega, ?_⟩
      rw [← Nat.toDigits_append_toDigits (by norm_num) hpos (by omega), hdigits, hlast]

theorem parseUnsigned_lt (h : parseUnsigned bound s = some n) : n < bound := by
  simp only [parseUnsigned] at h
  split_ifs at h with hread
  exact Option.some.inj h ▸ hread.2.2

/-- Only digits and a sign are read. -/
theorem isDigit_of_parseUnsigned (h : parseUnsigned bound s = some n) :
    ∀ c ∈ s, c = '+' ∨ c.isDigit = true := by
  simp only [parseUnsigned] at h
  split_ifs at h with hread
  have hdigit := all_eq_true.1 hread.2.1
  intro c hc
  cases hdrop : s.dropPrefix? ['+'] with
  | none => exact .inr (hdigit c (by rwa [hdrop]))
  | some rest =>
    rw [hdrop] at hdigit
    obtain ⟨p, rfl, hp⟩ := dropPrefix?_eq_some_iff.1 hdrop
    obtain rfl : p = ['+'] := by simpa using hp
    exact (mem_cons.1 hc).imp_right (hdigit c)

/-- A number that is read without a sign and without a leading zero is written in its digits. -/
theorem eq_toDigits_of_parseUnsigned
    (h : parseUnsigned bound s = some n) (hsign : s.head? ≠ some '+')
    (hzero : 1 < s.length → s.head? ≠ some '0') : s = Nat.toDigits 10 n := by
  rw [parseUnsigned, getD_dropPrefix?_plus hsign] at h
  split_ifs at h with hread
  obtain ⟨hne, hdigit, -⟩ := hread
  cases h
  by_cases hhead : s.head? = some '0'
  · obtain ⟨c, cs, rfl⟩ := exists_cons_of_ne_nil hne
    obtain rfl : c = '0' := by simpa using hhead
    obtain rfl : cs = [] := by
      by_contra hcs
      exact hzero (by simpa [length_pos_iff] using hcs) hhead
    rfl
  · exact (toDigits_ofDigitChars hne (all_eq_true.1 hdigit) hhead).2.symm

/-- The value of a hexadecimal digit. -/
def hexDigit (c : Char) : Option ℕ :=
  let n := c.toNat
  if 48 ≤ n ∧ n ≤ 57 then some (n - 48)
  else if 65 ≤ n ∧ n ≤ 70 then some (n - 55)
  else if 97 ≤ n ∧ n ≤ 102 then some (n - 87)
  else none

theorem hexDigit_range {c : Char} (hc : (hexDigit c).isSome = true) :
    (48 ≤ c.toNat ∧ c.toNat ≤ 57) ∨ (65 ≤ c.toNat ∧ c.toNat ≤ 70) ∨
      (97 ≤ c.toNat ∧ c.toNat ≤ 102) := by
  grind [hexDigit]

/-- The number that hexadecimal digits spell. -/
def hexValue (s : List Char) : Option ℕ :=
  s.foldlM (fun n c => (hexDigit c).map fun d => 16 * n + d) 0

/-- An unsigned hexadecimal number below a bound; a plus sign may stand before it. -/
def parseHex (bound : ℕ) (s : List Char) : Option ℕ :=
  let digits := (s.dropPrefix? ['+']).getD s
  if digits = [] then none else (hexValue digits).filter fun n => n < bound

theorem hexDigit_of_foldlM : ∀ {s : List Char} {n m : ℕ},
    s.foldlM (fun n c => (hexDigit c).map fun d => 16 * n + d) n = some m →
      ∀ c ∈ s, (hexDigit c).isSome = true
  | [], _, _, _, _, hc => by simp at hc
  | d :: s, n, m, h, c, hc => by
      rw [List.foldlM_cons] at h
      obtain ⟨k, hk, hrest⟩ := Option.bind_eq_some_iff.1 h
      rcases mem_cons.1 hc with rfl | hc
      · cases hd : hexDigit c <;> simp_all
      · exact hexDigit_of_foldlM hrest c hc

theorem hexDigit_of_hexValue (h : hexValue s = some n) : ∀ c ∈ s, (hexDigit c).isSome = true :=
  hexDigit_of_foldlM h

theorem parseHex_of_hexValue (hne : s ≠ [])
    (h : hexValue s = some n) (hn : n < bound) : parseHex bound s = some n := by
  have hsign : s.head? ≠ some '+' := fun hhead =>
    absurd (hexDigit_of_hexValue h '+' (mem_of_mem_head? hhead)) (by decide)
  simp [parseHex, getD_dropPrefix?_plus hsign, hne, h, hn]

theorem hexDigit_lt {c : Char} {d : ℕ} (h : hexDigit c = some d) : d < 16 := by
  grind [hexDigit]

theorem hexValue_concat_iff {c : Char} : hexValue (s ++ [c]) = some n ↔
      ∃ m d, hexValue s = some m ∧ hexDigit c = some d ∧ n = 16 * m + d := by
  rw [hexValue, foldlM_append]
  change (hexValue s).bind _ = _ ↔ _
  simp only [foldlM_cons, foldlM_nil, Option.bind_eq_bind, Option.pure_def,
    Option.bind_eq_some_iff, Option.map_eq_some_iff, Option.some.injEq]
  grind

theorem hexValue_lt (h : hexValue s = some n) : n < 16 ^ s.length := by
  induction s using reverseRecOn generalizing n with
  | nil => simp_all [hexValue, eq_comm]
  | append_singleton s c ih =>
    obtain ⟨m, d, hm, hd, rfl⟩ := hexValue_concat_iff.1 h
    have hlt := ih hm
    have hd' := hexDigit_lt hd
    rw [length_append, length_singleton, pow_succ]
    omega

theorem exists_hexValue (h : ∀ c ∈ s, (hexDigit c).isSome = true) : ∃ n, hexValue s = some n := by
  induction s using reverseRecOn with
  | nil => exact ⟨0, rfl⟩
  | append_singleton s c ih =>
    obtain ⟨m, hm⟩ := ih fun d hd => h d (mem_append_left [c] hd)
    obtain ⟨d, hd⟩ := Option.isSome_iff_exists.1 (h c (by simp))
    exact ⟨16 * m + d, hexValue_concat_iff.2 ⟨m, d, hm, hd, rfl⟩⟩

theorem toLower_of_hexDigit {c : Char} {d : ℕ} (h : hexDigit c = some d) :
    c.toLower = Nat.digitChar d := by
  have hall : ∀ n : Fin 128, (hexDigit (Char.ofNat n)).all
      (fun d => (Char.ofNat n).toLower == Nat.digitChar d) = true := by
    decide +kernel
  have hrange := hexDigit_range (by rw [h]; rfl)
  have hchar := hall ⟨c.toNat, by omega⟩
  rw [Char.ofNat_toNat, h] at hchar
  exact beq_iff_eq.1 hchar

/-- Equally many digits of one number differ in case only. -/
theorem map_toLower_of_hexValue {t : List Char} (hlen : s.length = t.length)
    (hs : hexValue s = some n) (ht : hexValue t = some n) :
    s.map Char.toLower = t.map Char.toLower := by
  induction s using reverseRecOn generalizing t n with
  | nil => rw [length_eq_zero_iff.1 hlen.symm]
  | append_singleton s c ih =>
    rcases eq_nil_or_concat' t with rfl | ⟨t, c', rfl⟩
    · simp at hlen
    · obtain ⟨m, d, hm, hd, rfl⟩ := hexValue_concat_iff.1 hs
      obtain ⟨m', d', hm', hd', heq⟩ := hexValue_concat_iff.1 ht
      have hlt := hexDigit_lt hd
      have hlt' := hexDigit_lt hd'
      obtain rfl : m = m' := by omega
      obtain rfl : d = d' := by omega
      simp [ih (by simpa using hlen) hm hm', toLower_of_hexDigit hd, toLower_of_hexDigit hd']

/-! ### UTF-8 -/

/-- The bytes of a text. -/
def utf8 (s : List Char) : List UInt8 := s.flatMap String.utf8EncodeChar

/-- The text of some bytes, if they are UTF-8. -/
def fromUtf8 (bytes : List UInt8) : Option (List Char) :=
  (String.fromUTF8? bytes.toByteArray).map String.toList

/-- `String::from_utf8_lossy`; what it makes of bytes that are no UTF-8 is a parameter. -/
def fromUtf8Lossy (repair : List UInt8 → List Char) (bytes : List UInt8) : List Char :=
  match String.fromUTF8? bytes.toByteArray with
  | some s => s.toList
  | none => repair bytes

theorem toByteArray_utf8 (s : List Char) : (utf8 s).toByteArray = (String.ofList s).toByteArray :=
  String.toByteArray_ofList.symm

theorem fromUTF8?_utf8 (s : List Char) :
    String.fromUTF8? (utf8 s).toByteArray = some (String.ofList s) := by
  have hvalid : ((utf8 s).toByteArray).IsValidUTF8 := by
    rw [toByteArray_utf8]
    exact (String.ofList s).isValidUTF8
  rw [String.fromUTF8?, dif_pos hvalid]
  exact congrArg some (String.toByteArray_inj.1 (toByteArray_utf8 s))

theorem fromUtf8_utf8 (s : List Char) : fromUtf8 (utf8 s) = some s := by
  rw [fromUtf8, fromUTF8?_utf8, Option.map_some, String.toList_ofList]

theorem utf8_of_fromUtf8 {bytes : List UInt8} (h : fromUtf8 bytes = some s) : utf8 s = bytes := by
  obtain ⟨text, htext, rfl⟩ := Option.map_eq_some_iff.1 h
  rw [String.fromUTF8?] at htext
  split_ifs at htext with hvalid
  have hbytes : (utf8 text.toList).toByteArray = bytes.toByteArray := by
    rw [toByteArray_utf8, String.ofList_toList, ← Option.some.inj htext]
    rfl
  simpa using congrArg (fun a => a.data.toList) hbytes

theorem fromUtf8Lossy_utf8 (repair : List UInt8 → List Char) (s : List Char) :
    fromUtf8Lossy repair (utf8 s) = s := by
  rw [fromUtf8Lossy, fromUTF8?_utf8]
  exact String.toList_ofList

theorem utf8EncodeChar_of_ascii {c : Char} (hc : c.toNat < 128) :
    String.utf8EncodeChar c = [UInt8.ofNat c.toNat] := by
  have hval : c.val.toNat ≤ 127 := Nat.lt_succ_iff.1 hc
  simp only [String.utf8EncodeChar, if_pos hval, Char.toNat]

theorem length_utf8 (h : ∀ c ∈ s, c.toNat < 128) : (utf8 s).length = s.length := by
  induction s with
  | nil => rfl
  | cons c s ih =>
    have hs := ih fun d hd => h d (by simp [hd])
    simp_all [utf8, utf8EncodeChar_of_ascii (h c (by simp))]

/-- A byte of ASCII stands for the character of ASCII. -/
theorem mem_of_mem_utf8 {b : UInt8} (hb : b.toNat < 128) (h : b ∈ utf8 s) :
    ∃ c ∈ s, c.toNat = b.toNat := by
  obtain ⟨c, hc, hbc⟩ := mem_flatMap.1 h
  have hval : c.toNat = c.val.toNat := rfl
  refine ⟨c, hc, ?_⟩
  -- the bytes of characters that are not ASCII are large
  simp only [String.utf8EncodeChar] at hbc
  split_ifs at hbc <;> simp only [mem_cons, not_mem_nil, or_false] at hbc
  · rw [hbc, UInt8.toNat_ofNat']
    omega
  · rcases hbc with rfl | rfl <;> rw [UInt8.toNat_ofNat'] at hb <;> omega
  · rcases hbc with rfl | rfl | rfl <;> rw [UInt8.toNat_ofNat'] at hb <;> omega
  · rcases hbc with rfl | rfl | rfl | rfl <;> rw [UInt8.toNat_ofNat'] at hb <;> omega

theorem utf8_ne_nil (h : s ≠ []) : utf8 s ≠ [] := by
  cases s <;> simp_all [utf8, String.utf8EncodeChar_ne_nil]

theorem plain_utf8 (h : Plain '\r' '\n' l) : Plain 13 10 (utf8 l) := by
  constructor
  all_goals
    intro hmem
    obtain ⟨c, hc, heq⟩ := mem_of_mem_utf8 (by decide) hmem
  · exact h.cr ((Char.toNat_inj.1 heq : c = '\r') ▸ hc)
  · exact h.lf ((Char.toNat_inj.1 heq : c = '\n') ▸ hc)

theorem utf8_terminated (ls : List (List Char)) :
    utf8 (terminated '\r' '\n' ls) = terminated 13 10 (ls.map utf8) := by
  induction ls with
  | nil => rfl
  | cons l ls ih =>
    rw [terminated_cons, map_cons, terminated_cons, ← ih]
    simp only [utf8, flatMap_append, flatMap_cons]
    rfl

end Text
