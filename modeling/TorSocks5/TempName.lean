/-
**The names of temp files.**

The temp file of a target is named after it, with the number of the process and a sequence number
between dots.  The recogniser gives the two numbers to the parser of the standard library, which
takes a plus sign and leading zeros too, so it recognises names that no writer makes.
-/

import TorSocks5.ReverseNames
import TorSocks5.Splitting

set_option autoImplicit false

namespace TempName

open ServerLocal (Padded)

/-- `temp_file_name`. -/
def tempFileName (target : List Char) (pid seq : ℕ) : List Char :=
  '.' :: target ++ '.' :: Nat.toDigits 10 pid ++ '.' :: Nat.toDigits 10 seq ++ ".tmp".toList

/-- `parse_temp_name`. -/
def parseTempName (entry target : List Char) : Option (ℕ × ℕ) := do
  let rest ← entry.dropPrefix? ['.']
  let rest ← rest.dropPrefix? target
  let rest ← rest.dropPrefix? ['.']
  let parts := rest.splitOn '.'
  let pid ← parts[0]?.bind (Text.parseUnsigned (2 ^ 32))
  let seq ← parts[1]?.bind (Text.parseUnsigned (2 ^ 64))
  let extension ← parts[2]?
  if extension = "tmp".toList ∧ parts[3]? = none then some (pid, seq) else none

/-- A name of the right shape with two numbers, not both in their plain form. -/
def Sloppy (entry target : List Char) : Prop :=
  ∃ a b, entry = '.' :: target ++ '.' :: a ++ '.' :: b ++ ".tmp".toList ∧
    (Text.parseUnsigned (2 ^ 32) a).isSome = true ∧ (Text.parseUnsigned (2 ^ 64) b).isSome = true ∧
    (Padded a ∨ Padded b)

theorem not_dot_of_parse {bound n : ℕ} {a : List Char} (h : Text.parseUnsigned bound a = some n) :
    '.' ∉ a := by
  intro hdot
  rcases Text.isDigit_of_parseUnsigned h '.' hdot with hc | hc <;> cases hc

theorem not_dot_toDigits (n : ℕ) : '.' ∉ Nat.toDigits 10 n := fun h =>
  absurd (Nat.isDigit_of_mem_toDigits (by norm_num) (by norm_num) h) (by decide)

theorem toDigits_inj {n m : ℕ} (h : Nat.toDigits 10 n = Nat.toDigits 10 m) : n = m := by
  have hn := Text.parseUnsigned_toDigits (max n m + 1) n
  rw [h, Text.parseUnsigned_toDigits, if_pos (by omega), if_pos (by omega)] at hn
  exact (Option.some.inj hn).symm

/-- Without dots in them, the two numbers and the target can be read off a name. -/
theorem shape_inj {t t' a a' b b' : List Char} (ha : '.' ∉ a) (ha' : '.' ∉ a') (hb : '.' ∉ b)
    (hb' : '.' ∉ b') (h : '.' :: t ++ '.' :: a ++ '.' :: b ++ ".tmp".toList =
      '.' :: t' ++ '.' :: a' ++ '.' :: b' ++ ".tmp".toList) : t = t' ∧ a = a' ∧ b = b' := by
  have hlast := List.append_cancel_right h
  have hsplit : ∀ {l l' r r' : List Char}, '.' ∉ r → '.' ∉ r' → l ++ '.' :: r = l' ++ '.' :: r' →
      l = l' ∧ r = r' := by
    intro l l' r r' hr hr' heq
    have hone : Text.rsplitOnce '.' (l ++ '.' :: r) = some (l, r) :=
      Text.rsplitOnce_eq_some_iff.2 ⟨rfl, hr⟩
    rw [heq, Text.rsplitOnce_eq_some_iff.2 ⟨rfl, hr'⟩] at hone
    simpa [eq_comm] using hone
  obtain ⟨hfront, rfl⟩ := hsplit hb hb' hlast
  obtain ⟨htarget, rfl⟩ := hsplit ha ha' hfront
  exact ⟨List.cons_injective htarget, rfl, rfl⟩

/-- **What the recogniser takes.** -/
theorem parseTempName_iff {entry target : List Char} {pid seq : ℕ} :
    parseTempName entry target = some (pid, seq) ↔
      ∃ a b, entry = '.' :: target ++ '.' :: a ++ '.' :: b ++ ".tmp".toList ∧
        Text.parseUnsigned (2 ^ 32) a = some pid ∧ Text.parseUnsigned (2 ^ 64) b = some seq := by
  have hdrop : ∀ {l p r : List Char}, l.dropPrefix? p = some r ↔ l = p ++ r := by
    intro l p r
    rw [List.dropPrefix?_eq_some_iff]
    simp
  simp only [parseTempName, Option.bind_eq_bind, Option.bind_eq_some_iff, hdrop]
  constructor
  · rintro ⟨_, rfl, _, rfl, rest, rfl, p, ⟨a, ha, hp⟩, s, ⟨b, hb, hs⟩, e, he, hend⟩
    obtain ⟨⟨rfl, hmore⟩, heq⟩ := by simpa using hend
    obtain ⟨rfl, rfl⟩ := heq
    have hparts : rest.splitOn '.' = [a, b, "tmp".toList] := by
      match hrest : rest.splitOn '.' with
      | [] => simp [hrest] at ha
      | [_] => simp [hrest] at hb
      | [_, _] => simp [hrest] at he
      | [x, y, z] => simp_all
      | _ :: _ :: _ :: _ :: tail => simp [hrest] at hmore; omega
    refine ⟨a, b, ?_, hp, hs⟩
    rw [← @List.intercalate_splitOn _ rest, hparts]
    simp [List.intercalate]
  · rintro ⟨a, b, rfl, ha, hb⟩
    have hparts : (a ++ '.' :: b ++ ".tmp".toList).splitOn '.' = [a, b, "tmp".toList] := by
      have hplain : ∀ l ∈ [a, b, "tmp".toList], '.' ∉ l := by
        simpa using ⟨not_dot_of_parse ha, not_dot_of_parse hb⟩
      simpa [List.intercalate] using List.splitOn_intercalate '.' hplain (by simp)
    refine ⟨target ++ '.' :: (a ++ '.' :: b ++ ".tmp".toList), by simp, _, rfl, _, rfl, ?_⟩
    rw [show (a ++ '.' :: b).append ".tmp".toList = a ++ '.' :: b ++ ".tmp".toList from rfl, hparts]
    exact ⟨pid, ⟨a, rfl, ha⟩, seq, ⟨b, rfl, hb⟩, _, rfl, rfl⟩

/-- **Temp names are recognised exactly, but for signs and leading zeros.**  A temp name determines
its target and its numbers; it is recognised for no other target; and the names of locks are not
recognised at all. -/
theorem recognised_exactly_iff (entry target : List Char) :
    ((∀ pid seq, parseTempName entry target = some (pid, seq) ↔
        pid < 2 ^ 32 ∧ seq < 2 ^ 64 ∧ entry = tempFileName target pid seq) ↔
      ¬ Sloppy entry target) ∧
    (∀ target' pid seq pid' seq', tempFileName target pid seq = tempFileName target' pid' seq' →
      target = target' ∧ pid = pid' ∧ seq = seq') ∧
    (∀ target' pid seq, (parseTempName (tempFileName target pid seq) target').isSome = true →
      target = target') ∧
    parseTempName (entry ++ ".lock".toList) target = none ∧
    parseTempName (entry ++ ".templock".toList) target = none := by
  have hother : ∀ suffix : List Char, suffix.getLast? = some 'k' →
      parseTempName (entry ++ suffix) target = none := by
    intro suffix hlast
    refine Option.eq_none_iff_forall_ne_some.2 fun ⟨pid, seq⟩ h => ?_
    obtain ⟨a, b, heq, -, -⟩ := parseTempName_iff.1 h
    have hends := congrArg List.getLast? heq
    rw [List.getLast?_append, hlast, List.getLast?_append] at hends
    simp at hends
  refine ⟨⟨?_, ?_⟩, ?_, ?_, hother _ rfl, hother _ rfl⟩
  · rintro h ⟨a, b, rfl, ha, hb, hpadded⟩
    obtain ⟨pid, ha⟩ := Option.isSome_iff_exists.1 ha
    obtain ⟨seq, hb⟩ := Option.isSome_iff_exists.1 hb
    obtain ⟨-, -, heq⟩ := (h pid seq).1 (parseTempName_iff.2 ⟨a, b, rfl, ha, hb⟩)
    obtain ⟨-, rfl, rfl⟩ := shape_inj (not_dot_of_parse ha) (not_dot_toDigits pid)
      (not_dot_of_parse hb) (not_dot_toDigits seq) heq
    exact hpadded.elim (ServerLocal.not_padded_toDigits pid) (ServerLocal.not_padded_toDigits seq)
  · intro hplain pid seq
    rw [parseTempName_iff]
    constructor
    · rintro ⟨a, b, rfl, ha, hb⟩
      have hboth : ¬ (Padded a ∨ Padded b) := fun hpadded =>
        hplain ⟨a, b, rfl, by rw [ha]; rfl, by rw [hb]; rfl, hpadded⟩
      obtain ⟨hpa, hpb⟩ := not_or.1 hboth
      refine ⟨Text.parseUnsigned_lt ha, Text.parseUnsigned_lt hb, ?_⟩
      rw [tempFileName, ← ServerLocal.eq_toDigits ha hpa, ← ServerLocal.eq_toDigits hb hpb]
    · rintro ⟨hpid, hseq, rfl⟩
      exact ⟨_, _, rfl, by rw [Text.parseUnsigned_toDigits, if_pos hpid],
        by rw [Text.parseUnsigned_toDigits, if_pos hseq]⟩
  · intro target' pid seq pid' seq' heq
    obtain ⟨rfl, ha, hb⟩ := shape_inj (not_dot_toDigits pid) (not_dot_toDigits pid')
      (not_dot_toDigits seq) (not_dot_toDigits seq') heq
    exact ⟨rfl, toDigits_inj ha, toDigits_inj hb⟩
  · intro target' pid seq h
    obtain ⟨⟨pid', seq'⟩, h⟩ := Option.isSome_iff_exists.1 h
    obtain ⟨a, b, heq, ha, hb⟩ := parseTempName_iff.1 h
    exact (shape_inj (not_dot_toDigits pid) (not_dot_of_parse ha) (not_dot_toDigits seq)
      (not_dot_of_parse hb) heq).1

/-- A name with a sign is taken for the temp file of process 1. -/
theorem signed_name_recognised :
    parseTempName ".a.+1.2.tmp".toList ['a'] = some (1, 2) ∧
      ∀ pid seq, ".a.+1.2.tmp".toList ≠ tempFileName ['a'] pid seq := by
  refine ⟨by decide, fun pid seq heq => ?_⟩
  have hshape : ".a.+1.2.tmp".toList =
      '.' :: ['a'] ++ '.' :: ['+', '1'] ++ '.' :: ['2'] ++ ".tmp".toList := rfl
  obtain ⟨-, ha, -⟩ := shape_inj (by decide) (not_dot_toDigits pid) (by decide)
    (not_dot_toDigits seq) (hshape.symm.trans heq)
  exact ServerLocal.not_padded_toDigits pid (ha ▸ .inl rfl)

end TempName
