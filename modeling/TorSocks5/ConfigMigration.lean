/-
**The migration of the configuration to the current layout.**

The migration reads the main configuration, converts it, validates what will be written, and only
then writes three files one after the other: a backup of the old main configuration under a new
name, the bridges file, and the main configuration.  There is no transaction around the three
writes.  Each of the last two is atomic, the backup may be left torn.
-/

import Mathlib
import TorSocks5.Machine
import TorSocks5.Table
import TorSocks5.ConfigLayout

set_option autoImplicit false

namespace ConfigMigration

open List

open ConfigLayout

/-! ### File names -/

/-- The files of a directory by their names. -/
abbrev Dir := Table (List Char) (List Char)

/-- A file name without its extension, which begins at the last dot unless that is the first
character. -/
def fileStem (name : List Char) : List Char :=
  match name.reverse.dropWhile (· ≠ '.') with
  | [] => name
  | _ :: before => if before = [] then name else before.reverse

def bridgesPath (name : List Char) : List Char := fileStem name ++ ".bridges.ktav".toList

/-- The name of the backup with a number. -/
def backupName (name : List Char) (n : ℕ) : List Char :=
  name ++ (".bak-".toList ++ Nat.toDigits 10 n)

/-- The first free number. -/
def backupNumber (name : List Char) (dir : Dir) : ℕ :=
  ((List.range' 1 (dir.len + 1)).find? fun n => (dir.get (backupName name n)).isNone).getD 0

def backupPath (name : List Char) (dir : Dir) : List Char := backupName name (backupNumber name dir)

theorem bridgesPath_ne (name : List Char) : bridgesPath name ≠ name := by
  have hlonger : name ++ ".bridges.ktav".toList ≠ name := fun h => by
    simpa using congrArg length h
  unfold bridgesPath fileStem
  split
  · exact hlonger
  · next c before hdrop =>
    split_ifs
    · exact hlonger
    · -- the name is its stem, a dot and an extension without dots
      intro h
      have hsplit := takeWhile_append_dropWhile (p := (· ≠ '.')) (l := name.reverse)
      rw [hdrop] at hsplit
      have hname : name =
          before.reverse ++ c :: (name.reverse.takeWhile (· ≠ '.')).reverse := by
        simpa using (congrArg reverse hsplit).symm
      rw [hname] at h
      have hext := append_cancel_left h
      have hdot : '.' ∈ (name.reverse.takeWhile (· ≠ '.')).reverse := by
        rw [← (cons.inj hext).2]
        decide
      simpa using all_eq_true.1 all_takeWhile _ (mem_reverse.1 hdot)

theorem backupName_ne (name : List Char) (n : ℕ) : backupName name n ≠ name := by
  intro h
  have := congrArg length h
  simp [backupName] at this

theorem backupName_ne_bridgesPath (name : List Char) (n : ℕ) :
    backupName name n ≠ bridgesPath name := by
  intro h
  -- a digit against the end of the extension
  have hlast := congrArg getLast? h
  rw [backupName, bridgesPath, ← append_assoc,
    getLast?_append_of_ne_nil _ Nat.toDigits_ne_nil,
    getLast?_append_of_ne_nil _ (by decide)] at hlast
  have hmem : 'v' ∈ Nat.toDigits 10 n := mem_of_getLast? hlast
  simpa using Nat.isDigit_of_mem_toDigits (by norm_num) (by norm_num) hmem

theorem backupPath_ne (name : List Char) (dir : Dir) : backupPath name dir ≠ name :=
  backupName_ne name _

theorem backupPath_ne_bridgesPath (name : List Char) (dir : Dir) :
    backupPath name dir ≠ bridgesPath name := backupName_ne_bridgesPath name _

theorem backupName_injective (name : List Char) : Function.Injective (backupName name) := by
  intro n n' h
  have hdigits := append_cancel_left (append_cancel_left h)
  have hvalue : ∀ k, Nat.ofDigitChars 10 (Nat.toDigits 10 k) 0 = k := fun k =>
    Nat.ofDigitChars_toDigits (by norm_num) (by norm_num)
  rw [← hvalue n, hdigits, hvalue]

/-- The name of the next backup is not taken. -/
theorem get_backupPath (name : List Char) (dir : Dir) : dir.get (backupPath name dir) = none := by
  unfold backupPath backupNumber
  cases hfind : (range' 1 (dir.len + 1)).find?
      fun n => (dir.get (backupName name n)).isNone with
  | some n => simpa using find?_some hfind
  | none =>
    -- more numbers than files cannot all be taken
    rw [find?_eq_none] at hfind
    have hsub : (range' 1 (dir.len + 1)).map (backupName name) ⊆ dir.keys := by
      intro k hk
      obtain ⟨n, hn, rfl⟩ := mem_map.1 hk
      rw [Table.mem_keys_iff]
      simpa [Option.isSome_iff_ne_none] using hfind n hn
    have hnodup := (nodup_range' (s := 1) (n := dir.len + 1)).map (backupName_injective name)
    have hle := (hnodup.subperm hsub).length_le
    rw [length_map, length_range', Table.length_keys] at hle
    omega

/-! ### The plan of a run -/

inductive MigrateError
  | unreadable
  | unparsable
  | notObject
  | bothMasks (e : BothMaskKeys)
  | bridgesSchema
  | configSchema
  | unprintablePool
  | unprintableMain
  | bridgesFileDiffers
  deriving DecidableEq

/-- The outermost text of an error, for a main configuration of some name. -/
def MigrateError.message (name : List Char) : MigrateError → List Char
  | unreadable => "reading config ".toList ++ name
  | unparsable => "parsing config ".toList ++ name
  | notObject => "config ".toList ++ name ++ " is not a Ktav object".toList
  | bothMasks e => e.message
  | bridgesSchema => "the old `bridges` section does not match the schema".toList
  | configSchema => "the converted config does not match the schema".toList
  | unprintablePool => "serialise bridges config to Ktav".toList
  | unprintableMain => "serialise config to Ktav".toList
  | bridgesFileDiffers => bridgesPath name ++
      " already exists and differs from the `bridges` section of ".toList ++ name ++
      "; remove one of them and run the migration again".toList

def header : List Char :=
  "## Bridge pool of tor-socks5: lines, sources and health thresholds.\n".toList ++
    "## The program rewrites this file as the pool changes; comments are not kept.\n".toList

section Plans

variable {R D P : Type} (lib : Library R D P)

/-- The text of the bridges file. -/
def bridgesText (pool : P) : Option (List Char) := (lib.poolText pool).map (header ++ ·)

/-- What a run is going to write, and what it reports. -/
structure Plan where
  /-- The text of the bridges file, if the old configuration has a pool. -/
  bridges : Option (List Char)
  /-- The text of the main configuration, if it can be printed. -/
  main : Option (List Char)
  bridgeLines : ℕ
  bridgeSources : ℕ
  masksConverted : ℕ

/-- The validation of a converted document, given the pool that was taken out of it and the bridges
file that exists. -/
def validate (existing : Option (List Char)) (inline : Option Value) (map : ObjectMap)
    (masksConverted : ℕ) : Except MigrateError Plan :=
  match inline with
  | none =>
    match Config.fromObject lib map with
    | none => .error .configSchema
    | some config => .ok ⟨none, lib.mainText config, 0, 0, masksConverted⟩
  | some value =>
    match lib.bridges value with
    | none => .error .bridgesSchema
    | some pool =>
      match Config.fromObject lib map with
      | none => .error .configSchema
      | some config =>
        match bridgesText lib pool with
        | none => .error .unprintablePool
        | some wanted =>
          if existing = none ∨ existing = some wanted then
            .ok ⟨some wanted, lib.mainText config, lib.lines pool, lib.sources pool,
              masksConverted⟩
          else .error .bridgesFileDiffers

/-- The plan for a text of the main configuration and the bridges file that exists; no plan if the
configuration is current. -/
def plan (src : List Char) (existing : Option (List Char)) : Except MigrateError (Option Plan) :=
  match lib.parse src with
  | none => .error .unparsable
  | some (.object root) =>
    match convertPatterns (ObjectMap.shiftRemove root bridgesKey) with
    | .error e => .error (.bothMasks e)
    | .ok (map, masksConverted) =>
      let inline := ObjectMap.get root bridgesKey
      if inline.isNone = true ∧ masksConverted = 0 then .ok none
      else (validate lib existing inline map masksConverted).map some
  | some _ => .error .notObject

/-! ### Runs -/

structure MigrationReport where
  backup : List Char
  bridgesFile : Option (List Char)
  bridgeLines : ℕ
  bridgeSources : ℕ
  masksConverted : ℕ

inductive MigrationOutcome
  | alreadyCurrent
  | migrated (report : MigrationReport)

/-- Files are written, in order. -/
def write (dir : Dir) (files : List (List Char × List Char)) : Dir :=
  files.foldl (fun dir file => dir.insert file.1 file.2) dir

/-- What a run with a plan writes: the backup, the bridges file, the main configuration. -/
def Plan.files (p : Plan) (name src : List Char) (dir : Dir) : List (List Char × List Char) :=
  (backupPath name dir, src) ::
    ((p.bridges.map fun text => (bridgesPath name, text)).toList ++
      (p.main.map fun text => (name, text)).toList)

/-- A complete run: its result, and the directory afterwards. -/
def migrateConfig (name : List Char) (dir : Dir) : Except MigrateError MigrationOutcome × Dir :=
  match dir.get name with
  | none => (.error .unreadable, dir)
  | some src =>
    match plan lib src (dir.get (bridgesPath name)) with
    | .error e => (.error e, dir)
    | .ok none => (.ok .alreadyCurrent, dir)
    | .ok (some p) =>
      (if p.main.isNone then .error .unprintableMain
        else .ok (.migrated ⟨backupPath name dir, p.bridges.map fun _ => bridgesPath name,
          p.bridgeLines, p.bridgeSources, p.masksConverted⟩),
        write dir (p.files name src dir))

/-- Where a run stops: in the middle of the backup, with some content in it, or after some of the
files. -/
inductive Interruption
  | inBackup (content : List Char)
  | after (files : ℕ)

/-- The directory after a run that stopped somewhere. -/
def interrupt (name : List Char) (dir : Dir) (stop : Interruption) : Dir :=
  match dir.get name with
  | none => dir
  | some src =>
    match plan lib src (dir.get (bridgesPath name)) with
    | .ok (some p) =>
      match stop with
      | .inBackup content => dir.insert (backupPath name dir) content
      | .after k => write dir ((p.files name src dir).take k)
    | _ => dir

/-- One run after the other, each of them stopping somewhere. -/
def interrupted (name : List Char) : Machine Dir Interruption :=
  ⟨fun dir stop => some (interrupt lib name dir stop)⟩

end Plans

/-! ### What the validation refuses -/

section Validation

variable {R D P : Type} {lib : Library R D P}

variable {existing : Option (List Char)} {root : ObjectMap} {src : List Char}
  {inline : Option Value} {p : Plan} {map : ObjectMap} {masks : ℕ}

/-- What was printed can be read again: the printed main configuration is a document with the same
meaning, and a pool can be printed. -/
structure RoundTrips (lib : Library R D P) : Prop where
  main : ∀ root config, Config.fromObject lib root = some config →
    ∃ text root', lib.mainText config = some text ∧ lib.parse text = some (.object root') ∧
      Config.fromObject lib root' = some config
  pool : ∀ value pool, lib.bridges value = some pool → ∃ text, lib.poolText pool = some text

/-- The reasons to refuse a document, given the bridges file that exists. -/
inductive Fails (lib : Library R D P) (root : ObjectMap) (existing : Option (List Char)) : Prop
  | bothMasks : (∃ e ∈ overridesOf root, e.hasBothMasks = true) → Fails lib root existing
  | bridges (value : Value) : root.get bridgesKey = some value → lib.bridges value = none →
      Fails lib root existing
  | config : Config.fromObject lib (converted (root.shiftRemove bridgesKey)) = none →
      Fails lib root existing
  | differs (value : Value) (pool : P) (wanted found : List Char) :
      root.get bridgesKey = some value → lib.bridges value = some pool →
      bridgesText lib pool = some wanted → existing = some found → found ≠ wanted →
      Fails lib root existing

theorem overridesOf_shiftRemove (root : ObjectMap) :
    overridesOf (root.shiftRemove bridgesKey) = overridesOf root := by
  unfold overridesOf
  rw [ObjectMap.get_shiftRemove_of_ne root (by decide)]

/-- The plan of a document, over the conversion. -/
theorem plan_eq (hparse : lib.parse src = some (.object root))
    (hmasks : ∀ e ∈ overridesOf root, e.hasBothMasks = false) (existing : Option (List Char)) :
    plan lib src existing = if layoutProblems root = [] then .ok none
      else (validate lib existing (root.get bridgesKey) (converted (root.shiftRemove bridgesKey))
        ((overridesOf root).countP fun e => e.hasKey patternKey)).map some := by
  have hconvert := (convertPatterns_eq (root.shiftRemove bridgesKey)).2
    (by rwa [overridesOf_shiftRemove])
  rw [overridesOf_shiftRemove] at hconvert
  have hcurrent : layoutProblems root = [] ↔ (root.get bridgesKey).isNone = true ∧
      (overridesOf root).countP (fun e => e.hasKey patternKey) = 0 := by
    rw [layoutProblems_nil_iff, ObjectMap.containsKey_eq_isSome, countP_eq_zero]
    simp
  simp only [plan, hparse, hconvert, hcurrent]

theorem plan_of_both (hparse : lib.parse src = some (.object root))
    (hmasks : ∃ e ∈ overridesOf root, e.hasBothMasks = true) (existing : Option (List Char)) :
    ∃ e, plan lib src existing = .error e := by
  obtain ⟨error, herror⟩ := (convertPatterns_eq (root.shiftRemove bridgesKey)).1
    (by rwa [overridesOf_shiftRemove])
  exact ⟨.bothMasks error, by simp only [plan, hparse, herror]⟩

theorem both_or_not (root : ObjectMap) : (∃ e ∈ overridesOf root, e.hasBothMasks = true) ∨
    ∀ e ∈ overridesOf root, e.hasBothMasks = false := by
  simpa using em (∃ e ∈ overridesOf root, e.hasBothMasks = true)

/-- Nothing is to be done exactly if no difference is found. -/
theorem plan_none_iff
    (hparse : lib.parse src = some (.object root)) (existing : Option (List Char)) :
    plan lib src existing = .ok none ↔ problems lib.parse src = [] := by
  have hproblems : problems lib.parse src = layoutProblems root := by simp only [problems, hparse]
  rw [hproblems]
  rcases both_or_not root with hboth | hnot
  · -- an entry with both keys has a single mask
    obtain ⟨error, herror⟩ := plan_of_both hparse hboth existing
    rw [herror, layoutProblems_nil_iff]
    obtain ⟨e, he, hkeys⟩ := hboth
    refine ⟨nofun, fun h => ?_⟩
    simp [Value.hasBothMasks, h.2 e he] at hkeys
  · rw [plan_eq hparse hnot]
    split_ifs with hnil
    · simp [hnil]
    · cases validate lib existing (root.get bridgesKey) (converted (root.shiftRemove bridgesKey))
        ((overridesOf root).countP fun e => e.hasKey patternKey) <;> simp [Except.map, hnil]

/-- What a plan that passed the validation contains. -/
structure Validated (lib : Library R D P) (existing : Option (List Char)) (inline : Option Value)
    (map : ObjectMap) (p : Plan) : Prop where
  main : ∃ config, Config.fromObject lib map = some config ∧ p.main = lib.mainText config
  bridges : (inline = none ∧ p.bridges = none) ∨ ∃ value pool wanted, inline = some value ∧
    lib.bridges value = some pool ∧ bridgesText lib pool = some wanted ∧
    p.bridges = some wanted ∧ (existing = none ∨ existing = some wanted)

theorem validated_of_ok (h : validate lib existing inline map masks = .ok p) :
    Validated lib existing inline map p := by
  unfold validate at h
  split at h
  · split at h <;> cases h
    rename_i config hconfig
    exact ⟨⟨config, hconfig, rfl⟩, .inl ⟨rfl, rfl⟩⟩
  · next value =>
    constructor <;> grind

/-- A document that the validation refuses fails for one of the reasons. -/
theorem fails_of_error (hround : RoundTrips lib) {e : MigrateError}
    (h : validate lib existing (root.get bridgesKey)
      (converted (root.shiftRemove bridgesKey)) masks = .error e) : Fails lib root existing := by
  unfold validate at h
  split at h
  · split at h
    · next hconfig => exact .config hconfig
    · cases h
  · next value hvalue =>
    split at h
    · next hnone => exact .bridges value hvalue hnone
    next pool hpool =>
    split at h
    · next hconfig => exact .config hconfig
    split at h
    · next hnone =>
      -- a pool can be printed
      obtain ⟨text, htext⟩ := hround.pool value pool hpool
      simp [bridgesText, htext] at hnone
    · next wanted hwanted =>
      split_ifs at h with hexisting
      cases existing with
      | none => simp at hexisting
      | some found =>
        exact .differs value pool wanted found hvalue hpool hwanted rfl (by simpa using hexisting)

theorem not_fails_of_validated (hmasks : ∀ e ∈ overridesOf root, e.hasBothMasks = false)
    (h : Validated lib existing (root.get bridgesKey) (converted (root.shiftRemove bridgesKey)) p) :
    ¬ Fails lib root existing := by
  obtain ⟨⟨config, hconfig, -⟩, hbridges⟩ := h
  rintro (⟨e, he, hkeys⟩ | ⟨value, hvalue, hnone⟩ | hnone |
    ⟨value, pool, wanted, found, hvalue, hpool, hwanted, hfound, hne⟩) <;> grind

/-- **The plan of a document in the old layout**: an error if the validation fails, and otherwise a
plan that passed it. -/
theorem plan_old (hround : RoundTrips lib)
    (hparse : lib.parse src = some (.object root)) (hold : layoutProblems root ≠ [])
    (existing : Option (List Char)) :
    (Fails lib root existing ∧ ∃ e, plan lib src existing = .error e) ∨
      (¬ Fails lib root existing ∧ ∃ p, plan lib src existing = .ok (some p) ∧
        Validated lib existing (root.get bridgesKey) (converted (root.shiftRemove bridgesKey))
          p) := by
  rcases both_or_not root with hboth | hnot
  · exact .inl ⟨.bothMasks hboth, plan_of_both hparse hboth existing⟩
  · rw [plan_eq hparse hnot, if_neg hold]
    cases hv : validate lib existing (root.get bridgesKey) (converted (root.shiftRemove bridgesKey))
        ((overridesOf root).countP fun e => e.hasKey patternKey) with
    | error e => exact .inl ⟨fails_of_error hround hv, e, rfl⟩
    | ok p =>
      have hvalid := validated_of_ok hv
      exact .inr ⟨not_fails_of_validated hnot hvalid, p, rfl, hvalid⟩

/-- The validation accepts the bridges file that it wanted. -/
theorem validate_resume {text : List Char} (h : validate lib existing inline map masks = .ok p)
    (htext : p.bridges = some text) : validate lib (some text) inline map masks = .ok p := by
  unfold validate at h ⊢
  repeat' split at h
  all_goals cases h
  all_goals simp_all

/-- A bridges file that an earlier run wrote does not change the plan. -/
theorem plan_resume {text : List Char}
    (h : plan lib src existing = .ok (some p)) (htext : p.bridges = some text) :
    plan lib src (some text) = .ok (some p) := by
  unfold plan at h ⊢
  split at h
  · cases h
  · split at h
    · cases h
    · next map masks _ =>
      dsimp only at h ⊢
      split at h
      · cases h
      · next hold =>
        rw [if_neg hold]
        cases hv : validate lib existing _ map masks with
        | error e =>
          rw [hv] at h
          cases h
        | ok q =>
          rw [hv] at h
          cases h
          rw [validate_resume hv htext]
          rfl
  · cases h

theorem plan_written (hround : RoundTrips lib) (h : Validated lib existing inline map p) :
    ∃ text, p.main = some text ∧ ∀ existing', plan lib text existing' = .ok none := by
  obtain ⟨config, hconfig, hmain⟩ := h.main
  obtain ⟨text, root, htext, hparse, hread⟩ := hround.main map config hconfig
  refine ⟨text, hmain.trans htext, fun existing' => (plan_none_iff hparse _).2 ?_⟩
  simpa only [problems, hparse] using layoutProblems_of_fromObject hread

end Validation

/-! ### What is written -/

section Writing

variable {name src text : List Char} {p : Plan} {dir : Dir}

theorem get_write_of_ne {files : List (List Char × List Char)} {k : List Char}
    (h : ∀ file ∈ files, k ≠ file.1) : (write dir files).get k = dir.get k := by
  induction files generalizing dir with
  | nil => rfl
  | cons file files ih =>
    obtain ⟨hfile, h⟩ := forall_mem_cons.1 h
    exact (ih h).trans (Table.get_insert_of_ne _ hfile _)

theorem mem_files {file : List Char × List Char} (h : file ∈ p.files name src dir) :
    file = (backupPath name dir, src) ∨ file.1 = bridgesPath name ∨ file.1 = name := by
  simp only [Plan.files, mem_cons, mem_append, Option.mem_toList,
    Option.map_eq_some_iff] at h
  grind

/-- Every backup is still there, as it was. -/
def KeepsBackups (name : List Char) (dir dir' : Dir) : Prop :=
  ∀ n text, dir.get (backupName name n) = some text → dir'.get (backupName name n) = some text

theorem backupName_ne_backupPath {n : ℕ} (h : dir.get (backupName name n) = some text) :
    backupName name n ≠ backupPath name dir := by
  intro heq
  rw [heq, get_backupPath] at h
  cases h

theorem keepsBackups_write {files : List (List Char × List Char)}
    (h : ∀ file ∈ files, file ∈ p.files name src dir) :
      KeepsBackups name dir (write dir files) := by
  intro n text hn
  rw [get_write_of_ne, hn]
  intro file hfile
  rcases mem_files (h file hfile) with rfl | hbridges | hmain
  · exact backupName_ne_backupPath hn
  · exact hbridges ▸ backupName_ne_bridgesPath name n
  · exact hmain ▸ backupName_ne name n

theorem files_of_none (hbridges : p.bridges = none) (hmain : p.main = some text) :
    p.files name src dir = [(backupPath name dir, src), (name, text)] := by
  simp [Plan.files, hbridges, hmain]

theorem files_of_some {pool : List Char} (hbridges : p.bridges = some pool)
    (hmain : p.main = some text) : p.files name src dir =
      [(backupPath name dir, src), (bridgesPath name, pool), (name, text)] := by
  simp [Plan.files, hbridges, hmain]

variable (name src dir) in
/-- The three files after all writes. -/
theorem get_write_files (hmain : p.main = some text) :
    (write dir (p.files name src dir)).get name = some text ∧
      (write dir (p.files name src dir)).get (bridgesPath name) =
        p.bridges.or (dir.get (bridgesPath name)) ∧
      (write dir (p.files name src dir)).get (backupPath name dir) = some src := by
  have hbackup := backupPath_ne name dir
  have hbackup' := backupPath_ne_bridgesPath name dir
  have hbridges := bridgesPath_ne name
  cases hp : p.bridges with
  | none => simp [files_of_none hp hmain, write, Table.get_insert, hbackup, hbackup'.symm, hbridges]
  | some pool =>
    simp [files_of_some hp hmain, write, Table.get_insert, hbackup, hbackup', hbridges]

end Writing

/-! ### Interrupted runs -/

section Resuming

variable {R D P : Type} {lib : Library R D P} {name src text : List Char} {p : Plan}
  {existing : Option (List Char)} {dir : Dir}

/-- The main configuration is the old one, and the bridges file is as it was or as planned. -/
structure Pending (name src : List Char) (p : Plan) (existing : Option (List Char)) (dir : Dir) :
    Prop where
  main : dir.get name = some src
  pool : dir.get (bridgesPath name) = existing ∨
    ∃ pool, p.bridges = some pool ∧ dir.get (bridgesPath name) = some pool

/-- All files are written. -/
structure Written (name src text : List Char) (p : Plan) (existing : Option (List Char))
    (dir : Dir) : Prop where
  main : dir.get name = some text
  pool : dir.get (bridgesPath name) = p.bridges.or existing
  backup : ∃ n, dir.get (backupName name n) = some src

theorem Pending.plan (h : Pending name src p existing dir)
    (hplan : plan lib src existing = .ok (some p)) :
    plan lib src (dir.get (bridgesPath name)) = .ok (some p) := by
  rcases h.pool with hsame | ⟨pool, hpool, hwritten⟩
  · rwa [hsame]
  · rw [hwritten]
    exact plan_resume hplan hpool

theorem Pending.insert_backup (h : Pending name src p existing dir) (content : List Char) :
    Pending name src p existing (dir.insert (backupPath name dir) content) where
  main := by
    rw [Table.get_insert_of_ne _ (backupPath_ne name dir).symm, h.main]
  pool := by
    rw [Table.get_insert_of_ne _ (backupPath_ne_bridgesPath name dir).symm]
    exact h.pool

theorem Pending.insert_bridges (h : Pending name src p existing dir) {pool : List Char}
    (hpool : p.bridges = some pool) :
    Pending name src p existing (dir.insert (bridgesPath name) pool) where
  main := by
    rw [Table.get_insert_of_ne _ (bridgesPath_ne name).symm, h.main]
  pool := .inr ⟨pool, hpool, Table.get_insert_self _ _ _⟩

theorem Pending.written (h : Pending name src p existing dir) (hmain : p.main = some text) :
    Written name src text p existing (write dir (p.files name src dir)) := by
  obtain ⟨hname, hpool, hbackup⟩ := get_write_files name src dir hmain
  refine ⟨hname, hpool.trans ?_, _, hbackup⟩
  rcases h.pool with hsame | ⟨pool, hplanned, -⟩
  · rw [hsame]
  · simp [hplanned]

/-- A run that stops leaves the migration pending or written. -/
theorem Pending.interrupt (h : Pending name src p existing dir)
    (hplan : ConfigMigration.plan lib src existing = .ok (some p)) (hmain : p.main = some text)
    (stop : Interruption) :
    Pending name src p existing (interrupt lib name dir stop) ∨
      Written name src text p existing (interrupt lib name dir stop) := by
  have hp := h.plan hplan
  cases stop with
  | inBackup content =>
    simp only [ConfigMigration.interrupt, h.main, hp]
    exact .inl (h.insert_backup content)
  | after k =>
    simp only [ConfigMigration.interrupt, h.main, hp]
    cases hpool : p.bridges with
    | none =>
      rcases k with _ | _ | k
      · exact .inl h
      · rw [files_of_none hpool hmain]
        exact .inl (h.insert_backup src)
      · rw [take_of_length_le (by simp [files_of_none hpool hmain])]
        exact .inr (h.written hmain)
    | some pool =>
      rcases k with _ | _ | _ | k
      · exact .inl h
      · rw [files_of_some hpool hmain]
        exact .inl (h.insert_backup src)
      · rw [files_of_some hpool hmain]
        exact .inl ((h.insert_backup src).insert_bridges hpool)
      · rw [take_of_length_le (by simp [files_of_some hpool hmain])]
        exact .inr (h.written hmain)

theorem Written.interrupt (h : Written name src text p existing dir)
    (hcurrent : ∀ existing', ConfigMigration.plan lib text existing' = .ok none)
    (stop : Interruption) : ConfigMigration.interrupt lib name dir stop = dir := by
  simp only [ConfigMigration.interrupt, h.main, hcurrent]

theorem Written.migrateConfig (h : Written name src text p existing dir)
    (hcurrent : ∀ existing', ConfigMigration.plan lib text existing' = .ok none) :
    migrateConfig lib name dir = (.ok .alreadyCurrent, dir) := by
  simp only [ConfigMigration.migrateConfig, h.main, hcurrent]

theorem Pending.migrateConfig (h : Pending name src p existing dir)
    (hplan : ConfigMigration.plan lib src existing = .ok (some p)) (hmain : p.main = some text) :
    ∃ report, migrateConfig lib name dir =
      (.ok (.migrated report), write dir (p.files name src dir)) := by
  have hp := h.plan hplan
  refine ⟨⟨backupPath name dir, p.bridges.map fun _ => bridgesPath name, p.bridgeLines,
    p.bridgeSources, p.masksConverted⟩, ?_⟩
  simp only [ConfigMigration.migrateConfig, h.main, hp, hmain, Option.isNone_some,
    Bool.false_eq_true, if_false]

theorem pending_or_written_of_run (hplan : plan lib src existing = .ok (some p))
    (hmain : p.main = some text) (hcurrent : ∀ existing', plan lib text existing' = .ok none)
    {stops : List Interruption} {dir' : Dir} (h : Pending name src p existing dir)
    (hrun : (interrupted lib name).Run Machine.anyStep dir stops dir') :
    Pending name src p existing dir' ∨ Written name src text p existing dir' := by
  refine hrun.invariant (I := fun d => Pending name src p existing d ∨
    Written name src text p existing d) ?_ (.inl h)
  rintro u stop v hu - ⟨⟩
  rcases hu with hpending | hwritten
  · exact hpending.interrupt hplan hmain stop
  · rw [hwritten.interrupt hcurrent stop]
    exact .inr hwritten

theorem keepsBackups_interrupt (lib : Library R D P) (name : List Char) (dir : Dir)
    (stop : Interruption) : KeepsBackups name dir (interrupt lib name dir stop) := by
  unfold interrupt
  split
  · exact fun _ _ h => h
  · split
    · split
      · intro n text hn
        rw [Table.get_insert_of_ne _ (backupName_ne_backupPath hn), hn]
      · exact keepsBackups_write fun file hfile => mem_of_mem_take hfile
    · exact fun _ _ h => h

theorem keepsBackups_migrateConfig (lib : Library R D P) (name : List Char) (dir : Dir) :
    KeepsBackups name dir (migrateConfig lib name dir).2 := by
  unfold migrateConfig
  split
  · exact fun _ _ h => h
  · split
    · exact fun _ _ h => h
    · exact fun _ _ h => h
    · exact keepsBackups_write fun _ hfile => hfile

theorem keepsBackups_of_run {stops : List Interruption} {dir' : Dir}
    (h : (interrupted lib name).Run Machine.anyStep dir stops dir') :
    KeepsBackups name dir dir' := by
  refine h.relation (fun d n text hn => hn)
    (fun d₁ d₂ d₃ h₁ h₂ n text hn => h₂ n text (h₁ n text hn)) ?_
  rintro d stop d' - ⟨⟩
  exact keepsBackups_interrupt lib name d stop

end Resuming

/-- **A refused migration writes nothing, and an interrupted one is completed by the next run.**  A
document is left alone exactly if no difference is found.  One in the old layout is refused without
a write if the validation fails.  Otherwise, after any interrupted runs, the next complete run
succeeds with the same main configuration and bridges file as a single run, there is a backup of the
old text, and the run after it has nothing to do.  No run ever overwrites a backup. -/
theorem migration_resumes {R D P : Type} (lib : Library R D P) (hround : RoundTrips lib)
    (name : List Char) (dir : Dir) (src : List Char) (root : ObjectMap)
    (hsrc : dir.get name = some src) (hparse : lib.parse src = some (.object root)) :
    (migrateConfig lib name dir = (.ok .alreadyCurrent, dir) ↔ problems lib.parse src = []) ∧
    (problems lib.parse src ≠ [] → Fails lib root (dir.get (bridgesPath name)) →
      ∃ e, migrateConfig lib name dir = (.error e, dir)) ∧
    (problems lib.parse src ≠ [] → ¬ Fails lib root (dir.get (bridgesPath name)) →
      ∃ report single, migrateConfig lib name dir = (.ok (.migrated report), single) ∧
        ∀ stops dir₁, (interrupted lib name).Run Machine.anyStep dir stops dir₁ →
          ∃ outcome dir₂, migrateConfig lib name dir₁ = (.ok outcome, dir₂) ∧
            dir₂.get name = single.get name ∧
            dir₂.get (bridgesPath name) = single.get (bridgesPath name) ∧
            (∃ n, dir₂.get (backupName name n) = some src) ∧
            migrateConfig lib name dir₂ = (.ok .alreadyCurrent, dir₂)) ∧
    ∀ dir₁, KeepsBackups name dir₁ (migrateConfig lib name dir₁).2 ∧
      ∀ stops dir₂, (interrupted lib name).Run Machine.anyStep dir₁ stops dir₂ →
        KeepsBackups name dir₁ dir₂ := by
  have hproblems : problems lib.parse src = layoutProblems root := by simp only [problems, hparse]
  refine ⟨?_, ?_, ?_, ?_⟩
  · rw [← plan_none_iff hparse (dir.get (bridgesPath name))]
    simp only [migrateConfig, hsrc]
    cases plan lib src (dir.get (bridgesPath name)) with
    | error e => simp
    | ok p =>
      cases p with
      | none => simp
      | some p =>
        dsimp only
        split <;> simp
  · intro hold hfails
    rw [hproblems] at hold
    rcases plan_old hround hparse hold (dir.get (bridgesPath name)) with ⟨-, e, he⟩ | ⟨hnot, -⟩
    · exact ⟨e, by simp only [migrateConfig, hsrc, he]⟩
    · exact absurd hfails hnot
  · intro hold hnot
    rw [hproblems] at hold
    rcases plan_old hround hparse hold (dir.get (bridgesPath name)) with
      ⟨hfails, -⟩ | ⟨-, p, hplan, hvalid⟩
    · exact absurd hfails hnot
    obtain ⟨text, hmain, hcurrent⟩ := plan_written hround hvalid
    have hstart : Pending name src p (dir.get (bridgesPath name)) dir := ⟨hsrc, .inl rfl⟩
    obtain ⟨report, hsingle⟩ := hstart.migrateConfig hplan hmain
    have hwritten := hstart.written hmain
    refine ⟨report, _, hsingle, ?_⟩
    intro stops dir₁ hrun
    rw [hwritten.main, hwritten.pool]
    rcases pending_or_written_of_run hplan hmain hcurrent hstart hrun with hpending | hdone
    · obtain ⟨report', hrerun⟩ := hpending.migrateConfig hplan hmain
      have hdone := hpending.written hmain
      exact ⟨_, _, hrerun, hdone.main, hdone.pool, hdone.backup, hdone.migrateConfig hcurrent⟩
    · have hrerun := hdone.migrateConfig hcurrent
      exact ⟨_, _, hrerun, hdone.main, hdone.pool, hdone.backup, hrerun⟩
  · intro dir₁
    exact ⟨keepsBackups_migrateConfig lib name dir₁, fun stops dir₂ => keepsBackups_of_run⟩

/-- A library with a single configuration, which is printed as the text `new`, and a document `old`
with a pool. -/
def sampleLibrary : Library Unit Unit Unit where
  parse src :=
    if src = "old".toList then some (.object [(bridgesKey, .text [])]) else some (.object [])
  string _ := none
  sections _ := some ()
  dnsFields _ := none
  overrideValue _ := none
  dnsValue _ := none
  dnsDefault := ()
  bridges _ := some ()
  poolText _ := some "pool".toList
  mainText _ := some "new".toList
  lines _ := 0
  sources _ := 0

theorem roundTrips_sampleLibrary : RoundTrips sampleLibrary where
  main := by
    intro root config hconfig
    refine ⟨"new".toList, [], rfl, by simp [sampleLibrary], ?_⟩
    simp only [Config.fromObject, Option.bind_eq_bind, Option.bind_eq_some_iff] at hconfig
    obtain ⟨-, -, dnsServer, hdns, others, -, hconfig⟩ := hconfig
    cases Option.some.inj hconfig
    -- no section of the DNS server passes the schema, so there is one configuration
    cases hget : ObjectMap.get root dnsServerKey with
    | none =>
      rw [hget] at hdns
      cases hdns
      rfl
    | some value =>
      rw [hget] at hdns
      cases value <;> simp [dnsServerFrom, DnsServerConfig.fromValue, sampleLibrary] at hdns
  pool _ _ _ := ⟨_, rfl⟩

/-- The sample document in a directory with an earlier backup. -/
def sampleDir : Dir :=
  ((∅ : Dir).insert "c.ktav".toList "old".toList).insert "c.ktav.bak-1".toList "older".toList

/-- Two runs that stop, the first in the middle of the backup, the second before the main
configuration: the third one completes the migration. -/
theorem migration_resumes_sampleDir : ∃ single dir₁ outcome dir₂,
    (migrateConfig sampleLibrary "c.ktav".toList sampleDir).2 = single ∧
    (interrupted sampleLibrary "c.ktav".toList).Run Machine.anyStep sampleDir
      [.inBackup "ol".toList, .after 2] dir₁ ∧
    migrateConfig sampleLibrary "c.ktav".toList dir₁ = (.ok outcome, dir₂) ∧
    dir₂.get "c.ktav".toList = single.get "c.ktav".toList ∧
    (∃ n, dir₂.get (backupName "c.ktav".toList n) = some "old".toList) ∧
    migrateConfig sampleLibrary "c.ktav".toList dir₂ = (.ok .alreadyCurrent, dir₂) := by
  have hsrc : sampleDir.get "c.ktav".toList = some "old".toList := by decide +kernel
  have hparse : sampleLibrary.parse "old".toList = some (.object [(bridgesKey, .text [])]) := by
    simp [sampleLibrary]
  have hold : problems sampleLibrary.parse "old".toList ≠ [] := by decide +kernel
  have hpool : sampleDir.get (bridgesPath "c.ktav".toList) = none := by decide +kernel
  have hvalid : ¬ Fails sampleLibrary [(bridgesKey, .text [])]
      (sampleDir.get (bridgesPath "c.ktav".toList)) := by
    rw [hpool]
    intro hfails
    cases hfails with
    | bothMasks h =>
      have hnone : overridesOf [(bridgesKey, .text [])] = [] := rfl
      rw [hnone] at h
      simp at h
    | bridges _ _ h => cases h
    | config h => cases h
    | differs _ _ _ _ _ _ _ h _ => cases h
  obtain ⟨-, -, hresume, -⟩ := migration_resumes sampleLibrary roundTrips_sampleLibrary
    "c.ktav".toList sampleDir "old".toList _ hsrc hparse
  obtain ⟨report, single, hsingle, hall⟩ := hresume hold hvalid
  have hrun : (interrupted sampleLibrary "c.ktav".toList).Run Machine.anyStep sampleDir
      [.inBackup "ol".toList, .after 2] _ := Machine.Run.of_exec rfl
  obtain ⟨outcome, dir₂, hrerun, hmain, -, hbackup, hcurrent⟩ := hall _ _ hrun
  exact ⟨single, _, outcome, dir₂, by rw [hsingle], hrun, hrerun, hmain, hbackup, hcurrent⟩

end ConfigMigration
