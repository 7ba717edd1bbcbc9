/-
**The users file: loading it, and saving it through a temp file.**

`UsersConfig::save` writes the text of the registry to a temp file next to the users file, syncs
it, renames it onto the users file and syncs the directory.  Every one of these system calls may
fail, and an error of any of them is an error of the save.  The rename comes before the last of
them: when the directory cannot be synced the save reports an error, although the new registry
stands in the file.
-/

import TorSocks5.UsersConfig

set_option autoImplicit false

namespace Users

/-- `ktav::to_string` and `ktav::from_str` at registries. -/
structure Ktav where
  toText : UsersConfig → Except String String
  fromText : String → Except String UsersConfig
  fromText_toText : ∀ c body, toText c = .ok body → fromText body = .ok c

/-- The system calls of a save. -/
inductive SaveCall
  /-- The companion, its lock and the temp file. -/
  | create
  | write
  | fsync
  | rename
  | fsyncDir
  deriving DecidableEq

/-- What each call of a save returns: nothing, or the text of its error. -/
abbrev SaveFaults := SaveCall → Option String

/-- The users file and the temp file beside it. -/
structure Files where
  target : Option String
  temp : Option String
  deriving DecidableEq

/-- The guard of a temp file that was not published is dropped: the temp file is removed. -/
def Files.discard (f : Files) : Files := { f with temp := none }

/-- The temp file is renamed onto the target. -/
def Files.publish (f : Files) : Files := ⟨f.temp, none⟩

namespace Ktav

variable (K : Ktav) (path : String)

/-- `UsersConfig::load`; a missing file is an empty registry. -/
def load (fault : Option String) (f : Files) : Except String UsersConfig :=
  match fault with
  | some _ => .error ("reading users file " ++ path)
  | none =>
    match f.target with
    | none => .ok ⟨[]⟩
    | some src =>
      match K.fromText src with
      | .ok c => .ok c
      | .error _ => .error ("parsing Ktav users file " ++ path)

/-- `TempFileGuard::finish` on a temp file that holds the whole text. -/
def finish (fault : SaveFaults) (f : Files) : Except String Unit × Files :=
  match fault .fsync with
  | some _ => (.error ("publish " ++ path), f.discard)
  | none =>
    match fault .rename with
    | some _ => (.error ("publish " ++ path), f.discard)
    | none =>
      -- From here on the new text stands in the file, whatever is returned.
      match fault .fsyncDir with
      | some _ => (.error ("publish " ++ path), f.publish)
      | none => (.ok (), f.publish)

/-- `UsersConfig::save`. -/
def save (fault : SaveFaults) (c : UsersConfig) (f : Files) : Except String Unit × Files :=
  match K.toText c with
  | .error _ => (.error "serialise users config", f)
  | .ok body =>
    match fault .create with
    | some e => (.error e, f)
    | none =>
      match fault .write with
      | some e => (.error ("write " ++ e), f.discard)
      | none => finish path fault { f with temp := some body }

/-- Every call up to the rename succeeds. -/
def Renames (fault : SaveFaults) : Prop :=
  fault .create = none ∧ fault .write = none ∧ fault .fsync = none ∧ fault .rename = none

instance (fault : SaveFaults) : Decidable (Renames fault) :=
  inferInstanceAs (Decidable (_ ∧ _ ∧ _ ∧ _))

variable {K path} {fault : SaveFaults} {c : UsersConfig} {f f' : Files} {body : String}
  {r : Except String Unit}

theorem save_of_renames (hs : K.save path fault c f = (r, f')) (hbody : K.toText c = .ok body)
    (h : Renames fault) : f'.target = some body ∧ (r = .ok () ↔ fault .fsyncDir = none) := by
  obtain ⟨rfl, rfl⟩ : r = (K.save path fault c f).1 ∧ f' = (K.save path fault c f).2 := by
    simp [hs]
  obtain ⟨hcreate, hwrite, hfsync, hrename⟩ := h
  cases hdir : fault .fsyncDir <;>
    simp [save, finish, hbody, hcreate, hwrite, hfsync, hrename, hdir, Files.publish]

/-- A save that fails before the rename leaves the file alone. -/
theorem save_of_not_renames (hs : K.save path fault c f = (r, f')) (h : ¬ Renames fault) :
    (∃ e, r = .error e) ∧ f'.target = f.target := by
  obtain ⟨rfl, rfl⟩ : r = (K.save path fault c f).1 ∧ f' = (K.save path fault c f).2 := by
    simp [hs]
  cases hbody : K.toText c with
  | error e => simp [save, hbody]
  | ok body =>
    cases hcreate : fault .create with
    | some e => simp [save, hbody, hcreate]
    | none =>
      cases hwrite : fault .write with
      | some e => simp [save, hbody, hcreate, hwrite, Files.discard]
      | none =>
        cases hfsync : fault .fsync with
        | some e => simp [save, finish, hbody, hcreate, hwrite, hfsync, Files.discard]
        | none =>
          cases hrename : fault .rename with
          | some e =>
            simp [save, finish, hbody, hcreate, hwrite, hfsync, hrename, Files.discard]
          | none => exact absurd ⟨hcreate, hwrite, hfsync, hrename⟩ h

theorem save_of_toText_error {e : String} (h : K.toText c = .error e) :
    K.save path fault c f = (.error "serialise users config", f) := by
  simp only [save, h]

theorem load_of_target (hbody : K.toText c = .ok body) (hf : f.target = some body) :
    K.load path none f = .ok c := by
  simp only [load, hf, K.fromText_toText c body hbody]

theorem load_congr (h : f'.target = f.target) (e : Option String) :
    K.load path e f' = K.load path e f := by
  simp only [load, h]

end Ktav

end Users
