/-
**Passwords, hashes and the message authentication code of the cache.**

The authenticator rests on two primitives of other crates: Argon2id password hashing, with a fresh
salt for every hash, and HMAC-SHA256 under a secret of the process.  They enter as a structure that
carries what the authenticator relies on, so that every result about it holds for all primitives
with these laws.
-/

import Mathlib

set_option autoImplicit false

namespace Auth

/-- `INIT_SENTINEL`, the stored hash of an account that has no password yet. -/
def initSentinel : String := "init"

/-- Argon2id hashing and HMAC-SHA256. -/
structure Primitives (Salt Secret Mac : Type) where
  /-- `hash_password`, with the text of its error. -/
  hashPassword : Salt → String → Except String String
  /-- `verify_hash`: an error says that the stored hash is malformed. -/
  verifyHash : String → String → Except String Bool
  /-- The code of a message under a secret. -/
  mac : Secret → ByteArray → Mac
  verifyHash_hashPassword : ∀ salt password hash,
    hashPassword salt password = .ok hash → verifyHash hash password = .ok true
  /-- The sentinel is no PHC string. -/
  verifyHash_init : ∀ password, ∃ e, verifyHash initSentinel password = .error e
  mac_injective : ∀ secret, Function.Injective (mac secret)

namespace Primitives

variable {Salt Secret Mac : Type} (P : Primitives Salt Secret Mac)

/-! ### Hashing -/

/-- `compute_hash`; the salt is what the generator of the system returned. -/
def computeHash (salt : Except String Salt) (password : String) : Except String String :=
  match salt with
  | .error e => .error ("draw salt from OS RNG: " ++ e)
  | .ok salt =>
    match P.hashPassword salt password with
    | .error e => .error ("argon2id hashing failed: " ++ e)
    | .ok hash => .ok hash

/-- The verdict of `verify_hash`, where a malformed hash accepts nothing. -/
def accepts (hash password : String) : Bool :=
  match P.verifyHash hash password with
  | .ok b => b
  | .error _ => false

theorem accepts_of_computeHash {salt : Except String Salt} {password hash : String}
    (h : P.computeHash salt password = .ok hash) : P.accepts hash password = true := by
  cases salt with
  | error e => simp [computeHash] at h
  | ok salt =>
    cases hsalt : P.hashPassword salt password with
    | error e => simp [computeHash, hsalt] at h
    | ok hash' =>
      obtain rfl : hash' = hash := by simpa [computeHash, hsalt] using h
      simp [accepts, P.verifyHash_hashPassword _ _ _ hsalt]

theorem accepts_init (password : String) : P.accepts initSentinel password = false := by
  obtain ⟨e, he⟩ := P.verifyHash_init password
  simp [accepts, he]

theorem ne_init_of_accepts {hash password : String} (h : P.accepts hash password = true) :
    hash ≠ initSentinel := by
  rintro rfl
  rw [P.accepts_init] at h
  cases h

/-! ### The code of a credential -/

/-- `AuthState::hmac`: the name, a zero byte and the password. -/
def hmac (secret : Secret) (name password : String) : Mac :=
  P.mac secret (name.toUTF8 ++ ⟨#[0x00]⟩ ++ password.toUTF8)

theorem hmac_inj {secret : Secret} {name p q : String} :
    P.hmac secret name p = P.hmac secret name q ↔ p = q := by
  constructor
  · intro h
    have hmsg := P.mac_injective secret h
    exact String.toByteArray_inj.1 ((ByteArray.append_right_inj _).1 hmsg)
  · rintro rfl
    rfl

end Primitives

end Auth
