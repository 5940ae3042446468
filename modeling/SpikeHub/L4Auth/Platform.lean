import SpikeHub.Core.PyStr
import SpikeHub.L1Data.Errors
import SpikeHub.L1Data.Schema

/-!
# What authentication takes from outside

The functions of `capsize_auth` the service calls, and the case mapping of the
interpreter, as the fields of `Platform`; every result is about any of them.
`LawfulLogin` is what the service relies on from the password check,
`LawfulLower`, `LawfulAscii`, `LawfulBreaks` and `LawfulHex` what it relies on
from the case mapping.

What is random is drawn by the caller: the ids of new rows, the secret part of
a token, the salt of a password hash.
-/
namespace SpikeHub.L4.Auth

open SpikeHub.Core SpikeHub.L1

/-- The account in the shape `capsize_auth` expects. -/
structure Principal where
  id : Uuid
  email : String
  username : String
  status : UserState
  tokenVersion : Nat
deriving DecidableEq, Repr

structure Platform where
  /-- `str.lower` -/
  lower : String → String
  /-- `capsize_auth.tokens.hash_token` -/
  hashToken : String → String
  /-- `capsize_auth.hash_password`, with the salt it draws -/
  hashPassword : String → String → String
  /-- `capsize_auth.check_password_login(...).ok` -/
  checkPasswordLogin : String → Option Principal → Option String → Bool
  /-- `DEFAULT.check` of the password policy: the reason it refuses -/
  weakness : String → Option String

/-- A login succeeds for the password that was hashed, and for no other; it
needs an active account that has one. -/
structure Platform.LawfulLogin (p : Platform) : Prop where
  hashed : ∀ (password password' salt : String) (who : Principal), who.status = .active →
    (p.checkPasswordLogin password (some who) (some (p.hashPassword password' salt)) = true ↔
      password = password')
  nobody : ∀ password hash, p.checkPasswordLogin password none hash = false
  noPassword : ∀ password who, p.checkPasswordLogin password who none = false

/-- Lower-case letters, digits and hyphens are left as they are. -/
structure Platform.LawfulLower (p : Platform) : Prop where
  kept : ∀ s : String, (∀ c ∈ s.toList, ('a' ≤ c ∧ c ≤ 'z') ∨ ('0' ≤ c ∧ c ≤ '9') ∨ c = '-') →
    p.lower s = s

/-- In ASCII text the capitals become small letters, and nothing else changes. -/
structure Platform.LawfulAscii (p : Platform) : Prop where
  lowered : ∀ s : String, (∀ c ∈ s.toList, c.toNat < 128) →
    p.lower s = String.ofList (s.toList.map Char.toLower)

/-- A line break has no case: where the lower-cased text ends in one, the text did. -/
structure Platform.LawfulBreaks (p : Platform) : Prop where
  ending : ∀ s : String, (p.lower s).toList.getLast? = some '\n' → s.toList.getLast? = some '\n'

/-- No letter outside ASCII is a hexadecimal digit in lower case. -/
structure Platform.LawfulHex (p : Platform) : Prop where
  ascii : ∀ s : String,
    (∀ c ∈ (p.lower s).toList, ('a' ≤ c ∧ c ≤ 'f') ∨ ('0' ≤ c ∧ c ≤ '9') ∨ c = '\n') →
      ∀ c ∈ s.toList, c.toNat < 128

/-- What one new row draws: its id, the random part of its value, and the
chain a token starts when it continues none. -/
structure Draw where
  id : Uuid
  secret : String
  chain : Uuid

/-- `new_token(prefix).plaintext` -/
def newToken (start : String) (d : Draw) : String := start ++ d.secret

end SpikeHub.L4.Auth
