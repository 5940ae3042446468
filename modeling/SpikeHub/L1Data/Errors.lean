import SpikeHub.Core.Session

/-!
# What a request raises

`HubError` is the typed refusal of `hub_api/errors.py`: a class with its
status and code, the detail text, and the machine fields. `Raised` adds what
else can leave a request: a `ValueError`, a missing file under `os.replace`,
a broken unique constraint, an `UPDATE` that matched no row, and a client
that went away in the middle of its body.
-/
namespace SpikeHub.L1

open SpikeHub.Core

/-- The subclasses of `HubError` the modelled code raises. -/
inductive ErrorClass
  | unauthorized | forbidden | notFound | conflict | quotaExceeded | unprocessableUpload
  | serviceUnavailable | weakPassword | invalidName | invalidLicense
deriving DecidableEq, Repr

def ErrorClass.status : ErrorClass → Nat
  | .unauthorized => 401
  | .forbidden => 403
  | .notFound => 404
  | .conflict => 409
  | .quotaExceeded => 413
  | .unprocessableUpload => 422
  | .serviceUnavailable => 503
  | .weakPassword => 422
  | .invalidName => 422
  | .invalidLicense => 422

def ErrorClass.code : ErrorClass → String
  | .unauthorized => "unauthorized"
  | .forbidden => "forbidden"
  | .notFound => "not_found"
  | .conflict => "conflict"
  | .quotaExceeded => "quota_exceeded"
  | .unprocessableUpload => "unprocessable_upload"
  | .serviceUnavailable => "service_unavailable"
  | .weakPassword => "weak_password"
  | .invalidName => "invalid_name"
  | .invalidLicense => "invalid_license"

/-- A machine field of a problem body. -/
inductive Extra
  | int (n : Int)
  | str (s : String)
deriving DecidableEq, Repr

structure HubError where
  cls : ErrorClass
  detail : String
  extra : List (String × Extra) := []
deriving DecidableEq, Repr

inductive Raised
  | hub (e : HubError)
  | valueError (message : String)
  | fileNotFound
  | integrityError
  | staleData
  | clientDisconnect
deriving DecidableEq, Repr

/-- `raise cls(detail, **extra)` -/
def refuse {α : Type} (cls : ErrorClass) (detail : String)
    (extra : List (String × Extra) := []) : Except Raised α :=
  .error (.hub ⟨cls, detail, extra⟩)

/-- A check: passes, or refuses. -/
abbrev Check := Except Raised Unit

/-- `if cond: raise e` -/
def refuseIf (cond : Prop) [Decidable cond] (e : Check) : Check := if cond then e else .ok ()

theorem refuseIf_ok {cond : Prop} [Decidable cond] {e : Raised} :
    refuseIf cond (.error e) = .ok () ↔ ¬ cond := by
  unfold refuseIf; split <;> simp_all

end SpikeHub.L1
