import SpikeHub.L5Runs.Requests

/-!
# The bearer credential before the cookie

A request with a bearer credential is authenticated by that alone
(`keeps_to_bearer`): it is refused, or it runs as the owner of the credential's
row with the scopes of that row, and its session cookie makes no difference,
neither to who the caller is nor to a guard that asks for a scope.

A bearer scheme with nothing but white space behind it presents no credential
(`bearer` in `Caller`), and such a request is authenticated by its cookie like
one without the header (`not_keeps_to_bearer`).
-/
namespace SpikeHub.L5.BearerFirst

open SpikeHub.Core SpikeHub.L1 SpikeHub.L2 SpikeHub.L4.Auth SpikeHub.L4.Routes
open SpikeHub.L5.Requests (plain opened signedIn)
open SpikeHub.L5.Interleave (alice)

/-- The scheme of the header is bearer, in any letter case. -/
def BearerScheme (p : Platform) (header : Option String) : Prop :=
  p.lower (PyStr.partition ' ' (header.getD "")).1 = "bearer"

instance (p : Platform) (header : Option String) : Decidable (BearerScheme p header) :=
  inferInstanceAs (Decidable (_ = _))

/-- What is behind the scheme, without the white space around it. -/
def valueOf (header : Option String) : String :=
  PyStr.strip (PyStr.partition ' ' (header.getD "")).2

/-- What comes of authenticating a request. -/
def outcome (p : Platform) (now : Time) (config : Settings) (header cookie : Option String) (db : Db)
    (fs : Volume) : Except Raised (User × List Scope) × Db × Volume :=
  (currentUser p now config ⟨header, cookie⟩).exec db fs

/-- The cookie is what lets the request in. -/
def ByCookie (p : Platform) (now : Time) (config : Settings) (header : Option String) (cookie : String)
    (db : Db) (fs : Volume) : Prop :=
  (∃ caller, (outcome p now config header (some cookie) db fs).1 = .ok caller) ∧
    ∃ e, (outcome p now config header none db fs).1 = .error e

/-- The header alone decides: the request runs, if it does, as the owner of the
token row that matches its value and with the scopes of that row, whatever the
cookie. -/
structure KeepsToBearer (p : Platform) (now : Time) (config : Settings) (header : Option String) :
    Prop where
  token : ∀ cookie db fs user granted, (outcome p now config header cookie db fs).1 = .ok (user, granted) →
    ∃ row ∈ db.tokens, row.tokenHash = p.hashToken (valueOf header) ∧ row.kind ≠ .refresh ∧
      user ∈ db.users ∧ user.id = row.userId ∧ granted = row.scopes
  same : ∀ cookie cookie' db fs,
    outcome p now config header cookie db fs = outcome p now config header cookie' db fs
  guarded : ∀ scope cookie cookie' db fs,
    (scopeGuard scope p now config ⟨header, cookie⟩).exec db fs =
      (scopeGuard scope p now config ⟨header, cookie'⟩).exec db fs
  neverByCookie : ∀ cookie db fs, ¬ ByCookie p now config header cookie db fs

variable {p : Platform} {now : Time} {config : Settings} {header cookie cookie' : Option String}

/-- A bearer scheme with a value presents that value. -/
theorem bearer_eq (hscheme : BearerScheme p header) (hvalue : valueOf header ≠ "") :
    bearer p ⟨header, cookie⟩ = some (valueOf header) := by
  unfold bearer
  dsimp only
  rw [if_neg]
  · rfl
  · rintro (h | h)
    · exact h hscheme
    · exact hvalue h

/-- A credential is looked at before the cookie. -/
theorem currentUser_bearer {presented : String} (h : bearer p ⟨header, cookie⟩ = some presented)
    (h' : bearer p ⟨header, cookie'⟩ = some presented) :
    currentUser p now config ⟨header, cookie⟩ = currentUser p now config ⟨header, cookie'⟩ := by
  unfold currentUser
  rw [h, h']

/-- **The credential decides**, wherever there is one. -/
theorem keeps_to_bearer (hscheme : BearerScheme p header) (hvalue : valueOf header ≠ "") :
    KeepsToBearer p now config header := by
  have hsame : ∀ cookie cookie',
      currentUser p now config ⟨header, cookie⟩ = currentUser p now config ⟨header, cookie'⟩ :=
    fun _ _ => currentUser_bearer (bearer_eq hscheme hvalue) (bearer_eq hscheme hvalue)
  refine ⟨fun cookie db fs user granted h => ?_, fun cookie cookie' db fs => ?_,
    fun scope cookie cookie' db fs => ?_, fun cookie db fs h => ?_⟩
  · unfold outcome at h
    generalize hrun : (currentUser p now config ⟨header, cookie⟩).exec db fs = out at h
    obtain ⟨res, db', fs'⟩ := out
    obtain rfl : res = .ok (user, granted) := h
    obtain ⟨-, hcaller⟩ := currentUser_ok hrun
    cases hcaller with
    | @bearer presented row hb hacc hkind =>
      obtain rfl : valueOf header = presented :=
        Option.some.inj ((bearer_eq hscheme hvalue).symm.trans hb)
      exact ⟨row, hacc.mem, hacc.hash, hkind, hacc.account, hacc.owner, rfl⟩
    | cookie hb =>
      rw [bearer_eq hscheme hvalue] at hb
      cases hb
  · unfold outcome
    rw [hsame cookie cookie']
  · unfold scopeGuard
    rw [hsame cookie cookie']
  · obtain ⟨⟨caller, hok⟩, e, herror⟩ := h
    unfold outcome at hok herror
    rw [hsame (some cookie) none, herror] at hok
    cases hok

theorem keeps_to_bearer_upper : KeepsToBearer plain 0 {} (some "BEARER  sfh_pat_x ") :=
  keeps_to_bearer (by decide) (by decide)

/-! ## No credential behind the scheme -/

theorem alice_signedIn : Sessions.signedIn plain 0 "sfh_s_first" {} signedIn.db = some (opened, alice) := by
  have hrow : opened ∈ signedIn.db.sessions := List.mem_singleton.mpr rfl
  have hhash : opened.tokenHash = plain.hashToken "sfh_s_first" := by simp only [opened]
  have huser : signedIn.db.user? opened.userId = some alice :=
    user?_eq_some.mpr ⟨List.mem_singleton.mpr rfl, rfl⟩
  have hlive : Sessions.live 0 {} opened = true := by decide
  rw [Sessions.signedIn_eq hrow hhash huser rfl, if_pos hlive]

/-- **Counterexample**: the scheme is bearer, nothing is behind it, and the
cookie lets the request in with every scope. -/
theorem not_keeps_to_bearer : BearerScheme plain (some "Bearer ") ∧
    (outcome plain 0 {} (some "Bearer ") (some "sfh_s_first") signedIn.db signedIn.volume).1 =
      .ok (alice, allScopes) ∧
    ¬ KeepsToBearer plain 0 {} (some "Bearer ") := by
  have hcookie : (outcome plain 0 {} (some "Bearer ") (some "sfh_s_first") signedIn.db
      signedIn.volume).1 = .ok (alice, allScopes) := by
    have hnone : bearer plain ⟨some "Bearer ", some "sfh_s_first"⟩ = none := by decide
    have hgiven : (some "sfh_s_first").filter (· ≠ "") = some "sfh_s_first" := by decide
    unfold outcome currentUser
    rw [hnone, hgiven]
    dsimp only
    rw [Work.exec_bind_ok (Sessions.resolve_exec alice_signedIn)]
    rfl
  have hnone : (outcome plain 0 {} (some "Bearer ") none signedIn.db signedIn.volume).1 =
      .error anonymous := rfl
  exact ⟨by decide, hcookie, fun h => h.neverByCookie _ _ _ ⟨⟨_, hcookie⟩, _, hnone⟩⟩

end SpikeHub.L5.BearerFirst
