import SpikeHub.L4Auth.Sessions

/-!
# The caller

Model of hub_api/deps.py: a request is authenticated by a bearer credential
or, when it has none, by a session cookie, and carries the scopes of the one
it was authenticated by. `writeUser` is the guard of the upload routes.
-/
namespace SpikeHub.L4.Routes

open SpikeHub.Core SpikeHub.L1 SpikeHub.L2 SpikeHub.L4.Auth

/-- The `Authorization` header and the session cookie of a request. -/
structure Presented where
  authorization : Option String := none
  cookie : Option String := none
deriving DecidableEq, Repr

/-- mirrors hub_api/deps.py:30-36 -/
def bearer (p : Platform) (req : Presented) : Option String :=
  let (scheme, value) := PyStr.partition ' ' (req.authorization.getD "")
  if p.lower scheme ≠ "bearer" ∨ PyStr.strip value = "" then none else some (PyStr.strip value)

def anonymous : Raised := .hub ⟨.unauthorized, "sign in to use this endpoint", []⟩

/-- The account and the scopes of the request.
mirrors hub_api/deps.py:39-56 -/
def currentUser (p : Platform) (now : Time) (config : Settings) (req : Presented) :
    AuthWork (User × List Scope) := do
  match bearer p req with
  | some presented =>
    let (user, token) ← resolve p now presented
    return (user, token.scopes)
  | none =>
    match req.cookie.filter (· ≠ "") with
    | none => throw anonymous
    | some cookie =>
      match ← Sessions.resolve p now cookie config with
      | some found => return (found, allScopes)
      | none => throw anonymous

def scopeText : Scope → String
  | .read => "models:read"
  | .write => "models:write"

def checkScope (scope : Scope) (granted : List Scope) : Check :=
  refuseIf (scope ∉ granted) <|
    refuse .forbidden s!"this credential does not carry the {pyRepr (scopeText scope)} scope"
      [("required_scope", .str (scopeText scope))]

/-- mirrors hub_api/deps.py:75-88 -/
def scopeGuard (scope : Scope) (p : Platform) (now : Time) (config : Settings) (req : Presented) :
    AuthWork User := do
  let (user, granted) ← currentUser p now config req
  .orRaise (checkScope scope granted)
  return user

/-- `WriteUser` -/
def writeUser (p : Platform) (now : Time) (config : Settings) (req : Presented) : AuthWork User :=
  scopeGuard .write p now config req

/-! ## Who the caller is -/

variable {p : Platform} {now : Time} {config : Settings} {req : Presented} {db db' : Db}
  {fs fs' : Volume} {user : User} {granted : List Scope}

/-- How a request was authenticated, and the use it left on the credential. -/
inductive CallerOf (p : Platform) (now : Time) (config : Settings) (req : Presented) (db : Db)
    (user : User) : List Scope → Db → Prop
  | bearer {presented : String} {row : Token} :
      bearer p req = some presented → Accepted p now presented db user row → row.kind ≠ .refresh →
      CallerOf p now config req db user row.scopes (touchToken now row.id db)
  | cookie {cookie : String} {row : Session} :
      bearer p req = none → req.cookie = some cookie →
      Sessions.signedIn p now cookie config db = some (row, user) → cookie ≠ "" →
      CallerOf p now config req db user allScopes (Sessions.touchSession now row.id db)

theorem currentUser_ok
    (h : (currentUser p now config req).exec db fs = (.ok (user, granted), db', fs')) :
    fs' = fs ∧ CallerOf p now config req db user granted db' := by
  unfold currentUser at h
  split at h
  · rename_i presented hb
    obtain ⟨⟨u, t⟩, d₁, w₁, h₁, h⟩ := Work.exec_bind_eq_ok h
    obtain ⟨rfl, row, hacc, hkind, rfl, rfl⟩ := resolve_ok h₁
    cases h
    have hcaller : CallerOf p now config req db user row.scopes (touchToken now row.id db) :=
      .bearer hb hacc hkind
    exact ⟨rfl, hcaller⟩
  · rename_i hb
    split at h
    · cases h
    · rename_i c hc
      obtain ⟨found, d₁, w₁, h₁, h⟩ := Work.exec_bind_eq_ok h
      cases found with
      | none => cases h
      | some u =>
        obtain ⟨rfl, row, hs, rfl⟩ := Sessions.resolve_ok h₁
        cases h
        obtain ⟨hcookie, hne⟩ := Option.filter_eq_some_iff.mp hc
        exact ⟨rfl, .cookie hb hcookie hs (by simpa using hne)⟩

/-- The caller's account. -/
theorem CallerOf.account (h : CallerOf p now config req db user granted db') :
    user ∈ db.users ∧ user.state = .active := by
  cases h with
  | bearer _ hacc => exact ⟨hacc.account, hacc.active⟩
  | cookie _ _ hs =>
    obtain ⟨-, -, -, hu, -, ha⟩ := Sessions.signedIn_some hs
    exact ⟨hu, ha⟩

theorem CallerOf.sameUsers (h : CallerOf p now config req db user granted db') :
    db'.users = db.users := by
  cases h with
  | bearer => rfl
  | cookie => rfl

/-- A request is by one account. -/
theorem CallerOf.unique {user' : User} {granted' : List Scope} {db'' : Db}
    (h : CallerOf p now config req db user granted db')
    (h' : CallerOf p now config req db user' granted' db'') : user = user' := by
  cases h with
  | bearer hb hacc =>
    cases h' with
    | bearer hb' hacc' =>
      obtain rfl := Option.some.inj (hb.symm.trans hb')
      have hrow := hacc'.eq_of_hash hacc.mem hacc.hash
      refine db.users.eq_of_clash hacc.account hacc'.account (.inl ?_)
      rw [hacc.owner, hacc'.owner, hrow]
    | cookie hb' => rw [hb] at hb'; cases hb'
  | cookie hb hcookie hs =>
    cases h' with
    | bearer hb' => rw [hb] at hb'; cases hb'
    | cookie _ hcookie' hs' =>
      obtain rfl := Option.some.inj (hcookie.symm.trans hcookie')
      rw [hs] at hs'
      cases hs'
      rfl

/-- Authenticating by one credential leaves another as usable as it was. -/
theorem CallerOf.accepted {presented : String} {u : User} {row : Token}
    (h : CallerOf p now config req db user granted db') (hacc : Accepted p now presented db u row) :
    ∃ row', Accepted p now presented db' u row' := by
  cases h with
  | bearer => exact hacc.touchToken _
  | cookie =>
    exact ⟨row, hacc.mem, hacc.hash, hacc.unrevoked, hacc.unexpired, hacc.account, hacc.owner,
      hacc.active⟩

theorem scopeGuard_ok {scope : Scope}
    (h : (scopeGuard scope p now config req).exec db fs = (.ok user, db', fs')) :
    ∃ granted, (currentUser p now config req).exec db fs = (.ok (user, granted), db', fs') ∧
      scope ∈ granted := by
  unfold scopeGuard at h
  obtain ⟨⟨u, granted⟩, d₁, w₁, h₁, hrest⟩ := Work.exec_bind_eq_ok h
  obtain ⟨_, hscope, hrest⟩ := Work.orRaise_bind_eq_ok hrest
  cases hrest
  unfold checkScope refuse at hscope
  exact ⟨granted, h₁, not_not.mp (refuseIf_ok.mp hscope)⟩

/-- A session carries every scope. -/
theorem writeUser_exec {cookie : String} {row : Session} (hb : bearer p req = none)
    (hcookie : req.cookie = some cookie) (hne : cookie ≠ "")
    (h : Sessions.signedIn p now cookie config db = some (row, user)) :
    (writeUser p now config req).exec db fs = (.ok user, Sessions.touchSession now row.id db, fs) := by
  have hcaller : (currentUser p now config req).exec db fs =
      (.ok (user, allScopes), Sessions.touchSession now row.id db, fs) := by
    unfold currentUser
    rw [hb, hcookie, Option.filter_some, if_pos (decide_eq_true hne)]
    dsimp only
    rw [Work.exec_bind_ok (Sessions.resolve_exec h)]
    rfl
  unfold writeUser scopeGuard
  rw [Work.exec_bind_ok hcaller]
  rfl

end SpikeHub.L4.Routes
