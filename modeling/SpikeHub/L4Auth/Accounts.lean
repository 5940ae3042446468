import SpikeHub.L4Auth.Credentials
import SpikeHub.L4Auth.Handles

/-!
# Accounts

Model of hub_api/auth/accounts.py: creating accounts, signing in with an
address and a password, and provider sign-ins, which create an account, adopt
one, or find the one they are linked to.
-/
namespace SpikeHub.L4.Auth

open SpikeHub.Core SpikeHub.L1 SpikeHub.L2

/-- `capsize_auth.oauth2.OAuthProfile`, the fields the service reads. -/
structure OAuthProfile where
  provider : String
  subject : String
  email : String
  emailVerified : Bool
  username : String := ""
  displayName : String := ""
  avatarUrl : String := ""
deriving DecidableEq, Repr

namespace Accounts

/-- mirrors hub_api/auth/accounts.py:31-33 -/
def normaliseEmail (p : Platform) (raw : String) : String := p.lower (PyStr.strip raw)

/-- mirrors hub_api/auth/accounts.py:36-44 -/
def asPrincipal (user : User) : Principal where
  id := user.id
  email := user.email
  username := user.handle
  status := user.state
  tokenVersion := user.tokenVersion

/-- mirrors hub_api/auth/accounts.py:47-52 -/
def byEmail (p : Platform) (email : String) (db : Db) : Option User :=
  db.users.find? fun u => u.email = normaliseEmail p email

/-- mirrors hub_api/auth/accounts.py:78-83 -/
def checkStrength (p : Platform) (password : String) : Check :=
  match p.weakness password with
  | some reason => refuse .weakPassword reason
  | none => .ok ()

def addUser (u : User) (db : Db) : Except Raised Db :=
  match db.users.insert? u with
  | some users => .ok { db with users := users }
  | none => .error .integrityError

def addIdentity (i : Identity) (db : Db) : Except Raised Db :=
  match db.identities.insert? i with
  | some identities => .ok { db with identities := identities }
  | none => .error .integrityError

/-- The row `register` adds. -/
def registered (p : Platform) (id : Uuid) (address password salt handle : String)
    (config : Settings) : User where
  id := id
  handle := handle
  email := address
  passwordHash := some (p.hashPassword password salt)
  storageLimit := config.defaultStorageLimit
  canPublish := config.publishingGate = .open

def checkUnregistered (p : Platform) (address : String) (db : Db) : Check :=
  refuseIf (byEmail p address db).isSome <|
    refuse .conflict ("an account already exists for that address; sign in, or reset " ++
      "the password")

/-- `id` and `salt` are what the new row and its password hash draw.
mirrors hub_api/auth/accounts.py:55-75 -/
def register (p : Platform) (id : Uuid) (salt email password : String) (config : Settings) :
    AuthWork User := do
  let address := normaliseEmail p email
  .orRaise (checkStrength p password)
  .check (checkUnregistered p address)
  let handle ← .query fun db => Handles.allocate p db [address]
  let created := registered p id address password salt handle config
  .statement (addUser created)
  return created

/-- mirrors hub_api/auth/accounts.py:86-103 -/
def signIn (p : Platform) (email password : String) (db : Db) : Except Raised User :=
  let found := byEmail p email db
  if p.checkPasswordLogin password (found.map asPrincipal) (found.bind User.passwordHash) then
    match found with
    | some user => .ok user
    | none => refuse .unauthorized "that address and password do not match"
  else refuse .unauthorized "that address and password do not match"

/-- The link to the provider account. -/
def identityOf (profile : OAuthProfile) (db : Db) : Option Identity :=
  db.identities.find? fun i => i.provider = profile.provider ∧ i.subject = profile.subject

def used (now : Time) (i : Identity) : Identity := { i with lastUsedAt := some now }

def touchIdentity (now : Time) (id : Uuid) (db : Db) : Db :=
  { db with identities := db.identities.updateWhere (fun i => i.id = id) (used now) fun _ _ h => h }

def linkedOwner (i : Identity) (db : Db) : Except Raised User :=
  match db.user? i.userId with
  | none => refuse .unauthorized "the linked account is not active"
  | some user =>
    if user.state = .active then .ok user
    else refuse .unauthorized "the linked account is not active"

/-- mirrors hub_api/auth/accounts.py:128-144 -/
def byIdentity (now : Time) (profile : OAuthProfile) : AuthWork (Option User) := do
  match ← .query (identityOf profile) with
  | none => return none
  | some identity =>
    .write (touchIdentity now identity.id)
    let user ← .check (linkedOwner identity)
    return some user

/-- mirrors hub_api/auth/accounts.py:147-158 -/
def adoptable (p : Platform) (profile : OAuthProfile) (db : Db) : Option User :=
  if profile.email = "" ∨ ¬ profile.emailVerified then none else byEmail p profile.email db

/-- mirrors hub_api/auth/accounts.py:161-180 -/
def checkAddressFree (p : Platform) (profile : OAuthProfile) (db : Db) : Check :=
  if profile.email = "" then
    refuse .conflict (s!"{profile.provider} did not return an email address, so an " ++
      "account cannot be created from it. Sign up with an address " ++
      "first, then link this provider.")
  else
    refuseIf (byEmail p profile.email db).isSome <|
      refuse .conflict ("an account already exists for that address, and " ++
        s!"{profile.provider} did not confirm you control it. Sign in to " ++
        "that account and link this provider from your settings.")

/-- The row `_from_profile` adds. -/
def profiled (p : Platform) (id : Uuid) (profile : OAuthProfile) (handle : String)
    (config : Settings) : User where
  id := id
  handle := handle
  email := normaliseEmail p profile.email
  emailVerified := profile.emailVerified
  displayName := String.ofList (profile.displayName.toList.take 120)
  avatarUrl := String.ofList (profile.avatarUrl.toList.take 512)
  storageLimit := config.defaultStorageLimit
  canPublish := config.publishingGate = .open

/-- mirrors hub_api/auth/accounts.py:183-201 -/
def fromProfile (p : Platform) (id : Uuid) (profile : OAuthProfile) (config : Settings) :
    AuthWork User := do
  .check (checkAddressFree p profile)
  let handle ← .query fun db => Handles.allocate p db [profile.username, profile.email]
  let created := profiled p id profile handle config
  .statement (addUser created)
  return created

/-- The row `link_or_create` adds. -/
def linkTo (now : Time) (id : Uuid) (user : User) (profile : OAuthProfile) : Identity where
  id := id
  userId := user.id
  provider := profile.provider
  subject := profile.subject
  email := profile.email
  lastUsedAt := some now

/-- The ids a new account and a new link draw. -/
structure LinkIds where
  user : Uuid
  identity : Uuid

/-- `existing or await _from_profile(...)` -/
def adoptOrCreate (p : Platform) (id : Uuid) (profile : OAuthProfile) (config : Settings) :
    AuthWork User := do
  match ← .query (adoptable p profile) with
  | some existing => return existing
  | none => fromProfile p id profile config

/-- mirrors hub_api/auth/accounts.py:106-125 -/
def linkOrCreate (p : Platform) (now : Time) (ids : LinkIds) (profile : OAuthProfile)
    (config : Settings) : AuthWork User := do
  match ← byIdentity now profile with
  | some linked => return linked
  | none =>
    let user ← adoptOrCreate p ids.user profile config
    .statement (addIdentity (linkTo now ids.identity user profile))
    return user

/-! ## What the calls did -/

variable {p : Platform} {now : Time} {config : Settings} {db db' : Db} {fs fs' : Volume}
  {profile : OAuthProfile} {user : User}

@[simp] theorem registered_handle {id : Uuid} {address password salt handle : String} :
    (registered p id address password salt handle config).handle = handle := rfl

@[simp] theorem profiled_handle {id : Uuid} {handle : String} :
    (profiled p id profile handle config).handle = handle := rfl

theorem addUser_ok {u : User} (h : addUser u db = .ok db') :
    ∃ hu, db' = { db with users := db.users.insert u hu } := by
  unfold addUser at h
  split at h
  · rename_i users hi
    obtain ⟨hu, rfl⟩ := Table.insert?_eq_some hi
    exact ⟨hu, (Except.ok.inj h).symm⟩
  · cases h

theorem addIdentity_ok {i : Identity} (h : addIdentity i db = .ok db') :
    ∃ hi, db' = { db with identities := db.identities.insert i hi } := by
  unfold addIdentity at h
  split at h
  · rename_i identities ht
    obtain ⟨hi, rfl⟩ := Table.insert?_eq_some ht
    exact ⟨hi, (Except.ok.inj h).symm⟩
  · cases h

/-- A new link goes in where the provider account has none. -/
theorem addIdentity_isOk {i : Identity} (hid : ∀ a ∈ db.identities, a.id ≠ i.id)
    (hnone : db.identities.find? (fun a => a.provider = i.provider ∧ a.subject = i.subject) = none) :
    ∃ db', addIdentity i db = .ok db' := by
  have hclash : ∀ a ∈ db.identities, ¬ Record.clash a i := by
    intro a ha hc
    rcases hc with hc | hc
    · exact hid a ha hc
    · simpa [hc.1, hc.2] using Table.find?_none hnone ha
  unfold addIdentity Table.insert?
  rw [dif_pos hclash]
  exact ⟨_, rfl⟩

theorem addUser_isOk {u : User} (h : ∀ a ∈ db.users, ¬ Record.clash a u) :
    addUser u db = .ok { db with users := db.users.insert u h } := by
  unfold addUser Table.insert?
  rw [dif_pos h]

theorem byEmail_some {email : String} (h : byEmail p email db = some user) :
    user ∈ db.users ∧ user.email = normaliseEmail p email := by
  obtain ⟨hm, hp⟩ := Table.find?_some h
  exact ⟨hm, by simpa using hp⟩

/-- The account `register` made. -/
theorem register_ok {id : Uuid} {salt email password : String}
    (h : (register p id salt email password config).exec db fs = (.ok user, db', fs')) :
    fs' = fs ∧ ∃ hu, db' = { db with users := db.users.insert user hu } ∧
      user = registered p id (normaliseEmail p email) password salt
        (Handles.allocate p db [normaliseEmail p email]) config := by
  unfold register at h
  obtain ⟨_, -, h⟩ := Work.orRaise_bind_eq_ok h
  obtain ⟨_, -, h⟩ := Work.check_bind_eq_ok h
  rw [Work.query_bind] at h
  obtain ⟨d₁, ha, h⟩ := Work.statement_bind_eq_ok h
  obtain ⟨hu, rfl⟩ := addUser_ok ha
  simp only [Work.exec_pure, Prod.mk.injEq, Except.ok.injEq] at h
  obtain ⟨rfl, rfl, rfl⟩ := h
  exact ⟨rfl, hu, rfl, rfl⟩

/-- A registration, its checks and its insert in their order. -/
theorem register_exec {id : Uuid} {salt email password : String} :
    (register p id salt email password config).exec db fs =
      match checkStrength p password, checkUnregistered p (normaliseEmail p email) db,
        addUser (registered p id (normaliseEmail p email) password salt
          (Handles.allocate p db [normaliseEmail p email]) config) db with
      | .ok _, .ok _, .ok db' =>
        (.ok (registered p id (normaliseEmail p email) password salt
          (Handles.allocate p db [normaliseEmail p email]) config), db', fs)
      | .ok _, .ok _, .error e => (.error e, db, fs)
      | .ok _, .error e, _ => (.error e, db, fs)
      | .error e, _, _ => (.error e, db, fs) := by
  unfold register
  rw [Work.exec_bind, Work.exec_orRaise]
  cases checkStrength p password with
  | error e => rfl
  | ok _ =>
    dsimp only
    rw [Work.exec_bind, Work.exec_check]
    cases checkUnregistered p (normaliseEmail p email) db with
    | error e => rfl
    | ok _ =>
      dsimp only
      rw [Work.query_bind, Work.exec_bind, Work.exec_statement]
      cases addUser _ db <;> rfl

theorem checkStrength_error {password : String} {e : Raised} (h : checkStrength p password = .error e) :
    ∃ refusal, e = .hub refusal := by
  unfold checkStrength refuse at h
  split at h
  · cases h
    exact ⟨_, rfl⟩
  · cases h

theorem checkUnregistered_error {address : String} {e : Raised}
    (h : checkUnregistered p address db = .error e) : ∃ refusal, e = .hub refusal := by
  unfold checkUnregistered refuseIf refuse at h
  split at h
  · cases h
    exact ⟨_, rfl⟩
  · cases h

/-- With a new row that goes in, what a registration raises is a refusal. -/
theorem register_refuses {id : Uuid} {salt email password : String}
    (hrow : checkUnregistered p (normaliseEmail p email) db = .ok () → ∀ a ∈ db.users, ¬ Record.clash a
      (registered p id (normaliseEmail p email) password salt
        (Handles.allocate p db [normaliseEmail p email]) config))
    {e : Raised} (h : (register p id salt email password config).exec db fs = (.error e, db', fs')) :
    ∃ refusal, e = .hub refusal := by
  rw [register_exec] at h
  split at h
  · cases h
  · rename_i hfree hadd
    rw [addUser_isOk (hrow hfree)] at hadd
    cases hadd
  · rename_i hraised
    cases h
    exact checkUnregistered_error hraised
  · rename_i hraised
    cases h
    exact checkStrength_error hraised

/-- A password that signed in. -/
theorem signIn_ok {email password : String} (h : signIn p email password db = .ok user) :
    byEmail p email db = some user ∧
      p.checkPasswordLogin password (some (asPrincipal user)) user.passwordHash = true := by
  unfold signIn refuse at h
  dsimp only at h
  split at h
  · rename_i hc
    split at h
    · rename_i found hf
      cases h
      rw [hf] at hc
      exact ⟨hf, hc⟩
    · cases h
  · cases h

theorem linkedOwner_ok {i : Identity} (h : linkedOwner i db = .ok user) :
    user ∈ db.users ∧ user.id = i.userId ∧ user.state = .active := by
  unfold linkedOwner refuse at h
  split at h
  · cases h
  · rename_i found hf
    split at h
    · rename_i ha
      cases h
      obtain ⟨hm, hid⟩ := user?_eq_some.mp hf
      exact ⟨hm, hid, ha⟩
    · cases h

/-- How a provider sign-in finds its account. -/
inductive Linked (p : Platform) (now : Time) (ids : LinkIds) (profile : OAuthProfile)
    (config : Settings) (db : Db) : User → Db → Prop
  | known {identity : Identity} {user : User} :
      identityOf profile db = some identity → user ∈ db.users → user.id = identity.userId →
      user.state = .active →
      Linked p now ids profile config db user (touchIdentity now identity.id db)
  | adopted {user : User} {h} :
      identityOf profile db = none → adoptable p profile db = some user →
      Linked p now ids profile config db user
        { db with identities := db.identities.insert (linkTo now ids.identity user profile) h }
  | created {handle : String} {user : User} {h h'} :
      identityOf profile db = none → adoptable p profile db = none →
      checkAddressFree p profile db = .ok () → user = profiled p ids.user profile handle config →
      Linked p now ids profile config db user
        { db with
          users := db.users.insert user h
          identities := db.identities.insert (linkTo now ids.identity user profile) h' }

theorem fromProfile_ok {id : Uuid}
    (h : (fromProfile p id profile config).exec db fs = (.ok user, db', fs')) :
    fs' = fs ∧ checkAddressFree p profile db = .ok () ∧ ∃ hu,
      db' = { db with users := db.users.insert user hu } ∧
      user = profiled p id profile (Handles.allocate p db [profile.username, profile.email]) config := by
  unfold fromProfile at h
  obtain ⟨_, hfree, h⟩ := Work.check_bind_eq_ok h
  rw [Work.query_bind] at h
  obtain ⟨d₁, ha, h⟩ := Work.statement_bind_eq_ok h
  obtain ⟨hu, rfl⟩ := addUser_ok ha
  simp only [Work.exec_pure, Prod.mk.injEq, Except.ok.injEq] at h
  obtain ⟨rfl, rfl, rfl⟩ := h
  exact ⟨rfl, hfree, hu, rfl, rfl⟩

theorem byIdentity_ok {found : Option User}
    (h : (byIdentity now profile).exec db fs = (.ok found, db', fs')) :
    fs' = fs ∧ ((identityOf profile db = none ∧ found = none ∧ db' = db) ∨
      ∃ identity user, identityOf profile db = some identity ∧ found = some user ∧
        linkedOwner identity db = .ok user ∧ db' = touchIdentity now identity.id db) := by
  unfold byIdentity at h
  rw [Work.query_bind] at h
  cases hi : identityOf profile db with
  | none =>
    rw [hi] at h
    simp only [Work.exec_pure, Prod.mk.injEq, Except.ok.injEq] at h
    obtain ⟨rfl, rfl, rfl⟩ := h
    exact ⟨rfl, .inl ⟨rfl, rfl, rfl⟩⟩
  | some identity =>
    rw [hi] at h
    dsimp only at h
    rw [Work.write_bind] at h
    obtain ⟨user, ho, h⟩ := Work.check_bind_eq_ok h
    simp only [Work.exec_pure, Prod.mk.injEq, Except.ok.injEq] at h
    obtain ⟨rfl, rfl, rfl⟩ := h
    exact ⟨rfl, .inr ⟨identity, user, rfl, rfl, ho, rfl⟩⟩

theorem checkAddressFree_error {e : Raised} (h : checkAddressFree p profile db = .error e) :
    ∃ refusal, e = .hub refusal := by
  unfold checkAddressFree refuseIf refuse at h
  split at h
  · cases h
    exact ⟨_, rfl⟩
  · split at h
    · cases h
      exact ⟨_, rfl⟩
    · cases h

theorem linkedOwner_error {i : Identity} {e : Raised} (h : linkedOwner i db = .error e) :
    ∃ refusal, e = .hub refusal := by
  unfold linkedOwner refuse at h
  split at h
  · cases h
    exact ⟨_, rfl⟩
  · split at h
    · cases h
    · cases h
      exact ⟨_, rfl⟩

/-- The account of a profile without a link, whose new row goes in. -/
theorem adoptOrCreate_cases {id : Uuid} (fs : Volume)
    (hrow : checkAddressFree p profile db = .ok () → ∀ a ∈ db.users, ¬ Record.clash a
      (profiled p id profile (Handles.allocate p db [profile.username, profile.email]) config)) :
    (∃ refusal, (adoptOrCreate p id profile config).exec db fs = (.error (.hub refusal), db, fs)) ∨
      ∃ user db₁, (adoptOrCreate p id profile config).exec db fs = (.ok user, db₁, fs) ∧
        db₁.identities = db.identities := by
  unfold adoptOrCreate
  rw [Work.query_bind]
  cases adoptable p profile db with
  | some existing => exact .inr ⟨existing, db, rfl, rfl⟩
  | none =>
    dsimp only
    unfold fromProfile
    rw [Work.exec_bind, Work.exec_check]
    cases hfree : checkAddressFree p profile db with
    | error e =>
      obtain ⟨refusal, rfl⟩ := checkAddressFree_error hfree
      exact .inl ⟨refusal, rfl⟩
    | ok _ =>
      dsimp only
      rw [Work.query_bind, Work.exec_bind, Work.exec_statement, addUser_isOk (hrow hfree)]
      exact .inr ⟨_, _, rfl, rfl⟩

/-- With a new row that goes in, what a provider sign-in raises is a refusal. -/
theorem linkOrCreate_refuses {ids : LinkIds} (hid : ∀ i ∈ db.identities, i.id ≠ ids.identity)
    (hrow : checkAddressFree p profile db = .ok () → ∀ a ∈ db.users, ¬ Record.clash a
      (profiled p ids.user profile (Handles.allocate p db [profile.username, profile.email]) config))
    {e : Raised} (h : (linkOrCreate p now ids profile config).exec db fs = (.error e, db', fs')) :
    ∃ refusal, e = .hub refusal := by
  unfold linkOrCreate byIdentity at h
  rw [bind_assoc, Work.query_bind] at h
  cases hlink : identityOf profile db with
  | some identity =>
    rw [hlink] at h
    dsimp only at h
    rw [bind_assoc, Work.write_bind, bind_assoc, Work.exec_bind, Work.exec_check] at h
    split at h
    · cases h
    · rename_i hraised
      cases h
      exact linkedOwner_error (congrArg Prod.fst hraised)
  | none =>
    rw [hlink] at h
    simp only [pure_bind] at h
    rcases adoptOrCreate_cases fs hrow with ⟨refusal, hx⟩ | ⟨user, db₁, hx, hsame⟩
    · rw [Work.exec_bind_error hx] at h
      cases h
      exact ⟨refusal, rfl⟩
    · have hadd : ∃ db₂, addIdentity (linkTo now ids.identity user profile) db₁ = .ok db₂ :=
        addIdentity_isOk (hsame ▸ hid) (hsame ▸ hlink)
      obtain ⟨_, hadd⟩ := hadd
      rw [Work.exec_bind_ok hx, Work.exec_bind, Work.exec_statement, hadd] at h
      cases h

theorem adoptOrCreate_ok {id : Uuid}
    (h : (adoptOrCreate p id profile config).exec db fs = (.ok user, db', fs')) :
    fs' = fs ∧ (adoptable p profile db = some user ∧ db' = db ∨
      adoptable p profile db = none ∧ checkAddressFree p profile db = .ok () ∧ ∃ hu,
        db' = { db with users := db.users.insert user hu } ∧
        user = profiled p id profile (Handles.allocate p db [profile.username, profile.email]) config) := by
  unfold adoptOrCreate at h
  rw [Work.query_bind] at h
  cases hadopt : adoptable p profile db with
  | some existing =>
    rw [hadopt] at h
    simp only [Work.exec_pure, Prod.mk.injEq, Except.ok.injEq] at h
    obtain ⟨rfl, rfl, rfl⟩ := h
    exact ⟨rfl, .inl ⟨rfl, rfl⟩⟩
  | none =>
    rw [hadopt] at h
    obtain ⟨rfl, hfree, hcreated⟩ := fromProfile_ok h
    exact ⟨rfl, .inr ⟨rfl, hfree, hcreated⟩⟩

/-- The account of the identity, or one that is adopted or created and then linked. -/
theorem linkOrCreate_steps {ids : LinkIds}
    (h : (linkOrCreate p now ids profile config).exec db fs = (.ok user, db', fs')) :
    fs' = fs ∧ ((∃ identity, identityOf profile db = some identity ∧ linkedOwner identity db = .ok user ∧
        db' = touchIdentity now identity.id db) ∨
      identityOf profile db = none ∧ ∃ d₁ hi,
        (adoptOrCreate p ids.user profile config).exec db fs = (.ok user, d₁, fs) ∧
        db' = { d₁ with identities := d₁.identities.insert (linkTo now ids.identity user profile) hi }) := by
  unfold linkOrCreate at h
  obtain ⟨found, d₁, w₁, h₁, hrest⟩ := Work.exec_bind_eq_ok h
  obtain ⟨rfl, hid⟩ := byIdentity_ok h₁
  rcases hid with ⟨hnone, rfl, rfl⟩ | ⟨identity, owner, hsome, rfl, ho, rfl⟩
  · obtain ⟨account, d₂, w₂, h₂, hlink⟩ := Work.exec_bind_eq_ok hrest
    obtain ⟨rfl, -⟩ := adoptOrCreate_ok h₂
    obtain ⟨d₃, ha, hdone⟩ := Work.statement_bind_eq_ok hlink
    obtain ⟨hi, rfl⟩ := addIdentity_ok ha
    simp only [Work.exec_pure, Prod.mk.injEq, Except.ok.injEq] at hdone
    obtain ⟨rfl, rfl, rfl⟩ := hdone
    exact ⟨rfl, .inr ⟨hnone, d₂, hi, h₂, rfl⟩⟩
  · simp only [Work.exec_pure, Prod.mk.injEq, Except.ok.injEq] at hrest
    obtain ⟨rfl, rfl, rfl⟩ := hrest
    exact ⟨rfl, .inl ⟨identity, hsome, ho, rfl⟩⟩

theorem linkOrCreate_known {ids : LinkIds} {identity : Identity} (hid : identityOf profile db = some identity)
    (howner : linkedOwner identity db = .ok user) :
    (linkOrCreate p now ids profile config).exec db fs =
      (.ok user, touchIdentity now identity.id db, fs) := by
  -- who it belongs to is read after its use is recorded
  have htouched : linkedOwner identity (touchIdentity now identity.id db) = .ok user := howner
  unfold linkOrCreate byIdentity
  rw [bind_assoc, Work.query_bind, hid]
  dsimp only
  rw [bind_assoc, Work.write_bind, bind_assoc, Work.exec_bind, Work.exec_check, htouched]
  rfl

/-- An account that is adopted is linked, whatever its state. -/
theorem linkOrCreate_adopts {ids : LinkIds} (hnone : identityOf profile db = none)
    (hadopt : adoptable p profile db = some user) (hid : ∀ i ∈ db.identities, i.id ≠ ids.identity) :
    ∃ db', (linkOrCreate p now ids profile config).exec db fs = (.ok user, db', fs) := by
  have hidentity : (byIdentity now profile).exec db fs = (.ok none, db, fs) := by
    unfold byIdentity
    rw [Work.query_bind, hnone]
    rfl
  have hexisting : (adoptOrCreate p ids.user profile config).exec db fs = (.ok user, db, fs) := by
    unfold adoptOrCreate
    rw [Work.query_bind, hadopt]
    rfl
  obtain ⟨db', hlink⟩ := addIdentity_isOk (i := linkTo now ids.identity user profile) hid hnone
  refine ⟨db', ?_⟩
  unfold linkOrCreate
  rw [Work.exec_bind_ok hidentity]
  dsimp only
  rw [Work.exec_bind_ok hexisting, Work.exec_bind, Work.exec_statement, hlink]
  rfl

/-- An account that a provider sign-in made has the handle it was allocated. -/
theorem linkOrCreate_users {ids : LinkIds}
    (h : (linkOrCreate p now ids profile config).exec db fs = (.ok user, db', fs')) :
    db'.users = db.users ∨ ∃ hu, db'.users = db.users.insert user hu ∧
      user.handle = Handles.allocate p db [profile.username, profile.email] := by
  obtain ⟨-, ⟨identity, -, -, rfl⟩ | ⟨-, d₁, hi, h₁, rfl⟩⟩ := linkOrCreate_steps h
  · exact .inl rfl
  · obtain ⟨-, ⟨-, rfl⟩ | ⟨-, -, hu, rfl, hprof⟩⟩ := adoptOrCreate_ok h₁
    · exact .inl rfl
    · exact .inr ⟨hu, rfl, by rw [hprof, profiled_handle]⟩

theorem linkOrCreate_ok {ids : LinkIds}
    (h : (linkOrCreate p now ids profile config).exec db fs = (.ok user, db', fs')) :
    fs' = fs ∧ Linked p now ids profile config db user db' := by
  obtain ⟨rfl, ⟨identity, hsome, ho, rfl⟩ | ⟨hnone, d₁, hi, h₁, rfl⟩⟩ := linkOrCreate_steps h
  · obtain ⟨hu, huid, hact⟩ := linkedOwner_ok ho
    exact ⟨rfl, .known hsome hu huid hact⟩
  · obtain ⟨-, ⟨hadopt, rfl⟩ | ⟨hadopt, hfree, hu, rfl, hprof⟩⟩ := adoptOrCreate_ok h₁
    · exact ⟨rfl, .adopted hnone hadopt⟩
    · exact ⟨rfl, .created (h := hu) hnone hadopt hfree hprof⟩

end Accounts
end SpikeHub.L4.Auth
