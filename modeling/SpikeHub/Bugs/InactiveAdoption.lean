import Mathlib.Data.Fintype.EquivFin
import SpikeHub.L5Runs.Requests

/-!
# A suspended account is adopted

Behaviour (hub_api/auth/accounts.py:106-158): `link_or_create` finds an account
by the identity, adopts one on a verified address, or creates one. `_by_identity`
refuses an account that is not active; `_adoptable` returns whatever account has
the address.

What the code says: "the linked account is not active" is a refusal of the same
function's first branch (accounts.py:142-143), and so it is of every credential
(auth/credentials.py:196-198, auth/sessions.py:60-61).

Counterexample: alice's account is suspended. A provider that says it verified
her address signs her in, with a new link to the account and a new session of
it.

When it does hold: exactly when a profile without an identity has no verified
address, or that of an active account, or of none (`guarded_iff`).
-/
namespace SpikeHub.Bugs.InactiveAdoption

open SpikeHub.Core SpikeHub.L1 SpikeHub.L2 SpikeHub.L4.Auth SpikeHub.L4.Auth.Accounts SpikeHub.L4.Routes
open SpikeHub.L5.Interleave (alice)
open SpikeHub.L5.Requests (plain trial)

/-- A call of `link_or_create`, in a session of its own. -/
def signingIn (p : Platform) (now : Time) (ids : LinkIds) (profile : OAuthProfile) (config : Settings)
    (db : Db) (fs : Volume) : Except Raised User × Db × Volume :=
  dbSession (committing (linkOrCreate p now ids profile config)) db fs

/-- The account is active, or the call raises and leaves the database as it
was; and the callback opens a session of an active account only. -/
structure Guarded (dep : Deployment) (now : Time) (profile : OAuthProfile) (db : Db) : Prop where
  account : ∀ ids fs res db' fs',
    signingIn dep.platform now ids profile dep.config db fs = (res, db', fs') →
      (∃ user, res = .ok user ∧ user.state = .active) ∨ ∃ e, res = .error e ∧ db' = db
  session : ∀ r agent fs res db' fs',
    dbSession (oauthCallback dep now r profile agent) db fs = (res, db', fs') →
      ∀ s ∈ db'.sessions, s ∈ db.sessions ∨ ∃ user ∈ db'.users, user.id = s.userId ∧ user.state = .active

/-- An account the profile would be linked to is active. -/
def AdoptsActive (p : Platform) (profile : OAuthProfile) (db : Db) : Prop :=
  identityOf profile db = none → ∀ user, adoptable p profile db = some user → user.state = .active

variable {p : Platform} {now : Time} {ids : LinkIds} {profile : OAuthProfile} {config : Settings}
  {db : Db} {fs : Volume} {user : User}

/-- Adoption does not ask for the account's state. -/
theorem signingIn_adopts (hnone : identityOf profile db = none)
    (hadopt : adoptable p profile db = some user) (hid : ∀ i ∈ db.identities, i.id ≠ ids.identity) :
    ∃ db', signingIn p now ids profile config db fs = (.ok user, db', fs) := by
  obtain ⟨db', hlinked⟩ : ∃ db', (linkOrCreate p now ids profile config).exec db fs = (.ok user, db', fs) :=
    linkOrCreate_adopts hnone hadopt hid
  refine ⟨db', ?_⟩
  unfold signingIn
  rw [dbSession_commit, hlinked]

theorem exists_fresh (db : Db) : ∃ id : Uuid, ∀ i ∈ db.identities, i.id ≠ id := by
  obtain ⟨id, hid⟩ := Infinite.exists_notMem_finset (db.identities.rows.map Identity.id).toFinset
  refine ⟨id, fun i hi he => hid ?_⟩
  rw [List.mem_toFinset, List.mem_map]
  exact ⟨i, hi, he⟩

/-- The account a sign-in leads to. -/
theorem linked_active {db' : Db} (hadopts : AdoptsActive p profile db)
    (h : Linked p now ids profile config db user db') : user ∈ db'.users ∧ user.state = .active := by
  cases h with
  | known _ hu _ hactive => exact ⟨hu, hactive⟩
  | adopted hnone hadopt =>
    have hfound := hadopt
    unfold adoptable at hfound
    split at hfound
    · cases hfound
    · exact ⟨(byEmail_some hfound).1, hadopts hnone user hadopt⟩
  | created _ _ _ hprofiled =>
    rename_i hu _
    refine ⟨Table.mem_insert_self hu, ?_⟩
    rw [hprofiled]
    rfl

/-- The adopted account is what the sign-in returns. -/
theorem adopts_of_guarded {dep : Deployment} (h : Guarded dep now profile db) :
    AdoptsActive dep.platform profile db := by
  intro hnone user hadopt
  obtain ⟨id, hid⟩ := exists_fresh db
  have hsign : ∃ db', signingIn dep.platform now ⟨0, id⟩ profile dep.config db (.empty _) =
      (.ok user, db', .empty _) := signingIn_adopts hnone hadopt hid
  obtain ⟨db', hsign⟩ := hsign
  rcases h.account _ _ _ _ _ hsign with ⟨found, hfound, hactive⟩ | ⟨e, he, -⟩
  · rw [← Except.ok.inj hfound] at hactive
    exact hactive
  · cases he

/-- The session the callback opens is that account's. -/
theorem opened_active {dep : Deployment} {r : Rand} {agent : String} {res : Except Raised Reply}
    {db' : Db} {fs' : Volume} (hadopts : AdoptsActive dep.platform profile db)
    (hroute : dbSession (oauthCallback dep now r profile agent) db fs = (res, db', fs')) :
    ∀ s ∈ db'.sessions, s ∈ db.sessions ∨ ∃ user ∈ db'.users, user.id = s.userId ∧ user.state = .active := by
  intro s hs
  have heffect : Effect dep now r {} db (.oauthCallback profile agent) res db' :=
    effect_of_oauthCallback hroute
  cases heffect with
  | quiet => exact .inl hs
  | uploaded hup => cases hup
  | linked hlink hopen =>
    obtain ⟨hu, hactive⟩ := linked_active hadopts hlink
    obtain ⟨hnew, rfl⟩ := hopen.row
    rcases (Table.mem_insert (h := hnew)).mp hs with hs | rfl
    · cases hlink with
      | known => exact .inl hs
      | adopted => exact .inl hs
      | created => exact .inl hs
    · exact .inr ⟨_, hu, rfl, hactive⟩

theorem guarded_iff (dep : Deployment) (now : Time) (profile : OAuthProfile) (db : Db) :
    Guarded dep now profile db ↔ AdoptsActive dep.platform profile db := by
  constructor
  · exact adopts_of_guarded
  · intro hadopts
    refine ⟨fun ids fs res db' fs' hsign => ?_, fun r agent fs res db' fs' => opened_active hadopts⟩
    rcases committing_cases hsign with ⟨e, rfl, rfl⟩ | ⟨user, rfl, hx⟩
    · exact .inr ⟨e, rfl, rfl⟩
    · exact .inl ⟨user, rfl, (linked_active hadopts (linkOrCreate_ok hx).2).2⟩

/-! ## A suspended account -/

def suspendedAlice : User := { alice with state := .suspended }

def suspended : Db := .ofUsers ⟨[suspendedAlice], List.pairwise_singleton _ _⟩

/-- A provider account without a link, and alice's address. -/
def aliceProfile : OAuthProfile where
  provider := "github"
  subject := "1"
  email := alice.email
  emailVerified := true

/-- She is signed in, with an account that is not active. -/
theorem not_guarded : ¬ ∀ (dep : Deployment) (now : Time) (profile : OAuthProfile) (db : Db),
    Guarded dep now profile db := by
  intro h
  have hsign : (signingIn plain 0 ⟨10, 11⟩ aliceProfile {} suspended (.empty _)).1 = .ok suspendedAlice := by
    decide +kernel
  rcases hx : signingIn plain 0 ⟨10, 11⟩ aliceProfile {} suspended (.empty _) with ⟨res, db', fs'⟩
  rw [hx] at hsign
  dsimp only at hsign
  rcases (h trial 0 aliceProfile suspended).account _ _ _ _ _ hx with ⟨user, hok, hactive⟩ | ⟨e, he, -⟩
  · rw [hsign, Except.ok.injEq] at hok
    rw [← hok] at hactive
    cases hactive
  · rw [hsign] at he
    cases he

end SpikeHub.Bugs.InactiveAdoption
