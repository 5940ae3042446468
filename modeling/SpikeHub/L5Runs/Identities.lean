import SpikeHub.L5Runs.Parties
import SpikeHub.L5Runs.Requests

/-!
# Provider accounts and what they are bound to

Any run of `register` and `link_or_create`, each call in a session of its own,
with whatever profiles: the provider's word is not taken for anything here, as
it is in `Parties`.

A link to a provider account is never removed and never led to another account
(`bound_run`), and while it is there the first rule of `link_or_create` wins:
nothing is adopted, created or linked (`bound_once`).
-/
namespace SpikeHub.L5.Identities

open SpikeHub.Core SpikeHub.L1 SpikeHub.L2 SpikeHub.L4.Auth SpikeHub.L4.Routes
open SpikeHub.L5.Interleave (Hub alice oneAccount)
open SpikeHub.L5.Parties (registering linking linking_ok called_error called_cases)
open SpikeHub.L5.Requests (trial)

inductive Call
  | tick (d : Nat)
  | register (email password salt : String)
  | linkOrCreate (profile : OAuthProfile)

def step (dep : Deployment) (h : Hub) : Call → Hub
  | .tick d => { h with now := h.now + d }
  | .register email password salt => (registering dep email password salt h).2
  | .linkOrCreate profile => (linking dep profile h).2

/-- The calls from any state on. -/
def lts (dep : Deployment) : LTS Hub Call where
  init _ := True
  step h c h' := h' = step dep h c

/-- The provider account is linked to `u`. -/
def Bound (provider subject : String) (u : Uuid) (db : Db) : Prop :=
  ∃ i ∈ db.identities, i.provider = provider ∧ i.subject = subject ∧ i.userId = u

/-- The link, whenever it was used. -/
def unused (i : Identity) : Identity := { i with lastUsedAt := none }

/-- The same accounts and the same links, perhaps used. -/
structure SameLinks (db db' : Db) : Prop where
  users : db'.users = db.users
  links : db'.identities.rows.map unused = db.identities.rows.map unused

/-- How many links a provider account has. -/
def links (provider subject : String) (db : Db) : Nat :=
  db.identities.count fun i => i.provider = provider ∧ i.subject = subject

variable {dep : Deployment} {h h' : Hub} {c : Call} {cs : List Call} {db db' : Db} {u : Uuid}
  {provider subject : String} {profile : OAuthProfile} {now : Time} {id : Uuid}

/-! ## One call -/

theorem sameLinks_touch : SameLinks db (Accounts.touchIdentity now id db) where
  users := rfl
  links := by
    show (db.identities.rows.map _).map unused = _
    rw [List.map_map]
    refine List.map_congr_left fun i _ => ?_
    simp only [Function.comp]
    split <;> rfl

theorem SameLinks.bound (h : SameLinks db db') (hb : Bound provider subject u db) :
    Bound provider subject u db' := by
  obtain ⟨i, hi, hkey⟩ := hb
  have hlink : unused i ∈ db'.identities.rows.map unused := by
    rw [h.links]
    exact List.mem_map_of_mem hi
  obtain ⟨j, hj, he⟩ := List.mem_map.mp hlink
  refine ⟨j, hj, ?_⟩
  cases i
  cases j
  cases he
  exact hkey

theorem bound_of_subset (hsub : ∀ i ∈ db.identities, i ∈ db'.identities)
    (hb : Bound provider subject u db) : Bound provider subject u db' := by
  obtain ⟨i, hi, hkey⟩ := hb
  exact ⟨i, hsub i hi, hkey⟩

theorem bound_linked {ids : Accounts.LinkIds} {user : User}
    (hl : Accounts.Linked dep.platform now ids profile dep.config db user db')
    (hb : Bound provider subject u db) : Bound provider subject u db' := by
  cases hl with
  | known => exact sameLinks_touch.bound hb
  | adopted =>
    rename_i hi _
    exact bound_of_subset (fun _ => Table.mem_insert_of_mem hi) hb
  | created =>
    rename_i hi _
    exact bound_of_subset (fun _ => Table.mem_insert_of_mem hi) hb

theorem bound_step (hb : Bound provider subject u h.db) (hs : (lts dep).step h c h') :
    Bound provider subject u h'.db := by
  cases hs
  cases c with
  | tick => exact hb
  | register email password salt =>
    rcases hx : registering dep email password salt h with ⟨res, hub⟩
    show Bound provider subject u (registering dep email password salt h).2.db
    rw [hx]
    rcases called_cases hx with ⟨e, -, hdb⟩ | ⟨user, -, hok⟩
    · exact hdb ▸ hb
    · obtain ⟨-, hu, hdb, -⟩ := Accounts.register_ok hok
      exact bound_of_subset (fun i hi => hdb ▸ hi) hb
  | linkOrCreate profile =>
    rcases hx : linking dep profile h with ⟨res, hub⟩
    show Bound provider subject u (linking dep profile h).2.db
    rw [hx]
    cases res with
    | error e => exact called_error hx ▸ hb
    | ok user => exact bound_linked (linking_ok hx) hb

/-- A link stays, and stays where it is. -/
theorem bound_run (hb : Bound provider subject u h.db) (hr : (lts dep).Run h cs h') :
    Bound provider subject u h'.db :=
  hr.keeps (P := fun h => Bound provider subject u h.db) (fun _ _ _ hb hs => bound_step hb hs) hb

/-! ## A provider account that is linked -/

theorem identityOf_bound (hb : Bound profile.provider profile.subject u db) :
    ∃ i, Accounts.identityOf profile db = some i ∧ i.userId = u := by
  obtain ⟨i, hi, hprovider, hsubject, hu⟩ := hb
  refine ⟨i, Table.find?_eq hi (by simp [hprovider, hsubject]) fun j _ hj => .inr ?_, hu⟩
  simpa [hprovider, hsubject] using hj

/-- The first rule wins. -/
theorem linked_bound {ids : Accounts.LinkIds} {user : User}
    (hl : Accounts.Linked dep.platform now ids profile dep.config db user db')
    (hb : Bound profile.provider profile.subject u db) : user.id = u ∧ SameLinks db db' := by
  obtain ⟨i, hi, hu⟩ := identityOf_bound hb
  cases hl with
  | known hknown _ howner _ =>
    rw [hi, Option.some.injEq] at hknown
    rw [howner, ← hknown, hu]
    exact ⟨rfl, sameLinks_touch⟩
  | adopted hnone => rw [hi] at hnone; cases hnone
  | created hnone => rw [hi] at hnone; cases hnone

theorem links_bound (hb : Bound provider subject u db) : links provider subject db = 1 := by
  obtain ⟨i, hi, hprovider, hsubject, -⟩ := hb
  refine Table.count_eq_one hi (by simp [hprovider, hsubject]) fun j _ hj => .inr ?_
  simpa [hprovider, hsubject] using hj

/-- **A provider account is bound once.** -/
theorem bound_once (dep : Deployment) (h h' : Hub) (cs : List Call) (provider subject : String)
    (u : Uuid) (hb : Bound provider subject u h.db) (hr : (lts dep).Run h cs h')
    (profile : OAuthProfile) (hprovider : profile.provider = provider)
    (hsubject : profile.subject = subject) (res : Except Raised User) (hub : Hub)
    (hx : linking dep profile h' = (res, hub)) :
    (∀ user, res = .ok user → user.id = u) ∧ SameLinks h'.db hub.db ∧
      links provider subject hub.db = 1 := by
  have hbound := bound_run hb hr
  subst hprovider hsubject
  cases res with
  | error e =>
    have hdb := called_error hx
    refine ⟨fun _ he => (by cases he), ?_, links_bound (hdb ▸ hbound)⟩
    exact ⟨congrArg Db.users hdb, by rw [hdb]⟩
  | ok user =>
    obtain ⟨hid, hsame⟩ := linked_bound (linking_ok hx) hbound
    refine ⟨fun found he => ?_, hsame, links_bound (hsame.bound hbound)⟩
    cases he
    exact hid

/-! ## A provider account whose address changed -/

/-- Alice's provider account, with the address it has by then. -/
def githubOne (email : String) : OAuthProfile where
  provider := "github"
  subject := "1"
  email := email
  emailVerified := true

/-- Alice has linked it. -/
def linkedOne : Hub :=
  step trial ⟨0, .ofUsers oneAccount, .empty _, 100⟩ (.linkOrCreate (githubOne "alice@example.org"))

def bobRegisters : Call := .register "bob@example.org" "correct horse" "salt"

theorem bound_to_alice : ∃ user hub,
    linking trial (githubOne "bob@example.org") (step trial linkedOne bobRegisters) = (.ok user, hub) ∧
      user.id = alice.id ∧ SameLinks (step trial linkedOne bobRegisters).db hub.db ∧
        links "github" "1" hub.db = 1 := by
  have hb : Bound "github" "1" alice.id linkedOne.db := by
    unfold Bound
    decide +kernel
  have hok : (linking trial (githubOne "bob@example.org")
      (step trial linkedOne bobRegisters)).1.toOption.isSome = true := by decide +kernel
  rcases hx : linking trial (githubOne "bob@example.org") (step trial linkedOne bobRegisters) with ⟨res, hub⟩
  obtain ⟨hid, hsame, hone⟩ := bound_once trial linkedOne (step trial linkedOne bobRegisters) [bobRegisters]
    "github" "1" alice.id hb (.cons rfl (.nil _)) (githubOne "bob@example.org") rfl rfl res hub hx
  rw [hx] at hok
  cases res with
  | error e => cases hok
  | ok user => exact ⟨user, hub, rfl, hid user rfl, hsame, hone⟩

end SpikeHub.L5.Identities
