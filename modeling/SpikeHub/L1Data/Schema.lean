import SpikeHub.Core.Table
import SpikeHub.L1Data.Settings

/-!
# The schema

The tables of `hub_api/db/models`, with their primary keys and the declared
unique constraints as `Record` instances, and the database `Db` they make up.
The foreign key of a version to its model is a field of `Db`: every version
has an owner. Ids come from `uuid4`; a defaulted timestamp is the time of the
insert.

Limitations: the tables take texts as they come. Where it matters which texts
PostgreSQL refuses, it is said that they are not among these (`Takes`).
-/
namespace SpikeHub.L1

open SpikeHub.Core

/-- A text column, of a width or none, takes the text: there is no NUL in it,
and it is not too long. -/
def Takes (width : Option Nat) (text : String) : Prop :=
  '\x00' ∉ text.toList ∧ ∀ w ∈ width, text.length ≤ w

instance (width : Option Nat) (text : String) : Decidable (Takes width text) :=
  inferInstanceAs (Decidable (_ ∧ _))

inductive UserState
  | active | suspended | deleted
deriving DecidableEq, Repr

/-- mirrors hub_api/db/models/user.py:19-60 -/
structure User where
  id : Uuid
  handle : String
  email : String
  emailVerified : Bool := false
  passwordHash : Option String := none
  displayName : String := ""
  avatarUrl : String := ""
  storageLimit : Int
  canPublish : Bool := false
  tokenVersion : Nat := 0
  state : UserState := .active
deriving DecidableEq, Repr

instance : Record User where
  clash a b := a.id = b.id ∨ a.handle = b.handle ∨ a.email = b.email
  refl _ := .inl rfl
  symm h := h.imp Eq.symm (Or.imp Eq.symm Eq.symm)

/-- mirrors hub_api/db/models/identity.py:12-45 -/
structure Identity where
  id : Uuid
  userId : Uuid
  provider : String
  subject : String
  email : String := ""
  lastUsedAt : Option Time := none
deriving DecidableEq, Repr

instance : Record Identity where
  clash a b := a.id = b.id ∨ (a.provider = b.provider ∧ a.subject = b.subject)
  refl _ := .inl rfl
  symm h := h.imp Eq.symm (And.imp Eq.symm Eq.symm)

/-- mirrors hub_api/db/models/session.py:12-39 -/
structure Session where
  id : Uuid
  tokenHash : String
  userId : Uuid
  lastSeenAt : Time
  expiresAt : Time
  revokedAt : Option Time := none
  userAgent : String := ""
  ipHash : String := ""
deriving DecidableEq, Repr

instance : Record Session where
  clash a b := a.id = b.id ∨ a.tokenHash = b.tokenHash
  refl _ := .inl rfl
  symm h := h.imp Eq.symm Eq.symm

inductive TokenKind
  | access | refresh | pat
deriving DecidableEq, Repr

inductive Scope
  | read | write
deriving DecidableEq, Repr

/-- mirrors hub_api/db/models/token.py:19-47 -/
structure Token where
  id : Uuid
  tokenHash : String
  userId : Uuid
  kind : TokenKind
  name : String := ""
  scopes : List Scope := []
  chainId : Uuid
  expiresAt : Option Time := none
  revokedAt : Option Time := none
  lastUsedAt : Option Time := none
deriving DecidableEq, Repr

instance : Record Token where
  clash a b := a.id = b.id ∨ a.tokenHash = b.tokenHash
  refl _ := .inl rfl
  symm h := h.imp Eq.symm Eq.symm

inductive ModelState
  | active | hidden | takedown
deriving DecidableEq, Repr

inductive Visibility
  | «public» | «private»
deriving DecidableEq, Repr

/-- mirrors hub_api/db/models/hub_model.py:19-57 -/
structure HubModel where
  id : Uuid
  ownerId : Uuid
  slug : String
  visibility : Visibility := .public
  state : ModelState := .active
  license : String
  dataset : String := ""
  datasetLicense : String := ""
  datasetAttribution : String := ""
  summary : String := ""
  description : String := ""
  createdAt : Time
deriving DecidableEq, Repr

instance : Record HubModel where
  clash a b := a.id = b.id ∨ (a.ownerId = b.ownerId ∧ a.slug = b.slug)
  refl _ := .inl rfl
  symm h := h.imp Eq.symm (And.imp Eq.symm Eq.symm)

inductive VersionState
  | reserved | uploaded | verifying | published | rejected | deleted
deriving DecidableEq, Repr

namespace VersionState

/-- The column's text. -/
def text : VersionState → String
  | reserved => "reserved"
  | uploaded => "uploaded"
  | verifying => "verifying"
  | published => "published"
  | rejected => "rejected"
  | deleted => "deleted"

/-- The `STORED` states: bytes on disk, counted against a quota. -/
def stored : VersionState → Bool
  | uploaded | verifying | published | rejected => true
  | reserved | deleted => false

end VersionState

/-- The report of `_publish_unchecked`. -/
structure Verification where
  passed : Option Bool
  reason : String
deriving DecidableEq, Repr

/-- mirrors hub_api/db/models/model_version.py:26-67 -/
structure ModelVersion where
  id : Uuid
  modelId : Uuid
  version : String
  sha256 : String
  sizeBytes : Int
  objectKey : String := ""
  state : VersionState := .reserved
  verification : Option Verification := none
  downloadCount : Nat := 0
  createdAt : Time
  publishedAt : Option Time := none
  expiresAt : Option Time := none
deriving DecidableEq, Repr

instance : Record ModelVersion where
  clash a b := a.id = b.id ∨ (a.modelId = b.modelId ∧ a.version = b.version)
  refl _ := .inl rfl
  symm h := h.imp Eq.symm (And.imp Eq.symm Eq.symm)

inductive Reason
  | commit | delete | adminAdjust
deriving DecidableEq, Repr

/-- mirrors hub_api/db/models/quota_entry.py:18-50 -/
structure QuotaEntry where
  id : Uuid
  userId : Uuid
  modelVersionId : Option Uuid
  deltaBytes : Int
  reason : Reason
  createdAt : Time
deriving DecidableEq, Repr

instance : Record QuotaEntry where
  clash a b := a.id = b.id
  refl _ := rfl
  symm h := h.symm

instance : DecidableRel (Record.clash (α := User)) := fun a b =>
  inferInstanceAs (Decidable (a.id = b.id ∨ a.handle = b.handle ∨ a.email = b.email))
instance : DecidableRel (Record.clash (α := Identity)) := fun a b =>
  inferInstanceAs (Decidable (a.id = b.id ∨ (a.provider = b.provider ∧ a.subject = b.subject)))
instance : DecidableRel (Record.clash (α := Session)) := fun a b =>
  inferInstanceAs (Decidable (a.id = b.id ∨ a.tokenHash = b.tokenHash))
instance : DecidableRel (Record.clash (α := Token)) := fun a b =>
  inferInstanceAs (Decidable (a.id = b.id ∨ a.tokenHash = b.tokenHash))
instance : DecidableRel (Record.clash (α := HubModel)) := fun a b =>
  inferInstanceAs (Decidable (a.id = b.id ∨ (a.ownerId = b.ownerId ∧ a.slug = b.slug)))
instance : DecidableRel (Record.clash (α := ModelVersion)) := fun a b =>
  inferInstanceAs (Decidable (a.id = b.id ∨ (a.modelId = b.modelId ∧ a.version = b.version)))
instance : DecidableRel (Record.clash (α := QuotaEntry)) := fun a b =>
  inferInstanceAs (Decidable (a.id = b.id))

structure Db where
  users : Table User := .empty
  identities : Table Identity := .empty
  sessions : Table Session := .empty
  tokens : Table Token := .empty
  models : Table HubModel := .empty
  versions : Table ModelVersion := .empty
  entries : Table QuotaEntry := .empty
  /-- `model_versions.model_id` references `models.id` -/
  modelKey : ∀ v ∈ versions, ∃ m ∈ models, m.id = v.modelId := by simp

namespace Db

/-- Accounts and their credentials, and nothing uploaded. -/
def ofUsers (users : Table User) (tokens : Table Token := .empty)
    (sessions : Table Session := .empty) : Db :=
  { users := users, tokens := tokens, sessions := sessions }

/-- Nothing at all. -/
def empty : Db := {}

def withVersions (db : Db) (t : Table ModelVersion)
    (h : ∀ v ∈ t, ∃ m ∈ db.models, m.id = v.modelId) : Db :=
  { db with versions := t, modelKey := h }

/-- More models; no statement of the service removes one. -/
def withModels (db : Db) (t : Table HubModel) (h : ∀ m ∈ db.models, m ∈ t) : Db where
  users := db.users
  identities := db.identities
  sessions := db.sessions
  tokens := db.tokens
  models := t
  versions := db.versions
  entries := db.entries
  modelKey v hv := by
    obtain ⟨m, hm, hid⟩ := db.modelKey v hv
    exact ⟨m, h m hm, hid⟩

def withEntries (db : Db) (t : Table QuotaEntry) : Db := { db with entries := t }

section
variable {db : Db} {tv : Table ModelVersion} {tm : Table HubModel} {te : Table QuotaEntry} {h h'}

@[simp] theorem withVersions_versions : (db.withVersions tv h).versions = tv := rfl
@[simp] theorem withVersions_users : (db.withVersions tv h).users = db.users := rfl
@[simp] theorem withVersions_models : (db.withVersions tv h).models = db.models := rfl
@[simp] theorem withVersions_entries : (db.withVersions tv h).entries = db.entries := rfl
@[simp] theorem withModels_models : (db.withModels tm h').models = tm := rfl
@[simp] theorem withModels_users : (db.withModels tm h').users = db.users := rfl
@[simp] theorem withModels_versions : (db.withModels tm h').versions = db.versions := rfl
@[simp] theorem withModels_entries : (db.withModels tm h').entries = db.entries := rfl
@[simp] theorem withEntries_entries : (db.withEntries te).entries = te := rfl
@[simp] theorem withEntries_users : (db.withEntries te).users = db.users := rfl
@[simp] theorem withEntries_models : (db.withEntries te).models = db.models := rfl
@[simp] theorem withEntries_versions : (db.withEntries te).versions = db.versions := rfl

end

variable (db : Db)

/-- `session.get(User, id)` -/
def user? (id : Uuid) : Option User := db.users.find? fun u => u.id = id

/-- The row is in one of `u`'s models: the join of a version with its model. -/
def ownedBy (u : Uuid) (v : ModelVersion) : Bool :=
  (db.models.find? fun m => m.id = v.modelId ∧ m.ownerId = u).isSome

end Db

variable {db : Db} {v w : ModelVersion} {m n : HubModel} {u : Uuid} {id : Uuid}

theorem version_eq (hv : v ∈ db.versions) (hw : w ∈ db.versions) (h : v.id = w.id) : v = w :=
  db.versions.eq_of_clash hv hw (.inl h)

theorem model_eq (hm : m ∈ db.models) (hn : n ∈ db.models) (h : m.id = n.id) : m = n :=
  db.models.eq_of_clash hm hn (.inl h)

theorem user?_eq_some {user : User} : db.user? id = some user ↔ user ∈ db.users ∧ user.id = id := by
  unfold Db.user?
  constructor
  · intro h
    obtain ⟨hu, hid⟩ := Table.find?_some h
    exact ⟨hu, by simpa using hid⟩
  · intro h
    exact Table.find?_eq h.1 (by simp [h.2]) fun w _ hw => .inl (by simpa [h.2] using hw)

theorem user?_isSome : (db.user? id).isSome = true ↔ ∃ user ∈ db.users, user.id = id := by
  simp only [Option.isSome_iff_exists, user?_eq_some]

theorem ownedBy_iff : db.ownedBy u v = true ↔ ∃ m ∈ db.models, m.id = v.modelId ∧ m.ownerId = u := by
  unfold Db.ownedBy
  rw [Option.isSome_iff_exists]
  constructor
  · rintro ⟨m, h⟩
    obtain ⟨hm, hp⟩ := Table.find?_some h
    exact ⟨m, hm, by simpa using hp⟩
  · rintro ⟨m, hm, hid, ho⟩
    exact ⟨m, Table.find?_eq hm (by simp [hid, ho]) fun n _ hn => .inl <| by
      simp only [decide_eq_true_eq] at hn; rw [hn.1, hid]⟩

/-- A version has one owner, -/
theorem owner_unique {u u' : Uuid} (h : db.ownedBy u v = true) (h' : db.ownedBy u' v = true) :
    u = u' := by
  obtain ⟨m, hm, hid, rfl⟩ := ownedBy_iff.mp h
  obtain ⟨n, hn, hid', rfl⟩ := ownedBy_iff.mp h'
  rw [model_eq hm hn (hid.trans hid'.symm)]

/-- and keeps it when models are added. -/
theorem ownedBy_grow {db' : Db} (hgrow : ∀ m ∈ db.models, m ∈ db'.models) (hv : v ∈ db.versions)
    (hw : w.modelId = v.modelId) : db'.ownedBy u w = db.ownedBy u v := by
  rw [Bool.eq_iff_iff, ownedBy_iff, ownedBy_iff, hw]
  constructor
  · rintro ⟨m, hm, hid, ho⟩
    obtain ⟨n, hn, hnid⟩ := db.modelKey v hv
    obtain rfl := model_eq hm (hgrow n hn) (hid.trans hnid.symm)
    exact ⟨m, hn, hid, ho⟩
  · rintro ⟨m, hm, h⟩
    exact ⟨m, hgrow m hm, h⟩

end SpikeHub.L1
