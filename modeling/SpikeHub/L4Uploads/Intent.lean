import SpikeHub.L2Storage.Volume
import SpikeHub.L3Quota.Usage
import SpikeHub.L3Quota.Limits

/-!
# Phase one: check everything, then reserve

Model of hub_api/uploads/intent.py. `reserve` reads the session's view of the
database and the volume's free space, and ends in one new `RESERVED` row, with
its model row when the slug is new. The ids `uuid4` hands out are `NewIds`.

`reserve_ok` is what a grant did and what it had checked (`Granted`);
`reserve_world` says that a reserve, granted or refused, leaves the volume
alone.
-/
namespace SpikeHub.L4.Uploads

open SpikeHub.Core SpikeHub.L1 SpikeHub.L2 SpikeHub.L3

abbrev HubWork := Work Db Volume Raised

/-- mirrors hub_api/uploads/intent.py:44-56 -/
structure UploadRequest where
  slug : String
  version : String
  sha256 : String
  sizeBytes : Int
  license : String
  dataset : String := ""
  datasetLicense : String := ""
  datasetAttribution : String := ""
  summary : String := ""
deriving DecidableEq, Repr

/-- The texts of a request, with the widths of the columns they are for. -/
def UploadRequest.texts (r : UploadRequest) : List (String × Option Nat) :=
  [(r.slug, some 64), (r.version, some 64), (r.sha256, some 64), (r.license, some 64), (r.dataset, some 64),
    (r.datasetLicense, some 64), (r.datasetAttribution, none), (r.summary, some 200)]

/-- The columns take the texts of the request, unless it is refused for its digest. -/
def UploadRequest.Storable (r : UploadRequest) : Prop :=
  isSha256 r.sha256 = true → ∀ t ∈ r.texts, Takes t.2 t.1

/-- A request its body model let through.
mirrors hub_api/schemas/uploads.py:9-42 -/
structure UploadIntent where
  request : UploadRequest
  positive : 0 < request.sizeBytes

/-- mirrors hub_api/uploads/intent.py:34-41 -/
structure Reservation where
  uploadId : Uuid
  modelId : Uuid
  expiresAtEpoch : Int
  sizeBytes : Int
deriving DecidableEq, Repr

/-- The ids the inserts of one `reserve` draw. -/
structure NewIds where
  model : Uuid
  version : Uuid

/-- mirrors hub_api/uploads/intent.py:59-71 -/
def checkPublisher (user : User) (config : Settings) : Check :=
  if ¬ user.emailVerified then
    refuse .forbidden ("verify your email address before publishing: an unproven " ++
      "address cannot receive the correspondence publishing implies")
  else if config.publishingGate = .open ∨ user.canPublish then .ok ()
  else
    refuse .forbidden ("publishing is invite-only on this deployment while moderation " ++
      "capacity is limited; browsing and downloading are unaffected")

/-- The comparison `_check_allowance` makes. -/
def checkFits (usage : Usage) (sizeBytes : Int) : Check :=
  if usage.canFit sizeBytes then .ok ()
  else
    refuse .quotaExceeded "this upload does not fit in the account's storage allowance"
      [("limit_bytes", .int usage.limitBytes), ("used_bytes", .int usage.usedBytes),
        ("reserved_bytes", .int usage.reservedBytes),
        ("available_bytes", .int usage.availableBytes), ("requested_bytes", .int sizeBytes)]

/-- mirrors hub_api/uploads/intent.py:95-109 -/
def checkAllowance (db : Db) (now : Time) (user : User) (sizeBytes : Int) : Check :=
  checkFits (usageFor db now user.id user.storageLimit) sizeBytes

/-- mirrors hub_api/uploads/intent.py:131-145 -/
def newModel (now : Time) (id : Uuid) (user : User) (request : UploadRequest) : HubModel where
  id := id
  ownerId := user.id
  slug := request.slug
  license := request.license
  dataset := request.dataset
  datasetLicense := request.datasetLicense
  datasetAttribution := request.datasetAttribution
  summary := request.summary
  createdAt := now

/-- mirrors hub_api/uploads/intent.py:171-181 -/
def newVersion (now : Time) (id modelId : Uuid) (request : UploadRequest) (config : Settings) :
    ModelVersion where
  id := id
  modelId := modelId
  version := request.version
  sha256 := request.sha256
  sizeBytes := request.sizeBytes
  state := .reserved
  createdAt := now
  expiresAt := some (now + seconds config.reservationTtlSeconds)

/-- `session.add(model)` and the flush. -/
def addModel (m : HubModel) (db : Db) : Except Raised Db :=
  if h : ∀ a ∈ db.models, ¬ Record.clash a m then
    .ok (db.withModels (db.models.insert m h) fun _ ha => Table.mem_insert.mpr (.inl ha))
  else .error .integrityError

/-- `session.add(version)` and the flush. -/
def addVersion (v : ModelVersion) (db : Db) : Except Raised Db :=
  if h : (∀ a ∈ db.versions, ¬ Record.clash a v) ∧ ∃ m ∈ db.models, m.id = v.modelId then
    .ok (db.withVersions (db.versions.insert v h.1) <| by
      intro a ha
      rcases Table.mem_insert.mp ha with ha | rfl
      · exact db.modelKey a ha
      · exact h.2)
  else .error .integrityError

def namedModel (db : Db) (userId : Uuid) (slug : String) : Option HubModel :=
  db.models.find? fun m => m.ownerId = userId ∧ m.slug = slug

/-- mirrors hub_api/uploads/intent.py:112-145 -/
def modelFor (now : Time) (id : Uuid) (user : User) (request : UploadRequest) (config : Settings) :
    HubWork HubModel := do
  match ← .query (namedModel · user.id request.slug) with
  | some found => return found
  | none =>
    .check (checkModelCount · user.id config)
    let created := newModel now id user request
    .statement (addModel created)
    return created

/-- mirrors hub_api/uploads/intent.py:148-162 -/
def checkVersionFree (db : Db) (modelId : Uuid) (request : UploadRequest) : Check :=
  refuseIf (db.versions.find? fun v => v.modelId = modelId ∧ v.version = request.version).isSome <|
    refuse .conflict (s!"version {pyRepr request.version} already exists; versions are " ++
      "immutable, so publish a new one instead")

/-- mirrors hub_api/uploads/intent.py:187-194 -/
def granted (v : ModelVersion) (expires : Time) : Reservation :=
  ⟨v.id, v.modelId, expires.tdiv 1000000, v.sizeBytes⟩

/-- mirrors hub_api/uploads/intent.py:165-184 -/
def openSlot (now : Time) (id : Uuid) (model : HubModel) (request : UploadRequest)
    (config : Settings) : HubWork Reservation := do
  .check (checkVersionFree · model.id request)
  let version := newVersion now id model.id request config
  .statement (addVersion version)
  return granted version (now + seconds config.reservationTtlSeconds)

/-- mirrors hub_api/uploads/intent.py:74-92 -/
def reserve (now : Time) (free : Volume → Int) (ids : NewIds) (user : User)
    (request : UploadRequest) (config : Settings) : HubWork Reservation := do
  .orRaise (checkPublisher user config)
  .orRaise (refuseIf (¬ isSha256 request.sha256)
    (refuse .conflict "sha256 must be a lowercase hex digest"))
  .orRaise (checkArtifactSize request.sizeBytes config)
  .check (checkDailyUploads · now user.id config)
  .check (checkAllowance · now user request.sizeBytes)
  .check (checkFootprint · request.sizeBytes config)
  .orRaise (checkFreeSpace (← .observe free) request.sizeBytes config)
  let model ← modelFor now ids.model user request config
  .check (checkVersionCount · model.id config)
  openSlot now ids.version model request config

/-! ## What a grant did -/

/-- The request's model: the one the account has under the slug, or a new row. -/
inductive ModelFor (now : Time) (id : Uuid) (user : User) (request : UploadRequest)
    (config : Settings) (db : Db) : HubModel → Db → Prop
  | found {m : HubModel} :
      namedModel db user.id request.slug = some m →
      ModelFor now id user request config db m db
  | created {h h'} :
      namedModel db user.id request.slug = none →
      checkModelCount db user.id config = .ok () →
      ModelFor now id user request config db (newModel now id user request)
        (db.withModels (db.models.insert (newModel now id user request) h) h')

/-- A granted `reserve`: the checks it passed and the rows it added. -/
structure Granted (now : Time) (free : Int) (ids : NewIds) (user : User) (request : UploadRequest)
    (config : Settings) (db db' : Db) : Prop where
  publisher : checkPublisher user config = .ok ()
  digest : isSha256 request.sha256 = true
  size : request.sizeBytes ≤ config.maxArtifactBytes
  daily : (startedSince db user.id (now - day) : Int) < config.maxUploadsPerDay
  allowance : (usageFor db now user.id user.storageLimit).canFit request.sizeBytes = true
  footprint : totalStoredBytes db + request.sizeBytes ≤ config.footprintCapBytes
  freeSpace : config.volumeFreeFloorBytes ≤ free - request.sizeBytes
  rows : ∃ m db₁, ModelFor now ids.model user request config db m db₁ ∧
    (versionCount db₁ m.id : Int) < config.maxVersionsPerModel ∧
    (∀ v ∈ db₁.versions, v.modelId = m.id → v.version ≠ request.version) ∧
    ∃ h h', db' =
      db₁.withVersions (db₁.versions.insert (newVersion now ids.version m.id request config) h) h'

variable {now : Time} {free : Volume → Int} {ids : NewIds} {user : User} {request : UploadRequest}
  {config : Settings} {db db' : Db} {fs fs' : Volume}

theorem addModel_ok {m : HubModel} (h : addModel m db = .ok db') :
    ∃ hm hm', db' = db.withModels (db.models.insert m hm) hm' := by
  unfold addModel at h
  split at h
  · exact ⟨_, _, (Except.ok.inj h).symm⟩
  · cases h

theorem addVersion_ok {v : ModelVersion} (h : addVersion v db = .ok db') :
    ∃ hv hv', db' = db.withVersions (db.versions.insert v hv) hv' := by
  unfold addVersion at h
  split at h
  · exact ⟨_, _, (Except.ok.inj h).symm⟩
  · cases h

theorem checkPublisher_ok : checkPublisher user config = .ok () ↔
    user.emailVerified = true ∧ (config.publishingGate = .open ∨ user.canPublish = true) := by
  unfold checkPublisher refuse
  split
  · rename_i h
    simp [h]
  · rename_i h
    split
    · rename_i hgate
      exact ⟨fun _ => ⟨by simpa using h, hgate⟩, fun _ => rfl⟩
    · rename_i hgate
      simp [hgate]

theorem checkFits_ok {usage : Usage} {n : Int} (h : checkFits usage n = .ok ()) :
    usage.canFit n = true := by
  unfold checkFits at h
  split at h
  · assumption
  · cases h

theorem checkVersionFree_ok {modelId : Uuid} (h : checkVersionFree db modelId request = .ok ()) :
    ∀ v ∈ db.versions, v.modelId = modelId → v.version ≠ request.version := by
  unfold checkVersionFree refuse at h
  rw [refuseIf_ok, Option.isSome_iff_ne_none, not_not] at h
  intro v hv hm he
  simpa [hm, he] using Table.find?_none h hv

theorem modelFor_ok {id : Uuid} {m : HubModel}
    (h : (modelFor now id user request config).exec db fs = (.ok m, db', fs')) :
    fs' = fs ∧ ModelFor now id user request config db m db' := by
  unfold modelFor at h
  obtain ⟨found, d₁, w₁, h₁, h⟩ := Work.exec_bind_eq_ok h
  cases h₁
  dsimp only at h
  cases hn : namedModel db user.id request.slug with
  | some m' =>
    rw [hn] at h
    cases h
    exact ⟨rfl, .found hn⟩
  | none =>
    rw [hn] at h
    obtain ⟨_, hc, h⟩ := Work.check_bind_eq_ok h
    obtain ⟨_, d₁, w₁, h₁, h⟩ := Work.exec_bind_eq_ok h
    cases h
    rw [Work.exec_statement] at h₁
    split at h₁
    · rename_i d ha
      cases h₁
      obtain ⟨hm, hm', rfl⟩ := addModel_ok ha
      exact ⟨rfl, .created hn hc⟩
    · cases h₁

theorem openSlot_ok {id : Uuid} {m : HubModel} {slot : Reservation}
    (h : (openSlot now id m request config).exec db fs = (.ok slot, db', fs')) :
    fs' = fs ∧ slot = granted (newVersion now id m.id request config)
        (now + seconds config.reservationTtlSeconds) ∧
      (∀ v ∈ db.versions, v.modelId = m.id → v.version ≠ request.version) ∧
      ∃ hv hv', db' =
        db.withVersions (db.versions.insert (newVersion now id m.id request config) hv) hv' := by
  unfold openSlot at h
  obtain ⟨_, hfree, h⟩ := Work.check_bind_eq_ok h
  obtain ⟨_, d₁, w₁, h₁, h⟩ := Work.exec_bind_eq_ok h
  cases h
  rw [Work.exec_statement] at h₁
  split at h₁
  · rename_i d ha
    cases h₁
    exact ⟨rfl, rfl, checkVersionFree_ok hfree, addVersion_ok ha⟩
  · cases h₁

theorem reserve_ok {slot : Reservation}
    (h : (reserve now free ids user request config).exec db fs = (.ok slot, db', fs')) :
    fs' = fs ∧ slot.uploadId = ids.version ∧
      Granted now (free fs) ids user request config db db' := by
  unfold reserve at h
  obtain ⟨_, hpub, h⟩ := Work.orRaise_bind_eq_ok h
  obtain ⟨_, hsha, h⟩ := Work.orRaise_bind_eq_ok h
  obtain ⟨_, hsize, h⟩ := Work.orRaise_bind_eq_ok h
  obtain ⟨_, hdaily, h⟩ := Work.check_bind_eq_ok h
  obtain ⟨_, hallow, h⟩ := Work.check_bind_eq_ok h
  obtain ⟨_, hfoot, h⟩ := Work.check_bind_eq_ok h
  obtain ⟨_, d₁, w₁, h₁, h⟩ := Work.exec_bind_eq_ok h
  cases h₁
  obtain ⟨_, hfree, h⟩ := Work.orRaise_bind_eq_ok h
  obtain ⟨m, d₁, w₁, hmodel, hslot⟩ := Work.exec_bind_eq_ok h
  obtain ⟨rfl, hm⟩ := modelFor_ok hmodel
  obtain ⟨_, hcount, hslot⟩ := Work.check_bind_eq_ok hslot
  obtain ⟨rfl, rfl, hnew, hv⟩ := openSlot_ok hslot
  refine ⟨rfl, rfl, hpub, ?_, checkArtifactSize_ok.mp hsize, checkCount_ok.mp hdaily,
    checkFits_ok hallow, checkFootprint_ok.mp hfoot, checkFreeSpace_ok.mp hfree,
    m, d₁, hm, checkCount_ok.mp hcount, hnew, hv⟩
  unfold refuse at hsha
  simpa using refuseIf_ok.mp hsha

/-- A grant adds no model but one of the account's, as it is made. -/
theorem Granted.models {n : Int} {m : HubModel} (h : Granted now n ids user request config db db')
    (hm : m ∈ db'.models) : m ∈ db.models ∨ m = newModel now ids.model user request := by
  obtain ⟨target, db₁, htarget, -, -, hv, hv', rfl⟩ := h.rows
  cases htarget with
  | found => exact .inl hm
  | created =>
    rename_i hnew _ _ _
    exact (Table.mem_insert (h := hnew)).mp hm

open Work in
/-- A reserve touches no file. -/
theorem reserve_world : KeepsWorld (reserve now free ids user request config) := by
  refine (keepsWorld_orRaise _).bind fun _ => (keepsWorld_orRaise _).bind fun _ =>
    (keepsWorld_orRaise _).bind fun _ => (keepsWorld_check _).bind fun _ =>
    (keepsWorld_check _).bind fun _ => (keepsWorld_check _).bind fun _ =>
    (keepsWorld_observe _).bind fun _ => (keepsWorld_orRaise _).bind fun _ =>
    KeepsWorld.bind ?_ fun m => (keepsWorld_check _).bind fun _ => (keepsWorld_check _).bind fun _ =>
    (keepsWorld_statement _).bind fun _ => keepsWorld_pure _
  refine (keepsWorld_query _).bind fun found => ?_
  cases found with
  | some m => exact keepsWorld_pure m
  | none =>
    exact (keepsWorld_check _).bind fun _ => (keepsWorld_statement _).bind fun _ =>
      keepsWorld_pure _

/-- Nothing but, perhaps, a new model. -/
structure OnlyModels (db db' : Db) : Prop where
  versions : db'.versions = db.versions
  entries : db'.entries = db.entries
  users : db'.users = db.users
  models : ∀ m ∈ db.models, m ∈ db'.models

theorem OnlyModels.refl (db : Db) : OnlyModels db db := ⟨rfl, rfl, rfl, fun _ h => h⟩

theorem OnlyModels.trans {db'' : Db} (h : OnlyModels db db') (h' : OnlyModels db' db'') :
    OnlyModels db db'' where
  versions := h'.versions.trans h.versions
  entries := h'.entries.trans h.entries
  users := h'.users.trans h.users
  models m hm := h'.models m (h.models m hm)

open Work in
theorem modelFor_changes {id : Uuid} : Changes OnlyModels (modelFor now id user request config) := by
  have hsame : ∀ {α : Type} {m : HubWork α}, m.KeepsView → Changes OnlyModels m :=
    changes_view OnlyModels.refl
  refine Changes.bind OnlyModels.trans (hsame fun _ _ => rfl) fun found => ?_
  cases found with
  | some m => exact hsame fun _ _ => rfl
  | none =>
    refine Changes.bind OnlyModels.trans (hsame fun _ _ => rfl) fun _ => ?_
    refine Changes.bind OnlyModels.trans (fun d w => ?_) fun _ => hsame fun _ _ => rfl
    rw [exec_statement]
    cases ha : addModel (newModel now id user request) d with
    | error e => exact .refl d
    | ok d' =>
      obtain ⟨hm, hm', rfl⟩ := addModel_ok ha
      exact ⟨rfl, rfl, rfl, hm'⟩

open Work in
/-- A refused reserve has reserved nothing. -/
theorem reserve_raises : Raises OnlyModels (reserve now free ids user request config) := by
  have hsame : ∀ {α : Type} {m : HubWork α}, m.KeepsView → Changes OnlyModels m :=
    changes_view OnlyModels.refl
  have hcheck : ∀ {α β : Type} {m : HubWork α} {f : α → HubWork β}, m.KeepsView →
      (∀ a, Raises OnlyModels (f a)) → Raises OnlyModels (m >>= f) :=
    fun h hf => Changes.raises OnlyModels.trans (hsame h) hf
  refine hcheck (fun _ _ => rfl) fun _ => hcheck (fun _ _ => rfl) fun _ =>
    hcheck (fun _ _ => rfl) fun _ => hcheck (fun _ _ => rfl) fun _ =>
    hcheck (fun _ _ => rfl) fun _ => hcheck (fun _ _ => rfl) fun _ =>
    hcheck (fun _ _ => rfl) fun _ => hcheck (fun _ _ => rfl) fun _ =>
    Changes.raises OnlyModels.trans modelFor_changes fun m => hcheck (fun _ _ => rfl) fun _ =>
    hcheck (fun _ _ => rfl) fun _ => ?_
  -- the insert is the last thing that can raise
  intro d w e
  rw [exec_bind, exec_statement]
  cases addVersion (newVersion now ids.version m.id request config) d with
  | error e => intro _; exact .refl d
  | ok d' => intro he; cases he

end SpikeHub.L4.Uploads
