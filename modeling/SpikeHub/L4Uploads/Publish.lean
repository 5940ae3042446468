import SpikeHub.L4Uploads.Receive

/-!
# Phase three, and the janitor

Models of hub_api/uploads/publish.py and hub_api/uploads/janitor.py.
`publishedAs` is the check and the new attributes; the flush is the same
`UPDATE` by primary key as in `receive`. `sweep` selects the expired
reservations, discards their staged files and deletes the selected rows.
-/
namespace SpikeHub.L4.Uploads

open SpikeHub.Core SpikeHub.L1 SpikeHub.L2

/-- `_owned_version`.
mirrors hub_api/routes/uploads.py:109-120 -/
def ownedVersion (db : Db) (uploadId userId : Uuid) : Except Raised ModelVersion :=
  match db.versions.find? fun v => v.id = uploadId ∧ db.ownedBy userId v with
  | some found => .ok found
  | none => refuse .notFound "no such upload for this account"

/-- mirrors hub_api/uploads/publish.py:39-47 -/
def publishUnchecked (now : Time) (version : ModelVersion) : ModelVersion :=
  { version with
    state := .published
    publishedAt := some now
    verification := some ⟨none, "no verification plane is configured on this deployment, " ++
      "so this artifact carries no machine checks beyond its checksum"⟩ }

/-- The columns `publish` sets. -/
def movedOn (now : Time) (config : Settings) (version : ModelVersion) : ModelVersion :=
  if config.requireVerification then { version with state := .verifying }
  else publishUnchecked now version

def checkUploaded (version : ModelVersion) : Check :=
  refuseIf (version.state ≠ .uploaded) <|
    refuse .conflict (s!"this version is {version.state.text}; only a received upload can " ++
      "be committed")

theorem movedOn_keys (now : Time) (config : Settings) : KeepsKeys (movedOn now config) := by
  refine ⟨fun v => ?_, fun v => ?_, fun v => ?_⟩ <;> unfold movedOn <;> split <;> rfl

/-- `UPDATE` of the row `publish` changed. -/
def storePublished (now : Time) (config : Settings) (id : Uuid) : Db → Except Raised Db :=
  updateVersion id (movedOn now config) (movedOn_keys now config)

/-- mirrors hub_api/uploads/publish.py:22-36 -/
def publish (now : Time) (version : ModelVersion) (config : Settings) :
    Work Db Volume Raised ModelVersion := do
  .orRaise (checkUploaded version)
  .statement (storePublished now config version.id)
  return movedOn now config version

/-- The rows `sweep` selects. -/
def expired (db : Db) (now : Time) : List ModelVersion :=
  db.versions.select fun v => v.state = .reserved && v.expiresAt.any fun t => t ≤ now

def discardAll : List ModelVersion → Work Db Volume Raised Unit
  | [] => pure ()
  | version :: rest => do
    discard version.id
    discardAll rest

/-- mirrors hub_api/uploads/janitor.py:18-36 -/
def sweep (now : Time) : Work Db Volume Raised Nat := do
  let rows ← .query (expired · now)
  discardAll rows
  .write (deleteVersions (rows.map ModelVersion.id))
  return rows.length

variable {db db' : Db} {now : Time} {config : Settings} {v : ModelVersion}

theorem ownedVersion_ok {id user : Uuid} (hv : ownedVersion db id user = .ok v) :
    v ∈ db.versions ∧ v.id = id ∧ db.ownedBy user v = true := by
  unfold ownedVersion refuse at hv
  split at hv
  · rename_i found hf
    cases hv
    obtain ⟨hmem, hp⟩ := Table.find?_some hf
    simp only [decide_eq_true_eq] at hp
    exact ⟨hmem, hp.1, hp.2⟩
  · cases hv

theorem ownedVersion_eq {id user : Uuid} (hv : v ∈ db.versions) (hid : v.id = id)
    (howned : db.ownedBy user v = true) : ownedVersion db id user = .ok v := by
  have hfound : db.versions.find? (fun w => w.id = id ∧ db.ownedBy user w) = some v := by
    refine Table.find?_eq hv (by simp [hid, howned]) fun w _ hw => .inl ?_
    rw [decide_eq_true_eq] at hw
    rw [hw.1, hid]
  unfold ownedVersion
  rw [hfound]

theorem checkUploaded_ok : checkUploaded v = .ok () ↔ v.state = .uploaded := by
  unfold checkUploaded refuse; rw [refuseIf_ok, not_not]

theorem mem_expired : v ∈ expired db now ↔
    v ∈ db.versions ∧ v.state = .reserved ∧ ∃ t, v.expiresAt = some t ∧ t ≤ now := by
  unfold expired
  rw [Table.mem_select]
  cases hx : v.expiresAt <;> simp

@[simp] theorem movedOn_id : (movedOn now config v).id = v.id := by
  unfold movedOn; split <;> rfl
@[simp] theorem movedOn_modelId : (movedOn now config v).modelId = v.modelId := by
  unfold movedOn; split <;> rfl
@[simp] theorem movedOn_sha256 : (movedOn now config v).sha256 = v.sha256 := by
  unfold movedOn; split <;> rfl
@[simp] theorem movedOn_sizeBytes : (movedOn now config v).sizeBytes = v.sizeBytes := by
  unfold movedOn; split <;> rfl
@[simp] theorem movedOn_objectKey : (movedOn now config v).objectKey = v.objectKey := by
  unfold movedOn; split <;> rfl
@[simp] theorem movedOn_expiresAt : (movedOn now config v).expiresAt = v.expiresAt := by
  unfold movedOn; split <;> rfl
@[simp] theorem movedOn_createdAt : (movedOn now config v).createdAt = v.createdAt := by
  unfold movedOn; split <;> rfl
@[simp] theorem movedOn_stored : (movedOn now config v).state.stored = true := by
  unfold movedOn; split <;> rfl

theorem movedOn_state_ne : (movedOn now config v).state ≠ .reserved := by
  unfold movedOn; split <;> simp [publishUnchecked]

/-! ## What the janitor did -/

/-- The volume after the staged files of `ids` were discarded. -/
def Discarded (ids : List Uuid) (fs fs' : Volume) : Prop :=
  fs'.usage ≤ fs.usage ∧
    ∀ u, fs'.read (.staging u) = if u ∈ ids then none else fs.read (.staging u)

theorem Discarded.cons {ids : List Uuid} {id : Uuid} {fs fs' : Volume}
    (h : Discarded ids (fs.unlink (.staging id)) fs') : Discarded (id :: ids) fs fs' := by
  obtain ⟨husage, hread⟩ := h
  constructor
  · have hr : fs.Rewrites (.staging id) none (fs.unlink (.staging id)) := Fs.rewrites_unlink
    have hu := hr.usage
    have hsize := fs.size_nonneg (.staging id)
    rw [Fs.size_eq_zero hr.at] at hu
    omega
  · intro u
    rw [hread, Fs.read_unlink]
    simp only [List.mem_cons, Path.staging.injEq]
    by_cases hu : u = id <;> simp [hu]

theorem discarded_foldl (rows : List ModelVersion) : ∀ fs : Volume,
    Discarded (rows.map ModelVersion.id) fs
      (rows.foldl (fun fs v => fs.unlink (.staging v.id)) fs) := by
  induction rows with
  | nil => exact fun fs => ⟨Int.le_refl _, fun u => by simp⟩
  | cons v rows ih => exact fun fs => (ih (fs.unlink (.staging v.id))).cons

theorem discardAll_exec (db : Db) (rows : List ModelVersion) : ∀ fs : Volume,
    (discardAll rows).exec db fs =
      (.ok (), db, rows.foldl (fun fs v => fs.unlink (.staging v.id)) fs) := by
  induction rows with
  | nil => exact fun fs => rfl
  | cons v rows ih =>
    intro fs
    unfold discardAll L2.discard
    rw [Work.exec_bind, Work.exec_outside]
    exact ih _

theorem sweep_exec (now : Time) (db : Db) (fs : Volume) :
    (sweep now).exec db fs =
      (.ok (expired db now).length, deleteVersions ((expired db now).map ModelVersion.id) db,
        (expired db now).foldl (fun fs v => fs.unlink (.staging v.id)) fs) := by
  unfold sweep
  rw [Work.query_bind, Work.exec_bind_ok (discardAll_exec db _ fs)]
  rfl

theorem sweep_spec (now : Time) (db : Db) (fs : Volume) :
    ∃ n fs', (sweep now).exec db fs =
        (.ok n, deleteVersions ((expired db now).map ModelVersion.id) db, fs') ∧
      Discarded ((expired db now).map ModelVersion.id) fs fs' :=
  ⟨_, _, sweep_exec now db fs, discarded_foldl _ fs⟩

/-- A publish moves one received row, or raises and moves nothing. -/
theorem publish_exec (now : Time) (config : Settings) (v : ModelVersion) (db : Db) (fs : Volume) :
    (publish now v config).exec db fs =
    match checkUploaded v, storePublished now config v.id db with
    | .ok _, .ok db' => (.ok (movedOn now config v), db', fs)
    | .ok _, .error e => (.error e, db, fs)
    | .error e, _ => (.error e, db, fs) := by
  unfold publish
  rw [Work.exec_bind, Work.exec_orRaise]
  cases checkUploaded v with
  | error e => rfl
  | ok _ =>
    dsimp only
    rw [Work.exec_bind, Work.exec_statement]
    cases storePublished now config v.id db <;> rfl

theorem publish_uploaded (hv : v ∈ db.versions) (hstate : v.state = .uploaded) (fs : Volume) :
    (publish now v config).exec db fs =
      (.ok (movedOn now config v), setVersion db v.id (movedOn now config) (movedOn_keys now config), fs) := by
  have hstore : storePublished now config v.id db =
      .ok (setVersion db v.id (movedOn now config) (movedOn_keys now config)) := if_pos ⟨v, hv, rfl⟩
  rw [publish_exec, checkUploaded_ok.mpr hstate, hstore]

theorem publish_ok {out : ModelVersion} {fs fs' : Volume}
    (h : (publish now v config).exec db fs = (.ok out, db', fs')) :
    v.state = .uploaded ∧ db' = setVersion db v.id (movedOn now config) (movedOn_keys now config) := by
  obtain ⟨_, hcheck, hrest⟩ := Work.orRaise_bind_eq_ok h
  obtain ⟨d₁, hstore, hrest⟩ := Work.statement_bind_eq_ok hrest
  obtain ⟨-, rfl⟩ := updateVersion_ok hstore
  cases hrest
  exact ⟨checkUploaded_ok.mp hcheck, rfl⟩

end SpikeHub.L4.Uploads
