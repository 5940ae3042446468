import SpikeHub.L3Quota.Usage
import SpikeHub.L3Quota.Limits
import SpikeHub.L4Uploads.Intent
import SpikeHub.L4Uploads.Publish

/-!
# How committed effects move the accounts

A committed database changes in four ways only: a granted reserve adds a row
(`AddedReservation`), an upload is stored (`storeUploaded`), a version is
published (`storePublished`), rows are deleted (`deleteVersions`). For each,
the lemmas here say what happens to the sums over version rows (`ownedSum`,
which both `pendingBytes` and `storedSizes` are) and to the ledger.
-/
namespace SpikeHub.L4.Uploads

open SpikeHub.Core SpikeHub.L1 SpikeHub.L2 SpikeHub.L3

/-- Sizes of the account's versions that meet `q`. -/
def ownedSum (db : Db) (q : ModelVersion → Bool) (u : Uuid) : Int :=
  db.versions.sum (fun v => db.ownedBy u v && q v) ModelVersion.sizeBytes

/-- Sizes of the account's versions in the `STORED` states. -/
def storedSizes (db : Db) (u : Uuid) : Int := ownedSum db (fun v => v.state.stored) u

def isCommitOf (id : Uuid) (e : QuotaEntry) : Bool :=
  e.reason = .commit && e.modelVersionId = some id

/-- `COMMIT` entries of one version. -/
def commits (db : Db) (id : Uuid) : Nat := db.entries.count (isCommitOf id)

theorem pendingBytes_eq (db : Db) (now : Time) (u : Uuid) :
    pendingBytes db now u = ownedSum db (live now) u := rfl

variable {db db' : Db} {u u₀ : Uuid} {v w : ModelVersion} {q : ModelVersion → Bool}

/-! ## A granted reserve -/

/-- `v` is a new reservation of `u₀`; nothing else moved but, perhaps, a new model. -/
structure AddedReservation (u₀ : Uuid) (v : ModelVersion) (db db' : Db) : Prop where
  versions : ∃ h, db'.versions = db.versions.insert v h
  models : ∀ m ∈ db.models, m ∈ db'.models
  entries : db'.entries = db.entries
  users : db'.users = db.users
  owner : db'.ownedBy u₀ v = true

theorem Granted.added {now : Time} {free : Int} {ids : NewIds} {user : User}
    {request : UploadRequest} {config : Settings}
    (h : Granted now free ids user request config db db') :
    ∃ modelId, AddedReservation user.id (newVersion now ids.version modelId request config) db db' := by
  obtain ⟨m, db₁, hm, -, -, hv, hv', rfl⟩ := h.rows
  refine ⟨m.id, ?_⟩
  cases hm with
  | found hn =>
    obtain ⟨hm, hp⟩ := Table.find?_some hn
    simp only [decide_eq_true_eq] at hp
    exact ⟨⟨hv, rfl⟩, fun _ h => h, rfl, rfl, ownedBy_iff.mpr ⟨m, hm, rfl, hp.1⟩⟩
  | created hn hc =>
    rename_i hnew hgrow
    refine ⟨⟨hv, rfl⟩, hgrow, rfl, rfl, ownedBy_iff.mpr ⟨_, ?_, rfl, rfl⟩⟩
    rw [Db.withVersions_models, Db.withModels_models, Table.mem_insert]
    exact .inr rfl

theorem AddedReservation.mem (h : AddedReservation u₀ v db db') :
    w ∈ db'.versions ↔ w ∈ db.versions ∨ w = v := by
  obtain ⟨hv, he⟩ := h.versions
  rw [he, Table.mem_insert]

theorem AddedReservation.ownedSum (h : AddedReservation u₀ v db db') :
    ownedSum db' q u = ownedSum db q u + if u = u₀ ∧ q v = true then v.sizeBytes else 0 := by
  obtain ⟨hv, he⟩ := h.versions
  unfold Uploads.ownedSum
  rw [he, Table.sum_insert]
  congr 1
  · refine Table.sum_congr fun a ha => ?_
    rw [ownedBy_grow h.models ha rfl]
  · by_cases hu : u = u₀
    · subst hu; simp [h.owner]
    · have : db'.ownedBy u v ≠ true := fun ho => hu (owner_unique ho h.owner)
      simp [hu, this]

theorem AddedReservation.storedBytes (h : AddedReservation u₀ v db db') :
    storedBytes db' u = storedBytes db u := by
  unfold L3.storedBytes; rw [h.entries]

theorem OnlyModels.ownedSum (h : OnlyModels db db') : ownedSum db' q u = ownedSum db q u := by
  unfold Uploads.ownedSum
  rw [h.versions]
  refine Table.sum_congr fun a ha => ?_
  rw [ownedBy_grow h.models ha rfl]

theorem OnlyModels.storedBytes (h : OnlyModels db db') : storedBytes db' u = storedBytes db u := by
  unfold L3.storedBytes; rw [h.entries]

/-! ## A row changed -/

section
variable {f : ModelVersion → ModelVersion} {hf : KeepsKeys f}

@[simp] theorem setVersion_models {id : Uuid} : (setVersion db id f hf).models = db.models := rfl
@[simp] theorem setVersion_entries {id : Uuid} : (setVersion db id f hf).entries = db.entries := rfl
@[simp] theorem setVersion_users {id : Uuid} : (setVersion db id f hf).users = db.users := rfl

theorem setVersion_versions {id : Uuid} : (setVersion db id f hf).versions =
    db.versions.updateWhere (fun v => v.id = id) f hf.clash := rfl

theorem ownedBy_setVersion {id : Uuid} :
    (setVersion db id f hf).ownedBy u w = db.ownedBy u w := rfl

theorem ownedBy_changed (hf : KeepsKeys f) : db.ownedBy u (f w) = db.ownedBy u w := by
  unfold Db.ownedBy; rw [hf.modelId]

theorem ownedSum_setVersion (hv : v ∈ db.versions) :
    ownedSum (setVersion db v.id f hf) q u =
      ownedSum db q u - (if db.ownedBy u v && q v then v.sizeBytes else 0) +
        if db.ownedBy u v && q (f v) then (f v).sizeBytes else 0 := by
  unfold ownedSum
  simp only [ownedBy_setVersion]
  rw [setVersion_versions, Table.sum_updateWhere hv fun b hb => ?_, ownedBy_changed hf]
  rw [decide_eq_true_eq]
  exact ⟨fun h => version_eq hb hv h, fun h => h ▸ rfl⟩

/-- A change `q` does not see. -/
theorem ownedSum_setVersion_of_eq (hv : v ∈ db.versions) (hq : q (f v) = q v)
    (hs : (f v).sizeBytes = v.sizeBytes) :
    ownedSum (setVersion db v.id f hf) q u = ownedSum db q u := by
  rw [ownedSum_setVersion hv, hq, hs]; omega

end

/-! ## An upload stored -/

section
variable {now : Time} {entryId userId : Uuid} {key : String} {blob : StoredBlob}

/-- What the final flush of `receive` did. -/
structure StoredUpload (now : Time) (entryId userId : Uuid) (v : ModelVersion) (key : String)
    (blob : StoredBlob) (db db' : Db) : Prop where
  row : ∃ w ∈ db.versions, w.id = v.id
  versions : db'.versions = (setVersion db v.id (uploadedAs key) (uploadedAs_keys key)).versions
  models : db'.models = db.models
  entries : ∃ h, db'.entries = db.entries.insert (chargeEntry now entryId userId v blob) h

theorem storedUpload (h : storeUploaded now entryId userId v key blob db = .ok db') :
    StoredUpload now entryId userId v key blob db db' := by
  obtain ⟨hrow, he, rfl⟩ := storeUploaded_ok h
  exact ⟨hrow, rfl, rfl, he, rfl⟩

theorem StoredUpload.mem_versions (h : StoredUpload now entryId userId v key blob db db') :
    w ∈ db'.versions ↔ ∃ a ∈ db.versions, (if a.id = v.id then uploadedAs key a else a) = w := by
  rw [h.versions, mem_setVersion]

theorem StoredUpload.version_changed (h : StoredUpload now entryId userId v key blob db db')
    (hw : w ∈ db'.versions) :
    (∃ b ∈ db.versions, b.id = v.id ∧ w = uploadedAs key b) ∨ (w ∈ db.versions ∧ w.id ≠ v.id) :=
  setVersion_changed (h.versions ▸ hw)

theorem StoredUpload.version_cases (h : StoredUpload now entryId userId v key blob db db')
    (hv : v ∈ db.versions) (hw : w ∈ db'.versions) :
    w = uploadedAs key v ∨ (w ∈ db.versions ∧ w.id ≠ v.id) :=
  setVersion_cases hv (h.versions ▸ hw)

theorem StoredUpload.mem_entries (h : StoredUpload now entryId userId v key blob db db')
    {e : QuotaEntry} :
    e ∈ db'.entries ↔ e ∈ db.entries ∨ e = chargeEntry now entryId userId v blob := by
  obtain ⟨he, heq⟩ := h.entries
  rw [heq, Table.mem_insert]

@[simp] theorem isCommitOf_charge {id : Uuid} :
    isCommitOf id (chargeEntry now entryId userId v blob) = decide (v.id = id) := by
  simp [isCommitOf, chargeEntry]

theorem StoredUpload.commits (h : StoredUpload now entryId userId v key blob db db') (id : Uuid) :
    commits db' id = commits db id + if v.id = id then 1 else 0 := by
  obtain ⟨he, heq⟩ := h.entries
  unfold Uploads.commits
  rw [heq, Table.count_insert, isCommitOf_charge]
  simp only [decide_eq_true_eq]

theorem StoredUpload.storedBytes (h : StoredUpload now entryId userId v key blob db db') :
    storedBytes db' u = storedBytes db u + if u = userId then (blob.sizeBytes : Int) else 0 := by
  obtain ⟨he, heq⟩ := h.entries
  unfold L3.storedBytes
  rw [heq, Table.sum_insert]
  by_cases h : u = userId <;> simp [h, eq_comm, chargeEntry]

theorem StoredUpload.totalStoredBytes (h : StoredUpload now entryId userId v key blob db db') :
    totalStoredBytes db' = totalStoredBytes db + blob.sizeBytes := by
  obtain ⟨he, heq⟩ := h.entries
  unfold L3.totalStoredBytes
  rw [heq, Table.sum_insert, if_pos rfl]
  rfl

theorem StoredUpload.ownedBy (h : StoredUpload now entryId userId v key blob db db') :
    db'.ownedBy u w = db.ownedBy u w := by
  unfold Db.ownedBy; rw [h.models]

/-- The row `a` under the stored version's id leaves the sums it was in. -/
theorem StoredUpload.ownedSum (h : StoredUpload now entryId userId v key blob db db')
    {a : ModelVersion} (ha : a ∈ db.versions) (hid : a.id = v.id) :
    ownedSum db' q u =
      ownedSum db q u - (if db.ownedBy u a && q a then a.sizeBytes else 0) +
        if db.ownedBy u a && q (uploadedAs key a) then a.sizeBytes else 0 := by
  have he : Uploads.ownedSum db' q u =
      Uploads.ownedSum (setVersion db v.id (uploadedAs key) (uploadedAs_keys key)) q u := by
    unfold Uploads.ownedSum
    simp only [h.versions, h.ownedBy, ownedBy_setVersion]
  rw [he, ← hid, ownedSum_setVersion ha]
  rfl

end

/-! ## Rows deleted -/

theorem ownedSum_delete {ids : List Uuid} :
    ownedSum (deleteVersions ids db) q u =
      ownedSum db q u - ownedSum db (fun v => q v && decide (v.id ∈ ids)) u := by
  show (db.versions.delete _).sum (fun v => db.ownedBy u v && q v) _ = _
  rw [Table.sum_delete]
  unfold ownedSum
  simp only [Bool.and_assoc]

theorem ownedSum_eq_zero (h : ∀ v ∈ db.versions, db.ownedBy u v = true → q v = false) :
    ownedSum db q u = 0 := by
  unfold ownedSum
  rw [Table.sum_congr (q := fun _ => false) (g := fun _ => 0) fun a ha => ?_]
  · rw [Table.sum_eq]; simp
  · cases ho : db.ownedBy u a with
    | false => simp
    | true => simp [h a ha ho]

/-- Deleting rows `q` does not count. -/
theorem ownedSum_delete_of_not {ids : List Uuid}
    (h : ∀ v ∈ db.versions, v.id ∈ ids → q v = false) :
    ownedSum (deleteVersions ids db) q u = ownedSum db q u := by
  rw [ownedSum_delete, ownedSum_eq_zero (q := fun v => q v && decide (v.id ∈ ids)), Int.sub_zero]
  intro v hv _
  by_cases hid : v.id ∈ ids
  · simp [h v hv hid]
  · simp [hid]

/-! ## Uploads started

What `check_daily_uploads` counts moves with the rows: a reservation adds to
it, a row deleted is not counted any more. -/

section
variable {since : Time}

theorem AddedReservation.startedSince (h : AddedReservation u₀ v db db') :
    startedSince db' u since =
      startedSince db u since + if u = u₀ ∧ since ≤ v.createdAt then 1 else 0 := by
  obtain ⟨hv, he⟩ := h.versions
  unfold L3.startedSince
  rw [he, Table.count_insert]
  congr 1
  · refine Table.count_congr fun a ha => ?_
    rw [ownedBy_grow h.models ha rfl]
  · by_cases hu : u = u₀
    · subst hu
      simp [h.owner]
    · have hno : db'.ownedBy u v ≠ true := fun ho => hu (owner_unique ho h.owner)
      simp [hu, hno]

theorem OnlyModels.startedSince (h : OnlyModels db db') :
    startedSince db' u since = startedSince db u since := by
  unfold L3.startedSince
  rw [h.versions]
  refine Table.count_congr fun a ha => ?_
  rw [ownedBy_grow h.models ha rfl]

theorem startedSince_setVersion {id : Uuid} {f : ModelVersion → ModelVersion} (hf : KeepsKeys f)
    (hcreated : ∀ v, (f v).createdAt = v.createdAt) :
    startedSince (setVersion db id f hf) u since = startedSince db u since := by
  unfold L3.startedSince
  simp only [ownedBy_setVersion]
  refine Table.count_updateWhere (h := hf.clash) fun a _ => ?_
  rw [ownedBy_changed hf, hcreated]

theorem StoredUpload.startedSince {now : Time} {entryId userId : Uuid} {key : String} {blob : StoredBlob}
    (h : StoredUpload now entryId userId v key blob db db') :
    startedSince db' u since = startedSince db u since := by
  have hset : L3.startedSince db' u since =
      L3.startedSince (setVersion db v.id (uploadedAs key) (uploadedAs_keys key)) u since := by
    unfold L3.startedSince
    simp only [h.versions, h.ownedBy, ownedBy_setVersion]
  exact hset.trans (startedSince_setVersion (uploadedAs_keys key) fun v => rfl)

/-- Deleting rows created before `since`. -/
theorem startedSince_delete {ids : List Uuid}
    (h : ∀ v ∈ db.versions, v.id ∈ ids → v.createdAt < since) :
    startedSince (deleteVersions ids db) u since = startedSince db u since := by
  show (db.versions.delete _).count (fun v => db.ownedBy u v && decide (v.createdAt ≥ since)) = _
  rw [Table.count_delete]
  refine Table.count_congr fun v hv => ?_
  by_cases hid : v.id ∈ ids
  · simp [hid, Int.not_le.mpr (h v hv hid)]
  · simp [hid]

end

@[simp] theorem deleteVersions_entries {ids : List Uuid} :
    (deleteVersions ids db).entries = db.entries := rfl
@[simp] theorem deleteVersions_models {ids : List Uuid} :
    (deleteVersions ids db).models = db.models := rfl
@[simp] theorem deleteVersions_users {ids : List Uuid} :
    (deleteVersions ids db).users = db.users := rfl

end SpikeHub.L4.Uploads
