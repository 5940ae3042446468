import SpikeHub.L2Storage.Streaming
import SpikeHub.L1Data.Schema

/-!
# Phase two: take the bytes, and believe only what was measured

Model of hub_api/uploads/receive.py. `reservedSlot`, `checkMeasured` and
`storeUploaded` (the row update and the ledger entry of the final flush) are
functions of the database; `receive` runs them in one session, and
`L5Runs/Interleave` runs the same ones with other requests in between.

An ORM flush of a changed row is an `UPDATE` by primary key: it changes the
row whatever its state is by then, and raises when the row is gone.
-/
namespace SpikeHub.L4.Uploads

open SpikeHub.Core SpikeHub.L1 SpikeHub.L2

/-- mirrors hub_api/uploads/receive.py:33-53 -/
def reservedSlot (db : Db) (now : Time) (uploadId userId : Uuid) : Except Raised ModelVersion :=
  match db.versions.find? fun v => v.id = uploadId ∧ db.ownedBy userId v with
  | none => refuse .notFound "no such upload for this account"
  | some version =>
    if version.state ≠ .reserved then
      refuse .conflict s!"this upload is {version.state.text}, not awaiting bytes"
    else if version.expiresAt.any fun t => t ≤ now then
      refuse .conflict ("the reservation expired; start a new upload. Reservations are " ++
        "short-lived so an abandoned one cannot hold an allowance")
    else .ok version

/-- mirrors hub_api/uploads/receive.py:56-70 -/
def checkMeasured (version : ModelVersion) (blob : StoredBlob) : Check :=
  if blob.sizeBytes ≠ version.sizeBytes then
    refuse .unprocessableUpload "the uploaded byte count does not match the reservation"
      [("reserved_bytes", .int version.sizeBytes), ("received_bytes", .int blob.sizeBytes)]
  else if blob.sha256 ≠ version.sha256 then
    refuse .unprocessableUpload
      ("the uploaded bytes do not have the digest the reservation " ++ "declared")
      [("declared_sha256", .str version.sha256), ("received_sha256", .str blob.sha256)]
  else .ok ()

/-- The columns a change leaves alone: the keys. -/
structure KeepsKeys (f : ModelVersion → ModelVersion) : Prop where
  id : ∀ v, (f v).id = v.id
  modelId : ∀ v, (f v).modelId = v.modelId
  version : ∀ v, (f v).version = v.version

theorem KeepsKeys.clash {f : ModelVersion → ModelVersion} (hf : KeepsKeys f) (a c : ModelVersion)
    (h : Record.clash (f a) c) : Record.clash a c := by
  simpa only [Record.clash, hf.id, hf.modelId, hf.version] using h

/-- The rows after `UPDATE model_versions SET f WHERE id`. -/
def setVersion (db : Db) (id : Uuid) (f : ModelVersion → ModelVersion) (hf : KeepsKeys f) : Db :=
  db.withVersions (db.versions.updateWhere (fun v => v.id = id) f hf.clash) <| by
    intro a ha
    obtain ⟨b, hb, rfl⟩ := Table.mem_updateWhere.mp ha
    obtain ⟨m, hm, hid⟩ := db.modelKey b hb
    refine ⟨m, hm, hid.trans ?_⟩
    split
    · exact (hf.modelId b).symm
    · rfl

/-- `UPDATE` of a changed row by its primary key, raising when it matched none. -/
def updateVersion (id : Uuid) (f : ModelVersion → ModelVersion) (hf : KeepsKeys f) (db : Db) :
    Except Raised Db :=
  if ∃ v ∈ db.versions, v.id = id then .ok (setVersion db id f hf) else .error .staleData

def uploadedAs (key : String) (v : ModelVersion) : ModelVersion :=
  { v with objectKey := key, state := .uploaded }

theorem uploadedAs_keys (key : String) : KeepsKeys (uploadedAs key) :=
  ⟨fun _ => rfl, fun _ => rfl, fun _ => rfl⟩

@[simp] theorem uploadedAs_state {key : String} {v : ModelVersion} :
    (uploadedAs key v).state = .uploaded := rfl

/-- mirrors hub_api/uploads/receive.py:108-122 -/
def chargeEntry (now : Time) (entryId userId : Uuid) (version : ModelVersion) (blob : StoredBlob) :
    QuotaEntry where
  id := entryId
  userId := userId
  modelVersionId := some version.id
  deltaBytes := blob.sizeBytes
  reason := .commit
  createdAt := now

def addEntry (e : QuotaEntry) (db : Db) : Except Raised Db :=
  match db.entries.insert? e with
  | some t => .ok (db.withEntries t)
  | none => .error .integrityError

/-- The flush that ends `receive`: the changed row, then the new entry. -/
def storeUploaded (now : Time) (entryId userId : Uuid) (version : ModelVersion) (key : String)
    (blob : StoredBlob) (db : Db) : Except Raised Db := do
  let db ← updateVersion version.id (uploadedAs key) (uploadedAs_keys key) db
  addEntry (chargeEntry now entryId userId version blob) db

/-- `DELETE FROM model_versions WHERE id IN ids` -/
def deleteVersions (ids : List Uuid) (db : Db) : Db :=
  db.withVersions (db.versions.delete fun v => v.id ∈ ids) fun v hv =>
    db.modelKey v (Table.mem_delete.mp hv).1

/-- mirrors hub_api/uploads/receive.py:93-105 and :125-132 -/
def verifyOrAbandon (version : ModelVersion) (blob : StoredBlob) : Work Db Volume Raised Unit :=
  tryCatch (.orRaise (checkMeasured version blob)) fun e => do
    discard version.id
    .write (deleteVersions [version.id])
    throw e

/-- mirrors hub_api/uploads/receive.py:73-90 -/
def receive (now : Time) (entryId uploadId userId : Uuid) (body : Body) :
    Work Db Volume Raised ModelVersion := do
  let version ← .check (reservedSlot · now uploadId userId)
  let blob ← stage uploadId body version.sizeBytes
  verifyOrAbandon version blob
  let key ← promote uploadId blob.sha256
  .statement (storeUploaded now entryId userId version key blob)
  return uploadedAs key version

/-! ## What the steps did -/

variable {db db' : Db} {now : Time} {uploadId userId : Uuid} {v : ModelVersion}

theorem reservedSlot_ok (h : reservedSlot db now uploadId userId = .ok v) :
    v ∈ db.versions ∧ v.id = uploadId ∧ db.ownedBy userId v = true ∧ v.state = .reserved ∧
      ∀ t, v.expiresAt = some t → now < t := by
  unfold reservedSlot refuse at h
  split at h
  · cases h
  · rename_i version hf
    split at h
    · cases h
    · rename_i hstate
      split at h
      · cases h
      · rename_i hexp
        cases h
        obtain ⟨hv, hp⟩ := Table.find?_some hf
        simp only [decide_eq_true_eq] at hp
        refine ⟨hv, hp.1, hp.2, not_not.mp hstate, fun t ht => ?_⟩
        simpa [ht] using hexp

theorem checkMeasured_ok {blob : StoredBlob} (h : checkMeasured v blob = .ok ()) :
    (blob.sizeBytes : Int) = v.sizeBytes ∧ blob.sha256 = v.sha256 := by
  unfold checkMeasured refuse at h
  split at h
  · cases h
  · rename_i hsize
    split at h
    · cases h
    · rename_i hsha; exact ⟨not_not.mp hsize, not_not.mp hsha⟩

theorem checkMeasured_eq {blob : StoredBlob} (hsize : (blob.sizeBytes : Int) = v.sizeBytes)
    (hsha : blob.sha256 = v.sha256) : checkMeasured v blob = .ok () := by
  unfold checkMeasured
  rw [if_neg (not_not.mpr hsize), if_neg (not_not.mpr hsha)]

theorem updateVersion_ok {id : Uuid} {f : ModelVersion → ModelVersion} {hf : KeepsKeys f}
    (h : updateVersion id f hf db = .ok db') :
    (∃ v ∈ db.versions, v.id = id) ∧ db' = setVersion db id f hf := by
  unfold updateVersion at h
  split at h
  · rename_i hex; exact ⟨hex, (Except.ok.inj h).symm⟩
  · cases h

theorem addEntry_ok {e : QuotaEntry} (h : addEntry e db = .ok db') :
    ∃ he, db' = db.withEntries (db.entries.insert e he) := by
  unfold addEntry at h
  split at h
  · rename_i t ht
    obtain ⟨he, rfl⟩ := Table.insert?_eq_some ht
    exact ⟨he, (Except.ok.inj h).symm⟩
  · cases h

theorem storeUploaded_ok {entryId : Uuid} {key : String} {blob : StoredBlob}
    (h : storeUploaded now entryId userId v key blob db = .ok db') :
    (∃ w ∈ db.versions, w.id = v.id) ∧ ∃ he,
      db' = (setVersion db v.id (uploadedAs key) (uploadedAs_keys key)).withEntries
        (db.entries.insert (chargeEntry now entryId userId v blob) he) := by
  unfold storeUploaded at h
  cases hu : updateVersion v.id (uploadedAs key) (uploadedAs_keys key) db with
  | error e => rw [hu] at h; cases h
  | ok db₁ =>
    rw [hu] at h
    obtain ⟨hex, rfl⟩ := updateVersion_ok hu
    obtain ⟨he, rfl⟩ := addEntry_ok h
    exact ⟨hex, he, rfl⟩

/-- The flush goes through while the row is there and the entry's id is new. -/
theorem storeUploaded_isOk (now : Time) (userId : Uuid) (key : String) (blob : StoredBlob)
    {entryId : Uuid} (hrow : ∃ w ∈ db.versions, w.id = v.id)
    (hid : ∀ e ∈ db.entries, e.id ≠ entryId) :
    ∃ db', storeUploaded now entryId userId v key blob db = .ok db' := by
  have hadd : ∀ a ∈ (setVersion db v.id (uploadedAs key) (uploadedAs_keys key)).entries,
      ¬ Record.clash a (chargeEntry now entryId userId v blob) := fun a ha => hid a ha
  unfold storeUploaded updateVersion
  rw [if_pos hrow]
  show ∃ db', addEntry _ _ = .ok db'
  unfold addEntry Table.insert?
  rw [dif_pos hadd]
  exact ⟨_, rfl⟩

theorem mem_setVersion {id : Uuid} {f : ModelVersion → ModelVersion} {hf : KeepsKeys f}
    {w : ModelVersion} :
    w ∈ (setVersion db id f hf).versions ↔
      ∃ v ∈ db.versions, (if v.id = id then f v else v) = w := by
  unfold setVersion
  rw [Db.withVersions_versions, Table.mem_updateWhere]
  simp only [decide_eq_true_eq]

theorem setVersion_changed {id : Uuid} {f : ModelVersion → ModelVersion} {hf : KeepsKeys f}
    {w : ModelVersion} (hw : w ∈ (setVersion db id f hf).versions) :
    (∃ b ∈ db.versions, b.id = id ∧ w = f b) ∨ (w ∈ db.versions ∧ w.id ≠ id) := by
  obtain ⟨b, hb, hbw⟩ := mem_setVersion.mp hw
  by_cases hid : b.id = id
  · rw [if_pos hid] at hbw
    exact .inl ⟨b, hb, hid, hbw.symm⟩
  · rw [if_neg hid] at hbw
    rw [← hbw]
    exact .inr ⟨hb, hid⟩

/-- One row has the id: it is the one that changed. -/
theorem setVersion_cases {f : ModelVersion → ModelVersion} {hf : KeepsKeys f} {w : ModelVersion}
    (hv : v ∈ db.versions) (hw : w ∈ (setVersion db v.id f hf).versions) :
    w = f v ∨ (w ∈ db.versions ∧ w.id ≠ v.id) := by
  rcases setVersion_changed hw with ⟨b, hb, hid, rfl⟩ | hold
  · exact .inl (by rw [version_eq hb hv hid])
  · exact .inr hold

theorem mem_deleteVersions {ids : List Uuid} {w : ModelVersion} :
    w ∈ (deleteVersions ids db).versions ↔ w ∈ db.versions ∧ w.id ∉ ids := by
  unfold deleteVersions
  rw [Db.withVersions_versions, Table.mem_delete, decide_eq_false_iff_not]

theorem deleteVersions_nil (db : Db) : deleteVersions [] db = db := by
  have hsame : db.versions.delete (fun v => v.id ∈ ([] : List Uuid)) = db.versions :=
    Table.delete_eq_self fun _ _ => rfl
  unfold deleteVersions Db.withVersions
  cases db
  congr

theorem verifyOrAbandon_exec (v : ModelVersion) (blob : StoredBlob) (db : Db) (fs : Volume) :
    (verifyOrAbandon v blob).exec db fs =
      match checkMeasured v blob with
      | .ok _ => (.ok (), db, fs)
      | .error e => (.error e, deleteVersions [v.id] db, fs.unlink (.staging v.id)) := by
  unfold verifyOrAbandon
  rw [Work.exec_tryCatch, Work.exec_orRaise]
  cases checkMeasured v blob <;> rfl

/-- A transfer that was taken: the slot it found, and what it stored. -/
theorem receive_ok {entryId : Uuid} {body : Body} {out : ModelVersion} {fs fs' : Volume}
    (h : (receive now entryId uploadId userId body).exec db fs = (.ok out, db', fs')) :
    ∃ v blob key, reservedSlot db now uploadId userId = .ok v ∧ checkMeasured v blob = .ok () ∧
      storeUploaded now entryId userId v key blob db = .ok db' ∧ out = uploadedAs key v := by
  obtain ⟨v, hslot, hstaging⟩ := Work.check_bind_eq_ok h
  obtain ⟨blob, d₁, w₁, hstage, hverifying⟩ := Work.exec_bind_eq_ok hstaging
  have hd₁ : d₁ = db := (congrArg (·.2.1) hstage).symm.trans (stage_view db fs)
  obtain ⟨_, d₂, w₂, hverify, hpromoting⟩ := Work.exec_bind_eq_ok hverifying
  rw [verifyOrAbandon_exec] at hverify
  cases hm : checkMeasured v blob with
  | error e => rw [hm] at hverify; cases hverify
  | ok _ =>
    rw [hm] at hverify
    cases hverify
    obtain ⟨key, d₃, w₃, hpromote, hstoring⟩ := Work.exec_bind_eq_ok hpromoting
    have hd₃ : d₃ = d₁ := (congrArg (·.2.1) hpromote).symm.trans (promote_view d₁ w₁)
    obtain ⟨d₄, hstore, hdone⟩ := Work.statement_bind_eq_ok hstoring
    rw [hd₃, hd₁] at hstore
    cases hdone
    exact ⟨v, blob, key, hslot, hm, hstore, rfl⟩

/-- The whole body arrives, within the reserved size, and is not what was declared. -/
def Mismatch (v : ModelVersion) (body : Body) : Prop :=
  body.cut = false ∧ (body.bytes.length : Int) ≤ v.sizeBytes ∧ checkMeasured v (measure body.bytes) ≠ .ok ()

instance (v : ModelVersion) (body : Body) : Decidable (Mismatch v body) :=
  inferInstanceAs (Decidable (_ ∧ _ ∧ _))

/-- How a transfer ends. -/
inductive Received (now : Time) (entryId uploadId userId : Uuid) (body : Body) (db : Db)
    (fs : Volume) : Except Raised ModelVersion → Db → Volume → Prop
  | refused {e : Raised} : Received now entryId uploadId userId body db fs (.error e) db fs
  | interrupted {e : Raised} {v : ModelVersion} {o : Option Bytes} {fs' : Volume} :
      reservedSlot db now uploadId userId = .ok v →
      fs.Rewrites (.staging uploadId) o fs' →
      (∀ bs, o = some bs → (bs.length : Int) ≤ v.sizeBytes) →
      Received now entryId uploadId userId body db fs (.error e) db fs'
  | abandoned {e : Raised} {v : ModelVersion} {fs' : Volume} :
      reservedSlot db now uploadId userId = .ok v → Mismatch v body →
      fs.Rewrites (.staging uploadId) none fs' →
      Received now entryId uploadId userId body db fs (.error e) (deleteVersions [v.id] db) fs'
  | stored {v : ModelVersion} {key : String} {mid fs' : Volume} {db' : Db} :
      reservedSlot db now uploadId userId = .ok v →
      (body.bytes.length : Int) = v.sizeBytes →
      fs.Rewrites (.staging uploadId) (some body.bytes) mid →
      Promoted uploadId key body.bytes mid fs' →
      storeUploaded now entryId userId v key (measure body.bytes) db = .ok db' →
      Received now entryId uploadId userId body db fs (.ok (uploadedAs key v)) db' fs'

/-- Reserved sizes are not negative, and the ledger entry's id is new. -/
theorem receive_spec {entryId : Uuid} (now : Time) (uploadId userId : Uuid) (body : Body)
    (fs : Volume)
    (hsize : ∀ v ∈ db.versions, 0 ≤ v.sizeBytes) (hid : ∀ e ∈ db.entries, e.id ≠ entryId) :
    ∃ r db' fs', (receive now entryId uploadId userId body).exec db fs = (r, db', fs') ∧
      Received now entryId uploadId userId body db fs r db' fs' := by
  unfold receive
  cases hslot : reservedSlot db now uploadId userId with
  | error e =>
    refine ⟨_, _, _, Work.exec_bind_error ?_, .refused (e := e)⟩
    rw [Work.exec_check, hslot]
  | ok v =>
    obtain ⟨hv, hvid, -⟩ := reservedSlot_ok hslot
    rw [Work.exec_bind, Work.exec_check, hslot]
    dsimp only
    obtain ⟨r, mid, o, hx, hr, hb, hall⟩ :=
      stage_spec db fs uploadId body (hsize v hv)
    cases r with
    | error e =>
      rw [Work.exec_bind_error hx]
      exact ⟨_, _, _, rfl, .interrupted hslot hr hb⟩
    | ok blob =>
      obtain ⟨rfl, rfl, hcut⟩ := hall blob rfl
      rw [Work.exec_bind_ok hx, Work.exec_bind, verifyOrAbandon_exec]
      cases hm : checkMeasured v (measure body.bytes) with
      | error e =>
        refine ⟨_, _, _, rfl, .abandoned hslot ⟨hcut, hb _ rfl, by rw [hm]; exact nofun⟩ ?_⟩
        rw [hvid]
        exact hr.trans Fs.rewrites_unlink
      | ok _ =>
        obtain ⟨hlen, -⟩ := checkMeasured_ok hm
        have hkey : ∃ key, objectKey (measure body.bytes).sha256 = .ok key :=
          objectKey_sha256 body.bytes
        obtain ⟨key, hkey⟩ := hkey
        obtain ⟨fs', hp, hprom, -⟩ := promote_spec (d := db) hkey hr.at
        have hflush : ∃ db', storeUploaded now entryId userId v key (measure body.bytes) db = .ok db' :=
          storeUploaded_isOk now userId key _ ⟨v, hv, rfl⟩ hid
        obtain ⟨db', hst⟩ := hflush
        refine ⟨.ok (uploadedAs key v), db', fs', ?_, .stored hslot hlen hr hprom hst⟩
        dsimp only
        rw [Work.exec_bind_ok hp, Work.exec_bind, Work.exec_statement, hst]
        rfl

/-- A slot is found by its id while it is the account's, reserved and unexpired. -/
theorem reservedSlot_eq (hv : v ∈ db.versions) (hid : v.id = uploadId) (howned : db.ownedBy userId v = true)
    (hstate : v.state = .reserved) (hexp : ∀ t, v.expiresAt = some t → now < t) :
    reservedSlot db now uploadId userId = .ok v := by
  have hfound : db.versions.find? (fun w => w.id = uploadId ∧ db.ownedBy userId w) = some v := by
    refine Table.find?_eq hv (by simp [hid, howned]) fun w _ hw => .inl ?_
    rw [decide_eq_true_eq] at hw
    rw [hw.1, hid]
  have hnot : (v.expiresAt.any fun t => t ≤ now) = false := by
    cases hx : v.expiresAt with
    | none => rfl
    | some t => simpa using hexp t hx
  unfold reservedSlot
  rw [hfound]
  simp [hstate, hnot]

/-- A whole body that is what was declared is taken: the object's name reads the
bytes it had, or these, and the staged file is gone. -/
theorem receive_taken {entryId : Uuid} {body : Body} (fs : Volume)
    (hslot : reservedSlot db now uploadId userId = .ok v) (hcut : body.cut = false)
    (hm : checkMeasured v (measure body.bytes) = .ok ()) (hid : ∀ e ∈ db.entries, e.id ≠ entryId) :
    ∃ key db' fs', objectKey v.sha256 = .ok key ∧
      (receive now entryId uploadId userId body).exec db fs = (.ok (uploadedAs key v), db', fs') ∧
      storeUploaded now entryId userId v key (measure body.bytes) db = .ok db' ∧
      ∀ p, fs'.read p = if p = .artifact key then some ((fs.read p).getD body.bytes)
        else if p = .staging uploadId then none else fs.read p := by
  obtain ⟨hv, -⟩ := reservedSlot_ok hslot
  obtain ⟨hsize, hsha⟩ := checkMeasured_ok hm
  have hlen : (body.bytes.length : Int) = v.sizeBytes := hsize
  have hpositive : 0 ≤ v.sizeBytes := hlen ▸ Int.natCast_nonneg _
  obtain ⟨mid, hstage⟩ := stage_whole db fs uploadId hcut (Int.le_of_eq hlen)
  obtain ⟨r, mid', o, hx, hrw, -, hall⟩ := stage_spec db fs uploadId body hpositive
  rw [hstage] at hx
  cases hx
  obtain ⟨rfl, -, -⟩ := hall _ rfl
  have hkey : ∃ key, objectKey (measure body.bytes).sha256 = .ok key := objectKey_sha256 body.bytes
  obtain ⟨key, hkey⟩ := hkey
  obtain ⟨fs', hpromote, -, hreads⟩ := promote_spec (d := db) hkey hrw.at
  obtain ⟨db', hstore⟩ := storeUploaded_isOk now userId key (measure body.bytes) ⟨v, hv, rfl⟩ hid
  refine ⟨key, db', fs', hsha ▸ hkey, ?_, hstore, fun p => ?_⟩
  · unfold receive
    rw [Work.exec_bind, Work.exec_check, hslot]
    dsimp only
    rw [Work.exec_bind_ok hstage, Work.exec_bind, verifyOrAbandon_exec, hm]
    dsimp only
    rw [Work.exec_bind_ok hpromote, Work.exec_bind, Work.exec_statement, hstore]
    rfl
  · rw [hreads]
    by_cases hartifact : p = .artifact key
    · subst hartifact
      rw [if_pos rfl, if_pos rfl, hrw.other (by simp)]
    · rw [if_neg hartifact, if_neg hartifact]
      by_cases hstaging : p = .staging uploadId
      · rw [if_pos hstaging, if_pos hstaging]
      · rw [if_neg hstaging, if_neg hstaging, hrw.other hstaging]

theorem receive_whole {entryId : Uuid} {body : Body} (fs : Volume)
    (hslot : reservedSlot db now uploadId userId = .ok v) (hcut : body.cut = false)
    (hm : checkMeasured v (measure body.bytes) = .ok ()) (hid : ∀ e ∈ db.entries, e.id ≠ entryId) :
    ∃ key db' fs', (receive now entryId uploadId userId body).exec db fs =
        (.ok (uploadedAs key v), db', fs') ∧
      storeUploaded now entryId userId v key (measure body.bytes) db = .ok db' := by
  obtain ⟨key, db', fs', -, hx, hstore, -⟩ := receive_taken fs hslot hcut hm hid
  exact ⟨key, db', fs', hx, hstore⟩

end SpikeHub.L4.Uploads
