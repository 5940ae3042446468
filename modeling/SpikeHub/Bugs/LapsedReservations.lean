import SpikeHub.L4Uploads.Admission
import SpikeHub.L4Uploads.Ledger
import SpikeHub.L5Runs.Catalogue

/-!
# The janitor changes who is admitted

Behaviour (hub_api/quota/limits.py:48-90, hub_api/uploads/intent.py:148-162):
`check_daily_uploads`, `check_version_count` and `_check_version_free` count
every version row, a reservation that has expired like any other; only
`pending_bytes` leaves it out. The row is there until `sweep` deletes it, and
so is its staged file.

What the code says: "Correctness does not depend on this running: an expired
reservation already stops counting against an allowance" (uploads/janitor.py:3);
"an abandoned one cannot hold an allowance" (uploads/receive.py:51).

Counterexample: `mnist` 1.0 is reserved and never sent. After its expiry a new
request for `mnist` 1.0 is refused as a version that already exists; after a
sweep at the same time it is granted.

When it does hold: exactly when no check that the request reaches is decided
by expired reservations (`Undisturbed`).
-/
namespace SpikeHub.Bugs.LapsedReservations

open SpikeHub.Core SpikeHub.Core.Gates SpikeHub.L1 SpikeHub.L2 SpikeHub.L3 SpikeHub.L4.Uploads
open SpikeHub.L5.Interleave (Hub alice)
open SpikeHub.L5.Requests (signedIn asAlice)
open SpikeHub.L5.Catalogue (unverified abcIntent after)

/-- A reserve at `now` ends as it does right after a sweep at `now`. -/
def Invisible (now : Time) (free : Volume → Int) (ids : NewIds) (user : User) (request : UploadRequest)
    (config : Settings) (db : Db) (fs : Volume) : Prop :=
  decision ((reserve now free ids user request config).exec db fs).1 =
    decision ((reserve now free ids user request config).exec ((sweep now).exec db fs).2.1
      ((sweep now).exec db fs).2.2).1

instance (now : Time) (free : Volume → Int) (ids : NewIds) (user : User) (request : UploadRequest)
    (config : Settings) (db : Db) (fs : Volume) :
    Decidable (Invisible now free ids user request config db fs) :=
  inferInstanceAs (Decidable (_ = _))

/-- A reservation that has expired. -/
def lapsed (now : Time) (v : ModelVersion) : Bool :=
  v.state = .reserved && v.expiresAt.any fun t => t ≤ now

/-- The volume without the staged files of the expired reservations. -/
def cleared (now : Time) (db : Db) (fs : Volume) : Volume :=
  (expired db now).foldl (fun fs v => fs.unlink (.staging v.id)) fs

/-- The checks a request reaches answer the same with the expired reservations
and without: the uploads of the day, the space on the volume, the versions of
the model, and the version's name. -/
def Undisturbed (now : Time) (free : Volume → Int) (ids : NewIds) (user : User) (request : UploadRequest)
    (config : Settings) (db : Db) (fs : Volume) : Prop :=
  let modelId := targetModel db ids.model user request
  let started := startedSince db user.id (now - day)
  let startedLive :=
    db.versions.count fun v => db.ownedBy user.id v && v.createdAt ≥ now - day && !lapsed now v
  let held := versionCount db modelId
  let heldLive := db.versions.count fun v => v.modelId = modelId && !lapsed now v
  checkPublisher user config = .ok () → isSha256 request.sha256 = true →
  request.sizeBytes ≤ config.maxArtifactBytes →
  ((started : Int) < config.maxUploadsPerDay ↔ (startedLive : Int) < config.maxUploadsPerDay) ∧
  ((started : Int) < config.maxUploadsPerDay →
    (usageFor db now user.id user.storageLimit).canFit request.sizeBytes = true →
    totalStoredBytes db + request.sizeBytes ≤ config.footprintCapBytes →
    (config.volumeFreeFloorBytes ≤ free fs - request.sizeBytes ↔
      config.volumeFreeFloorBytes ≤ free (cleared now db fs) - request.sizeBytes) ∧
    (config.volumeFreeFloorBytes ≤ free fs - request.sizeBytes →
      (namedModel db user.id request.slug).isSome = true ∨
        (modelCount db user.id : Int) < config.maxModelsPerUser →
      ((held : Int) < config.maxVersionsPerModel ↔ (heldLive : Int) < config.maxVersionsPerModel) ∧
      ((held : Int) < config.maxVersionsPerModel →
        ((∀ v ∈ db.versions, v.modelId = modelId → v.version ≠ request.version) ↔
          ∀ v ∈ db.versions, lapsed now v = false → v.modelId = modelId →
            v.version ≠ request.version))))

variable {now : Time} {free : Volume → Int} {ids : NewIds} {user : User} {request : UploadRequest}
  {config : Settings} {db : Db} {fs : Volume} {v : ModelVersion}

/-! ## After the sweep -/

def sweptDb (now : Time) (db : Db) : Db := deleteVersions ((expired db now).map ModelVersion.id) db

theorem sweep_swept : ((sweep now).exec db fs).2 = (sweptDb now db, cleared now db fs) := by
  rw [sweep_exec]
  rfl

theorem mem_expired_ids (hv : v ∈ db.versions) :
    v.id ∈ (expired db now).map ModelVersion.id ↔ lapsed now v = true := by
  constructor
  · intro h
    obtain ⟨w, hw, hid⟩ := List.mem_map.mp h
    obtain ⟨hmem, hlapsed⟩ := Table.mem_select.mp hw
    rw [← version_eq hmem hv hid]
    exact hlapsed
  · intro h
    exact List.mem_map.mpr ⟨v, Table.mem_select.mpr ⟨hv, h⟩, rfl⟩

theorem mem_sweptDb : v ∈ (sweptDb now db).versions ↔ v ∈ db.versions ∧ lapsed now v = false := by
  unfold sweptDb
  rw [mem_deleteVersions]
  refine and_congr_right fun hv => ?_
  rw [mem_expired_ids hv, Bool.not_eq_true]

theorem count_swept {q : ModelVersion → Bool} :
    (sweptDb now db).versions.count q = db.versions.count fun v => q v && !lapsed now v := by
  show (db.versions.delete fun v => v.id ∈ (expired db now).map ModelVersion.id).count q = _
  rw [Table.count_delete]
  refine Table.count_congr fun v hv => ?_
  have hids : v.id ∈ (expired db now).map ModelVersion.id ↔ lapsed now v = true := mem_expired_ids hv
  cases hl : lapsed now v with
  | true => simp [hids.mpr hl]
  | false => simp [mt hids.mp (by simp [hl])]

/-- What is pending is live, so the sweep takes none of it. -/
theorem pendingBytes_swept (u : Uuid) :
    pendingBytes (sweptDb now db) now u = pendingBytes db now u := by
  rw [pendingBytes_eq, pendingBytes_eq, sweptDb]
  refine ownedSum_delete_of_not fun v hv hid => ?_
  have hlapsed := (mem_expired_ids hv).mp hid
  unfold lapsed at hlapsed
  unfold live
  cases hx : v.expiresAt with
  | none => simp
  | some t =>
    simp only [hx, Option.any_some, Bool.and_eq_true, decide_eq_true_eq] at hlapsed
    simp [Int.not_lt.mpr hlapsed.2]

theorem usage_swept (u : Uuid) (limit : Int) :
    usageFor (sweptDb now db) now u limit = usageFor db now u limit := by
  unfold usageFor
  rw [pendingBytes_swept]
  rfl

theorem fresh_swept (h : ids.Fresh db) : ids.Fresh (sweptDb now db) :=
  ⟨h.model, fun v hv => h.version v (mem_sweptDb.mp hv).1⟩

/-! ## The gates -/

theorem gates_names {n n' : Int} : (gates now n ids user request config db).map Prod.fst =
    (gates now n' ids user request config (sweptDb now db)).map Prod.fst := rfl

theorem gates_nodup {n : Int} :
    (Decision.granted :: (gates now n ids user request config db).map Prod.fst).Nodup := by
  have hpub : ∃ detail, publisherRefusal user config = .refused .forbidden detail := by
    unfold publisherRefusal
    split <;> exact ⟨_, rfl⟩
  obtain ⟨detail, hpub⟩ := hpub
  -- the two conflicts are told apart by their first letter
  have hne : "sha256 must be a lowercase hex digest" ≠
      s!"version {pyRepr request.version} already exists; versions are " ++
        "immutable, so publish a new one instead" := by
    intro he
    have hhead := congrArg (fun text : String => text.toList.head?) he
    simp [toString] at hhead
  simpa [gates, hpub] using hne

theorem invisible_iff_alike (hfresh : ids.Fresh db) :
    Invisible now free ids user request config db fs ↔
    Alike ((gates now (free fs) ids user request config db).map Prod.snd)
      ((gates now (free (cleared now db fs)) ids user request config (sweptDb now db)).map Prod.snd) := by
  unfold Invisible
  rw [sweep_swept, reserve_decision hfresh, reserve_decision (fresh_swept hfresh)]
  exact verdict_eq_iff gates_names gates_nodup

theorem invisible_iff_undisturbed (now : Time) (free : Volume → Int) (ids : NewIds) (user : User)
    (request : UploadRequest) (config : Settings) (db : Db) (fs : Volume) (hfresh : ids.Fresh db) :
    Invisible now free ids user request config db fs ↔
      Undisturbed now free ids user request config db fs := by
  rw [invisible_iff_alike hfresh]
  have hstarted : startedSince (sweptDb now db) user.id (now - day) =
      db.versions.count fun v => db.ownedBy user.id v && decide (v.createdAt ≥ now - day) && !lapsed now v :=
    count_swept
  have hheld : versionCount (sweptDb now db) (targetModel db ids.model user request) =
      db.versions.count fun v =>
        decide (v.modelId = targetModel db ids.model user request) && !lapsed now v :=
    count_swept
  -- the sweep leaves models and ledger alone
  have htarget : targetModel (sweptDb now db) ids.model user request =
      targetModel db ids.model user request := rfl
  have hnamed : namedModel (sweptDb now db) user.id request.slug =
      namedModel db user.id request.slug := rfl
  have hmodels : modelCount (sweptDb now db) user.id = modelCount db user.id := rfl
  have hstored : totalStoredBytes (sweptDb now db) = totalStoredBytes db := rfl
  have hname : (∀ v ∈ (sweptDb now db).versions, v.modelId = targetModel db ids.model user request →
      v.version ≠ request.version) ↔ ∀ v ∈ db.versions, lapsed now v = false →
        v.modelId = targetModel db ids.model user request → v.version ≠ request.version := by
    simp only [mem_sweptDb, and_imp]
  simp only [gates, List.map_cons, List.map_nil, Alike, usage_swept, hstarted, htarget, hheld, hnamed,
    hmodels, hstored, hname, decide_eq_decide, decide_eq_true_eq, Bool.or_eq_true, true_and, and_true,
    implies_true, Undisturbed]

/-! ## Traces -/

/-- Alice has reserved `mnist` 1.0 and sent nothing. -/
def reservedHub : Hub := after unverified signedIn [.call (asAlice (.create abcIntent))]

def ttl : Time := seconds unverified.config.reservationTtlSeconds

/-- `mnist` 1.0 reserved again at `now`, by a request of alice's. -/
def InvisibleAt (now : Time) : Prop :=
  Invisible now unverified.free ⟨200, 201⟩ alice abcIntent.request unverified.config reservedHub.db
    reservedHub.volume

theorem fresh_reserved : (⟨200, 201⟩ : NewIds).Fresh reservedHub.db := by
  have h : (∀ m ∈ reservedHub.db.models, m.id ≠ 200) ∧ ∀ v ∈ reservedHub.db.versions, v.id ≠ 201 := by
    decide +kernel
  exact ⟨h.1, h.2⟩

/-- While the reservation lasts, it is refused with or without a sweep. -/
theorem invisible_before : InvisibleAt 0 := by
  refine (invisible_iff_undisturbed 0 unverified.free ⟨200, 201⟩ alice abcIntent.request
    unverified.config reservedHub.db reservedHub.volume fresh_reserved).mpr ?_
  unfold Undisturbed
  decide +kernel

theorem not_invisible : ¬ ∀ (now : Time) (free : Volume → Int) (ids : NewIds) (user : User)
    (request : UploadRequest) (config : Settings) (db : Db) (fs : Volume), ids.Fresh db →
    Invisible now free ids user request config db fs := by
  intro h
  have hsame : InvisibleAt ttl := h _ _ _ _ _ _ _ _ fresh_reserved
  have hdiffer : ¬ InvisibleAt ttl := by
    unfold InvisibleAt
    decide +kernel
  exact hdiffer hsame

end SpikeHub.Bugs.LapsedReservations
