import SpikeHub.L1Data.Errors
import SpikeHub.L1Data.Schema

/-!
# The ceilings checked before an upload is accepted

Models of hub_api/quota/limits.py and hub_api/quota/footprint.py: the
per-account ceilings, then the two limits that protect the host. The three
counting checks are one check, `checkCount`.
-/
namespace SpikeHub.L3

open SpikeHub.Core SpikeHub.L1

/-- Refuse once `count` has reached `limit`. -/
def checkCount (detail : String) (limit count : Int) : Check :=
  refuseIf (count ≥ limit) <|
    refuse .quotaExceeded detail [("limit", .int limit), ("current", .int count)]

/-- mirrors hub_api/quota/limits.py:20-27 -/
def checkArtifactSize (sizeBytes : Int) (config : Settings) : Check :=
  refuseIf (sizeBytes > config.maxArtifactBytes) <|
    refuse .quotaExceeded "this artifact is larger than a single upload may be"
      [("limit_bytes", .int config.maxArtifactBytes), ("requested_bytes", .int sizeBytes)]

def modelCount (db : Db) (userId : Uuid) : Nat := db.models.count fun m => m.ownerId = userId

def versionCount (db : Db) (modelId : Uuid) : Nat := db.versions.count fun v => v.modelId = modelId

/-- Versions of the account's models created at or after `since`. -/
def startedSince (db : Db) (userId : Uuid) (since : Time) : Nat :=
  db.versions.count fun v => db.ownedBy userId v && decide (v.createdAt ≥ since)

/-- mirrors hub_api/quota/limits.py:30-45 -/
def checkModelCount (db : Db) (userId : Uuid) (config : Settings) : Check :=
  checkCount "this account already holds as many models as it may" config.maxModelsPerUser
    (modelCount db userId)

/-- mirrors hub_api/quota/limits.py:48-63 -/
def checkVersionCount (db : Db) (modelId : Uuid) (config : Settings) : Check :=
  checkCount "this model already holds as many versions as it may" config.maxVersionsPerModel
    (versionCount db modelId)

/-- mirrors hub_api/quota/limits.py:66-90 -/
def checkDailyUploads (db : Db) (now : Time) (userId : Uuid) (config : Settings) : Check :=
  checkCount "this account has started as many uploads today as it may" config.maxUploadsPerDay
    (startedSince db userId (now - day))

/-- mirrors hub_api/quota/footprint.py:27-32 -/
def totalStoredBytes (db : Db) : Int := db.entries.sum (fun _ => true) QuotaEntry.deltaBytes

/-- mirrors hub_api/quota/footprint.py:35-46 -/
def checkFootprint (db : Db) (sizeBytes : Int) (config : Settings) : Check :=
  let total := totalStoredBytes db
  refuseIf (total + sizeBytes > config.footprintCapBytes) <|
    refuse .quotaExceeded
      ("the hub has reached the total storage it may use on this host; " ++
        "this is a service-wide limit, not this account's allowance")
      [("limit_bytes", .int config.footprintCapBytes), ("stored_bytes", .int total)]

/-- mirrors hub_api/quota/footprint.py:49-60 -/
def checkFreeSpace (free sizeBytes : Int) (config : Settings) : Check :=
  refuseIf (free - sizeBytes < config.volumeFreeFloorBytes) <|
    refuse .serviceUnavailable
      ("there is not enough free space on the artifact volume to " ++
        "accept an upload right now")
      [("free_bytes", .int free), ("floor_bytes", .int config.volumeFreeFloorBytes)]

theorem checkCount_ok {detail : String} {limit count : Int} :
    checkCount detail limit count = .ok () ↔ count < limit := by
  unfold checkCount refuse; rw [refuseIf_ok]; omega

theorem checkArtifactSize_ok {n : Int} {config : Settings} :
    checkArtifactSize n config = .ok () ↔ n ≤ config.maxArtifactBytes := by
  unfold checkArtifactSize refuse; rw [refuseIf_ok]; omega

theorem checkFootprint_ok {db : Db} {n : Int} {config : Settings} :
    checkFootprint db n config = .ok () ↔ totalStoredBytes db + n ≤ config.footprintCapBytes := by
  unfold checkFootprint refuse; dsimp only; rw [refuseIf_ok]; omega

theorem checkFreeSpace_ok {free n : Int} {config : Settings} :
    checkFreeSpace free n config = .ok () ↔ config.volumeFreeFloorBytes ≤ free - n := by
  unfold checkFreeSpace refuse; rw [refuseIf_ok]; omega

end SpikeHub.L3
