import SpikeHub.L4Uploads.Admission
import SpikeHub.L5Runs.Catalogue

/-!
# A refused transfer keeps its slot

Behaviour (hub_api/uploads/receive.py:93-132, hub_api/routes/uploads.py:51-70):
bytes that are not what was declared make `_verify_or_abandon` delete the
reservation's row, flush, and raise again. `content` commits after `receive`
returns, so the exception passes its `session.commit()`, and `db_session`
closes the session and the delete with it (db/engine.py:32-39). Only the
staged file is gone.

What the code says: "Deleting the row rather than marking it failed frees the
version name, so a caller who mis-declared a digest can simply retry with the
same name" (receive.py:126-129); `test_a_wrong_digest_is_refused_and_the_name_freed`
calls `receive` and then `reserve` in one open session.

Counterexample: `mnist` 1.0 is reserved for the bytes `abc`, and `abd` is sent.

When it does hold: never. The answer is `unprocessable_upload`, and the
committed database is what it was (`content_refused`).
-/
namespace SpikeHub.Bugs.RefusedTransfer

open SpikeHub.Core SpikeHub.L1 SpikeHub.L2 SpikeHub.L3 SpikeHub.L4.Auth SpikeHub.L4.Uploads
open SpikeHub.L4.Routes
open SpikeHub.L5.Interleave (Hub alice)
open SpikeHub.L5.Requests (signedIn asAlice)
open SpikeHub.L5.Catalogue (unverified abcIntent after)

/-- A retry refused because the version is there. -/
def nameClash (version : String) : Decision :=
  .refused .conflict (s!"version {pyRepr version} already exists; versions are " ++
    "immutable, so publish a new one instead")

/-- What the owner finds after a transfer to `v` was refused. -/
structure Freed (dep : Deployment) (now : Time) (owner : User) (v : ModelVersion) (db db' : Db)
    (fs fs' : Volume) : Prop where
  row : ∀ w ∈ db'.versions, w.id ≠ v.id
  pending : pendingBytes db' now owner.id = pendingBytes db now owner.id - v.sizeBytes
  charged : db'.entries = db.entries
  stored : ∀ key, fs'.read (.artifact key) = fs.read (.artifact key)
  name : ∀ (later : Time) (r : Rand) (req : Presented) (intent : UploadIntent),
    ((writeUser dep.platform later dep.config req).exec db' fs').1 = .ok owner →
    (∃ m ∈ db'.models, m.id = v.modelId ∧ m.ownerId = owner.id ∧ m.slug = intent.request.slug) →
    intent.request.version = v.version →
    decision (dbSession (create dep later r req intent) db' fs').1 ≠ nameClash v.version

/-- The request's answer, if it is `unprocessable_upload`, leaves the slot free. -/
def FreesSlot (dep : Deployment) (now : Time) (r : Rand) (req : Presented) (upload : Uuid) (body : Body)
    (owner : User) (v : ModelVersion) (db : Db) (fs : Volume) : Prop :=
  ∀ e db' fs', dbSession (content dep now r req upload true body) db fs = (.error (.hub e), db', fs') →
    e.cls = .unprocessableUpload → Freed dep now owner v db db' fs fs'

variable {dep : Deployment} {now : Time} {r : Rand} {req : Presented} {upload : Uuid} {body : Body}
  {user : User} {granted : List Scope} {v : ModelVersion} {db db' : Db} {fs : Volume}

/-! ## The error path -/

theorem checkMeasured_error {blob : StoredBlob} (h : checkMeasured v blob ≠ .ok ()) :
    ∃ e, checkMeasured v blob = .error (.hub e) ∧ e.cls = .unprocessableUpload := by
  unfold checkMeasured refuse at h ⊢
  split
  · exact ⟨_, rfl, rfl⟩
  · split
    · exact ⟨_, rfl, rfl⟩
    · rename_i hsize hsha
      exact absurd (by rw [if_neg hsize, if_neg hsha]) h

/-- Authenticating leaves the reservations as they are. -/
theorem reservedSlot_caller (h : CallerOf dep.platform now dep.config req db user granted db') :
    reservedSlot db' now upload user.id = reservedSlot db now upload user.id := by
  cases h with
  | bearer => rfl
  | cookie => rfl

theorem receive_refused (entryId : Uuid) (fs : Volume)
    (hslot : reservedSlot db now upload user.id = .ok v) (hmis : Mismatch v body) :
    ∃ e db' fs', (receive now entryId upload user.id body).exec db fs = (.error (.hub e), db', fs') ∧
      e.cls = .unprocessableUpload := by
  obtain ⟨hcut, hlen, hmeasured⟩ := hmis
  obtain ⟨e, he, hcls⟩ := checkMeasured_error hmeasured
  obtain ⟨mid, hstage⟩ := stage_whole db fs upload hcut hlen
  refine ⟨e, deleteVersions [v.id] db, mid.unlink (.staging v.id), ?_, hcls⟩
  unfold receive
  rw [Work.exec_bind, Work.exec_check, hslot]
  dsimp only
  rw [Work.exec_bind_ok hstage, Work.exec_bind, verifyOrAbandon_exec, he]

/-- The transfer is answered with `unprocessable_upload`, and nothing is committed. -/
theorem content_refused
    (hcaller : ((writeUser dep.platform now dep.config req).exec db fs).1 = .ok user)
    (hslot : reservedSlot db now upload user.id = .ok v) (hmis : Mismatch v body) :
    ∃ e fs', dbSession (content dep now r req upload true body) db fs = (.error (.hub e), db, fs') ∧
      e.cls = .unprocessableUpload := by
  rcases hx : (writeUser dep.platform now dep.config req).exec db fs with ⟨out, db₁, fs₁⟩
  obtain rfl : out = .ok user := by rw [← hcaller, hx]
  obtain ⟨granted, hcurrent, -⟩ := scopeGuard_ok hx
  obtain ⟨rfl, hwho⟩ := currentUser_ok hcurrent
  obtain ⟨e, db₂, fs₂, hreceive, hcls⟩ :=
    receive_refused r.base fs₁ ((reservedSlot_caller hwho).trans hslot) hmis
  refine ⟨e, fs₂, ?_, hcls⟩
  unfold content
  apply dbSession_raises
  rw [Work.exec_bind_ok hx, Work.exec_bind, Work.exec_orRaise]
  exact Work.exec_bind_error hreceive

theorem never_freed (dep : Deployment) (now : Time) (r : Rand) (req : Presented) (upload : Uuid)
    (body : Body) (user : User) (v : ModelVersion) (db : Db) (fs : Volume)
    (hcaller : ((writeUser dep.platform now dep.config req).exec db fs).1 = .ok user)
    (hslot : reservedSlot db now upload user.id = .ok v) (hmis : Mismatch v body) :
    ¬ FreesSlot dep now r req upload body user v db fs := by
  intro hfrees
  obtain ⟨e, fs', hx, hcls⟩ := content_refused (r := r) hcaller hslot hmis
  obtain ⟨hv, -⟩ := reservedSlot_ok hslot
  exact (hfrees e db fs' hx hcls).row v hv rfl

/-! ## Traces -/

/-- Alice has reserved `mnist` 1.0 for the bytes `abc`. -/
def reservedHub : Hub := after unverified signedIn [.call (asAlice (.create abcIntent))]

def slot : ModelVersion := newVersion 0 101 100 abcIntent.request unverified.config

/-- The bytes `abd`. -/
def abd : Body := ⟨[[97, 98], [100]], false⟩

def draws : Rand := ⟨200, fun _ => "x"⟩

/-- The cookie of alice's session. -/
def cookie : Presented := { cookie := some "sfh_s_first" }

theorem caller_cookie : ((writeUser unverified.platform 0 unverified.config cookie).exec reservedHub.db
    reservedHub.volume).1 = .ok alice := by decide +kernel

theorem slot_reserved : reservedSlot reservedHub.db 0 101 alice.id = .ok slot := by decide +kernel

theorem abd_mismatch : Mismatch slot abd := by decide +kernel

theorem not_freed_abd : ¬ FreesSlot unverified 0 draws cookie 101 abd alice slot reservedHub.db
    reservedHub.volume :=
  never_freed unverified 0 draws cookie 101 abd alice slot reservedHub.db reservedHub.volume
    caller_cookie slot_reserved abd_mismatch

theorem not_freesSlot : ¬ ∀ (dep : Deployment) (now : Time) (r : Rand) (req : Presented) (upload : Uuid)
    (body : Body) (user : User) (v : ModelVersion) (db : Db) (fs : Volume),
    ((writeUser dep.platform now dep.config req).exec db fs).1 = .ok user →
    reservedSlot db now upload user.id = .ok v → Mismatch v body →
    FreesSlot dep now r req upload body user v db fs := by
  intro h
  have hfrees : FreesSlot unverified 0 draws cookie 101 abd alice slot reservedHub.db
      reservedHub.volume := h _ _ _ _ _ _ _ _ _ _ caller_cookie slot_reserved abd_mismatch
  obtain ⟨e, fs', hx, hcls⟩ := content_refused (r := draws) caller_cookie slot_reserved abd_mismatch
  obtain ⟨hslot, -⟩ := reservedSlot_ok slot_reserved
  exact (hfrees e reservedHub.db fs' hx hcls).row slot hslot rfl

end SpikeHub.Bugs.RefusedTransfer
