import SpikeHub.L4Routes.Versions
import SpikeHub.L5Runs.Requests

/-!
# Pinned versions

The service answering requests in turn, and the janitor sweeping in between
(`lts`). A version row that has left `RESERVED` is never removed and keeps
what a client pins: its model, its version, its digest, its size and its
object (`Pinned`); its state moves on at most once more (`Moves`). With the
models and accounts that are there to stay (`Keeps`), a name that resolves
once resolves to the same artifact from then on.
-/
namespace SpikeHub.L5.Catalogue

open SpikeHub.Core SpikeHub.L1 SpikeHub.L2 SpikeHub.L4.Auth SpikeHub.L4.Uploads SpikeHub.L4.Routes
open SpikeHub.L4.Catalog
open SpikeHub.L5.Interleave (Hub intentFor length_pos)
open SpikeHub.L5.Requests (Call serve serve_renewed trial signedIn asAlice)

inductive Lbl
  | tick (d : Nat)
  | call (c : Call)
  | sweep

/-- The janitor's run: one session, committed. -/
def swept (h : Hub) : Hub :=
  let (_, db, volume) := dbSession (committing (sweep h.now)) h.db h.volume
  { h with db := db, volume := volume }

def step (dep : Deployment) (h : Hub) : Lbl → Hub
  | .tick d => { h with now := h.now + d }
  | .call c => (serve dep c h).2
  | .sweep => swept h

/-- The service from any state on. -/
def lts (dep : Deployment) : LTS Hub Lbl where
  init _ := True
  step h l h' := h' = step dep h l

inductive Moves : VersionState → VersionState → Prop
  | stays (s : VersionState) : Moves s s
  | verifying : Moves .uploaded .verifying
  | published : Moves .uploaded .published

/-- The same upload, later. -/
structure Pinned (v w : ModelVersion) : Prop where
  id : w.id = v.id
  modelId : w.modelId = v.modelId
  version : w.version = v.version
  sha256 : w.sha256 = v.sha256
  sizeBytes : w.sizeBytes = v.sizeBytes
  objectKey : w.objectKey = v.objectKey
  state : Moves v.state w.state

/-- The accounts, the models, and the versions past `RESERVED` are still there. -/
structure Keeps (db db' : Db) : Prop where
  users : ∀ u ∈ db.users, u ∈ db'.users
  models : ∀ m ∈ db.models, m ∈ db'.models
  versions : ∀ v ∈ db.versions, v.state ≠ .reserved → ∃ w ∈ db'.versions, Pinned v w

variable {dep : Deployment} {h h' : Hub} {l : Lbl} {ls : List Lbl} {db db' db'' : Db}

theorem Moves.trans {a b c : VersionState} (h : Moves a b) (h' : Moves b c) : Moves a c := by
  cases h with
  | stays => exact h'
  | verifying => cases h'; exact .verifying
  | published => cases h'; exact .published

theorem Moves.left {a b : VersionState} (h : Moves a b) (ha : a ≠ .reserved) : b ≠ .reserved := by
  cases h with
  | stays => exact ha
  | verifying => decide
  | published => decide

theorem Moves.published_stays {a b : VersionState} (h : Moves a b) (ha : a = .published) :
    b = .published := by
  cases h with
  | stays => exact ha
  | verifying => cases ha
  | published => cases ha

theorem Pinned.refl (v : ModelVersion) : Pinned v v := ⟨rfl, rfl, rfl, rfl, rfl, rfl, .stays _⟩

theorem Pinned.trans {u v w : ModelVersion} (h : Pinned u v) (h' : Pinned v w) : Pinned u w :=
  ⟨h'.id.trans h.id, h'.modelId.trans h.modelId, h'.version.trans h.version, h'.sha256.trans h.sha256,
    h'.sizeBytes.trans h.sizeBytes, h'.objectKey.trans h.objectKey, h.state.trans h'.state⟩

theorem pinned_movedOn {now : Time} {config : Settings} {v : ModelVersion} (hv : v.state = .uploaded) :
    Pinned v (movedOn now config v) := by
  refine ⟨movedOn_id, movedOn_modelId, (movedOn_keys now config).version v, movedOn_sha256,
    movedOn_sizeBytes, movedOn_objectKey, ?_⟩
  unfold movedOn publishUnchecked
  rw [hv]
  split
  · exact .verifying
  · exact .published

theorem Keeps.refl (db : Db) : Keeps db db :=
  ⟨fun _ h => h, fun _ h => h, fun v hv _ => ⟨v, hv, .refl v⟩⟩

theorem Keeps.trans (h : Keeps db db') (h' : Keeps db' db'') : Keeps db db'' where
  users u hu := h'.users u (h.users u hu)
  models m hm := h'.models m (h.models m hm)
  versions v hv hleft := by
    obtain ⟨w, hw, hvw⟩ := h.versions v hv hleft
    obtain ⟨x, hx, hwx⟩ := h'.versions w hw (hvw.state.left hleft)
    exact ⟨x, hx, hvw.trans hwx⟩

/-! ## Step by step -/

/-- One row changed, in a way that pins it if it has left `RESERVED`. -/
theorem pinned_setVersion {id : Uuid} {f : ModelVersion → ModelVersion} (hf : KeepsKeys f)
    (hpin : ∀ v ∈ db.versions, v.id = id → v.state ≠ .reserved → Pinned v (f v)) :
    ∀ v ∈ db.versions, v.state ≠ .reserved → ∃ w ∈ (setVersion db id f hf).versions, Pinned v w := by
  intro v hv hleft
  refine ⟨_, mem_setVersion.mpr ⟨v, hv, rfl⟩, ?_⟩
  split
  · rename_i hid
    exact hpin v hv hid hleft
  · exact .refl v

theorem keeps_rowEffect {now : Time} {r : Rand} {req : Presented} {fs : Volume} {body : Request}
    {res : Except Raised Reply} (hu : ∀ u ∈ db.users, u ∈ db'.users)
    (h : RowEffect dep now r req db fs body res db') : Keeps db db' := by
  cases h with
  | same hsame =>
    refine ⟨hu, fun m hm => hsame.models ▸ hm, fun v hv _ => ⟨v, hsame.versions ▸ hv, .refl v⟩⟩
  | reserved hcaller _ hgranted =>
    have hsame := (currentUser_ok hcaller).2.sameRows
    obtain ⟨modelId, hadd⟩ := hgranted.added
    refine ⟨hu, fun m hm => hadd.models m (hsame.models ▸ hm), fun v hv _ => ⟨v, ?_, .refl v⟩⟩
    exact hadd.mem.mpr (.inl (hsame.versions ▸ hv))
  | stored hsame hslot hstore =>
    obtain ⟨-, he, rfl⟩ := storeUploaded_ok hstore
    obtain ⟨hmem, -, -, hreserved, -⟩ := reservedSlot_ok hslot
    refine ⟨hu, fun m hm => hsame.models ▸ hm, fun v hv hleft => ?_⟩
    rw [← hsame.versions] at hv
    -- the row it stores into is a reserved one
    refine pinned_setVersion (uploadedAs_keys _) (fun w hw hid hwleft => ?_) v hv hleft
    rw [version_eq hw hmem hid] at hwleft
    exact absurd hreserved hwleft
  | published hsame hmem hstate =>
    refine ⟨hu, fun m hm => hsame.models ▸ hm, fun v hv hleft => ?_⟩
    rw [← hsame.versions] at hv
    refine pinned_setVersion (movedOn_keys _ _) (fun w hw hid _ => ?_) v hv hleft
    rw [version_eq hw hmem hid]
    exact pinned_movedOn hstate
  | counted =>
    refine ⟨hu, fun _ hm => hm, pinned_setVersion (countedFrom_keys _) fun v _ _ _ => ?_⟩
    exact ⟨rfl, rfl, rfl, rfl, rfl, rfl, .stays _⟩

theorem swept_db (h : Hub) :
    (swept h).db = deleteVersions ((expired h.db h.now).map ModelVersion.id) h.db := by
  obtain ⟨n, fs, hx, -⟩ := sweep_spec h.now h.db h.volume
  unfold swept
  rw [dbSession_commit, hx]

theorem keeps_swept (h : Hub) : Keeps h.db (swept h).db := by
  rw [swept_db]
  refine ⟨fun _ hu => hu, fun _ hm => hm, fun v hv hleft => ⟨v, ?_, .refl v⟩⟩
  refine mem_deleteVersions.mpr ⟨hv, fun hid => ?_⟩
  obtain ⟨w, hw, he⟩ := List.mem_map.mp hid
  obtain ⟨hwmem, hreserved, -⟩ := mem_expired.mp hw
  rw [version_eq hwmem hv he] at hreserved
  exact hleft hreserved

theorem serve_rowEffect (dep : Deployment) (c : Call) (h : Hub) :
    RowEffect dep h.now ⟨h.fresh, c.secret⟩ c.req h.db h.volume c.body (serve dep c h).1
      (serve dep c h).2.db :=
  rowEffect_of_route rfl

theorem keeps_step (hs : (lts dep).step h l h') : Keeps h.db h'.db := by
  cases hs
  cases l with
  | tick => exact .refl _
  | call c =>
    exact keeps_rowEffect (serve_renewed dep c h).carries.users (serve_rowEffect dep c h)
  | sweep => exact keeps_swept h

theorem keeps_run (hr : (lts dep).Run h ls h') : Keeps h.db h'.db :=
  hr.keeps (P := fun s => Keeps h.db s.db) (fun _ _ _ hk hs => hk.trans (keeps_step hs)) (.refl _)

/-! ## Names -/

/-- A name that resolves keeps resolving, to the same artifact. -/
theorem Keeps.oneVersion {handle slug version : String} {r : PublishedRow} (hk : Keeps db db')
    (hr : oneVersion db handle slug version = some r) :
    ∃ r', oneVersion db' handle slug version = some r' ∧ Pinned r.version r'.version := by
  obtain ⟨hvisible, hhandle, hslug, hversion⟩ := oneVersion_eq_some.mp hr
  obtain ⟨hjoined, hactive, hpublic, hstate⟩ := mem_visibleRows.mp hvisible
  obtain ⟨hm, hv, hkey, u, hu, howner, huh⟩ := mem_joined.mp hjoined
  obtain ⟨w, hw, hpin⟩ := hk.versions r.version hv (by rw [hstate]; decide)
  have hwstate : w.state = .published := hpin.state.published_stays hstate
  refine ⟨⟨r.model, w, r.handle⟩, oneVersion_eq_some.mpr ⟨?_, hhandle, hslug, ?_⟩, hpin⟩
  · refine mem_visibleRows.mpr ⟨mem_joined.mpr ?_, hactive, hpublic, hwstate⟩
    exact ⟨hk.models _ hm, hw, hpin.modelId.trans hkey, u, hk.users u hu, howner, huh⟩
  · exact hpin.version.trans hversion

/-- A download of a name that resolves is redirected to its artifact. -/
theorem serve_download {req : Presented} {handle slug version : String} {secret : Nat → String}
    {r : PublishedRow} (hr : oneVersion h.db handle slug version = some r) :
    (serve dep ⟨req, .download handle slug version, secret⟩ h).1 =
      .ok (.redirect (artifactUrl dep.config.artifactPublicBase r.version)) := by
  obtain ⟨hvisible, -⟩ := oneVersion_eq_some.mp hr
  obtain ⟨-, hv, -⟩ := mem_joined.mp (mem_visibleRows.mp hvisible).1
  show (dbSession (download dep handle slug version) h.db h.volume).1 = _
  unfold download
  rw [dbSession_commit, Work.exec_bind, Work.exec_check, hr]
  dsimp only [orNotFound]
  rw [Work.exec_bind, Work.exec_statement]
  unfold updateVersion
  rw [if_pos ⟨r.version, hv, rfl⟩]
  rfl

/-- **A pinned version never changes.** -/
theorem pinned_never_changes (dep : Deployment) (h h' : Hub) (ls : List Lbl)
    (hrun : (lts dep).Run h ls h') :
    (∀ v ∈ h.db.versions, v.state ≠ .reserved → ∃ w ∈ h'.db.versions, Pinned v w) ∧
      (∀ handle slug version,
        ((visibleRows h'.db).filter (PublishedRow.named handle slug version)).length ≤ 1) ∧
      ∀ handle slug version r, oneVersion h.db handle slug version = some r →
        ∃ r', oneVersion h'.db handle slug version = some r' ∧
          r'.version.sha256 = r.version.sha256 ∧
          ∀ req secret, (serve dep ⟨req, .download handle slug version, secret⟩ h').1 =
            .ok (.redirect (artifactUrl dep.config.artifactPublicBase r.version)) := by
  have hkeeps := keeps_run hrun
  refine ⟨hkeeps.versions, named_length_le h'.db, fun handle slug version r hr => ?_⟩
  obtain ⟨r', hr', hpin⟩ := hkeeps.oneVersion hr
  refine ⟨r', hr', hpin.sha256, fun req secret => ?_⟩
  rw [serve_download hr', artifactUrl, hpin.objectKey, artifactUrl]

/-! ## Traces -/

/-- Every account may publish, and nothing waits for a verification. -/
def unverified : Deployment :=
  { trial with config := { publishingGate := .open, requireVerification := false } }

/-- The three bytes `abc`, declared as they are. -/
def abcIntent : UploadIntent := ⟨intentFor [97, 98, 99] "1.0", length_pos _ (by decide)⟩

def after (dep : Deployment) (h : Hub) (ls : List Lbl) : Hub := ls.foldl (step dep) h

theorem run_after (dep : Deployment) (h : Hub) (ls : List Lbl) : (lts dep).Run h ls (after dep h ls) := by
  induction ls generalizing h with
  | nil => exact .nil h
  | cons l ls ih => exact .cons rfl (ih (step dep h l))

/-- The upload of `abc` under an intent, from its reservation to its publication. -/
def uploading (intent : UploadIntent) (upload : Uuid) : List Lbl :=
  [.call (asAlice (.create intent)), .call (asAlice (.content upload true ⟨[[97, 98], [99]], false⟩)),
    .call (asAlice (.commit upload))]

def uploaded : Hub := after unverified signedIn (uploading abcIntent 101)

/-- A download, the same version reserved again, and a sweep. -/
def goingOn : List Lbl :=
  [.call ⟨{}, .download "alice" "mnist" "1.0", fun _ => ""⟩, .call (asAlice (.create abcIntent)),
    .tick 900000000, .sweep]

theorem pinned_after_upload : ∃ r r', oneVersion uploaded.db "alice" "mnist" "1.0" = some r ∧
    oneVersion (after unverified uploaded goingOn).db "alice" "mnist" "1.0" = some r' ∧
      r'.version.sha256 = r.version.sha256 := by
  have hfound : (oneVersion uploaded.db "alice" "mnist" "1.0").isSome = true := by decide +kernel
  obtain ⟨r, hr⟩ := Option.isSome_iff_exists.mp hfound
  obtain ⟨-, -, hname⟩ := pinned_never_changes unverified uploaded (after unverified uploaded goingOn)
    goingOn (run_after unverified uploaded goingOn)
  obtain ⟨r', hr', hsha, -⟩ := hname "alice" "mnist" "1.0" r hr
  exact ⟨r, r', hr, hr', hsha⟩

end SpikeHub.L5.Catalogue
