import SpikeHub.Core.Session
import SpikeHub.L1Data.Settings
import SpikeHub.L2Storage.Keys

/-!
# Artifact storage on the attached volume

Model of hub_api/storage/volume.py over a POSIX volume. A path is a staging
file, named by its upload, or an artifact, named by its object key, of which
each has a file of its own (`finalPath_inj`); the two roots do not overlap.
Creating a key's parent directory has no effect here.

The body of a request is the chunks the server reads and whether the client
goes away after them. The running digest is the bytes it was fed: `measure`
is what `_write` returns for them.

These are the calls as one request makes them with nothing in between. What
`stage` comes to is in `L2Storage/Streaming`, and the same steps interleaved
with other requests are in `L5Runs/Interleave`.
-/
namespace SpikeHub.L2

open SpikeHub.Core SpikeHub.L1

inductive Path
  | staging (uploadId : Uuid)
  | artifact (key : String)
deriving DecidableEq, Repr

abbrev Volume := Fs Path

/-- Where the file of a key is.
mirrors hub_api/storage/volume.py:41-43 -/
def finalPath (artifacts : PurePath) (key : String) : PurePath :=
  artifacts.join (.parse key.toList)

/-- Below the artifact root, in the directory and under the name of its key. -/
theorem finalPath_segments {artifacts : PurePath} {sha256 key : String} (h : objectKey sha256 = .ok key) :
    (finalPath artifacts key).segments = artifacts.segments ++ keyNames sha256 := by
  unfold finalPath
  rw [objectKey_toList h, PurePath.parse_names (keyNames_ne_nil _) (objectKey_names h)]
  rfl

theorem finalPath_inside {artifacts : PurePath} {sha256 key : String} (h : objectKey sha256 = .ok key) :
    artifacts.Inside (finalPath artifacts key) := by
  unfold finalPath
  rw [objectKey_toList h]
  exact PurePath.join_names_inside (keyNames_ne_nil _) (objectKey_names h)

/-- A file has one key, so that it may be named by it. -/
theorem finalPath_inj {artifacts : PurePath} {sha256 sha256' key key' : String}
    (h : objectKey sha256 = .ok key) (h' : objectKey sha256' = .ok key')
    (he : finalPath artifacts key = finalPath artifacts key') : key = key' := by
  have hsegments := congrArg PurePath.segments he
  rw [finalPath_segments h, finalPath_segments h', List.append_cancel_left_eq] at hsegments
  refine String.toList_inj.mp ?_
  rw [objectKey_toList h, objectKey_toList h', hsegments]

/-- mirrors hub_api/storage/blob.py:6-16 -/
structure StoredBlob where
  sha256 : String
  sizeBytes : Nat
deriving DecidableEq, Repr

/-- The blob of a digest fed `bs`. -/
def measure (bs : Bytes) : StoredBlob := ⟨sha256 bs, bs.length⟩

structure Body where
  chunks : List Bytes
  /-- the client disconnects after the last chunk -/
  cut : Bool := false
deriving DecidableEq, Repr

def Body.bytes (b : Body) : Bytes := b.chunks.flatten

/-- mirrors hub_api/storage/volume.py:127-137 -/
def checkCap (written maxBytes : Int) : Check :=
  refuseIf (written > maxBytes) <|
    refuse .quotaExceeded "the upload is larger than the reservation allowed"
      [("limit_bytes", .int maxBytes)]

section
variable {D : Type}

/-- mirrors hub_api/storage/volume.py:95-98 -/
def discard (uploadId : Uuid) : Work D Volume Raised Unit :=
  .outside fun fs => fs.unlink (.staging uploadId)

/-- The loop of `_write` on the open handle `i`, `got` received so far.
mirrors hub_api/storage/volume.py:70-74 -/
def writeChunks (i : Nat) (maxBytes : Int) : Bytes → List Bytes → Work D Volume Raised Bytes
  | got, [] => pure got
  | got, chunk :: rest => do
    .orRaise (checkCap (got.length + chunk.length) maxBytes)
    .outside fun fs => fs.writeAt i got.length chunk
    writeChunks i maxBytes (got ++ chunk) rest

/-- mirrors hub_api/storage/volume.py:60-77 -/
def write (path : Path) (body : Body) (maxBytes : Int) : Work D Volume Raised StoredBlob := do
  let i ← .effect fun fs => (.ok (fs.openTrunc path).2, (fs.openTrunc path).1)
  let got ← writeChunks i maxBytes [] body.chunks
  if body.cut then throw .clientDisconnect
  return measure got

/-- mirrors hub_api/storage/volume.py:45-58 -/
def stage (uploadId : Uuid) (body : Body) (maxBytes : Int) : Work D Volume Raised StoredBlob :=
  tryCatch (write (.staging uploadId) body maxBytes) fun e => do
    match e with
    | .hub ⟨.quotaExceeded, _, _⟩ => discard uploadId
    | _ => pure ()
    throw e

/-- `os.replace`, raising `FileNotFoundError` without a source. -/
def replace (fs : Volume) (source final : Path) : Except Raised Unit × Volume :=
  match fs.rename source final with
  | some fs' => (.ok (), fs')
  | none => (.error .fileNotFound, fs)

/-- mirrors hub_api/storage/volume.py:79-93 -/
def promote (uploadId : Uuid) (sha256 : String) : Work D Volume Raised String := do
  let key ← .orRaise (objectKey sha256)
  if ← .observe fun fs => fs.present (.artifact key) then
    discard uploadId
    return key
  .effect fun fs => replace fs (.staging uploadId) (.artifact key)
  return key

end

/-! ## What the calls did -/

section
variable {D : Type} {d : D} {fs : Volume} {u : Uuid} {maxBytes : Int}

/-! The calls act on the volume only. -/

theorem writeChunks_view {i : Nat} {rest : List Bytes} :
    ∀ {got : Bytes}, (writeChunks i maxBytes got rest : Work D Volume Raised Bytes).KeepsView := by
  induction rest with
  | nil => intro got d w; rfl
  | cons chunk rest ih =>
    intro got
    refine Work.KeepsView.bind (fun _ _ => rfl) fun _ => ?_
    exact Work.KeepsView.bind (fun _ _ => rfl) fun _ => ih

theorem stage_view {body : Body} :
    (stage u body maxBytes : Work D Volume Raised StoredBlob).KeepsView := by
  refine Work.KeepsView.tryCatch ?_ fun e => ?_
  · refine Work.KeepsView.bind (fun _ _ => rfl) fun i =>
      Work.KeepsView.bind writeChunks_view fun got => ?_
    cases body.cut <;> exact fun _ _ => rfl
  · rcases e with ⟨cls, _, _⟩ | _ | _ | _ | _ | _
    · cases cls <;> exact fun _ _ => rfl
    all_goals exact fun _ _ => rfl

theorem promote_view {sha : String} : (promote u sha : Work D Volume Raised String).KeepsView := by
  refine Work.KeepsView.bind (fun _ _ => rfl) fun key =>
    Work.KeepsView.bind (fun _ _ => rfl) fun there => ?_
  cases there with
  | true => exact fun _ _ => rfl
  | false => exact Work.KeepsView.bind (fun _ _ => rfl) fun _ _ _ => rfl

theorem checkCap_ok {written : Int} : checkCap written maxBytes = .ok () ↔ written ≤ maxBytes := by
  unfold checkCap refuse; rw [refuseIf_ok]; omega

/-- What `promote` did: the staged bytes left their name, and the object's
name reads them if it read nothing before. -/
def Promoted (u : Uuid) (key : String) (bs : Bytes) (fs fs' : Volume) : Prop :=
  ∃ mid, fs.Rewrites (.staging u) none mid ∧
    (fs' = mid ∨ (fs.read (.artifact key) = none ∧ mid.Rewrites (.artifact key) (some bs) fs'))

theorem promote_exec {sha key : String} (hkey : objectKey sha = .ok key) :
    (promote u sha).exec d fs =
      if fs.present (.artifact key) then (.ok key, d, fs.unlink (.staging u))
      else match replace fs (.staging u) (.artifact key) with
        | (.ok _, fs') => (.ok key, d, fs')
        | (.error e, fs') => (.error e, d, fs') := by
  unfold promote
  rw [Work.exec_bind, hkey, Work.exec_orRaise]
  dsimp only
  rw [Work.exec_bind, Work.exec_observe]
  dsimp only
  cases fs.present (.artifact key) with
  | true => rfl
  | false =>
    rw [if_neg (by simp), if_neg (by simp), Work.exec_bind, Work.exec_effect]
    rcases replace fs (.staging u) (.artifact key) with ⟨res, fs'⟩
    cases res <;> rfl

/-- What every name reads after a promote: the object's the bytes it had, or the staged ones. -/
theorem promote_spec {sha key : String} {bs : Bytes} (hkey : objectKey sha = .ok key)
    (hstaged : fs.read (.staging u) = some bs) :
    ∃ fs', (promote u sha).exec d fs = (.ok key, d, fs') ∧ Promoted u key bs fs fs' ∧
      ∀ p, fs'.read p = if p = .artifact key then some ((fs.read p).getD bs)
        else if p = .staging u then none else fs.read p := by
  have hmid : fs.Rewrites (.staging u) none (fs.unlink (.staging u)) := Fs.rewrites_unlink
  rw [promote_exec hkey]
  cases hp : fs.present (.artifact key) with
  | true =>
    obtain ⟨old, hold⟩ := Fs.present_iff.mp hp
    refine ⟨_, rfl, ⟨_, hmid, .inl rfl⟩, fun p => ?_⟩
    rw [Fs.read_unlink]
    by_cases hartifact : p = .artifact key
    · subst hartifact
      rw [if_neg (by simp), if_pos rfl, hold]
      rfl
    · rw [if_neg hartifact]
  | false =>
    have habsent : fs.read (.artifact key) = none := by
      cases hr : fs.read (.artifact key) with
      | none => rfl
      | some b => rw [Fs.present_iff.mpr ⟨b, hr⟩] at hp; cases hp
    obtain ⟨i, hi, -⟩ := Fs.read_eq_some.mp hstaged
    obtain ⟨fs', hfs⟩ := Option.isSome_iff_exists.mp
      (Fs.rename_isSome (q := .artifact key) hi)
    refine ⟨fs', ?_, ⟨_, hmid, .inr ⟨habsent, fun q => ?_⟩⟩, fun p => ?_⟩
    · unfold replace
      rw [hfs]
      rfl
    · rw [Fs.read_rename hfs hstaged, Fs.read_unlink]
    · rw [Fs.read_rename hfs hstaged]
      by_cases hartifact : p = .artifact key
      · subst hartifact
        rw [if_pos rfl, if_pos rfl, habsent]
        rfl
      · rw [if_neg hartifact, if_neg hartifact]

section
variable {fs' : Volume} {key : String} {bs : Bytes}

/-- Promoting costs no space. -/
theorem Promoted.usage (h : Promoted u key bs fs fs') (hstaged : fs.read (.staging u) = some bs) :
    fs'.usage ≤ fs.usage := by
  obtain ⟨mid, hmid, h⟩ := h
  have hm := hmid.usage
  rw [Fs.size_eq hstaged, Fs.size_eq_zero hmid.at] at hm
  rcases h with rfl | ⟨habsent, hr⟩
  · omega
  · have hk := hr.usage
    have hnone : mid.read (.artifact key) = none := by rw [hmid.other (by simp), habsent]
    rw [Fs.size_eq hr.at, Fs.size_eq_zero hnone] at hk
    omega

theorem Promoted.read_staging (h : Promoted u key bs fs fs') (w : Uuid) :
    fs'.read (.staging w) = if w = u then none else fs.read (.staging w) := by
  obtain ⟨mid, hmid, h⟩ := h
  have hw : mid.read (.staging w) = if w = u then none else fs.read (.staging w) := by
    rw [hmid]; simp only [Path.staging.injEq]
  rcases h with rfl | ⟨-, hr⟩
  · exact hw
  · rw [hr.other (by simp), hw]

end
end
end SpikeHub.L2
