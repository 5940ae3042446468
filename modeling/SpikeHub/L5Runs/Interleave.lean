import SpikeHub.Core.LTS
import SpikeHub.L4Uploads.Ledger

/-!
# Requests interleaved

The upload service with any number of requests in flight. A request is a
`Job`: it stands at an await point (`ContentPc`, `CommitPc`, `SweepPc`), and
one `step` takes it to the next. What a request reads from the database it
reads from the committed state at that step; its own changes reach the
committed state in its last step, all at once (READ COMMITTED, no row locks,
one commit at the end of the route). Every volume call takes effect at its
own step.

* `PUT …/content` (`contentStep`): slot check, opening the staging file, each
  chunk, the digest check, exists-or-rename, the update and the ledger entry.
* `POST …/commit` (`commitStep`): the read with its state check, the update.
* `sweep` (`sweepStep`): the select, one discard at a time, the delete.
* `POST /v1/uploads` is one step (its own interleavings are in `Intents`).

`fail r` ends request `r` where it stands: a client that went away, an
exception, a killed worker. Its database effects are rolled back, since it
has not committed, and its file effects stay. `tick` moves the clock.

A body is the list of chunks the server will read; a body cut short is a run
in which the request fails before its last chunk.

Every step is one of a few kinds (`ContentStep`, `JobStep`, `Trans`), and
`step_trans` is the inversion all invariants are proved from.
-/
namespace SpikeHub.L5.Interleave

open SpikeHub.Core SpikeHub.L1 SpikeHub.L2 SpikeHub.L3 SpikeHub.L4.Uploads

/-- What the requests share. `fresh` is the next `uuid4`. -/
structure Hub where
  now : Time
  db : Db
  volume : Volume
  fresh : Uuid

/-- Where a content request stands; `version` is the row its slot check read. -/
inductive ContentPc
  | checking
  | opening (version : ModelVersion)
  | streaming (version : ModelVersion) (ino : Nat) (got : Bytes) (rest : List Bytes)
  | overflow (e : Raised)
  | measured (version : ModelVersion) (blob : StoredBlob)
  | mismatched (version : ModelVersion) (e : Raised)
  | promoting (version : ModelVersion) (blob : StoredBlob)
  | reusing (version : ModelVersion) (blob : StoredBlob) (key : String)
  | replacing (version : ModelVersion) (blob : StoredBlob) (key : String)
  | writing (version : ModelVersion) (blob : StoredBlob) (key : String)
  | done (raised : Option Raised)
deriving DecidableEq

inductive CommitPc
  | reading
  | writing (version : ModelVersion)
  | done (raised : Option Raised)
deriving DecidableEq

/-- `ids` are the rows the select returned, `rest` those not yet discarded. -/
inductive SweepPc
  | selecting
  | discarding (rest : List ModelVersion) (ids : List Uuid)
  | done (raised : Option Raised)
deriving DecidableEq

inductive Job
  | content (user upload : Uuid) (chunks : List Bytes) (pc : ContentPc)
  | commit (user upload : Uuid) (pc : CommitPc)
  | sweep (pc : SweepPc)
deriving DecidableEq

/-- `PUT /v1/uploads/{id}/content`.
mirrors hub_api/uploads/receive.py:73-90 over hub_api/storage/volume.py:45-98 -/
def contentStep (h : Hub) (user upload : Uuid) (chunks : List Bytes) :
    ContentPc → Option (Hub × ContentPc)
  | .checking =>
    match reservedSlot h.db h.now upload user with
    | .ok version => some (h, .opening version)
    | .error e => some (h, .done (some e))
  | .opening version =>
    let (volume, ino) := h.volume.openTrunc (.staging upload)
    some ({ h with volume := volume }, .streaming version ino [] chunks)
  | .streaming version ino got (chunk :: rest) =>
    match checkCap (got.length + chunk.length) version.sizeBytes with
    | .ok _ =>
      some ({ h with volume := h.volume.writeAt ino got.length chunk },
        .streaming version ino (got ++ chunk) rest)
    | .error e => some (h, .overflow e)
  | .streaming version _ got [] => some (h, .measured version (measure got))
  | .overflow e => some ({ h with volume := h.volume.unlink (.staging upload) }, .done (some e))
  | .measured version blob =>
    match checkMeasured version blob with
    | .ok _ => some (h, .promoting version blob)
    | .error e => some (h, .mismatched version e)
  | .mismatched version e =>
    -- the row's deletion in `_abandon` is rolled back when `e` leaves the route
    some ({ h with volume := h.volume.unlink (.staging version.id) }, .done (some e))
  | .promoting version blob =>
    match objectKey blob.sha256 with
    | .error e => some (h, .done (some e))
    | .ok key =>
      if h.volume.present (.artifact key) then some (h, .reusing version blob key)
      else some (h, .replacing version blob key)
  | .reusing version blob key =>
    some ({ h with volume := h.volume.unlink (.staging upload) }, .writing version blob key)
  | .replacing version blob key =>
    match h.volume.rename (.staging upload) (.artifact key) with
    | some volume => some ({ h with volume := volume }, .writing version blob key)
    | none => some (h, .done (some .fileNotFound))
  | .writing version blob key =>
    match storeUploaded h.now h.fresh user version key blob h.db with
    | .ok db => some ({ h with db := db, fresh := h.fresh + 1 }, .done none)
    | .error e => some (h, .done (some e))
  | .done _ => none

/-- `POST /v1/uploads/{id}/commit`.
mirrors hub_api/routes/uploads.py:87-106 over hub_api/uploads/publish.py:22-47 -/
def commitStep (config : Settings) (h : Hub) (user upload : Uuid) :
    CommitPc → Option (Hub × CommitPc)
  | .reading =>
    match ownedVersion h.db upload user with
    | .error e => some (h, .done (some e))
    | .ok version =>
      match checkUploaded version with
      | .ok _ => some (h, .writing version)
      | .error e => some (h, .done (some e))
  | .writing version =>
    match storePublished h.now config version.id h.db with
    | .ok db => some ({ h with db := db }, .done none)
    | .error e => some (h, .done (some e))
  | .done _ => none

/-- `sweep` and the commit of the run it is part of.
mirrors hub_api/uploads/janitor.py:18-36 -/
def sweepStep (h : Hub) : SweepPc → Option (Hub × SweepPc)
  | .selecting =>
    let rows := expired h.db h.now
    some (h, .discarding rows (rows.map ModelVersion.id))
  | .discarding (version :: rest) ids =>
    some ({ h with volume := h.volume.unlink (.staging version.id) }, .discarding rest ids)
  | .discarding [] ids => some ({ h with db := deleteVersions ids h.db }, .done none)
  | .done _ => none

def jobStep (config : Settings) (h : Hub) : Job → Option (Hub × Job)
  | .content user upload chunks pc =>
    (contentStep h user upload chunks pc).map fun (h, pc) => (h, .content user upload chunks pc)
  | .commit user upload pc =>
    (commitStep config h user upload pc).map fun (h, pc) => (h, .commit user upload pc)
  | .sweep pc => (sweepStep h pc).map fun (h, pc) => (h, .sweep pc)

namespace Job

/-- The request has been answered. -/
def finished : Job → Bool
  | .content _ _ _ (.done _) | .commit _ _ (.done _) | .sweep (.done _) => true
  | _ => false

/-- The request as `fail` leaves it. -/
def failed : Job → Job
  | .content user upload chunks _ => .content user upload chunks (.done (some .clientDisconnect))
  | .commit user upload _ => .commit user upload (.done (some .clientDisconnect))
  | .sweep _ => .sweep (.done (some .clientDisconnect))

end Job

structure Sys where
  hub : Hub
  jobs : List Job

inductive Lbl
  | tick (d : Nat)
  /-- `POST /v1/uploads`, with the free space its check is told -/
  | create (user : Uuid) (free : Int) (request : UploadRequest)
  | content (user upload : Uuid) (chunks : List Bytes)
  | commit (user upload : Uuid)
  | sweep
  | step (r : Nat)
  | fail (r : Nat)
deriving DecidableEq

/-- `POST /v1/uploads` in one session; no such account, no session. -/
def createStep (config : Settings) (h : Hub) (user : Uuid) (free : Int) (request : UploadRequest) :
    Option Hub :=
  (h.db.user? user).map fun u =>
    let (_, db, volume) := dbSession
      (committing (reserve h.now (fun _ => free) ⟨h.fresh, h.fresh + 1⟩ u request config))
      h.db h.volume
    { h with db := db, volume := volume, fresh := h.fresh + 2 }

def spawn (s : Sys) (j : Job) : Sys := { s with jobs := s.jobs ++ [j] }

/-- The request a label starts. -/
def request : Lbl → Option Job
  | .content user upload chunks => some (.content user upload chunks .checking)
  | .commit user upload => some (.commit user upload .reading)
  | .sweep => some (.sweep .selecting)
  | _ => none

def step (config : Settings) (s : Sys) : Lbl → Option Sys
  | .tick d => some { s with hub := { s.hub with now := s.hub.now + d } }
  | .create user free request =>
    (createStep config s.hub user free request).map fun h => { s with hub := h }
  | .content user upload chunks => (request (.content user upload chunks)).map (spawn s)
  | .commit user upload => (request (.commit user upload)).map (spawn s)
  | .sweep => (request .sweep).map (spawn s)
  | .step r =>
    match s.jobs[r]? with
    | none => none
    | some j => (jobStep config s.hub j).map fun (h, j) => ⟨h, s.jobs.set r j⟩
  | .fail r =>
    match s.jobs[r]? with
    | none => none
    | some j => if j.finished then none else some { s with jobs := s.jobs.set r j.failed }

/-- The accounts, and nothing stored or reserved yet. -/
def start (users : Table User) (now : Time) : Sys :=
  ⟨⟨now, .ofUsers users, .empty Path, 0⟩, []⟩

def lts (config : Settings) : LTS Sys Lbl :=
  LTS.ofFn (fun s => ∃ users now, s = start users now) (step config)

/-! ## What a step can do -/

inductive ContentStep (h : Hub) (user upload : Uuid) (chunks : List Bytes) :
    ContentPc → Hub → ContentPc → Prop
  | quit {pc : ContentPc} {e : Raised} :
      (∀ version blob key, pc = .writing version blob key →
        storeUploaded h.now h.fresh user version key blob h.db = .error e) →
      ContentStep h user upload chunks pc h (.done (some e))
  | admitted {version : ModelVersion} :
      reservedSlot h.db h.now upload user = .ok version →
      ContentStep h user upload chunks .checking h (.opening version)
  | opened {version : ModelVersion} :
      ContentStep h user upload chunks (.opening version)
        { h with volume := (h.volume.openTrunc (.staging upload)).1 }
        (.streaming version (h.volume.openTrunc (.staging upload)).2 [] chunks)
  | chunk {version : ModelVersion} {ino : Nat} {got c : Bytes} {rest : List Bytes} :
      (got.length + c.length : Int) ≤ version.sizeBytes →
      ContentStep h user upload chunks (.streaming version ino got (c :: rest))
        { h with volume := h.volume.writeAt ino got.length c }
        (.streaming version ino (got ++ c) rest)
  | capped {version : ModelVersion} {ino : Nat} {got c : Bytes} {rest : List Bytes} {e : Raised} :
      ContentStep h user upload chunks (.streaming version ino got (c :: rest)) h (.overflow e)
  | ended {version : ModelVersion} {ino : Nat} {got : Bytes} :
      ContentStep h user upload chunks (.streaming version ino got []) h
        (.measured version (measure got))
  | dropped {pc : ContentPc} {id : Uuid} {e : Raised} :
      (∀ version blob key, pc ≠ .writing version blob key) →
      ContentStep h user upload chunks pc { h with volume := h.volume.unlink (.staging id) }
        (.done (some e))
  | verified {version : ModelVersion} {blob : StoredBlob} :
      checkMeasured version blob = .ok () →
      ContentStep h user upload chunks (.measured version blob) h (.promoting version blob)
  | mismatch {version : ModelVersion} {blob : StoredBlob} {e : Raised} :
      ContentStep h user upload chunks (.measured version blob) h (.mismatched version e)
  | found {version : ModelVersion} {blob : StoredBlob} {key : String} :
      objectKey blob.sha256 = .ok key → h.volume.present (.artifact key) = true →
      ContentStep h user upload chunks (.promoting version blob) h (.reusing version blob key)
  | absent {version : ModelVersion} {blob : StoredBlob} {key : String} :
      objectKey blob.sha256 = .ok key → h.volume.present (.artifact key) = false →
      ContentStep h user upload chunks (.promoting version blob) h (.replacing version blob key)
  | reused {version : ModelVersion} {blob : StoredBlob} {key : String} :
      ContentStep h user upload chunks (.reusing version blob key)
        { h with volume := h.volume.unlink (.staging upload) } (.writing version blob key)
  | replaced {version : ModelVersion} {blob : StoredBlob} {key : String} {volume : Volume} :
      h.volume.rename (.staging upload) (.artifact key) = some volume →
      ContentStep h user upload chunks (.replacing version blob key)
        { h with volume := volume } (.writing version blob key)
  | charged {version : ModelVersion} {blob : StoredBlob} {key : String} {db : Db} :
      storeUploaded h.now h.fresh user version key blob h.db = .ok db →
      ContentStep h user upload chunks (.writing version blob key)
        { h with db := db, fresh := h.fresh + 1 } (.done none)

inductive JobStep (config : Settings) (h : Hub) : Job → Hub → Job → Prop
  | content {user upload : Uuid} {chunks : List Bytes} {pc pc' : ContentPc} {h' : Hub} :
      ContentStep h user upload chunks pc h' pc' →
      JobStep config h (.content user upload chunks pc) h' (.content user upload chunks pc')
  | commitQuit {user upload : Uuid} {pc : CommitPc} {e : Raised} :
      JobStep config h (.commit user upload pc) h (.commit user upload (.done (some e)))
  | committing {user upload : Uuid} {version : ModelVersion} :
      ownedVersion h.db upload user = .ok version → version.state = .uploaded →
      JobStep config h (.commit user upload .reading) h (.commit user upload (.writing version))
  | committed {user upload : Uuid} {version : ModelVersion} {db : Db} :
      storePublished h.now config version.id h.db = .ok db →
      JobStep config h (.commit user upload (.writing version)) { h with db := db }
        (.commit user upload (.done none))
  | selected :
      JobStep config h (.sweep .selecting) h
        (.sweep (.discarding (expired h.db h.now) ((expired h.db h.now).map ModelVersion.id)))
  | discarded {version : ModelVersion} {rest : List ModelVersion} {ids : List Uuid} :
      JobStep config h (.sweep (.discarding (version :: rest) ids))
        { h with volume := h.volume.unlink (.staging version.id) }
        (.sweep (.discarding rest ids))
  | swept {ids : List Uuid} :
      JobStep config h (.sweep (.discarding [] ids)) { h with db := deleteVersions ids h.db }
        (.sweep (.done none))

inductive Trans (config : Settings) (s : Sys) : Lbl → Sys → Prop
  | tick {d : Nat} :
      Trans config s (.tick d) { s with hub := { s.hub with now := s.hub.now + d } }
  | granted {user : Uuid} {free : Int} {request : UploadRequest} {u : User} {db : Db} :
      s.hub.db.user? user = some u →
      Granted s.hub.now free ⟨s.hub.fresh, s.hub.fresh + 1⟩ u request config s.hub.db db →
      Trans config s (.create user free request)
        { s with hub := { s.hub with db := db, fresh := s.hub.fresh + 2 } }
  | refused {user : Uuid} {free : Int} {request : UploadRequest} :
      Trans config s (.create user free request)
        { s with hub := { s.hub with fresh := s.hub.fresh + 2 } }
  | spawned {l : Lbl} {j : Job} : request l = some j → Trans config s l (spawn s j)
  | stepped {r : Nat} {j j' : Job} {h' : Hub} :
      s.jobs[r]? = some j → j.finished = false → JobStep config s.hub j h' j' →
      Trans config s (.step r) ⟨h', s.jobs.set r j'⟩
  | failed {r : Nat} {j : Job} :
      s.jobs[r]? = some j → j.finished = false →
      Trans config s (.fail r) { s with jobs := s.jobs.set r j.failed }

theorem contentStep_spec {h h' : Hub} {user upload : Uuid} {chunks : List Bytes}
    {pc pc' : ContentPc} (hs : contentStep h user upload chunks pc = some (h', pc')) :
    ContentStep h user upload chunks pc h' pc' := by
  unfold contentStep at hs
  split at hs
  · split at hs <;> cases hs
    · rename_i hv; exact .admitted hv
    · exact .quit fun _ _ _ h => by cases h
  · cases hs; exact .opened
  · split at hs <;> cases hs
    · rename_i hc; exact .chunk (checkCap_ok.mp hc)
    · exact .capped
  · cases hs; exact .ended
  · cases hs; exact .dropped fun _ _ _ h => by cases h
  · split at hs <;> cases hs
    · rename_i hm; exact .verified hm
    · exact .mismatch
  · cases hs; exact .dropped fun _ _ _ h => by cases h
  · split at hs
    · cases hs; exact .quit fun _ _ _ h => by cases h
    · rename_i hk
      split at hs <;> cases hs
      · rename_i hp; exact .found hk hp
      · rename_i hp; exact .absent hk (Bool.eq_false_iff.mpr hp)
  · cases hs; exact .reused
  · split at hs <;> cases hs
    · rename_i hr; exact .replaced hr
    · exact .quit fun _ _ _ h => by cases h
  · split at hs <;> cases hs
    · rename_i hc; exact .charged hc
    · rename_i he
      exact .quit fun version blob key hpc => by cases hpc; exact he
  · cases hs

theorem jobStep_spec {config : Settings} {h h' : Hub} {j j' : Job}
    (hs : jobStep config h j = some (h', j')) : JobStep config h j h' j' := by
  cases j with
  | content user upload chunks pc =>
    obtain ⟨⟨h₁, pc'⟩, hc, he⟩ := Option.map_eq_some_iff.mp hs
    cases he
    exact .content (contentStep_spec hc)
  | commit user upload pc =>
    obtain ⟨⟨h₁, pc'⟩, hc, he⟩ := Option.map_eq_some_iff.mp hs
    cases he
    unfold commitStep at hc
    split at hc
    · split at hc
      · cases hc; exact .commitQuit
      · rename_i hv
        split at hc <;> cases hc
        · rename_i hu; exact .committing hv (checkUploaded_ok.mp hu)
        · exact .commitQuit
    · split at hc <;> cases hc
      · rename_i hp; exact .committed hp
      · exact .commitQuit
    · cases hc
  | sweep pc =>
    obtain ⟨⟨h₁, pc'⟩, hc, he⟩ := Option.map_eq_some_iff.mp hs
    cases he
    unfold sweepStep at hc
    split at hc <;> cases hc
    · exact .selected
    · exact .discarded
    · exact .swept

theorem finished_of_jobStep {config : Settings} {h h' : Hub} {j j' : Job}
    (hs : jobStep config h j = some (h', j')) : j.finished = false := by
  cases j with
  | content user upload chunks pc => cases pc <;> first | rfl | cases hs
  | commit user upload pc => cases pc <;> first | rfl | cases hs
  | sweep pc => cases pc <;> first | rfl | cases hs

theorem step_trans {config : Settings} {s s' : Sys} {l : Lbl} (hs : step config s l = some s') :
    Trans config s l s' := by
  cases l with
  | tick d => cases hs; exact .tick
  | create user free request =>
    obtain ⟨h, hc, rfl⟩ := Option.map_eq_some_iff.mp hs
    obtain ⟨u, hu, rfl⟩ := Option.map_eq_some_iff.mp hc
    rw [dbSession_commit]
    rcases hr : (reserve s.hub.now (fun _ => free) ⟨s.hub.fresh, s.hub.fresh + 1⟩ u request
      config).exec s.hub.db s.hub.volume with ⟨r, db, volume⟩
    have hkeeps : Work.KeepsWorld (reserve s.hub.now (fun _ => free)
      ⟨s.hub.fresh, s.hub.fresh + 1⟩ u request config) := reserve_world
    have hw : volume = s.hub.volume := by
      have := hkeeps s.hub.db s.hub.volume
      rw [hr] at this
      exact this
    subst hw
    cases r with
    | error e => exact .refused
    | ok slot => exact .granted hu (reserve_ok hr).2.2
  | content user upload chunks => cases hs; exact .spawned rfl
  | commit user upload => cases hs; exact .spawned rfl
  | sweep => cases hs; exact .spawned rfl
  | step r =>
    simp only [step] at hs
    split at hs
    · cases hs
    · rename_i j hj
      obtain ⟨⟨h', j'⟩, hstep, rfl⟩ := Option.map_eq_some_iff.mp hs
      exact .stepped hj (finished_of_jobStep hstep) (jobStep_spec hstep)
  | fail r =>
    simp only [step] at hs
    split at hs
    · cases hs
    · rename_i j hj
      split at hs
      · cases hs
      · rename_i hf; cases hs; exact .failed hj (Bool.eq_false_iff.mpr hf)

/-! ## Jobs by position -/

variable {s : Sys} {j j' k : Job} {r q : Nat}

theorem jobs_set (hj : s.jobs[r]? = some j) :
    (s.jobs.set r j')[q]? = if q = r then some j' else s.jobs[q]? := by
  have hr : r < s.jobs.length := (List.getElem?_eq_some_iff.mp hj).1
  rw [List.getElem?_set]
  by_cases h : q = r
  · subst h; simp [hr]
  · simp [h, Ne.symm h]

theorem jobs_spawn : (spawn s j).jobs[q]? = some k → s.jobs[q]? = some k ∨ k = j := by
  intro h
  unfold spawn at h
  dsimp only at h
  rw [List.getElem?_append] at h
  split at h
  · exact .inl h
  · right
    obtain ⟨hlt, he⟩ := List.getElem?_eq_some_iff.mp h
    rw [← he]
    exact List.mem_singleton.mp (List.getElem_mem hlt)

/-! ## A deployment with one publisher -/

def alice : User where
  id := 0
  handle := "alice"
  email := "alice@example.org"
  emailVerified := true
  canPublish := true
  storageLimit := GIB

def oneAccount : Table User := ⟨[alice], List.pairwise_singleton _ _⟩

/-- A request that declares `bs` truthfully. -/
def intentFor (bs : Bytes) (version : String) : UploadRequest where
  slug := "mnist"
  version := version
  sha256 := sha256 bs
  sizeBytes := bs.length
  license := "MIT"

theorem length_pos (bs : Bytes) (hbs : 0 < bs.length) : 0 < (bs.length : Int) := Int.natCast_pos.mpr hbs

/-- `create`, on an empty volume of a terabyte. -/
def reserving (bs : Bytes) (version : String) : Lbl := .create alice.id (1024 * GIB) (intentFor bs version)

/-- A replay of `ls`, every step of which meets `C`, that ends where `p` holds. -/
theorem reachable_of_trace (config : Settings) (C : Sys → Lbl → Prop) [∀ s l, Decidable (C s l)]
    (ls : List Lbl) (p : Sys → Bool)
    (h : (LTS.exec (step config) C (start oneAccount 0) ls).any p = true) :
    ∃ s, ((lts config).restrict C).Reachable s ∧ p s = true :=
  LTS.reachable_of_exec ⟨oneAccount, 0, rfl⟩ h

end SpikeHub.L5.Interleave
