import SpikeHub.Core.LTS
import SpikeHub.L4Uploads.Ledger

/-!
# Intents interleaved

`POST /v1/uploads` with any number of requests in flight. Each await of
`reserve` is a step: the database is read as committed at that step, and the
new rows reach the committed state in the last step, all at once, when the
declared unique constraints are checked (an insert that waits for another
request's uncommitted row is one that commits after it).

What a request's counts returned travels with it (`Counted`): the code drops
them once they are compared.

`Trans` is what a step can do, `step_trans` the inversion, and `Checked` what
a request has compared by the time it stands where it stands.
-/
namespace SpikeHub.L5.Intents

open SpikeHub.Core SpikeHub.L1 SpikeHub.L2 SpikeHub.L3 SpikeHub.L4.Uploads

/-- What the counts of one request returned. -/
structure Counted where
  usage : Usage
  /-- models of the account, counted when the model is a new one -/
  models : Option Nat := none
  /-- versions of the model -/
  versions : Nat := 0
deriving DecidableEq

/-- Where an intent stands; `model` is the row it found or made. -/
inductive IntentPc
  | admitting
  | started
  | summing
  | pending (used : Int)
  | footprint (c : Counted)
  | space (c : Counted)
  | naming (c : Counted)
  | modelling (c : Counted)
  | counting (c : Counted) (model : HubModel)
  | clashing (c : Counted) (model : HubModel)
  | committing (c : Counted) (model : HubModel)
  | done (raised : Option Raised)
deriving DecidableEq

/-- `user` is the row the session was opened for; `free` is what the volume
tells this request; `ids` are the ids its inserts draw. -/
structure Job where
  user : User
  intent : UploadIntent
  free : Int
  ids : NewIds
  pc : IntentPc

/-- The checks that read nothing.
mirrors hub_api/uploads/intent.py:82-85 -/
def checkMetadata (user : User) (request : UploadRequest) (config : Settings) : Check := do
  checkPublisher user config
  refuseIf (¬ isSha256 request.sha256) (refuse .conflict "sha256 must be a lowercase hex digest")
  checkArtifactSize request.sizeBytes config

/-- The inserts of a request and its commit: the model when it is new, then
the version. -/
def insertRows (now : Time) (id : Uuid) (c : Counted) (model : HubModel) (request : UploadRequest)
    (config : Settings) (db : Db) : Except Raised Db := do
  let db ← if c.models.isSome then addModel model db else .ok db
  addVersion (newVersion now id model.id request config) db

/-- Go on, or end with the refusal. -/
def orEnd (check : Check) (next : IntentPc) : IntentPc :=
  match check with
  | .ok _ => next
  | .error e => .done (some e)

/-- mirrors hub_api/uploads/intent.py:74-184, one await at a time -/
def intentStep (config : Settings) (now : Time) (db : Db) (j : Job) : Option (Db × IntentPc) :=
  let request := j.intent.request
  match j.pc with
  | .admitting => some (db, orEnd (checkMetadata j.user request config) .started)
  | .started => some (db, orEnd (checkDailyUploads db now j.user.id config) .summing)
  | .summing => some (db, .pending (storedBytes db j.user.id))
  | .pending used =>
    let usage : Usage := ⟨used, pendingBytes db now j.user.id, j.user.storageLimit⟩
    some (db, orEnd (checkFits usage request.sizeBytes) (.footprint ⟨usage, none, 0⟩))
  | .footprint c => some (db, orEnd (checkFootprint db request.sizeBytes config) (.space c))
  | .space c => some (db, orEnd (checkFreeSpace j.free request.sizeBytes config) (.naming c))
  | .naming c =>
    match namedModel db j.user.id request.slug with
    | some found => some (db, .counting c found)
    | none => some (db, .modelling c)
  | .modelling c =>
    some (db, orEnd (checkModelCount db j.user.id config)
      (.counting { c with models := some (modelCount db j.user.id) }
        (newModel now j.ids.model j.user request)))
  | .counting c model =>
    some (db, orEnd (checkVersionCount db model.id config)
      (.clashing { c with versions := versionCount db model.id } model))
  | .clashing c model => some (db, orEnd (checkVersionFree db model.id request) (.committing c model))
  | .committing c model =>
    match insertRows now j.ids.version c model request config db with
    | .ok db => some (db, .done none)
    | .error e => some (db, .done (some e))
  | .done _ => none

structure Sys where
  now : Time
  db : Db
  jobs : List Job

inductive Lbl
  | tick (d : Nat)
  | create (user : Uuid) (intent : UploadIntent) (free : Int) (ids : NewIds)
  | step (r : Nat)
  | fail (r : Nat)

def step (config : Settings) (s : Sys) : Lbl → Option Sys
  | .tick d => some { s with now := s.now + d }
  | .create user intent free ids =>
    (s.db.user? user).map fun u => { s with jobs := s.jobs ++ [⟨u, intent, free, ids, .admitting⟩] }
  | .step r =>
    match s.jobs[r]? with
    | none => none
    | some j => (intentStep config s.now s.db j).map fun (db, pc) =>
        ⟨s.now, db, s.jobs.set r { j with pc := pc }⟩
  | .fail r =>
    match s.jobs[r]? with
    | none => none
    | some j => some { s with jobs := s.jobs.set r { j with pc := .done (some .clientDisconnect) } }

/-- The ceilings of every account and model. -/
structure Ceilings (config : Settings) (now : Time) (db : Db) : Prop where
  bytes : ∀ u ∈ db.users, storedBytes db u.id + pendingBytes db now u.id ≤ u.storageLimit
  models : ∀ u ∈ db.users, (modelCount db u.id : Int) ≤ config.maxModelsPerUser
  versions : ∀ m ∈ db.models, (versionCount db m.id : Int) ≤ config.maxVersionsPerModel

/-- Any committed state within the ceilings, and no request in flight. -/
structure Start (config : Settings) (s : Sys) : Prop where
  ceilings : Ceilings config s.now s.db
  sizes : ∀ v ∈ s.db.versions, 0 < v.sizeBytes
  jobs : s.jobs = []

def lts (config : Settings) : LTS Sys Lbl := LTS.ofFn (Start config) (step config)

/-! ## What a step can do -/

/-- A step that leaves the committed state alone. -/
inductive Advance (config : Settings) (now : Time) (db : Db) (j : Job) : IntentPc → Prop
  | ended {e : Raised} : Advance config now db j (.done (some e))
  | admitted : j.pc = .admitting → Advance config now db j .started
  | started : j.pc = .started → Advance config now db j .summing
  | summed : j.pc = .summing → Advance config now db j (.pending (storedBytes db j.user.id))
  | fits {used : Int} {usage : Usage} :
      j.pc = .pending used → usage = ⟨used, pendingBytes db now j.user.id, j.user.storageLimit⟩ →
      usage.canFit j.intent.request.sizeBytes = true →
      Advance config now db j (.footprint ⟨usage, none, 0⟩)
  | footprint {c : Counted} : j.pc = .footprint c → Advance config now db j (.space c)
  | space {c : Counted} : j.pc = .space c → Advance config now db j (.naming c)
  | found {c : Counted} {m : HubModel} :
      j.pc = .naming c → namedModel db j.user.id j.intent.request.slug = some m →
      Advance config now db j (.counting c m)
  | fresh {c : Counted} : j.pc = .naming c → Advance config now db j (.modelling c)
  | made {c : Counted} :
      j.pc = .modelling c → (modelCount db j.user.id : Int) < config.maxModelsPerUser →
      Advance config now db j (.counting { c with models := some (modelCount db j.user.id) }
        (newModel now j.ids.model j.user j.intent.request))
  | counted {c : Counted} {m : HubModel} :
      j.pc = .counting c m → (versionCount db m.id : Int) < config.maxVersionsPerModel →
      Advance config now db j (.clashing { c with versions := versionCount db m.id } m)
  | free {c : Counted} {m : HubModel} :
      j.pc = .clashing c m → Advance config now db j (.committing c m)

inductive Trans (config : Settings) (s : Sys) : Lbl → Sys → Prop
  | tick {d : Nat} : Trans config s (.tick d) { s with now := s.now + d }
  | created {user : Uuid} {intent : UploadIntent} {free : Int} {ids : NewIds} {u : User} :
      u ∈ s.db.users →
      Trans config s (.create user intent free ids)
        { s with jobs := s.jobs ++ [⟨u, intent, free, ids, .admitting⟩] }
  | advanced {l : Lbl} {r : Nat} {j : Job} {pc : IntentPc} :
      s.jobs[r]? = some j → Advance config s.now s.db j pc →
      Trans config s l { s with jobs := s.jobs.set r { j with pc := pc } }
  | inserted {r : Nat} {j : Job} {c : Counted} {m : HubModel} {db : Db} :
      s.jobs[r]? = some j → j.pc = .committing c m →
      insertRows s.now j.ids.version c m j.intent.request config s.db = .ok db →
      Trans config s (.step r) ⟨s.now, db, s.jobs.set r { j with pc := .done none }⟩

variable {config : Settings} {s s' : Sys} {l : Lbl} {now : Time} {db db' : Db} {j : Job}
  {pc : IntentPc}

theorem advance_orEnd {check : Check} (h : check = .ok () → Advance config now db j pc) :
    Advance config now db j (orEnd check pc) := by
  unfold orEnd
  cases hc : check with
  | error e => exact .ended
  | ok _ => exact h hc

theorem intentStep_spec (hs : intentStep config now db j = some (db', pc)) :
    (db' = db ∧ Advance config now db j pc) ∨
      ∃ c m, j.pc = .committing c m ∧ pc = .done none ∧
        insertRows now j.ids.version c m j.intent.request config db = .ok db' := by
  unfold intentStep at hs
  dsimp only at hs
  cases hpc : j.pc with
  | admitting =>
    rw [hpc] at hs; cases hs
    exact .inl ⟨rfl, advance_orEnd fun _ => .admitted hpc⟩
  | started =>
    rw [hpc] at hs; cases hs
    exact .inl ⟨rfl, advance_orEnd fun _ => .started hpc⟩
  | summing => rw [hpc] at hs; cases hs; exact .inl ⟨rfl, .summed hpc⟩
  | pending used =>
    rw [hpc] at hs; cases hs
    exact .inl ⟨rfl, advance_orEnd fun h => .fits hpc rfl (checkFits_ok h)⟩
  | footprint c =>
    rw [hpc] at hs; cases hs
    exact .inl ⟨rfl, advance_orEnd fun _ => .footprint hpc⟩
  | space c =>
    rw [hpc] at hs; cases hs
    exact .inl ⟨rfl, advance_orEnd fun _ => .space hpc⟩
  | naming c =>
    rw [hpc] at hs
    dsimp only at hs
    split at hs
    · rename_i found hn; cases hs; exact .inl ⟨rfl, .found hpc hn⟩
    · cases hs; exact .inl ⟨rfl, .fresh hpc⟩
  | modelling c =>
    rw [hpc] at hs; cases hs
    exact .inl ⟨rfl, advance_orEnd fun h => .made hpc (checkCount_ok.mp h)⟩
  | counting c m =>
    rw [hpc] at hs; cases hs
    exact .inl ⟨rfl, advance_orEnd fun h => .counted hpc (checkCount_ok.mp h)⟩
  | clashing c m =>
    rw [hpc] at hs; cases hs
    exact .inl ⟨rfl, advance_orEnd fun _ => .free hpc⟩
  | committing c m =>
    rw [hpc] at hs
    dsimp only at hs
    split at hs
    · rename_i db₁ hi; cases hs; exact .inr ⟨c, m, rfl, rfl, hi⟩
    · cases hs; exact .inl ⟨rfl, .ended⟩
  | done r => rw [hpc] at hs; cases hs

theorem step_trans (hs : step config s l = some s') : Trans config s l s' := by
  cases l with
  | tick d => cases hs; exact .tick
  | create user intent free ids =>
    obtain ⟨u, hu, rfl⟩ := Option.map_eq_some_iff.mp hs
    exact .created (Table.find?_some hu).1
  | step r =>
    simp only [step] at hs
    split at hs
    · cases hs
    · rename_i j hj
      obtain ⟨⟨db, pc⟩, hi, rfl⟩ := Option.map_eq_some_iff.mp hs
      rcases intentStep_spec hi with ⟨rfl, ha⟩ | ⟨c, m, hpc, rfl, hins⟩
      · exact .advanced hj ha
      · exact .inserted hj hpc hins
  | fail r =>
    simp only [step] at hs
    split at hs
    · cases hs
    · rename_i j hj
      cases hs
      exact .advanced hj .ended

/-! ## What the inserts did -/

/-- `insertRows` added the version `v` to `m`, and `m` itself when it is new. -/
structure Inserted (m : HubModel) (new : Bool) (v : ModelVersion) (db db' : Db) : Prop where
  versions : ∃ h, db'.versions = db.versions.insert v h
  models : if new then ∃ h, db'.models = db.models.insert m h else db'.models = db.models
  entries : db'.entries = db.entries
  users : db'.users = db.users
  parent : v.modelId = m.id

theorem insertRows_ok {id : Uuid} {c : Counted} {m : HubModel} {request : UploadRequest}
    (h : insertRows now id c m request config db = .ok db') :
    Inserted m c.models.isSome (newVersion now id m.id request config) db db' := by
  unfold insertRows at h
  cases hnew : c.models.isSome with
  | false =>
    rw [hnew] at h
    obtain ⟨hv, hv', rfl⟩ := addVersion_ok h
    exact ⟨⟨hv, rfl⟩, rfl, rfl, rfl, rfl⟩
  | true =>
    rw [hnew] at h
    cases hadd : addModel m db with
    | error e => rw [if_pos rfl, hadd] at h; cases h
    | ok db₁ =>
      rw [if_pos rfl, hadd] at h
      obtain ⟨hm, hm', rfl⟩ := addModel_ok hadd
      obtain ⟨hv, hv', rfl⟩ := addVersion_ok h
      exact ⟨⟨hv, rfl⟩, ⟨hm, rfl⟩, rfl, rfl, rfl⟩

section
variable {m : HubModel} {new : Bool} {v : ModelVersion}

theorem Inserted.mem_models (h : Inserted m new v db db') {a : HubModel} :
    a ∈ db'.models ↔ a ∈ db.models ∨ (new = true ∧ a = m) := by
  have hm := h.models
  cases new with
  | false => rw [if_neg (by simp)] at hm; simp [hm]
  | true =>
    rw [if_pos rfl] at hm
    obtain ⟨_, he⟩ := hm
    rw [he, Table.mem_insert]
    simp

theorem Inserted.added (h : Inserted m new v db db') (hm : new = true ∨ m ∈ db.models) :
    AddedReservation m.ownerId v db db' where
  versions := h.versions
  models a ha := h.mem_models.mpr (.inl ha)
  entries := h.entries
  users := h.users
  owner := by
    refine ownedBy_iff.mpr ⟨m, h.mem_models.mpr ?_, h.parent.symm, rfl⟩
    rcases hm with hnew | hm
    · exact .inr ⟨hnew, rfl⟩
    · exact .inl hm

theorem Inserted.modelCount (h : Inserted m new v db db') (u : Uuid) :
    modelCount db' u = modelCount db u + if new = true ∧ m.ownerId = u then 1 else 0 := by
  have hm := h.models
  unfold L3.modelCount
  cases new with
  | false => rw [if_neg (by simp)] at hm; simp [hm]
  | true =>
    rw [if_pos rfl] at hm
    obtain ⟨_, he⟩ := hm
    rw [he, Table.count_insert]
    simp

theorem Inserted.versionCount (h : Inserted m new v db db') (id : Uuid) :
    versionCount db' id = versionCount db id + if m.id = id then 1 else 0 := by
  obtain ⟨_, he⟩ := h.versions
  unfold L3.versionCount
  rw [he, Table.count_insert, h.parent]
  simp

end

/-! ## What a request has compared -/

def Fits (config : Settings) (j : Job) (c : Counted) : Prop :=
  c.usage.limitBytes = j.user.storageLimit ∧ c.usage.canFit j.intent.request.sizeBytes = true ∧
    ∀ n, c.models = some n → (n : Int) < config.maxModelsPerUser

def Named (db : Db) (j : Job) (c : Counted) (m : HubModel) : Prop :=
  m.ownerId = j.user.id ∧ (c.models.isSome = true ∨ m ∈ db.models)

def Checked (config : Settings) (db : Db) (j : Job) : IntentPc → Prop
  | .footprint c | .space c | .naming c | .modelling c => Fits config j c
  | .counting c m => Fits config j c ∧ Named db j c m
  | .clashing c m | .committing c m =>
    Fits config j c ∧ Named db j c m ∧ (c.versions : Int) < config.maxVersionsPerModel
  | _ => True

/-- A request that is in order: it stands for an account, and what it has
compared fitted. -/
structure Job.Ok (config : Settings) (db : Db) (j : Job) : Prop where
  user : j.user ∈ db.users
  checked : Checked config db j j.pc

theorem Checked.advance (h : Checked config db j j.pc) (ha : Advance config now db j pc) :
    Checked config db { j with pc := pc } pc := by
  cases ha with
  | ended => trivial
  | admitted hpc => trivial
  | started hpc => trivial
  | summed hpc => trivial
  | fits hpc hu hfit => exact ⟨hu ▸ rfl, hfit, fun n hn => nomatch hn⟩
  | footprint hpc => rw [hpc] at h; exact h
  | space hpc => rw [hpc] at h; exact h
  | found hpc hn =>
    rw [hpc] at h
    obtain ⟨hm, hp⟩ := Table.find?_some hn
    simp only [decide_eq_true_eq] at hp
    exact ⟨h, hp.1, .inr hm⟩
  | fresh hpc => rw [hpc] at h; exact h
  | made hpc hlt =>
    rw [hpc] at h
    obtain ⟨hlimit, hfit, -⟩ := h
    refine ⟨⟨hlimit, hfit, fun n hn => ?_⟩, rfl, .inl rfl⟩
    rw [← Option.some.inj hn]
    exact hlt
  | counted hpc hlt =>
    rw [hpc] at h
    obtain ⟨hfits, hnamed⟩ := h
    exact ⟨hfits, hnamed, hlt⟩
  | free hpc => rw [hpc] at h; exact h

/-- Committed models stay. -/
theorem Checked.mono (h : Checked config db j pc) (hgrow : ∀ m ∈ db.models, m ∈ db'.models) :
    Checked config db' j pc := by
  have hnamed : ∀ {c m}, Named db j c m → Named db' j c m :=
    fun hn => ⟨hn.1, hn.2.imp id (hgrow _)⟩
  cases pc with
  | counting c m => exact ⟨h.1, hnamed h.2⟩
  | clashing c m => exact ⟨h.1, hnamed h.2.1, h.2.2⟩
  | committing c m => exact ⟨h.1, hnamed h.2.1, h.2.2⟩
  | _ => exact h

end SpikeHub.L5.Intents
