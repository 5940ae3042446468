import SpikeHub.L4Routes.Bodies
import SpikeHub.L4Uploads.Admission
import SpikeHub.L5Runs.Fresh
import SpikeHub.L5Runs.Shown

/-!
# All of a reservation, or nothing

`Admissible` says, in terms of the tables and the limits, which reserves may go
through, and `Gains` what one that goes through adds: a reserved version, and
its model when the slug is new. `all_or_nothing`: a reserve is granted exactly
when it is admissible; a grant adds that and nothing else; a refusal leaves the
session's own view of the tables as it was, so there is nothing to roll back.

A request is one whose texts the columns take, as far as its digest gets it to
them (`Storable`). What the upload schema lets through is one, but for a NUL
(`storable_of_body`). So the digest has 64 characters, where `is_sha256` alone
would also take a line break behind them.

The model is made before the last two checks, which a model just made passes
(`versionCount_new`): no version can be in a model that is not there.

Limitations: sizes and times have no bounds here, where a `BIGINT` column and a
`datetime` have theirs.
-/
namespace SpikeHub.L5.AllOrNothing

open SpikeHub.Core SpikeHub.Core.Gates SpikeHub.L1 SpikeHub.L2 SpikeHub.L3 SpikeHub.L4.Auth
open SpikeHub.L4.Uploads SpikeHub.L4.Routes
open SpikeHub.L5.Interleave (Hub)
open SpikeHub.L5.Requests (plain_ascii plain_hex)
open SpikeHub.L5.ValidNames (plain_breaks)
open SpikeHub.L5.Catalogue (unverified abcIntent)
open SpikeHub.L5.Policy (released released_reachable)

/-- The account's model of that slug. -/
def Names (user : User) (request : UploadRequest) (m : HubModel) : Prop :=
  m.ownerId = user.id ∧ m.slug = request.slug

/-- What a reserve needs. -/
structure Admissible (now : Time) (free : Int) (user : User) (request : UploadRequest)
    (config : Settings) (db : Db) : Prop where
  verified : user.emailVerified = true
  mayPublish : config.publishingGate = .open ∨ user.canPublish = true
  digest : IsDigest request.sha256
  size : request.sizeBytes ≤ config.maxArtifactBytes
  /-- the limit, less what the ledger says is stored and what unexpired reservations hold -/
  allowance : request.sizeBytes ≤ max 0 (user.storageLimit -
    db.entries.sum (fun e => e.userId = user.id) QuotaEntry.deltaBytes -
    db.versions.sum (fun v => db.ownedBy user.id v &&
      (v.state = .reserved && v.expiresAt.any fun t => now < t)) ModelVersion.sizeBytes)
  footprint : db.entries.sum (fun _ => true) QuotaEntry.deltaBytes + request.sizeBytes ≤
    config.footprintCapBytes
  freeSpace : config.volumeFreeFloorBytes ≤ free - request.sizeBytes
  daily : (db.versions.count fun v => db.ownedBy user.id v && decide (now - day ≤ v.createdAt) : Int) <
    config.maxUploadsPerDay
  model : (∃ m ∈ db.models, Names user request m) ∨
    (db.models.count fun m => m.ownerId = user.id : Int) < config.maxModelsPerUser
  history : ∀ m ∈ db.models, Names user request m →
    (db.versions.count fun v => v.modelId = m.id : Int) < config.maxVersionsPerModel
  name : ∀ m ∈ db.models, Names user request m →
    ∀ v ∈ db.versions, v.modelId = m.id → v.version ≠ request.version

/-- A reservation of what the request declares, for the lifetime from now on. -/
structure Reserves (now : Time) (request : UploadRequest) (config : Settings) (m : HubModel)
    (v : ModelVersion) : Prop where
  modelId : v.modelId = m.id
  version : v.version = request.version
  sha256 : v.sha256 = request.sha256
  sizeBytes : v.sizeBytes = request.sizeBytes
  state : v.state = .reserved
  createdAt : v.createdAt = now
  expiresAt : v.expiresAt = some (now + seconds config.reservationTtlSeconds)
  nothingStored : v.objectKey = "" ∧ v.verification = none ∧ v.publishedAt = none ∧ v.downloadCount = 0

/-- A model of the account's, as the request describes it. -/
structure Describes (now : Time) (user : User) (request : UploadRequest) (m : HubModel) : Prop where
  names : Names user request m
  license : m.license = request.license
  dataset : m.dataset = request.dataset
  datasetLicense : m.datasetLicense = request.datasetLicense
  datasetAttribution : m.datasetAttribution = request.datasetAttribution
  summary : m.summary = request.summary
  description : m.description = ""
  onShow : m.visibility = .public ∧ m.state = .active
  createdAt : m.createdAt = now

/-- What a grant adds to the tables. -/
structure Gains (now : Time) (user : User) (request : UploadRequest) (config : Settings)
    (slot : Reservation) (db db' : Db) : Prop where
  version : ∃ m ∈ db'.models, Names user request m ∧ ∃ v, v.id = slot.uploadId ∧ v ∉ db.versions ∧
    Reserves now request config m v ∧ ∀ w, w ∈ db'.versions ↔ w ∈ db.versions ∨ w = v
  model : ((∃ m ∈ db.models, Names user request m) ∧ ∀ m, m ∈ db'.models ↔ m ∈ db.models) ∨
    (∀ m ∈ db.models, ¬ Names user request m) ∧ ∃ n, n ∉ db.models ∧ Describes now user request n ∧
      ∀ m, m ∈ db'.models ↔ m ∈ db.models ∨ m = n
  users : db'.users = db.users
  identities : db'.identities = db.identities
  sessions : db'.sessions = db.sessions
  tokens : db'.tokens = db.tokens
  entries : db'.entries = db.entries

variable {now : Time} {free : Volume → Int} {ids : NewIds} {user : User} {request : UploadRequest}
  {config : Settings} {db db' : Db} {fs : Volume} {m n : HubModel} {slot : Reservation} {p : Platform}
  {body : IntentBody}

/-! ## The account's model of a slug -/

theorem namedModel_some (h : namedModel db user.id request.slug = some m) :
    m ∈ db.models ∧ Names user request m := by
  obtain ⟨hm, hp⟩ := Table.find?_some h
  exact ⟨hm, by simpa [Names] using hp⟩

theorem namedModel_none (h : namedModel db user.id request.slug = none) :
    ∀ m ∈ db.models, ¬ Names user request m := by
  intro m hm hnames
  have hp := Table.find?_none h hm
  simp only [decide_eq_false_iff_not] at hp
  exact hp hnames

theorem names_unique (hm : m ∈ db.models) (hn : n ∈ db.models) (h : Names user request m)
    (h' : Names user request n) : m = n :=
  db.models.eq_of_clash hm hn (.inr ⟨h.1.trans h'.1.symm, h.2.trans h'.2.symm⟩)

/-- No version is in a model that is not there yet. -/
theorem not_in_new (hfresh : ids.Fresh db) {v : ModelVersion} (hv : v ∈ db.versions) :
    v.modelId ≠ ids.model := by
  obtain ⟨m, hm, hid⟩ := db.modelKey v hv
  rw [← hid]
  exact hfresh.model m hm

theorem versionCount_new (hfresh : ids.Fresh db) : versionCount db ids.model = 0 := by
  unfold versionCount
  rw [Table.count_eq_zero]
  intro v hv
  exact decide_eq_false (not_in_new hfresh hv)

/-! ## What the columns take -/

theorem digest_of_storable (h : request.Storable) (hdigest : isSha256 request.sha256 = true) :
    IsDigest request.sha256 := by
  obtain ⟨-, hlength⟩ := h hdigest (request.sha256, some 64) (by simp [UploadRequest.texts])
  exact isDigest_of_length hdigest (hlength 64 rfl)

/-- What the schema lets through fits, as far as there is no NUL in it. -/
theorem storable_of_body (hl : p.LawfulAscii) (hb : p.LawfulBreaks) (hx : p.LawfulHex)
    (h : Submits p body request) (hnul : ∀ t ∈ request.texts, '\x00' ∉ t.1.toList) : request.Storable := by
  intro hdigest t ht
  have hfits := (normal_of_body hl hb hx h hdigest).bounded
  refine ⟨hnul t ht, ?_⟩
  simp only [UploadRequest.texts, List.mem_cons, List.not_mem_nil, or_false] at ht
  rcases ht with rfl | rfl | rfl | rfl | rfl | rfl | rfl | rfl <;> rintro w ⟨⟩
  · exact hfits.name
  · exact hfits.version
  · exact Nat.le_of_eq hfits.sha256
  · exact hfits.license
  · exact hfits.dataset
  · exact hfits.datasetLicense
  · exact hfits.summary

/-! ## When it is granted -/

theorem Admissible.gates_pass {n : Int} (hfresh : ids.Fresh db) (hmax : 1 ≤ config.maxVersionsPerModel)
    (h : Admissible now n user request config db) :
    ∀ g ∈ gates now n ids user request config db, g.2 = true := by
  have htarget : (namedModel db user.id request.slug = none ∧
        targetModel db ids.model user request = ids.model) ∨
      ∃ m ∈ db.models, Names user request m ∧ targetModel db ids.model user request = m.id := by
    unfold targetModel
    cases hn : namedModel db user.id request.slug with
    | none => exact .inl ⟨rfl, rfl⟩
    | some m => exact .inr ⟨m, (namedModel_some hn).1, (namedModel_some hn).2, rfl⟩
  have hhistory : (versionCount db (targetModel db ids.model user request) : Int) <
      config.maxVersionsPerModel := by
    rcases htarget with ⟨-, he⟩ | ⟨m, hm, hnames, he⟩
    · rw [he, versionCount_new hfresh]
      exact hmax
    · rw [he]
      exact h.history m hm hnames
  have hname : ∀ v ∈ db.versions, v.modelId = targetModel db ids.model user request →
      v.version ≠ request.version := by
    intro v hv hid
    rcases htarget with ⟨-, he⟩ | ⟨m, hm, hnames, he⟩
    · exact absurd (hid.trans he) (not_in_new hfresh hv)
    · exact h.name m hm hnames v hv (hid.trans he)
  have hmodel : (namedModel db user.id request.slug).isSome = true ∨
      (modelCount db user.id : Int) < config.maxModelsPerUser := by
    rcases h.model with ⟨m, hm, hnames⟩ | hcount
    · refine .inl (Option.isSome_iff_ne_none.mpr fun hn => ?_)
      exact namedModel_none hn m hm hnames
    · exact .inr hcount
  have hpublisher := checkPublisher_ok.mpr ⟨h.verified, h.mayPublish⟩
  simp only [gates, List.forall_mem_cons, List.not_mem_nil, false_imp_iff, implies_true, and_true,
    Usage.canFit, decide_eq_true_eq, Bool.or_eq_true]
  have hdigest := isSha256_iff.mpr (.inl h.digest)
  exact ⟨hpublisher, hdigest, h.size, h.daily, h.allowance, h.footprint, h.freeSpace, hmodel, hhistory, hname⟩

theorem granted_of_decision {res : Except Raised Reservation} (h : decision res = .granted) :
    ∃ slot, res = .ok slot := by
  unfold decision at h
  split at h
  · exact ⟨_, rfl⟩
  · cases h
  · cases h

theorem Admissible.granted (hfresh : ids.Fresh db) (hmax : 1 ≤ config.maxVersionsPerModel)
    (h : Admissible now (free fs) user request config db) :
    ∃ slot, ((reserve now free ids user request config).exec db fs).1 = .ok slot := by
  apply granted_of_decision
  rw [reserve_decision hfresh]
  exact verdict_passed (h.gates_pass hfresh hmax)

/-- What a grant had checked, in terms of the tables. -/
theorem admissible_of_granted {n : Int} (hdigest : isSha256 request.sha256 = true → IsDigest request.sha256)
    (h : Granted now n ids user request config db db') : Admissible now n user request config db := by
  obtain ⟨hverified, hmay⟩ := checkPublisher_ok.mp h.publisher
  obtain ⟨target, db₁, htarget, hhistory, hname, -⟩ := h.rows
  have hmodel : ((∃ m ∈ db.models, Names user request m) ∨
        (modelCount db user.id : Int) < config.maxModelsPerUser) ∧
      ∀ m ∈ db.models, Names user request m → m = target ∧ db₁ = db := by
    cases htarget with
    | found hn =>
      obtain ⟨hmem, hnames⟩ := namedModel_some hn
      exact ⟨.inl ⟨target, hmem, hnames⟩, fun m hm hm' => ⟨names_unique hm hmem hm' hnames, rfl⟩⟩
    | created hn hcount =>
      exact ⟨.inr (checkCount_ok.mp hcount), fun m hm hm' => absurd hm' (namedModel_none hn m hm)⟩
  refine ⟨hverified, hmay, hdigest h.digest, h.size, of_decide_eq_true h.allowance, h.footprint, h.freeSpace,
    h.daily, hmodel.1, fun m hm hnames => ?_, fun m hm hnames => ?_⟩
  · obtain ⟨rfl, rfl⟩ := hmodel.2 m hm hnames
    exact hhistory
  · obtain ⟨rfl, rfl⟩ := hmodel.2 m hm hnames
    exact hname

theorem reserves_new {id : Uuid} : Reserves now request config m (newVersion now id m.id request config) :=
  ⟨rfl, rfl, rfl, rfl, rfl, rfl, rfl, rfl, rfl, rfl, rfl⟩

theorem describes_new {id : Uuid} : Describes now user request (newModel now id user request) :=
  ⟨⟨rfl, rfl⟩, rfl, rfl, rfl, rfl, rfl, rfl, ⟨rfl, rfl⟩, rfl⟩

theorem gains_of_granted {n : Int} (hslot : slot.uploadId = ids.version)
    (h : Granted now n ids user request config db db') : Gains now user request config slot db db' := by
  obtain ⟨target, db₁, htarget, -, -, hv, hv', rfl⟩ := h.rows
  have hnew : newVersion now ids.version target.id request config ∉ db₁.versions := fun hin =>
    hv _ hin (Record.refl _)
  cases htarget with
  | found hn =>
    obtain ⟨hmem, hnames⟩ := namedModel_some hn
    refine ⟨⟨target, hmem, hnames, _, hslot.symm, hnew, reserves_new, fun v => Table.mem_insert (h := hv)⟩,
      ?_, rfl, rfl, rfl, rfl, rfl⟩
    exact .inl ⟨⟨target, hmem, hnames⟩, fun m => Iff.rfl⟩
  | @created hm hm' hn hcount =>
    refine ⟨⟨_, Table.mem_insert_self hm, describes_new.names, _, hslot.symm, hnew, reserves_new,
      fun v => Table.mem_insert (h := hv)⟩, ?_, rfl, rfl, rfl, rfl, rfl⟩
    exact .inr ⟨namedModel_none hn, _, fun hin => hm _ hin (Record.refl _), describes_new,
      fun m => Table.mem_insert (h := hm)⟩

/-! ## When it is refused -/

open Work in
theorem openSlot_clean {id : Uuid} : (openSlot now id m request config).RaisesClean db fs :=
  check_clean fun _ _ => statement_clean fun _ _ he => by cases he

open Work in
/-- A model just made passes what is left, so nothing is refused behind it. -/
theorem onModel_clean (hfresh : ids.Fresh db) (hmax : 1 ≤ config.maxVersionsPerModel) :
    RaisesClean (do
      let model ← modelFor now ids.model user request config
      .check (checkVersionCount · model.id config)
      openSlot now ids.version model request config : HubWork Reservation) db fs := by
  cases hn : namedModel db user.id request.slug with
  | some m => exact .bind (modelFor_found hn) (check_clean fun _ _ => openSlot_clean)
  | none =>
    cases hc : checkModelCount db user.id config with
    | error e =>
      intro e' _
      rw [exec_bind_error (modelFor_full hn hc)]
    | ok _ =>
      -- the gates from the model on: room for it, no versions in it, its name free
      have hcount : (modelCount db user.id : Int) < config.maxModelsPerUser := checkCount_ok.mp hc
      have htarget : targetModel db ids.model user request = ids.model := by
        rw [targetModel, hn]
        rfl
      have hpass : ∀ g ∈ (gates now (0 : Int) ids user request config db).drop 7, g.2 = true := by
        have hhistory : ((0 : Nat) : Int) < config.maxVersionsPerModel := hmax
        have hname : ∀ v ∈ db.versions, v.modelId = ids.model → v.version ≠ request.version :=
          fun v hv hid => absurd hid (not_in_new hfresh hv)
        simp only [gates, List.drop_succ_cons, List.drop_zero, List.forall_mem_cons, List.not_mem_nil,
          false_imp_iff, implies_true, and_true, Bool.or_eq_true, decide_eq_true_eq, htarget,
          versionCount_new hfresh]
        exact ⟨.inr hcount, hhistory, hname⟩
      obtain ⟨slot, hslot⟩ := granted_of_decision
        ((onModel_decision fs hfresh).trans (verdict_passed hpass))
      intro e he
      rw [hslot] at he
      cases he

open Work in
theorem reserve_clean (hfresh : ids.Fresh db) (hmax : 1 ≤ config.maxVersionsPerModel) :
    (reserve now free ids user request config).RaisesClean db fs := by
  unfold reserve
  refine orRaise_clean fun _ _ => orRaise_clean fun _ _ => orRaise_clean fun _ _ => ?_
  refine check_clean fun _ _ => check_clean fun _ _ => check_clean fun _ _ => ?_
  exact .bind (exec_observe _) (orRaise_clean fun _ _ => onModel_clean hfresh hmax)

/-! ## All or nothing -/

/-- A reserve is granted exactly when it is admissible; a grant gains one
reserved version, and its model if there was none; a refusal changes no table;
the volume is only looked at. -/
structure Whole (now : Time) (free : Volume → Int) (ids : NewIds) (user : User)
    (request : UploadRequest) (config : Settings) (db : Db) (fs : Volume) : Prop where
  grants : (∃ slot, ((reserve now free ids user request config).exec db fs).1 = .ok slot) ↔
    Admissible now (free fs) user request config db
  gains : ∀ slot db' fs', (reserve now free ids user request config).exec db fs = (.ok slot, db', fs') →
    Gains now user request config slot db db'
  nothing : ∀ e db' fs', (reserve now free ids user request config).exec db fs = (.error e, db', fs') →
    db' = db
  volume : ((reserve now free ids user request config).exec db fs).2.2 = fs

theorem all_or_nothing (hstorable : request.Storable) (hfresh : ids.Fresh db)
    (hmax : 1 ≤ config.maxVersionsPerModel) : Whole now free ids user request config db fs := by
  refine ⟨⟨?_, fun h => h.granted hfresh hmax⟩, ?_, ?_, reserve_world db fs⟩
  · rintro ⟨slot, h⟩
    obtain ⟨-, -, hgranted⟩ := reserve_ok (Prod.ext h rfl)
    exact admissible_of_granted (digest_of_storable hstorable) hgranted
  · intro slot db' fs' h
    obtain ⟨-, hslot, hgranted⟩ := reserve_ok h
    exact gains_of_granted hslot hgranted
  · intro e db' fs' h
    have hclean := reserve_clean hfresh hmax e (congrArg Prod.fst h)
    rwa [h] at hclean

theorem Whole.ends_granted (h : Whole now free ids user request config db fs)
    (hok : ((reserve now free ids user request config).exec db fs).1.isOk = true) :
    ∃ slot db' fs', (reserve now free ids user request config).exec db fs = (.ok slot, db', fs') ∧
      Gains now user request config slot db db' := by
  rcases hx : (reserve now free ids user request config).exec db fs with ⟨res, db', fs'⟩
  rw [hx] at hok
  cases res with
  | ok slot => exact ⟨slot, db', fs', rfl, h.gains slot db' fs' hx⟩
  | error e => cases hok

theorem Whole.ends_refused (h : Whole now free ids user request config db fs)
    (hrefused : ((reserve now free ids user request config).exec db fs).1.isOk = false) :
    ∃ e, (reserve now free ids user request config).exec db fs = (.error e, db, fs) := by
  have hvolume := h.volume
  rcases hx : (reserve now free ids user request config).exec db fs with ⟨res, db', fs'⟩
  rw [hx] at hrefused hvolume
  cases res with
  | ok slot => cases hrefused
  | error e => exact ⟨e, by rw [h.nothing e db' fs' hx, show fs' = fs from hvolume]⟩

/-! ## A trace -/

/-- Another version of what alice uploaded. -/
def another (version : String) : UploadRequest := { abcIntent.request with version := version }

theorem another_storable {version : String} (hlength : version.length ≤ 64)
    (hversion : L4.Catalog.validateVersion version = .ok version)
    (hnul : ∀ t ∈ (another version).texts, '\x00' ∉ t.1.toList) : (another version).Storable :=
  storable_of_body plain_ascii plain_breaks plain_hex (Shown.sent_submits.withVersion hlength hversion) hnul

/-- The ids the next request draws. -/
def nextIds (h : Hub) : NewIds := ⟨h.fresh, h.fresh + 1⟩

theorem nextIds_fresh {dep : Deployment} {h : Hub} (hr : (Service.lts dep).Reachable h) :
    (nextIds h).Fresh h.db where
  model m hm := Nat.ne_of_lt ((Fresh.fresh_reachable hr).models m hm)
  version v hv := Nat.ne_of_lt (Nat.lt_succ_of_lt ((Fresh.fresh_reachable hr).versions v hv))

/-- Where 1.0 is published, 2.0 is granted, and 1.0 is refused. -/
theorem all_or_nothing_released : ∃ user ∈ released.db.users,
    (∃ slot db' fs', (reserve released.now unverified.free (nextIds released) user (another "2.0")
        unverified.config).exec released.db released.volume = (.ok slot, db', fs') ∧
      Gains released.now user (another "2.0") unverified.config slot released.db db') ∧
    ∃ e, (reserve released.now unverified.free (nextIds released) user (another "1.0") unverified.config).exec
      released.db released.volume = (.error e, released.db, released.volume) := by
  have hends : ∃ user ∈ released.db.users.rows,
      ((reserve released.now unverified.free (nextIds released) user (another "2.0") unverified.config).exec
        released.db released.volume).1.isOk = true ∧
      ((reserve released.now unverified.free (nextIds released) user (another "1.0") unverified.config).exec
        released.db released.volume).1.isOk = false := by decide +kernel
  obtain ⟨user, huser, hok, hrefused⟩ := hends
  have hsecond : Whole released.now unverified.free (nextIds released) user (another "2.0") unverified.config
      released.db released.volume :=
    all_or_nothing (another_storable (by decide) rfl (by decide +kernel)) (nextIds_fresh released_reachable)
      (by decide)
  have hagain : Whole released.now unverified.free (nextIds released) user (another "1.0") unverified.config
      released.db released.volume :=
    all_or_nothing (another_storable (by decide) rfl (by decide +kernel)) (nextIds_fresh released_reachable)
      (by decide)
  exact ⟨user, huser, hsecond.ends_granted hok, hagain.ends_refused hrefused⟩

end SpikeHub.L5.AllOrNothing
