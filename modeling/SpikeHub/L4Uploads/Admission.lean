import SpikeHub.Core.Gates
import SpikeHub.L4Uploads.Intent

/-!
# Which limit refuses a reserve

`reserve` is ten checks in a row and the inserts behind them. `gates` lists
the checks in their order: what each refuses with, and whether it lets the
request through. With new ids the inserts go through, so a reserve ends as the
first of its gates that refuses says, and is granted when none does
(`reserve_decision`).
-/
namespace SpikeHub.L4.Uploads

open SpikeHub.Core SpikeHub.Core.Gates SpikeHub.L1 SpikeHub.L2 SpikeHub.L3

/-- How a call ends, but for the numbers in a refusal. -/
inductive Decision
  | granted
  | refused (cls : ErrorClass) (detail : String)
  | failed
deriving DecidableEq

def decision {α : Type} : Except Raised α → Decision
  | .ok _ => .granted
  | .error (.hub e) => .refused e.cls e.detail
  | .error _ => .failed

/-- The ids a reserve draws are in no row. -/
structure NewIds.Fresh (ids : NewIds) (db : Db) : Prop where
  model : ∀ m ∈ db.models, m.id ≠ ids.model
  version : ∀ v ∈ db.versions, v.id ≠ ids.version

/-- What `_check_publisher` refuses with. -/
def publisherRefusal (user : User) (config : Settings) : Decision :=
  match checkPublisher user config with
  | .error (.hub e) => .refused .forbidden e.detail
  | _ => .refused .forbidden ""

/-- The model a request goes to. -/
def targetModel (db : Db) (new : Uuid) (user : User) (request : UploadRequest) : Uuid :=
  ((namedModel db user.id request.slug).map HubModel.id).getD new

def gates (now : Time) (free : Int) (ids : NewIds) (user : User) (request : UploadRequest)
    (config : Settings) (db : Db) : List (Decision × Bool) :=
  let modelId := targetModel db ids.model user request
  [(publisherRefusal user config, checkPublisher user config = .ok ()),
    (.refused .conflict "sha256 must be a lowercase hex digest", isSha256 request.sha256),
    (.refused .quotaExceeded "this artifact is larger than a single upload may be",
      request.sizeBytes ≤ config.maxArtifactBytes),
    (.refused .quotaExceeded "this account has started as many uploads today as it may",
      (startedSince db user.id (now - day) : Int) < config.maxUploadsPerDay),
    (.refused .quotaExceeded "this upload does not fit in the account's storage allowance",
      (usageFor db now user.id user.storageLimit).canFit request.sizeBytes),
    (.refused .quotaExceeded ("the hub has reached the total storage it may use on this host; " ++
        "this is a service-wide limit, not this account's allowance"),
      totalStoredBytes db + request.sizeBytes ≤ config.footprintCapBytes),
    (.refused .serviceUnavailable ("there is not enough free space on the artifact volume to " ++
        "accept an upload right now"),
      config.volumeFreeFloorBytes ≤ free - request.sizeBytes),
    (.refused .quotaExceeded "this account already holds as many models as it may",
      (namedModel db user.id request.slug).isSome ||
        decide ((modelCount db user.id : Int) < config.maxModelsPerUser)),
    (.refused .quotaExceeded "this model already holds as many versions as it may",
      (versionCount db modelId : Int) < config.maxVersionsPerModel),
    (.refused .conflict (s!"version {pyRepr request.version} already exists; versions are " ++
        "immutable, so publish a new one instead"),
      ∀ v ∈ db.versions, v.modelId = modelId → v.version ≠ request.version)]

/-! ## One gate -/

/-- The check `c` refuses under `name`, unless it lets through. -/
inductive Gate : Check → Decision → Bool → Prop
  | passes {name : Decision} : Gate (.ok ()) name true
  | refuses {e : HubError} : Gate (.error (.hub e)) (.refused e.cls e.detail) false

theorem gate_refuseIf {cond : Prop} [Decidable cond] {cls : ErrorClass} {detail : String}
    {extra : List (String × Extra)} {ok : Bool} (hok : ok = true ↔ ¬ cond) :
    Gate (refuseIf cond (refuse cls detail extra)) (.refused cls detail) ok := by
  unfold refuseIf refuse
  by_cases h : cond
  · have hfalse : ok = false := Bool.eq_false_iff.mpr fun ht => hok.mp ht h
    rw [if_pos h, hfalse]
    exact .refuses (e := ⟨cls, detail, extra⟩)
  · rw [if_neg h, hok.mpr h]
    exact .passes

theorem Gate.of_ok {u : Unit} {name : Decision} {ok : Bool} (h : Gate (.ok u) name ok) : ok = true := by
  cases h
  rfl

theorem Gate.of_error {α : Type} {e : Raised} {name : Decision} {ok : Bool}
    (h : Gate (.error e) name ok) :
    ok = false ∧ decision (.error e : Except Raised α) = name := by
  cases h
  exact ⟨rfl, rfl⟩

variable {α : Type} {now : Time} {free : Volume → Int} {ids : NewIds} {user : User}
  {request : UploadRequest} {config : Settings} {db : Db} {fs : Volume} {name : Decision} {ok : Bool}
  {rest : List (Decision × Bool)}

theorem decision_check {g : Db → Check} {f : Unit → HubWork α} (hg : Gate (g db) name ok)
    (hrest : ok = true → decision ((f ()).exec db fs).1 = verdict .granted rest) :
    decision ((Work.check g >>= f).exec db fs).1 = verdict .granted ((name, ok) :: rest) := by
  rw [Work.exec_bind, Work.exec_check]
  generalize g db = c at hg
  cases hg with
  | passes => exact hrest rfl
  | refuses => rfl

theorem decision_orRaise {c : Check} {f : Unit → HubWork α} (hg : Gate c name ok)
    (hrest : ok = true → decision ((f ()).exec db fs).1 = verdict .granted rest) :
    decision ((Work.orRaise c >>= f).exec db fs).1 = verdict .granted ((name, ok) :: rest) :=
  decision_check (g := fun _ => c) hg hrest

theorem gate_publisher : Gate (checkPublisher user config) (publisherRefusal user config)
    (checkPublisher user config = .ok ()) := by
  unfold publisherRefusal checkPublisher refuse
  split
  · exact .refuses (e := ⟨.forbidden, _, _⟩)
  · split
    · exact .passes
    · exact .refuses (e := ⟨.forbidden, _, _⟩)

theorem gate_allowance : Gate (checkAllowance db now user request.sizeBytes)
    (.refused .quotaExceeded "this upload does not fit in the account's storage allowance")
    ((usageFor db now user.id user.storageLimit).canFit request.sizeBytes) := by
  unfold checkAllowance checkFits refuse
  cases (usageFor db now user.id user.storageLimit).canFit request.sizeBytes with
  | true => exact .passes
  | false => exact .refuses (e := ⟨.quotaExceeded, _, _⟩)

/-! ## The inserts -/

theorem addModel_isOk {m : HubModel} (h : ∀ a ∈ db.models, ¬ Record.clash a m) :
    addModel m db = .ok (db.withModels (db.models.insert m h) fun _ => Table.mem_insert_of_mem h) :=
  dif_pos h

theorem addVersion_isOk {v : ModelVersion} (h : ∀ a ∈ db.versions, ¬ Record.clash a v)
    (hm : ∃ m ∈ db.models, m.id = v.modelId) : ∃ db', addVersion v db = .ok db' :=
  ⟨_, dif_pos ⟨h, hm⟩⟩

theorem openSlot_decision {m : HubModel} {id : Uuid} (hid : ∀ v ∈ db.versions, v.id ≠ id)
    (hm : m ∈ db.models) :
    decision ((openSlot now id m request config).exec db fs).1 = verdict .granted
      [(.refused .conflict (s!"version {pyRepr request.version} already exists; versions are " ++
          "immutable, so publish a new one instead"),
        ∀ v ∈ db.versions, v.modelId = m.id → v.version ≠ request.version)] := by
  unfold openSlot checkVersionFree
  refine decision_check (gate_refuseIf ?_) fun hfree => ?_
  · rw [decide_eq_true_eq, Option.isSome_iff_ne_none, not_not]
    constructor
    · intro h
      refine List.find?_eq_none.mpr fun v hv hp => ?_
      simp only [decide_eq_true_eq] at hp
      exact h v hv hp.1 hp.2
    · intro h v hv hmid hname
      have hp := Table.find?_none h hv
      simp [hmid, hname] at hp
  · rw [decide_eq_true_eq] at hfree
    have hclash : ∀ a ∈ db.versions, ¬ Record.clash a (newVersion now id m.id request config) := by
      intro a ha hc
      rcases hc with he | ⟨hmid, hname⟩
      · exact hid a ha he
      · exact hfree a ha hmid hname
    obtain ⟨db', hadd⟩ := addVersion_isOk hclash ⟨m, hm, rfl⟩
    rw [Work.exec_bind, Work.exec_statement, hadd]
    rfl

theorem modelFor_found {id : Uuid} {m : HubModel} (hn : namedModel db user.id request.slug = some m) :
    (modelFor now id user request config).exec db fs = (.ok m, db, fs) := by
  unfold modelFor
  rw [Work.exec_bind, Work.exec_query, hn]
  rfl

theorem modelFor_new (now : Time) (fs : Volume) {id : Uuid}
    (hn : namedModel db user.id request.slug = none) (hid : ∀ m ∈ db.models, m.id ≠ id) (hcount : checkModelCount db user.id config = .ok ()) :
    ∃ db₁, (modelFor now id user request config).exec db fs =
        (.ok (newModel now id user request), db₁, fs) ∧
      db₁.versions = db.versions ∧ newModel now id user request ∈ db₁.models := by
  have hclash : ∀ a ∈ db.models, ¬ Record.clash a (newModel now id user request) := by
    intro a ha hc
    rcases hc with he | ⟨howner, hslug⟩
    · exact hid a ha he
    · have hp := Table.find?_none hn ha
      simp only [decide_eq_false_iff_not] at hp
      exact hp ⟨howner, hslug⟩
  refine ⟨db.withModels (db.models.insert _ hclash) fun _ => Table.mem_insert_of_mem hclash, ?_, rfl,
    Table.mem_insert_self hclash⟩
  unfold modelFor
  rw [Work.exec_bind, Work.exec_query, hn]
  dsimp only
  rw [Work.exec_bind, Work.exec_check, hcount]
  dsimp only
  rw [Work.exec_bind, Work.exec_statement, addModel_isOk hclash]
  rfl

theorem modelFor_full {id : Uuid} {e : Raised} (hn : namedModel db user.id request.slug = none)
    (hcount : checkModelCount db user.id config = .error e) :
    (modelFor now id user request config).exec db fs = (.error e, db, fs) := by
  unfold modelFor
  rw [Work.exec_bind, Work.exec_query, hn]
  dsimp only
  rw [Work.exec_bind, Work.exec_check, hcount]

/-- The model refused, or found or made, and the checks on it. -/
theorem onModel_decision {n : Int} (fs : Volume) (hfresh : ids.Fresh db) :
    decision ((do
      let model ← modelFor now ids.model user request config
      .check (checkVersionCount · model.id config)
      openSlot now ids.version model request config : HubWork Reservation).exec db fs).1 =
        verdict .granted ((gates now n ids user request config db).drop 7) := by
  have htail : ∀ {m : HubModel} {db₁ : Db}, db₁.versions = db.versions → m ∈ db₁.models →
      m.id = targetModel db ids.model user request →
      decision ((do
        .check (checkVersionCount · m.id config)
        openSlot now ids.version m request config : HubWork Reservation).exec db₁ fs).1 =
          verdict .granted ((gates now n ids user request config db).drop 8) := by
    intro m db₁ hversions hm hid
    refine decision_check (gate_refuseIf ?_) fun _ => ?_
    · have hcount : versionCount db₁ m.id =
          versionCount db (targetModel db ids.model user request) := by
        unfold versionCount
        rw [hversions, hid]
      rw [decide_eq_true_eq, hcount]
      omega
    · have hids : ∀ v ∈ db₁.versions, v.id ≠ ids.version := by
        rw [hversions]
        exact hfresh.version
      rw [openSlot_decision hids hm, hid]
      simp only [hversions]
  cases hn : namedModel db user.id request.slug with
  | some m =>
    have hm := (Table.find?_some hn).1
    have hid : m.id = targetModel db ids.model user request := by rw [targetModel, hn]; rfl
    rw [Work.exec_bind_ok (modelFor_found hn), htail rfl hm hid]
    simp only [gates, List.drop_succ_cons, List.drop_zero, hn, Option.isSome_some, Bool.true_or, verdict]
  | none =>
    have hg : Gate (checkModelCount db user.id config)
        (.refused .quotaExceeded "this account already holds as many models as it may")
        ((modelCount db user.id : Int) < config.maxModelsPerUser) :=
      gate_refuseIf (by rw [decide_eq_true_eq]; omega)
    simp only [gates, List.drop_succ_cons, List.drop_zero, hn, Option.isSome_none, Bool.false_or]
    cases hc : checkModelCount db user.id config with
    | error e =>
      rw [hc] at hg
      obtain ⟨hfull, hrefused⟩ := hg.of_error (α := Reservation)
      rw [Work.exec_bind_error (modelFor_full hn hc), hfull]
      exact hrefused
    | ok _ =>
      rw [hc] at hg
      obtain ⟨db₁, hx, hversions, hm⟩ := modelFor_new now fs hn hfresh.model hc
      have hid : (newModel now ids.model user request).id = targetModel db ids.model user request := by
        rw [targetModel, hn]
        rfl
      rw [Work.exec_bind_ok hx, htail hversions hm hid, hg.of_ok]
      rfl

theorem reserve_decision (hfresh : ids.Fresh db) :
    decision ((reserve now free ids user request config).exec db fs).1 =
      verdict .granted (gates now (free fs) ids user request config db) := by
  unfold reserve
  refine decision_orRaise gate_publisher fun _ => ?_
  refine decision_orRaise (gate_refuseIf (by simp)) fun _ => ?_
  refine decision_orRaise (gate_refuseIf (by rw [decide_eq_true_eq]; omega)) fun _ => ?_
  refine decision_check (gate_refuseIf (by rw [decide_eq_true_eq]; omega)) fun _ => ?_
  refine decision_check gate_allowance fun _ => ?_
  refine decision_check (gate_refuseIf (by rw [decide_eq_true_eq]; omega)) fun _ => ?_
  rw [Work.exec_bind, Work.exec_observe]
  refine decision_orRaise (gate_refuseIf (by rw [decide_eq_true_eq]; omega)) fun _ => ?_
  exact onModel_decision (n := free fs) fs hfresh

end SpikeHub.L4.Uploads
