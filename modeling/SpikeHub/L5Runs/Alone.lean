import SpikeHub.L4Uploads.Publish
import SpikeHub.L5Runs.Intents
import SpikeHub.L5Runs.Interleave

/-!
# A request with nothing in between

The systems of `Interleave` and `Intents` take a request apart at its awaits.
With no step of another request in between they do what the call does in a
session of its own: the same outcome, the same committed database, the same
volume (`AnsweredAs`). So what is proved of the interleaved steps is about the
code of the calls, and what differs between them is the interleaving alone.
-/
namespace SpikeHub.L5.Alone

open SpikeHub.Core SpikeHub.L1 SpikeHub.L2 SpikeHub.L3 SpikeHub.L4.Uploads SpikeHub.L5.Interleave

/-- What a request that raised ended with. -/
def raisedBy {α : Type} : Except Raised α → Option Raised
  | .ok _ => none
  | .error e => some e

/-- The request left the service as the call in a session of its own does. -/
def AnsweredAs {α : Type} (h h' : Hub) (raised : Option Raised) (m : HubWork α) : Prop :=
  h'.now = h.now ∧ ∃ r, dbSession (committing m) h.db h.volume = (r, h'.db, h'.volume) ∧
    raised = raisedBy r

/-- Steps from `pc` to an end that answers as what is left of the call, `m`,
does on the session's view; a raise leaves the committed state. -/
def Completes {Pc α : Type} (step : Hub × Pc → Option (Hub × Pc)) (done : Option Raised → Pc)
    (view : Db) (h : Hub) (pc : Pc) (m : HubWork α) : Prop :=
  ∃ h' r db, LTS.Steps step (h, pc) (h', done (raisedBy r)) ∧ h'.now = h.now ∧
    m.exec view h.volume = (r, db, h'.volume) ∧ h'.db = if (raisedBy r).isNone then db else h.db

section
variable {Pc α β : Type} {step : Hub × Pc → Option (Hub × Pc)} {done : Option Raised → Pc} {h : Hub}
  {pc pc' : Pc} {m : HubWork α} {f : α → HubWork β} {a : α} {e : Raised} {view db : Db} {w : Volume}

theorem Completes.answeredAs (hc : Completes step done h.db h pc m) :
    ∃ h' raised, LTS.Steps step (h, pc) (h', done raised) ∧ AnsweredAs h h' raised m := by
  obtain ⟨h', r, db, hs, hnow, hx, hdb⟩ := hc
  refine ⟨h', raisedBy r, hs, hnow, r, ?_, rfl⟩
  rw [dbSession_commit, hx]
  cases r <;> simp_all [raisedBy]

theorem completes_ok (fresh : Uuid) (hx : m.exec view h.volume = (.ok a, db, w))
    (hs : LTS.Steps step (h, pc) ({ h with db := db, volume := w, fresh := fresh }, done none)) :
    Completes step done view h pc m :=
  ⟨_, .ok a, db, hs, rfl, hx, rfl⟩

theorem completes_error (hx : m.exec view h.volume = (.error e, db, w))
    (hs : LTS.Steps step (h, pc) ({ h with volume := w }, done (some e))) :
    Completes step done view h pc m :=
  ⟨_, .error e, db, hs, rfl, hx, rfl⟩

/-- A part of the call that the committed state does not see yet, then the rest. -/
theorem completes_then (hx : m.exec view h.volume = (.ok a, db, w))
    (hs : LTS.Steps step (h, pc) ({ h with volume := w }, pc'))
    (hrest : Completes step done db { h with volume := w } pc' (f a)) :
    Completes step done view h pc (m >>= f) := by
  obtain ⟨h', r, db', hsteps, hnow, hr, hdb⟩ := hrest
  refine ⟨h', r, db', hs.trans hsteps, hnow, ?_, hdb⟩
  rw [Work.exec_bind_ok hx]
  exact hr

/-- A check of the view, then the rest. -/
theorem completes_check (next : α → Pc) {g : Db → Except Raised α}
    (herror : ∀ e, g view = .error e → LTS.Steps step (h, pc) (h, done (some e)))
    (hok : ∀ a, g view = .ok a → LTS.Steps step (h, pc) (h, next a))
    (hrest : ∀ a, g view = .ok a → Completes step done view h (next a) (f a)) :
    Completes step done view h pc (.check g >>= f) := by
  have hx : (Work.check g : HubWork α).exec view h.volume = (g view, view, h.volume) := Work.exec_check g
  cases hg : g view with
  | error e =>
    rw [hg] at hx
    exact completes_error (Work.exec_bind_error hx) (herror e hg)
  | ok a =>
    rw [hg] at hx
    exact completes_then hx (hok a hg) (hrest a hg)

/-- A check that costs no step of its own, passed or refused. -/
theorem completes_pass {r : Except Raised α} (hr : r = .ok a)
    (hrest : Completes step done view h pc (f a)) : Completes step done view h pc (.orRaise r >>= f) := by
  rw [hr]
  exact completes_then (Work.exec_orRaise _) .refl hrest

theorem completes_refuse {r : Except Raised α} (hr : r = .error e)
    (hs : step (h, pc) = some (h, done (some e))) : Completes step done view h pc (.orRaise r >>= f) := by
  rw [hr]
  exact completes_error (Work.exec_bind_error (Work.exec_orRaise _)) (.single hs)

/-- The statement that ends the call. -/
theorem completes_statement (fresh : Uuid) {g : Db → Except Raised Db}
    (herror : ∀ e, g view = .error e → step (h, pc) = some (h, done (some e)))
    (hok : ∀ db, g view = .ok db →
      step (h, pc) = some ({ h with db := db, fresh := fresh }, done none)) :
    Completes step done view h pc (.statement g >>= fun _ => pure a) := by
  have hx := Work.exec_statement (d := view) (w := h.volume) g
  cases hg : g view with
  | error e =>
    rw [hg] at hx
    exact completes_error (Work.exec_bind_error hx) (.single (herror e hg))
  | ok db =>
    rw [hg] at hx
    exact completes_ok fresh (Work.exec_bind_ok hx) (.single (hok db hg))

end

/-! ## The transfer -/

section
variable (user upload : Uuid) (chunks : List Bytes) (v : ModelVersion)

/-- The steps of one content request. -/
abbrev ContentSteps : Hub × ContentPc → Hub × ContentPc → Prop :=
  LTS.Steps fun a => contentStep a.1 user upload chunks a.2

theorem checkCap_error {written maxBytes : Int} {e : Raised} (he : checkCap written maxBytes = .error e) :
    ∃ detail fields, e = .hub ⟨.quotaExceeded, detail, fields⟩ := by
  unfold checkCap refuseIf refuse at he
  split at he
  · cases he
    exact ⟨_, _, rfl⟩
  · cases he

/-- The loop of `_write`, chunk by chunk. -/
theorem streaming_steps (i : Nat) (rest : List Bytes) : ∀ (h : Hub) (got : Bytes), ∃ r w,
    (writeChunks i v.sizeBytes got rest : HubWork Bytes).exec h.db h.volume = (r, h.db, w) ∧
      match r with
      | .ok all => ContentSteps user upload chunks (h, .streaming v i got rest)
          ({ h with volume := w }, .streaming v i all [])
      | .error e => (∃ detail fields, e = .hub ⟨.quotaExceeded, detail, fields⟩) ∧
          ContentSteps user upload chunks (h, .streaming v i got rest)
            ({ h with volume := w }, .overflow e) := by
  induction rest with
  | nil => exact fun h got => ⟨.ok got, h.volume, rfl, .refl⟩
  | cons chunk rest ih =>
    intro h got
    unfold writeChunks
    cases hc : checkCap (got.length + chunk.length) v.sizeBytes with
    | error e =>
      refine ⟨.error e, h.volume, ?_, checkCap_error hc, .single ?_⟩
      · rw [Work.exec_bind, Work.exec_orRaise]
      · simp only [contentStep, hc]
    | ok _ =>
      let next : Hub := { h with volume := h.volume.writeAt i got.length chunk }
      have hstep : contentStep h user upload chunks (.streaming v i got (chunk :: rest)) =
          some (next, .streaming v i (got ++ chunk) rest) := by
        simp only [contentStep, hc, next]
      obtain ⟨r, w, hx, hr⟩ := ih next (got ++ chunk)
      refine ⟨r, w, ?_, ?_⟩
      · rw [Work.exec_bind, Work.exec_orRaise]
        dsimp only
        rw [Work.exec_bind, Work.exec_outside]
        exact hx
      · cases r with
        | ok all => exact .head hstep hr
        | error e => exact ⟨hr.1, .head hstep hr.2⟩

/-- `stage`, from opening the file to the digest. -/
theorem staging_steps (h : Hub) : ∃ r w,
    (stage upload ⟨chunks, false⟩ v.sizeBytes : HubWork StoredBlob).exec h.db h.volume = (r, h.db, w) ∧
      match r with
      | .ok blob => ContentSteps user upload chunks (h, .opening v)
          ({ h with volume := w }, .measured v blob)
      | .error e => ContentSteps user upload chunks (h, .opening v)
          ({ h with volume := w }, .done (some e)) := by
  let opened : Hub := { h with volume := (h.volume.openTrunc (.staging upload)).1 }
  obtain ⟨r, w, hx, hr⟩ :=
    streaming_steps user upload chunks v (h.volume.openTrunc (.staging upload)).2 chunks opened []
  have hopen : contentStep h user upload chunks (.opening v) =
      some (opened, .streaming v (h.volume.openTrunc (.staging upload)).2 [] chunks) := rfl
  unfold stage write
  rw [Work.exec_tryCatch, Work.exec_bind, Work.exec_effect]
  dsimp only
  cases r with
  | ok all =>
    rw [Work.exec_bind_ok hx]
    refine ⟨.ok (measure all), w, rfl, .head hopen (hr.tail rfl)⟩
  | error e =>
    obtain ⟨⟨detail, fields, rfl⟩, hr⟩ := hr
    rw [Work.exec_bind_error hx]
    exact ⟨_, w.unlink (.staging upload), rfl, .head hopen (hr.tail rfl)⟩

/-- `promote`, from the key to the name. -/
theorem promoting_steps (h : Hub) (blob : StoredBlob) : ∃ r w,
    (promote upload blob.sha256 : HubWork String).exec h.db h.volume = (r, h.db, w) ∧
      match r with
      | .ok key => ContentSteps user upload chunks (h, .promoting v blob)
          ({ h with volume := w }, .writing v blob key)
      | .error e => ContentSteps user upload chunks (h, .promoting v blob)
          ({ h with volume := w }, .done (some e)) := by
  unfold promote
  rw [Work.exec_bind, Work.exec_orRaise]
  cases hk : objectKey blob.sha256 with
  | error e =>
    refine ⟨.error e, h.volume, rfl, .single ?_⟩
    simp only [contentStep, hk]
  | ok key =>
    dsimp only
    rw [Work.exec_bind, Work.exec_observe]
    dsimp only
    cases hp : h.volume.present (.artifact key) with
    | true =>
      have hreuse : contentStep h user upload chunks (.promoting v blob) =
          some (h, .reusing v blob key) := by simp only [contentStep, hk, hp, if_true]
      exact ⟨.ok key, h.volume.unlink (.staging upload), rfl, .head hreuse (.single rfl)⟩
    | false =>
      have hreplace : contentStep h user upload chunks (.promoting v blob) =
          some (h, .replacing v blob key) := by simp [contentStep, hk, hp]
      rw [if_neg Bool.false_ne_true, Work.exec_bind, Work.exec_effect]
      unfold replace
      cases hr : h.volume.rename (.staging upload) (.artifact key) with
      | some w =>
        refine ⟨.ok key, w, rfl, .head hreplace (.single ?_)⟩
        simp only [contentStep, hr]
      | none =>
        refine ⟨.error .fileNotFound, h.volume, rfl, .head hreplace (.single ?_)⟩
        simp only [contentStep, hr]

/-- Alone, a content request is `receive` of a body that was sent whole. -/
theorem content_alone (h : Hub) :
    Completes (fun a => contentStep a.1 user upload chunks a.2) .done h.db h .checking
      (receive h.now h.fresh upload user ⟨chunks, false⟩) := by
  refine completes_check .opening (fun e he => .single ?_) (fun v hv => .single ?_) fun v hv => ?_
  · simp only [contentStep, he]
  · simp only [contentStep, hv]
  obtain ⟨staged, w, hx, hs⟩ := staging_steps user upload chunks v h
  cases staged with
  | error e => exact completes_error (Work.exec_bind_error hx) hs
  | ok blob =>
    refine completes_then hx hs ?_
    have hverify := verifyOrAbandon_exec v blob h.db w
    cases hm : checkMeasured v blob with
    | error e =>
      rw [hm] at hverify
      have hmismatch : contentStep { h with volume := w } user upload chunks (.measured v blob) =
          some ({ h with volume := w }, .mismatched v e) := by simp only [contentStep, hm]
      exact completes_error (Work.exec_bind_error hverify) (.head hmismatch (.single rfl))
    | ok _ =>
      rw [hm] at hverify
      have hmatch : contentStep { h with volume := w } user upload chunks (.measured v blob) =
          some ({ h with volume := w }, .promoting v blob) := by simp only [contentStep, hm]
      refine completes_then hverify (.single hmatch) ?_
      obtain ⟨promoted, w', hx', hs'⟩ := promoting_steps user upload chunks v { h with volume := w } blob
      cases promoted with
      | error e => exact completes_error (Work.exec_bind_error hx') hs'
      | ok key =>
        refine completes_then hx' hs'
          (completes_statement (h.fresh + 1) (fun e he => ?_) fun db hdb => ?_)
        · simp only [contentStep, he]
        · simp only [contentStep, hdb]

end

/-! ## The commit and the sweep -/

/-- Alone, a commit request is the read and `publish`. -/
theorem commit_alone (config : Settings) (user upload : Uuid) (h : Hub) :
    Completes (fun a => commitStep config a.1 user upload a.2) .done h.db h .reading
      (do
        let version ← .check (ownedVersion · upload user)
        publish h.now version config) := by
  have hx := Work.exec_check (D := Db) (ε := Raised) (d := h.db) (w := h.volume)
    (ownedVersion · upload user)
  cases hv : ownedVersion h.db upload user with
  | error e =>
    rw [hv] at hx
    refine completes_error (Work.exec_bind_error hx) (.single ?_)
    simp only [commitStep, hv]
  | ok v =>
    rw [hv] at hx
    cases hc : checkUploaded v with
    | error e =>
      have hp := publish_exec h.now config v h.db h.volume
      rw [hc] at hp
      refine completes_error ((Work.exec_bind_ok hx).trans hp) (.single ?_)
      simp only [commitStep, hv, hc]
    | ok _ =>
      have hread : commitStep config h user upload .reading = some (h, .writing v) := by
        simp only [commitStep, hv, hc]
      have hchecked : (Work.orRaise (checkUploaded v) : HubWork Unit).exec h.db h.volume =
          (.ok (), h.db, h.volume) := by rw [Work.exec_orRaise, hc]
      refine completes_then hx (.single hread) (completes_then hchecked .refl ?_)
      refine completes_statement h.fresh (fun e he => ?_) fun db hdb => ?_
      · simp only [commitStep, he]
      · simp only [commitStep, hdb]

theorem discarding_steps (rows : List ModelVersion) (ids : List Uuid) : ∀ h : Hub, ∃ w,
    (discardAll rows).exec h.db h.volume = (.ok (), h.db, w) ∧
      LTS.Steps (fun a => sweepStep a.1 a.2) (h, .discarding rows ids)
        ({ h with volume := w }, .discarding [] ids) := by
  induction rows with
  | nil => exact fun h => ⟨h.volume, rfl, .refl⟩
  | cons v rows ih =>
    intro h
    obtain ⟨w, hx, hs⟩ := ih { h with volume := h.volume.unlink (.staging v.id) }
    refine ⟨w, ?_, .head rfl hs⟩
    unfold discardAll
    rw [Work.exec_bind]
    exact hx

/-- Alone, a sweep is `sweep`. -/
theorem sweep_alone (h : Hub) :
    Completes (fun a => sweepStep a.1 a.2) .done h.db h .selecting (sweep h.now) := by
  obtain ⟨w, hx, hs⟩ := discarding_steps (expired h.db h.now)
    ((expired h.db h.now).map ModelVersion.id) h
  refine completes_then (Work.exec_query (expired · h.now)) (.single rfl) ?_
  exact completes_then hx hs
    (completes_ok (a := (expired h.db h.now).length) h.fresh rfl (.single rfl))

/-! ## The intent -/

section
open SpikeHub.L5.Intents

/-- The steps of one intent, on the hub. -/
def intentOn (config : Settings) (j : Intents.Job) (x : Hub × IntentPc) : Option (Hub × IntentPc) :=
  (intentStep config x.1.now x.1.db { j with pc := x.2 }).map fun (db, pc) => ({ x.1 with db := db }, pc)

variable {config : Settings} {j : Intents.Job} {h : Hub}

/-- A check of the view that one step makes. -/
theorem intent_check {β : Type} {view : Db} {pc next : IntentPc} {g : Db → Check} {f : Unit → HubWork β}
    (hs : intentOn config j (h, pc) = some (h, orEnd (g view) next))
    (hrest : Completes (intentOn config j) .done view h next (f ())) :
    Completes (intentOn config j) .done view h pc (.check g >>= f) := by
  refine completes_check (fun _ => next) (fun e he => .single ?_) (fun _ hok => .single ?_)
    fun _ _ => hrest
  · rw [hs, he]
    rfl
  · rw [hs, hok]
    rfl

theorem intent_raise {β : Type} {view : Db} {pc next : IntentPc} {r : Check} {f : Unit → HubWork β}
    (hs : intentOn config j (h, pc) = some (h, orEnd r next))
    (hrest : Completes (intentOn config j) .done view h next (f ())) :
    Completes (intentOn config j) .done view h pc (.orRaise r >>= f) := by
  cases r with
  | error e => exact completes_refuse rfl hs
  | ok _ => exact completes_then (Work.exec_orRaise _) (.single hs) hrest

/-- The inserts, where the view has the model row already. -/
theorem intent_tail {c : Counted} {model : HubModel} {view : Db}
    (hins : (if c.models.isSome then addModel model h.db else .ok h.db) = .ok view)
    (hversions : view.versions = h.db.versions) :
    Completes (intentOn config j) .done view h (.counting c model)
      (do
        .check (checkVersionCount · model.id config)
        openSlot h.now j.ids.version model j.intent.request config) := by
  have hcount : checkVersionCount view model.id config = checkVersionCount h.db model.id config := by
    unfold checkVersionCount versionCount
    rw [hversions]
  have hclash : checkVersionFree view model.id j.intent.request =
      checkVersionFree h.db model.id j.intent.request := by
    unfold checkVersionFree
    rw [hversions]
  have hinsert : ∀ c' : Counted, c'.models = c.models →
      insertRows h.now j.ids.version c' model j.intent.request config h.db =
        addVersion (newVersion h.now j.ids.version model.id j.intent.request config) view := by
    intro c' hc
    unfold insertRows
    rw [hc]
    cases hm : c.models.isSome with
    | true =>
      rw [hm, if_pos rfl] at hins
      simp only [if_true, hins]
      rfl
    | false =>
      rw [hm, if_neg Bool.false_ne_true] at hins
      cases hins
      rfl
  refine intent_check (by rw [hcount]; rfl) (intent_check (by rw [hclash]; rfl) ?_)
  refine completes_statement h.fresh (fun e he => ?_) fun db hdb => ?_
  · have hrows := hinsert { c with versions := versionCount h.db model.id } rfl
    rw [he] at hrows
    simp only [intentOn, intentStep, hrows, Option.map_some]
  · have hrows := hinsert { c with versions := versionCount h.db model.id } rfl
    rw [hdb] at hrows
    simp only [intentOn, intentStep, hrows, Option.map_some]

/-- The model row of a new slug goes in. -/
theorem addModel_new {db : Db} {user : User} {request : UploadRequest} {id : Uuid} (now : Time)
    (hname : namedModel db user.id request.slug = none) (hid : ∀ m ∈ db.models, m.id ≠ id) :
    ∃ db', addModel (newModel now id user request) db = .ok db' ∧ db'.versions = db.versions := by
  have hnew : ∀ a ∈ db.models, ¬ Record.clash a (newModel now id user request) := by
    intro a ha hc
    have hother := Table.find?_none hname ha
    rcases hc with hc | hc
    · exact hid a ha hc
    · simp [hc.1, hc.2, newModel] at hother
  unfold addModel
  rw [dif_pos hnew]
  exact ⟨_, rfl, rfl⟩

/-- The checks that read nothing are one step. -/
theorem intent_metadata {β : Type} {m : HubWork β}
    (hrest : Completes (intentOn config j) .done h.db h .started m) :
    Completes (intentOn config j) .done h.db h .admitting (do
      .orRaise (checkPublisher j.user config)
      .orRaise (refuseIf (¬ isSha256 j.intent.request.sha256)
        (refuse .conflict "sha256 must be a lowercase hex digest"))
      .orRaise (checkArtifactSize j.intent.request.sizeBytes config)
      m) := by
  have hadmit : intentOn config j (h, .admitting) =
      some (h, orEnd (checkMetadata j.user j.intent.request config) .started) := rfl
  unfold checkMetadata at hadmit
  cases hp : checkPublisher j.user config with
  | error e =>
    rw [hp] at hadmit
    exact completes_refuse rfl hadmit
  | ok _ =>
    rw [hp] at hadmit
    refine completes_pass rfl ?_
    cases hh : (refuseIf (¬ isSha256 j.intent.request.sha256)
        (refuse .conflict "sha256 must be a lowercase hex digest") : Check) with
    | error e =>
      rw [hh] at hadmit
      exact completes_refuse rfl hadmit
    | ok _ =>
      rw [hh] at hadmit
      refine completes_pass rfl ?_
      cases hs : checkArtifactSize j.intent.request.sizeBytes config with
      | error e =>
        rw [hs] at hadmit
        exact completes_refuse rfl hadmit
      | ok _ =>
        rw [hs] at hadmit
        exact completes_then (Work.exec_orRaise _) (.single hadmit) hrest

/-- The model row, found or made, and the rest. -/
theorem intent_model {c : Counted} (hnone : c.models = none)
    (hid : ∀ m ∈ h.db.models, m.id ≠ j.ids.model) :
    Completes (intentOn config j) .done h.db h (.naming c) (do
      let model ← modelFor h.now j.ids.model j.user j.intent.request config
      .check (checkVersionCount · model.id config)
      openSlot h.now j.ids.version model j.intent.request config) := by
  cases hname : namedModel h.db j.user.id j.intent.request.slug with
  | some found =>
    have hfound : (modelFor h.now j.ids.model j.user j.intent.request config).exec h.db h.volume =
        (.ok found, h.db, h.volume) := by
      unfold modelFor
      rw [Work.query_bind, hname]
      rfl
    have hstep : intentOn config j (h, .naming c) = some (h, .counting c found) := by
      simp only [intentOn, intentStep, hname, Option.map_some]
    refine completes_then hfound (.single hstep) (intent_tail ?_ rfl)
    rw [hnone]
    rfl
  | none =>
    have hstep : intentOn config j (h, .naming c) = some (h, .modelling c) := by
      simp only [intentOn, intentStep, hname, Option.map_some]
    have hcounted : intentOn config j (h, .modelling c) =
        some (h, orEnd (checkModelCount h.db j.user.id config)
          (.counting { c with models := some (modelCount h.db j.user.id) }
            (newModel h.now j.ids.model j.user j.intent.request))) := rfl
    cases hc : checkModelCount h.db j.user.id config with
    | error e =>
      have hrefused : (modelFor h.now j.ids.model j.user j.intent.request config).exec h.db h.volume =
          (.error e, h.db, h.volume) := by
        unfold modelFor
        rw [Work.query_bind, hname]
        dsimp only
        rw [Work.exec_bind, Work.exec_check, hc]
      rw [hc] at hcounted
      exact completes_error (Work.exec_bind_error hrefused) (.head hstep (.single hcounted))
    | ok _ =>
      obtain ⟨view, hadd, hversions⟩ := addModel_new h.now hname hid
      have hmade : (modelFor h.now j.ids.model j.user j.intent.request config).exec h.db h.volume =
          (.ok (newModel h.now j.ids.model j.user j.intent.request), view, h.volume) := by
        unfold modelFor
        rw [Work.query_bind, hname]
        dsimp only
        rw [Work.exec_bind, Work.exec_check, hc]
        dsimp only
        rw [Work.exec_bind, Work.exec_statement, hadd]
        rfl
      rw [hc] at hcounted
      exact completes_then hmade (.head hstep (.single hcounted)) (intent_tail hadd hversions)

/-- Alone, an intent is `reserve`. -/
theorem intent_alone (config : Settings) (j : Intents.Job) (h : Hub)
    (hid : ∀ m ∈ h.db.models, m.id ≠ j.ids.model) :
    Completes (intentOn config j) .done h.db h .admitting
      (reserve h.now (fun _ => j.free) j.ids j.user j.intent.request config) := by
  let usage := usageFor h.db h.now j.user.id j.user.storageLimit
  let c : Counted := ⟨usage, none, 0⟩
  have hallowance : intentOn config j (h, .pending usage.usedBytes) =
      some (h, orEnd (checkFits usage j.intent.request.sizeBytes) (.footprint c)) := rfl
  refine intent_metadata (intent_check rfl ?_)
  refine completes_check (fun _ => .footprint c) (fun e he => .head rfl (.single ?_))
    (fun _ hok => .head rfl (.single ?_)) fun _ _ => ?_
  · exact hallowance.trans (by rw [show checkFits usage _ = _ from he]; rfl)
  · exact hallowance.trans (by rw [show checkFits usage _ = _ from hok]; rfl)
  refine intent_check rfl (completes_then (Work.exec_observe _) .refl ?_)
  exact intent_raise rfl (intent_model rfl hid)

end

/-! ## In the systems -/

section
variable {s : Sys} {h' : Hub} {Pc : Type} {pc pc' : Pc} {f : Hub × Pc → Option (Hub × Pc)}

theorem step_last (config : Settings) (h : Hub) (jobs : List Interleave.Job) (j : Interleave.Job) :
    step config ⟨h, jobs ++ [j]⟩ (.step jobs.length) =
      (jobStep config h j).map fun x => ⟨x.1, jobs ++ [x.2]⟩ := by
  simp [step]

/-- A request that is started and then taken to its end. -/
theorem run_alone (config : Settings) (l : Lbl) (mk : Pc → Interleave.Job)
    (hstart : step config s l = some (spawn s (mk pc)))
    (hmk : ∀ x, jobStep config x.1 (mk x.2) = (f x).map fun y => (y.1, mk y.2))
    (hs : LTS.Steps f (s.hub, pc) (h', pc')) :
    ∃ n, (lts config).Run s (l :: List.replicate n (.step s.jobs.length)) ⟨h', s.jobs ++ [mk pc']⟩ := by
  have hplace : ∀ a b, f a = some b → (lts config).step ⟨a.1, s.jobs ++ [mk a.2]⟩
      (.step s.jobs.length) ⟨b.1, s.jobs ++ [mk b.2]⟩ := by
    intro a b hab
    show step config _ _ = _
    rw [step_last, hmk, hab]
    rfl
  obtain ⟨n, hrun⟩ := LTS.run_of_steps (fun a => (⟨a.1, s.jobs ++ [mk a.2]⟩ : Sys)) hplace hs
  exact ⟨n, .cons hstart hrun⟩

end

/-- From any state, a request started and taken to its end while no other
moves is answered as its call. -/
theorem content_run (config : Settings) (s : Sys) (user upload : Uuid) (chunks : List Bytes) :
    ∃ n h' raised, (lts config).Run s
        (.content user upload chunks :: List.replicate n (.step s.jobs.length))
        ⟨h', s.jobs ++ [.content user upload chunks (.done raised)]⟩ ∧
      AnsweredAs s.hub h' raised (receive s.hub.now s.hub.fresh upload user ⟨chunks, false⟩) := by
  obtain ⟨h', raised, hs, ha⟩ := (content_alone user upload chunks s.hub).answeredAs
  obtain ⟨n, hrun⟩ := run_alone config (.content user upload chunks) (.content user upload chunks) rfl
    (fun _ => rfl) hs
  exact ⟨n, h', raised, hrun, ha⟩

theorem commit_run (config : Settings) (s : Sys) (user upload : Uuid) :
    ∃ n h' raised, (lts config).Run s
        (.commit user upload :: List.replicate n (.step s.jobs.length))
        ⟨h', s.jobs ++ [.commit user upload (.done raised)]⟩ ∧
      AnsweredAs s.hub h' raised (do
        let version ← .check (ownedVersion · upload user)
        publish s.hub.now version config) := by
  obtain ⟨h', raised, hs, ha⟩ := (commit_alone config user upload s.hub).answeredAs
  obtain ⟨n, hrun⟩ := run_alone config (.commit user upload) (.commit user upload) rfl (fun _ => rfl) hs
  exact ⟨n, h', raised, hrun, ha⟩

theorem sweep_run (config : Settings) (s : Sys) :
    ∃ n h' raised, (lts config).Run s (.sweep :: List.replicate n (.step s.jobs.length))
        ⟨h', s.jobs ++ [.sweep (.done raised)]⟩ ∧
      AnsweredAs s.hub h' raised (sweep s.hub.now) := by
  obtain ⟨h', raised, hs, ha⟩ := (sweep_alone s.hub).answeredAs
  obtain ⟨n, hrun⟩ := run_alone config .sweep .sweep rfl (fun _ => rfl) hs
  exact ⟨n, h', raised, hrun, ha⟩

open SpikeHub.L5.Intents (IntentPc intentStep) in
/-- The same of an intent, whose new model's id is not in use. -/
theorem intent_run (config : Settings) (s : Intents.Sys) (volume : Volume) (user : User)
    (hu : s.db.user? user.id = some user) (intent : UploadIntent) (free : Int) (ids : NewIds)
    (hid : ∀ m ∈ s.db.models, m.id ≠ ids.model) :
    ∃ n h' raised, (Intents.lts config).Run s
        (.create user.id intent free ids :: List.replicate n (.step s.jobs.length))
        ⟨h'.now, h'.db, s.jobs ++ [⟨user, intent, free, ids, .done raised⟩]⟩ ∧
      AnsweredAs ⟨s.now, s.db, volume, 0⟩ h' raised
        (reserve s.now (fun _ => free) ids user intent.request config) := by
  let j : Intents.Job := ⟨user, intent, free, ids, .admitting⟩
  let h : Hub := ⟨s.now, s.db, volume, 0⟩
  obtain ⟨h', raised, hs, ha⟩ := (intent_alone config j h hid).answeredAs
  have hstart : Intents.step config s (.create user.id intent free ids) =
      some ⟨s.now, s.db, s.jobs ++ [j]⟩ := by simp [Intents.step, hu, j]
  have hplace : ∀ a b, intentOn config j a = some b →
      (Intents.lts config).step ⟨a.1.now, a.1.db, s.jobs ++ [{ j with pc := a.2 }]⟩
        (.step s.jobs.length) ⟨b.1.now, b.1.db, s.jobs ++ [{ j with pc := b.2 }]⟩ := by
    intro a b hab
    unfold intentOn at hab
    obtain ⟨x, hx, rfl⟩ := Option.map_eq_some_iff.mp hab
    show Intents.step config _ _ = _
    simp [Intents.step, hx]
  obtain ⟨n, hrun⟩ := LTS.run_of_steps
    (fun a => (⟨a.1.now, a.1.db, s.jobs ++ [{ j with pc := a.2 }]⟩ : Intents.Sys)) hplace hs
  exact ⟨n, h', raised, .cons hstart hrun, ha⟩

end SpikeHub.L5.Alone
