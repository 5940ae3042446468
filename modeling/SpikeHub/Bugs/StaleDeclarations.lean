import SpikeHub.L5Runs.Catalogue

/-!
# A version shown under the declarations of another upload

Behaviour (hub_api/uploads/intent.py:112-145): every upload request carries a
licence, a dataset with its licence and attribution, and a summary, and they
are checked each time. They are written to the model row when it is created;
a request under a slug that has a model row already keeps none of them. The
row outlives the reservation it was created for.

What the code says: an upload intent is "what a caller declares before sending
bytes" (schemas/uploads.py:10); "everything else a curated entry declares, a
community entry declares too -- or leaves out honestly" (catalog/index.py:11);
the model row is created "on first publish" (intent.py:118), not before.

Counterexample: a version published under MIT, then a second one declared
GPL-3.0-only: the catalogue shows both under MIT.

When it does hold: in every run in which each request for a slug that has a
model row already declares what that row declares (`agrees`).
-/
namespace SpikeHub.Bugs.StaleDeclarations

open SpikeHub.Core SpikeHub.L1 SpikeHub.L2 SpikeHub.L4.Uploads SpikeHub.L4.Routes SpikeHub.L4.Catalog
open SpikeHub.L5.Catalogue
open SpikeHub.L5.Interleave (Hub alice length_pos)
open SpikeHub.L5.Requests (Call serve caller signedIn asAlice)

/-- What an upload declares about its bytes. -/
structure Declarations where
  license : String
  dataset : String
  datasetLicense : String
  datasetAttribution : String
  summary : String
deriving DecidableEq

def declaredBy (request : UploadRequest) : Declarations :=
  ⟨request.license, request.dataset, request.datasetLicense, request.datasetAttribution, request.summary⟩

def declaredOn (m : HubModel) : Declarations :=
  ⟨m.license, m.dataset, m.datasetLicense, m.datasetAttribution, m.summary⟩

/-- The listing, the model's page and the index show `d` for the row. -/
structure Shows (config : Settings) (r : PublishedRow) (d : Declarations) : Prop where
  license : (summarise r).license = d.license
  dataset : (summarise r).dataset = d.dataset
  summary : (summarise r).summary = d.summary
  pageLicense : (page r).license = d.license
  pageDataset : (page r).dataset = d.dataset
  pageDatasetLicense : (page r).datasetLicense = d.datasetLicense
  pageDatasetAttribution : (page r).datasetAttribution = d.datasetAttribution
  pageSummary : (page r).summary = d.summary
  entryLicense : (entryFor r config.artifactPublicBase).license = d.license
  entryDataset : (entryFor r config.artifactPublicBase).dataset = orNone d.dataset
  entryDatasetLicense :
    (entryFor r config.artifactPublicBase).datasetLicense = orNone d.datasetLicense
  entryDatasetAttribution :
    (entryFor r config.artifactPublicBase).datasetAttribution = orNone d.datasetAttribution
  entryName : (entryFor r config.artifactPublicBase).name = (orNone d.summary).getD r.model.slug

/-- The service, and which request reserved a version. -/
structure Sys where
  hub : Hub
  log : Uuid → Option UploadRequest

/-- Notes the request a slot was granted for. -/
def noted (log : Uuid → Option UploadRequest) :
    Request → Except Raised Reply → Uuid → Option UploadRequest
  | .create intent, .ok (.slot slot) => Function.update log slot.uploadId (some intent.request)
  | _, _ => log

def step (dep : Deployment) (s : Sys) (l : Lbl) : Sys where
  hub := L5.Catalogue.step dep s.hub l
  log := match l with
    | .call c => noted s.log c.body (serve dep c s.hub).1
    | _ => s.log

/-- No version yet. -/
def Start (s : Sys) : Prop := ∀ v, v ∉ s.hub.db.versions

def lts (dep : Deployment) : LTS Sys Lbl := LTS.ofFn Start fun s l => some (step dep s l)

/-- Every version that is listed is shown with the declarations of the request
that reserved it. -/
def Travel (dep : Deployment) (s : Sys) : Prop :=
  ∀ query limit, ∀ r ∈ published dep.platform dep.sql s.hub.db query limit,
    ∃ request, s.log r.version.id = some request ∧ Shows dep.config r (declaredBy request)

/-- An upload request declares what the account's model of that slug declares. -/
def agrees (dep : Deployment) (s : Sys) : Lbl → Bool
  | .call ⟨req, .create intent, _⟩ => (caller dep s.hub req).all fun user =>
    (namedModel s.hub.db user.id intent.request.slug).all fun m =>
      declaredOn m = declaredBy intent.request
  | _ => true

/-- The model of a version declares what the version's request declared. -/
def Inv (s : Sys) : Prop :=
  ∀ v ∈ s.hub.db.versions, ∃ request, s.log v.id = some request ∧
    ∀ m ∈ s.hub.db.models, m.id = v.modelId → declaredOn m = declaredBy request

variable {dep : Deployment} {s s' : Sys} {l : Lbl}

theorem noted_slot {log : Uuid → Option UploadRequest} {intent : UploadIntent} {slot : Reservation} :
    noted log (.create intent) (.ok (.slot slot)) =
      Function.update log slot.uploadId (some intent.request) := rfl

/-- Versions changed in place, or gone. -/
theorem inv_rows (h : Inv s) {hub : Hub} {log : Uuid → Option UploadRequest}
    (hlog : log = s.log) (hmodels : hub.db.models = s.hub.db.models)
    (hrows : ∀ w ∈ hub.db.versions, ∃ v ∈ s.hub.db.versions, w.id = v.id ∧ w.modelId = v.modelId) :
    Inv ⟨hub, log⟩ := by
  intro w hw
  obtain ⟨v, hv, hid, hkey⟩ := hrows w hw
  obtain ⟨request, hreq, hdeclared⟩ := h v hv
  refine ⟨request, ?_, fun m hm hmid => ?_⟩
  · dsimp only
    rw [hlog, hid, hreq]
  · dsimp only at hm
    rw [hmodels] at hm
    exact hdeclared m hm (hmid.trans hkey)

theorem setVersion_rows {db : Db} {id : Uuid} {f : ModelVersion → ModelVersion} (hf : KeepsKeys f) :
    ∀ w ∈ (setVersion db id f hf).versions, ∃ v ∈ db.versions, w.id = v.id ∧ w.modelId = v.modelId := by
  intro w hw
  obtain ⟨v, hv, rfl⟩ := mem_setVersion.mp hw
  refine ⟨v, hv, ?_⟩
  split
  · exact ⟨hf.id v, hf.modelId v⟩
  · exact ⟨rfl, rfl⟩

/-- A granted reservation: its model declares what the request declares, if
the model that was there does. -/
theorem declared_granted {now : Time} {free : Int} {ids : NewIds} {user : User} {request : UploadRequest}
    {config : Settings} {db db' : Db} (hg : Granted now free ids user request config db db')
    (hagree : ∀ m, namedModel db user.id request.slug = some m → declaredOn m = declaredBy request) :
    ∃ modelId,
      (∃ hfree, db'.versions =
        db.versions.insert (newVersion now ids.version modelId request config) hfree) ∧
      (∀ m ∈ db'.models, m.id = modelId → declaredOn m = declaredBy request) ∧
      ∀ v ∈ db.versions, ∀ m ∈ db'.models, m.id = v.modelId → m ∈ db.models := by
  obtain ⟨m, db₁, hm, -, -, hfree, hkey, rfl⟩ := hg.rows
  cases hm with
  | found hn =>
    refine ⟨m.id, ⟨hfree, rfl⟩, fun n hn' hid => ?_, fun _ _ n hn' _ => hn'⟩
    have hmem := (Table.find?_some hn).1
    rw [model_eq hn' hmem hid]
    exact hagree m hn
  | created hn hc =>
    rename_i hnew hgrow
    refine ⟨ids.model, ⟨hfree, rfl⟩, fun n hn' hid => ?_, fun v hv n hn' hid => ?_⟩
    · rcases (Table.mem_insert (h := hnew)).mp hn' with hold | rfl
      · exact absurd (.inl hid) (hnew n hold)
      · rfl
    · rcases (Table.mem_insert (h := hnew)).mp hn' with hold | rfl
      · exact hold
      · obtain ⟨k, hk, hkid⟩ := db.modelKey v hv
        exact absurd (.inl (hkid.trans hid.symm)) (hnew k hk)

theorem inv_call {c : Call} (h : Inv s) (hagree : agrees dep s (.call c) = true) :
    Inv (step dep s (.call c)) := by
  obtain ⟨req, body, secret⟩ := c
  have heffect := serve_rowEffect dep ⟨req, body, secret⟩ s.hub
  show Inv ⟨(serve dep ⟨req, body, secret⟩ s.hub).2,
    noted s.log body (serve dep ⟨req, body, secret⟩ s.hub).1⟩
  rcases hx : serve dep ⟨req, body, secret⟩ s.hub with ⟨res, hub⟩
  rw [hx] at heffect
  dsimp only at heffect ⊢
  generalize hdb : hub.db = db' at heffect
  cases heffect with
  | same hsame hslot =>
    refine inv_rows h ?_ (hdb ▸ hsame.models) fun w hw => ⟨w, ?_, rfl, rfl⟩
    · unfold noted
      split
      · rename_i intent slot
        exact absurd rfl (hslot intent slot rfl)
      · rfl
    · rw [hdb, hsame.versions] at hw
      exact hw
  | reserved hcaller hslot hgranted =>
    rename_i intent slot user granted db₁
    have hsame := (currentUser_ok hcaller).2.sameRows
    have hthere : ∀ m, namedModel db₁ user.id intent.request.slug = some m →
        declaredOn m = declaredBy intent.request := by
      intro m hm
      unfold namedModel at hm
      rw [hsame.models] at hm
      simp only [agrees, caller, hcaller, Option.all_some, namedModel, hm, decide_eq_true_eq] at hagree
      exact hagree
    obtain ⟨modelId, ⟨hfree, hversions⟩, hnew, hold⟩ := declared_granted hgranted hthere
    intro w hw
    dsimp only at hw ⊢
    rw [hdb, hversions] at hw
    rw [hdb]
    rcases (Table.mem_insert (h := hfree)).mp hw with hw | rfl
    · obtain ⟨request, hreq, hdeclared⟩ := h w (hsame.versions ▸ hw)
      refine ⟨request, ?_, fun m hm hid => hdeclared m (hsame.models ▸ hold w hw m hm hid) hid⟩
      -- the slot is a new one
      have hne : w.id ≠ slot.uploadId := fun he => hfree w hw (.inl (he.trans hslot))
      rw [noted_slot, Function.update_of_ne hne]
      exact hreq
    · refine ⟨intent.request, ?_, hnew⟩
      rw [noted_slot, hslot]
      exact Function.update_self _ _ _
  | stored hsame hslot hstore =>
    obtain ⟨-, he, rfl⟩ := storeUploaded_ok hstore
    refine inv_rows h rfl (hdb ▸ hsame.models) fun w hw => ?_
    rw [hdb] at hw
    obtain ⟨v, hv, hkeys⟩ := setVersion_rows (uploadedAs_keys _) w hw
    exact ⟨v, hsame.versions ▸ hv, hkeys⟩
  | published hsame =>
    refine inv_rows h rfl (hdb ▸ hsame.models) fun w hw => ?_
    rw [hdb] at hw
    obtain ⟨v, hv, hkeys⟩ := setVersion_rows (movedOn_keys _ _) w hw
    exact ⟨v, hsame.versions ▸ hv, hkeys⟩
  | counted =>
    refine inv_rows h rfl (hdb ▸ rfl) fun w hw => ?_
    rw [hdb] at hw
    exact setVersion_rows (countedFrom_keys _) w hw

theorem inv_step (h : Inv s) (hagree : agrees dep s l = true) : Inv (step dep s l) := by
  cases l with
  | tick => exact h
  | call c => exact inv_call h hagree
  | sweep =>
    refine inv_rows h rfl ?_ fun w hw => ?_
    · show (swept s.hub).db.models = _
      rw [swept_db]
      rfl
    · have hw' : w ∈ (swept s.hub).db.versions := hw
      rw [swept_db] at hw'
      exact ⟨w, (mem_deleteVersions.mp hw').1, rfl, rfl⟩

theorem inv_inductive (dep : Deployment) :
    ((lts dep).restrict fun s l => agrees dep s l = true).Inductive Inv where
  init s h v hv := absurd hv (h v)
  step _ _ _ h hs := by
    obtain ⟨hagree, hs⟩ := hs
    cases hs
    exact inv_step h hagree

theorem Inv.travel (h : Inv s) : Travel dep s := by
  intro query limit r hr
  obtain ⟨hm, hv, hkey, -⟩ := mem_joined.mp (mem_visibleRows.mp (mem_published hr)).1
  obtain ⟨request, hreq, hdeclared⟩ := h r.version hv
  refine ⟨request, hreq, ?_⟩
  rw [← hdeclared r.model hm hkey.symm]
  exact ⟨rfl, rfl, rfl, rfl, rfl, rfl, rfl, rfl, rfl, rfl, rfl, rfl, rfl⟩

theorem travel_of_agrees (dep : Deployment) (s : Sys)
    (h : ((lts dep).restrict fun s l => agrees dep s l = true).Reachable s) : Travel dep s :=
  ((inv_inductive dep).reachable s h).travel

/-! ## Traces -/

/-- The same bytes, as a second version under another licence. -/
def secondIntent : UploadIntent where
  request := { abcIntent.request with version := "2.0", license := "GPL-3.0-only" }
  positive := abcIntent.positive

def begin : Sys := ⟨signedIn, fun _ => none⟩

theorem start_begin : Start begin := fun v => Table.not_mem_empty v

/-- A replay of `ls`, every step of which meets `C`, that ends where `p` holds. -/
theorem reachable_of_trace (C : Sys → Lbl → Prop) [∀ s l, Decidable (C s l)] (ls : List Lbl)
    (p : Sys → Bool)
    (hx : (LTS.exec (fun s l => some (step unverified s l)) C begin ls).any p = true) :
    ∃ s, ((lts unverified).restrict C).Reachable s ∧ p s = true :=
  LTS.reachable_of_exec start_begin hx

theorem travel_after_upload : ∃ s : Sys, visibleRows s.hub.db ≠ [] ∧ Travel unverified s := by
  obtain ⟨s, hs, hp⟩ := reachable_of_trace (fun s l => agrees unverified s l = true)
    (uploading abcIntent 101) (fun s => visibleRows s.hub.db ≠ []) (by decide +kernel)
  exact ⟨s, by simpa using hp, travel_of_agrees unverified s hs⟩

theorem not_travel : ¬ ∀ s, (lts unverified).Reachable s → Travel unverified s := by
  intro h
  obtain ⟨s, hs, hp⟩ := reachable_of_trace (fun _ _ => True)
    (uploading abcIntent 101 ++ uploading secondIntent 119)
    (fun s => (visibleRows s.hub.db).any fun r =>
      (s.log r.version.id).any (·.license = "GPL-3.0-only") && r.model.license = "MIT") (by decide +kernel)
  obtain ⟨r, hr, hp⟩ := List.any_eq_true.mp hp
  simp only [Bool.and_eq_true, decide_eq_true_eq, Option.any_eq_true] at hp
  obtain ⟨⟨request, hreq, hgpl⟩, hmit⟩ := hp
  have hlisted : r ∈ published unverified.platform unverified.sql s.hub.db "" (visibleRows s.hub.db).length := by
    rw [published_newest]
    exact newest_all (Nat.le_refl _) hr
  obtain ⟨request', hreq', hshows⟩ := h s hs.of_restrict "" _ r hlisted
  rw [hreq, Option.some.injEq] at hreq'
  have hlicense : r.model.license = request.license := hreq' ▸ hshows.license
  rw [hmit, hgpl] at hlicense
  exact absurd hlicense (by decide)

end SpikeHub.Bugs.StaleDeclarations
