import SpikeHub.L4Routes.Bodies
import SpikeHub.L5Runs.Policy
import SpikeHub.L5Runs.ValidNames

/-!
# What is shown can be sent

A model's page says of a version everything its upload declared. Where every
reservation came with a body the service read, the page is such a body again:
it is let through, and comes to what the rows hold, so nothing that is stored
is longer than its field and nothing is shown in a form that would be read as
another (`page_is_read`).

The two halves of a page come from two requests, since a model keeps what its
first upload said of it. Each half is in normal form by itself (`Declared`),
and any two halves make a normal request (`Normal.mixed`).
-/
namespace SpikeHub.L5.Shown

open SpikeHub.Core SpikeHub.L1 SpikeHub.L2 SpikeHub.L4.Auth SpikeHub.L4.Uploads SpikeHub.L4.Catalog
open SpikeHub.L4.Routes SpikeHub.L5.Service
open SpikeHub.L5.Interleave (Hub)
open SpikeHub.L5.Requests (Call serve plain_ascii plain_hex)
open SpikeHub.L5.Catalogue (swept swept_db serve_rowEffect unverified abcIntent uploading)
open SpikeHub.L5.Policy (publishing released released_run)
open SpikeHub.L5.ValidNames (plain_breaks)

/-- What a model and a version were declared as. -/
def requestOf (m : HubModel) (v : ModelVersion) : UploadRequest where
  slug := m.slug
  version := v.version
  sha256 := v.sha256
  sizeBytes := v.sizeBytes
  license := m.license
  dataset := m.dataset
  datasetLicense := m.datasetLicense
  datasetAttribution := m.datasetAttribution
  summary := m.summary

/-- A page, sent as the body of an upload. -/
def bodyOf (pg : Page) : IntentBody where
  name := pg.name
  version := pg.version
  sha256 := pg.sha256
  sizeBytes := pg.sizeBytes
  license := pg.license
  dataset := pg.dataset
  datasetLicense := pg.datasetLicense
  datasetAttribution := pg.datasetAttribution
  summary := pg.summary

/-- A reservation is asked for with a body that was let through and read. -/
def Submitted (dep : Deployment) (l : Lbl) : Prop :=
  ∀ c intent, l = .service (.call c) → c.body = .create intent →
    ∃ b, Submits dep.platform b intent.request

/-- Each model and each version is as some upload declared it. -/
structure Declared (p : Platform) (db : Db) : Prop where
  models : ∀ m ∈ db.models, ∃ v, Normal p (requestOf m v)
  versions : ∀ v ∈ db.versions, isSha256 v.sha256 = true ∧ ∃ m, Normal p (requestOf m v)

variable {dep : Deployment} {h h' h₀ : Hub} {l : Lbl} {ls : List Lbl} {c : Call} {db db' : Db} {fs : Volume}
  {now : Time} {r : Rand} {req : Presented} {body : Request} {res : Except Raised Reply} {p : Platform}
  {m m' : HubModel} {v v' : ModelVersion} {row : PublishedRow}

/-! ## Halves -/

/-- What is said of a model goes with what is said of any version. -/
theorem normal_mixed (hm : Normal p (requestOf m v')) (hv : Normal p (requestOf m' v)) :
    Normal p (requestOf m v) := by
  have hmodel := IntentBody.toRequest_ok.mp hm.request
  have hversion := IntentBody.toRequest_ok.mp hv.request
  refine ⟨?_, IntentBody.toRequest_ok.mpr ?_⟩
  · exact ⟨hm.bounded.name, hv.bounded.version, hv.bounded.sha256, hv.bounded.sizeBytes, hm.bounded.license,
      hm.bounded.dataset, hm.bounded.datasetLicense, hm.bounded.datasetAttribution, hm.bounded.summary⟩
  · exact ⟨hmodel.slug, hversion.version, hversion.sha256, rfl, hmodel.license, rfl, hmodel.datasetLicense,
      rfl, rfl⟩

theorem requestOf_movedOn {config : Settings} : requestOf m (movedOn now config v) = requestOf m v := by
  unfold requestOf
  rw [movedOn_sha256, movedOn_sizeBytes, (movedOn_keys now config).version]

/-! ## Every run -/

theorem Declared.same (hd : Declared p db) (hsame : SameRows db db') : Declared p db' :=
  ⟨hsame.models ▸ hd.models, hsame.versions ▸ hd.versions⟩

theorem Declared.setVersion (hd : Declared p db) {id : Uuid} {f : ModelVersion → ModelVersion}
    (hf : KeepsKeys f) (hsame : ∀ m v, requestOf m (f v) = requestOf m v) :
    Declared p (setVersion db id f hf) where
  models := hd.models
  versions := by
    refine Table.forall_updateWhere f hf.clash hd.versions fun v hv => ?_
    obtain ⟨hdigest, m, hm⟩ := hv
    have hsha : (f v).sha256 = v.sha256 := congrArg UploadRequest.sha256 (hsame m v)
    exact ⟨hsha ▸ hdigest, m, (hsame m v).symm ▸ hm⟩

theorem declared_rowEffect (hl : p.LawfulAscii) (hb : p.LawfulBreaks) (hx : p.LawfulHex)
    (hd : Declared p db) (hbody : ∀ intent, body = .create intent → ∃ b, Submits p b intent.request)
    (h : RowEffect dep now r req db fs body res db') : Declared p db' := by
  cases h with
  | same hsame => exact hd.same hsame
  | reserved hcaller _ hgranted =>
    rename_i intent _ user _ _ _
    obtain ⟨b, hsubmits⟩ := hbody intent rfl
    have hrows := (currentUser_ok hcaller).2.sameRows
    have hnormal := normal_of_body hl hb hx hsubmits hgranted.digest
    obtain ⟨modelId, hadd⟩ := hgranted.added
    refine ⟨fun m hm => ?_, fun v hv => ?_⟩
    · rcases hgranted.models hm with hold | rfl
      · exact hd.models m (hrows.models ▸ hold)
      · exact ⟨newVersion now (r.base + 1) modelId intent.request dep.config, hnormal⟩
    · rcases hadd.mem.mp hv with hold | rfl
      · exact hd.versions v (hrows.versions ▸ hold)
      · exact ⟨hgranted.digest, newModel now r.base user intent.request, hnormal⟩
  | stored hsame _ hstore =>
    obtain ⟨-, _, rfl⟩ := storeUploaded_ok hstore
    have hmid := hd.same hsame
    exact ⟨hmid.models, (hmid.setVersion (uploadedAs_keys _) fun _ _ => rfl).versions⟩
  | published hsame => exact (hd.same hsame).setVersion (movedOn_keys _ _) fun _ _ => requestOf_movedOn
  | counted => exact hd.setVersion (countedFrom_keys _) fun _ _ => rfl

theorem declared_step (hl : dep.platform.LawfulAscii) (hb : dep.platform.LawfulBreaks)
    (hx : dep.platform.LawfulHex) (hd : Declared dep.platform h.db) (hsubmitted : Submitted dep l)
    (hs : (lts dep).step h l h') : Declared dep.platform h'.db := by
  cases hs
  cases l with
  | account => exact ⟨hd.models, hd.versions⟩
  | moderate id state visibility =>
    refine ⟨?_, hd.versions⟩
    exact Table.forall_updateWhere (moderatedAs state visibility) (fun _ _ h => h) hd.models fun _ h => h
  | service l =>
    cases l with
    | tick => exact hd
    | call c =>
      exact declared_rowEffect hl hb hx hd (fun intent => hsubmitted c intent rfl) (serve_rowEffect dep c h)
    | sweep =>
      show Declared dep.platform (swept h).db
      rw [swept_db]
      exact ⟨hd.models, fun v hv => hd.versions v (mem_deleteVersions.mp hv).1⟩

theorem declared_run (hl : dep.platform.LawfulAscii) (hb : dep.platform.LawfulBreaks)
    (hx : dep.platform.LawfulHex) (hstart : Start h₀) (hrun : (lts dep).Run h₀ ls h)
    (hsubmitted : ∀ l ∈ ls, Submitted dep l) : Declared dep.platform h.db := by
  have hinit : Declared dep.platform h₀.db := by
    unfold Start at hstart
    rw [hstart]
    exact ⟨nofun, nofun⟩
  refine LTS.Run.keeps (P := fun h => Declared dep.platform h.db) ?_ (hrun.labels hsubmitted) hinit
  rintro s l s' hd ⟨hlabel, hs⟩
  exact declared_step hl hb hx hd hlabel hs

/-- **A page is a body that comes to what the rows hold.** -/
theorem page_is_read (dep : Deployment) (hl : dep.platform.LawfulAscii) (hb : dep.platform.LawfulBreaks)
    (hx : dep.platform.LawfulHex) (h₀ h : Hub) (ls : List Lbl) (hstart : Start h₀)
    (hrun : (lts dep).Run h₀ ls h) (hsubmitted : ∀ l ∈ ls, Submitted dep l) (row : PublishedRow)
    (hrow : row ∈ joined h.db) :
    Submits dep.platform (bodyOf (page row)) (requestOf row.model row.version) ∧
      IsDigest (page row).sha256 := by
  have hd := declared_run hl hb hx hstart hrun hsubmitted
  obtain ⟨hmodel, hversion, -⟩ := mem_joined.mp hrow
  obtain ⟨v, hv⟩ := hd.models _ hmodel
  obtain ⟨hdigest, m, hm⟩ := hd.versions _ hversion
  have hnormal : Normal dep.platform (requestOf row.model row.version) := normal_mixed hv hm
  exact ⟨hnormal, digest_of_body hl hx hnormal hdigest⟩

/-! ## A trace -/

/-- The body of alice's upload, not yet trimmed. -/
def sent : IntentBody := { IntentBody.ofRequest abcIntent.request with name := " MNIST", license := "MIT " }

theorem sent_submits : Submits unverified.platform sent abcIntent.request := by
  have hdigest : IsDigest (sha256 [97, 98, 99]) := ⟨sha256_length _, sha256_hex _⟩
  refine ⟨⟨by decide +kernel, by decide +kernel, ?_, by decide +kernel, by decide +kernel, by decide +kernel,
    by decide +kernel, by decide +kernel, by decide +kernel⟩, IntentBody.toRequest_ok.mpr ?_⟩
  · exact (String.length_toList).symm.trans hdigest.length
  · refine ⟨?_, ?_, (lower_digest plain_ascii hdigest).symm, rfl, ?_, rfl, rfl, rfl, rfl⟩
    · rfl
    · rfl
    · rfl

theorem publishing_submitted : ∀ l ∈ publishing, Submitted unverified l := by
  intro l hl c intent hcall hcreate
  simp only [publishing, uploading, List.map_cons, List.map_nil, List.cons_append, List.nil_append,
    List.mem_cons, List.not_mem_nil, or_false] at hl
  rcases hl with rfl | rfl | rfl | rfl | rfl
  · cases hcall
    cases hcreate
  · cases hcall
    cases hcreate
    exact ⟨sent, sent_submits⟩
  all_goals
    cases hcall
    cases hcreate

theorem released_read : ∃ row ∈ joined released.db,
    Submits unverified.platform (bodyOf (page row)) (requestOf row.model row.version) ∧
      IsDigest (page row).sha256 := by
  obtain ⟨row, hrow⟩ : ∃ row, row ∈ joined released.db :=
    List.exists_mem_of_ne_nil _ (List.ne_nil_of_length_pos (by decide +kernel))
  exact ⟨row, hrow, page_is_read unverified plain_ascii plain_breaks plain_hex blank released publishing rfl
    released_run publishing_submitted row hrow⟩

end SpikeHub.L5.Shown
