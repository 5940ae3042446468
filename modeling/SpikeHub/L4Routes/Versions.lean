import SpikeHub.L4Routes.Effects
import SpikeHub.L4Uploads.Ledger

/-!
# What a request does to the versions

`RowEffect` is the inversion of a request for what accounts have uploaded, as
`Effect` is for their credentials: it reserves a version, stores or publishes
one, counts a download, or leaves models, versions and ledger as they were.
-/
namespace SpikeHub.L4.Routes

open SpikeHub.Core SpikeHub.L1 SpikeHub.L2 SpikeHub.L4.Auth SpikeHub.L4.Uploads SpikeHub.L4.Catalog

/-- The same models, versions and ledger. -/
structure SameRows (db db' : Db) : Prop where
  models : db'.models = db.models
  versions : db'.versions = db.versions
  entries : db'.entries = db.entries

theorem SameRows.refl (db : Db) : SameRows db db := ⟨rfl, rfl, rfl⟩

variable {dep : Deployment} {now : Time} {r : Rand} {req : Presented} {db db' : Db} {fs fs' : Volume}
  {body : Request} {res : Except Raised Reply}

theorem CallerOf.sameRows {p : Platform} {config : Settings} {user : User} {granted : List Scope}
    (h : CallerOf p now config req db user granted db') : SameRows db db' := by
  cases h with
  | bearer => exact ⟨rfl, rfl, rfl⟩
  | cookie => exact ⟨rfl, rfl, rfl⟩

theorem sameRows_linked {p : Platform} {ids : Accounts.LinkIds} {profile : OAuthProfile}
    {config : Settings} {user : User} (h : Accounts.Linked p now ids profile config db user db') :
    SameRows db db' := by
  cases h with
  | known => exact ⟨rfl, rfl, rfl⟩
  | adopted => exact ⟨rfl, rfl, rfl⟩
  | created => exact ⟨rfl, rfl, rfl⟩

inductive RowEffect (dep : Deployment) (now : Time) (r : Rand) (req : Presented) (db : Db)
    (fs : Volume) : Request → Except Raised Reply → Db → Prop
  | same {body : Request} {res : Except Raised Reply} {db' : Db} :
      SameRows db db' → (∀ intent slot, body = .create intent → res ≠ .ok (.slot slot)) →
      RowEffect dep now r req db fs body res db'
  | reserved {intent : UploadIntent} {slot : Reservation} {user : User} {granted : List Scope}
      {db₁ db' : Db} :
      (currentUser dep.platform now dep.config req).exec db fs = (.ok (user, granted), db₁, fs) →
      slot.uploadId = r.base + 1 →
      Granted now (dep.free fs) ⟨r.base, r.base + 1⟩ user intent.request dep.config db₁ db' →
      RowEffect dep now r req db fs (.create intent) (.ok (.slot slot)) db'
  | stored {uploadId : Uuid} {declaresLength : Bool} {chunks : Body} {user : User} {v : ModelVersion}
      {key : String} {blob : StoredBlob} {db₁ db' : Db} :
      SameRows db db₁ → reservedSlot db₁ now uploadId user.id = .ok v →
      storeUploaded now r.base user.id v key blob db₁ = .ok db' →
      RowEffect dep now r req db fs (.content uploadId declaresLength chunks)
        (.ok (.version (uploadedAs key v))) db'
  | published {uploadId : Uuid} {reply : Reply} {v : ModelVersion} {db₁ : Db} :
      SameRows db db₁ → v ∈ db₁.versions → v.state = .uploaded →
      RowEffect dep now r req db fs (.commit uploadId) (.ok reply)
        (setVersion db₁ v.id (movedOn now dep.config) (movedOn_keys now dep.config))
  | counted {handle slug version : String} {row : PublishedRow} :
      oneVersion db handle slug version = some row →
      RowEffect dep now r req db fs (.download handle slug version)
        (.ok (.redirect (artifactUrl dep.config.artifactPublicBase row.version)))
        (setVersion db row.version.id (countedFrom row.version.downloadCount) (countedFrom_keys _))

/-- Only uploads and downloads write rows of models, versions or ledger. -/
theorem sameRows_of_effect (h : Effect dep now r req db body res db') (hbody : body.uploads = false)
    (hdown : ∀ handle slug version, body ≠ .download handle slug version) : SameRows db db' := by
  cases h with
  | quiet => exact .refl db
  | registered _ hopen | loggedIn _ hopen =>
    obtain ⟨_, rfl⟩ := hopen.row
    exact ⟨rfl, rfl, rfl⟩
  | loggedOut => exact ⟨rfl, rfl, rfl⟩
  | refreshed _ _ _ _ hadd =>
    obtain ⟨_, _, _, _, rfl⟩ := hadd.rows
    exact ⟨rfl, rfl, rfl⟩
  | linked hlink hopen =>
    obtain ⟨_, rfl⟩ := hopen.row
    have hsame := sameRows_linked hlink
    exact ⟨hsame.models, hsame.versions, hsame.entries⟩
  | endedAll hcaller | minted hcaller | revokedPat hcaller =>
    have hsame := hcaller.sameRows
    exact ⟨hsame.models, hsame.versions, hsame.entries⟩
  | uploaded hup => rw [hup] at hbody; cases hbody
  | downloaded => exact absurd rfl (hdown _ _ _)

theorem rowEffect_error {e : Raised} : RowEffect dep now r req db fs body (.error e) db :=
  .same (.refl db) fun _ _ _ h => by cases h

theorem rowEffect_of_create {intent : UploadIntent}
    (h : dbSession (create dep now r req intent) db fs = (res, db', fs')) :
    RowEffect dep now r req db fs (.create intent) res db' := by
  rcases committing_cases h with ⟨e, rfl, rfl⟩ | ⟨reply, rfl, hx⟩
  · exact rowEffect_error
  obtain ⟨user, d₁, w₁, h₁, hrest⟩ := Work.exec_bind_eq_ok hx
  obtain ⟨granted, hcaller, -⟩ := scopeGuard_ok h₁
  obtain ⟨rfl, -⟩ := currentUser_ok hcaller
  obtain ⟨slot, d₂, w₂, hreserve, hrest⟩ := Work.exec_bind_eq_ok hrest
  obtain ⟨-, hid, hgranted⟩ := reserve_ok hreserve
  cases hrest
  exact .reserved hcaller hid hgranted

theorem rowEffect_of_content {uploadId : Uuid} {declaresLength : Bool} {chunks : Body}
    (h : dbSession (content dep now r req uploadId declaresLength chunks) db fs = (res, db', fs')) :
    RowEffect dep now r req db fs (.content uploadId declaresLength chunks) res db' := by
  rcases committing_cases h with ⟨e, rfl, rfl⟩ | ⟨reply, rfl, hx⟩
  · exact rowEffect_error
  obtain ⟨user, d₁, w₁, h₁, hrest⟩ := Work.exec_bind_eq_ok hx
  obtain ⟨granted, hcaller, -⟩ := writeUser_caller h₁
  obtain ⟨_, -, hrest⟩ := Work.orRaise_bind_eq_ok hrest
  obtain ⟨out, d₂, w₂, hreceive, hrest⟩ := Work.exec_bind_eq_ok hrest
  obtain ⟨v, blob, key, hslot, -, hstore, rfl⟩ := receive_ok hreceive
  cases hrest
  exact .stored hcaller.sameRows hslot hstore

theorem rowEffect_of_commit {uploadId : Uuid}
    (h : dbSession (commit dep now req uploadId) db fs = (res, db', fs')) :
    RowEffect dep now r req db fs (.commit uploadId) res db' := by
  rcases committing_cases h with ⟨e, rfl, rfl⟩ | ⟨reply, rfl, hx⟩
  · exact rowEffect_error
  obtain ⟨user, d₁, w₁, h₁, hrest⟩ := Work.exec_bind_eq_ok hx
  obtain ⟨granted, hcaller, -⟩ := writeUser_caller h₁
  obtain ⟨v, hown, hrest⟩ := Work.check_bind_eq_ok hrest
  obtain ⟨out, d₂, w₂, hpublish, hrest⟩ := Work.exec_bind_eq_ok hrest
  obtain ⟨hstate, rfl⟩ := publish_ok hpublish
  cases hrest
  exact .published hcaller.sameRows (ownedVersion_ok hown).1 hstate

theorem orNotFound_ok {detail : String} {o : Option PublishedRow} {row : PublishedRow} :
    orNotFound detail o = .ok row ↔ o = some row := by
  unfold orNotFound refuse
  cases o <;> simp

theorem rowEffect_of_download {handle slug version : String}
    (h : dbSession (download dep handle slug version) db fs = (res, db', fs')) :
    RowEffect dep now r req db fs (.download handle slug version) res db' := by
  rcases committing_cases h with ⟨e, rfl, rfl⟩ | ⟨reply, rfl, hx⟩
  · exact rowEffect_error
  obtain ⟨row, hfound, hrest⟩ := Work.check_bind_eq_ok hx
  obtain ⟨d₁, hset, hrest⟩ := Work.statement_bind_eq_ok hrest
  obtain ⟨-, rfl⟩ := updateVersion_ok hset
  cases hrest
  exact .counted (orNotFound_ok.mp hfound)

/-- What a request did to the versions, whatever it asked for. -/
theorem rowEffect_of_route (h : dbSession (route dep now r req body) db fs = (res, db', fs')) :
    RowEffect dep now r req db fs body res db' := by
  have hsame : body.uploads = false → (∀ handle slug version, body ≠ .download handle slug version) →
      RowEffect dep now r req db fs body res db' := by
    intro hbody hdown
    refine .same (sameRows_of_effect (effect_of_route h) hbody hdown) fun intent _ he => ?_
    rw [he] at hbody
    cases hbody
  cases body with
  | create => exact rowEffect_of_create h
  | content => exact rowEffect_of_content h
  | commit => exact rowEffect_of_commit h
  | download => exact rowEffect_of_download h
  | _ => exact hsame rfl fun _ _ _ he => by cases he

end SpikeHub.L4.Routes
