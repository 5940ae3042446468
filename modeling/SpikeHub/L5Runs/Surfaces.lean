import SpikeHub.Core.Registry
import SpikeHub.L5Runs.Provenance

/-!
# The public surfaces

The index, the listing, a model's page and a download are four routes with a
query each. What they are for is a registry (`SpikeHub.Core.Registry`): names
are `@handle/slug`, what is released under one is a version with its
declarations, and moderation takes names off show. `registry` is the registry
a database stands for.

Every run of the service is a run of that registry whose log is the commits
that were answered and what moderation did, in their order
(`refines_registry`): reservations, transfers, sweeps, downloads, accounts and
credentials are no steps of it. Every public answer is read off the registry
(`views_agree`), and so off the log (`download_by_log`).
-/
namespace SpikeHub.L5.Surfaces

open SpikeHub.Core SpikeHub.L1 SpikeHub.L2 SpikeHub.L4.Auth SpikeHub.L4.Uploads SpikeHub.L4.Catalog
open SpikeHub.L4.Routes SpikeHub.L5.Service
open SpikeHub.L5.Interleave (Hub)
open SpikeHub.L5.Requests (Call serve serve_renewed)
open SpikeHub.L5.Catalogue (swept swept_db keeps_swept serve_download unverified)
open SpikeHub.L5.Policy (publishing released released_run)
open SpikeHub.L5.Provenance (version_origin)

/-- A model as it was declared: without what moderation does to it. -/
def declared (m : HubModel) : HubModel := { m with state := .active, visibility := .public }

/-- What is released: the row without what comes later. -/
def release (r : PublishedRow) : PublishedRow :=
  { r with model := declared r.model, version := { r.version with downloadCount := 0 } }

/-- Everything that was ever published. -/
def releasedRows (db : Db) : List PublishedRow :=
  ((joined db).filter fun r => r.version.state = .published).map release

/-- The handle and the slug. -/
abbrev ModelName := String × String

def onShow (m : HubModel) : Bool := m.state = .active && m.visibility = .public

/-- The registry a database stands for. -/
def registry (db : Db) : Registry ModelName String PublishedRow where
  releases name version := (releasedRows db).find? (PublishedRow.named name.1 name.2 version)
  listed name := ∀ m ∈ db.models, ∀ u ∈ db.users, u.id = m.ownerId → (u.handle, m.slug) = name → onShow m = true

def nameOf (db : Db) (id : Uuid) : Option ModelName :=
  (db.models.find? fun m => m.id = id).bind fun m =>
    (db.users.find? fun u => u.id = m.ownerId).map fun u => (u.handle, m.slug)

def rowOf (db : Db) (id : Uuid) : Option PublishedRow := (joined db).find? fun r => r.version.id = id

/-- What a step says to the registry: a commit that was answered with a
published version, or a decision about a model. -/
def emitted (dep : Deployment) (h : Hub) : Lbl → List (Registry.Lbl ModelName String PublishedRow)
  | .service (.call c) =>
    match c.body, (serve dep c h).1 with
    | .commit _, .ok (.version v) =>
      if v.state = .published then
        (rowOf (serve dep c h).2.db v.id).toList.map fun r =>
          .release (r.handle, r.model.slug) v.version (release r)
      else []
    | _, _ => []
  | .moderate id state visibility =>
    (nameOf h.db id).toList.map fun name => .list name (state = .active && visibility = .public)
  | _ => []

/-- What a run says to it. -/
def log (dep : Deployment) : Hub → List Lbl → List (Registry.Lbl ModelName String PublishedRow)
  | _, [] => []
  | h, l :: ls => emitted dep h l ++ log dep (step dep h l) ls

variable {dep : Deployment} {h h' h₀ : Hub} {l : Lbl} {ls : List Lbl} {c : Call} {db db' : Db} {v w : ModelVersion}
  {m : HubModel} {a r r' : PublishedRow} {name : ModelName} {version : String} {id : Uuid}

/-! ## What is released -/

theorem mem_releasedRows : a ∈ releasedRows db ↔ ∃ r ∈ joined db, r.version.state = .published ∧ release r = a := by
  unfold releasedRows
  simp only [List.mem_map, List.mem_filter, decide_eq_true_eq, and_assoc]

theorem release_named {handle slug : String} :
    (release r).named handle slug version = r.named handle slug version := rfl

/-- A released name is one row's. -/
theorem releasedRows_unique (ha : a ∈ releasedRows db) {b : PublishedRow} (hb : b ∈ releasedRows db)
    (hna : a.named name.1 name.2 version = true) (hnb : b.named name.1 name.2 version = true) : a = b := by
  obtain ⟨r, hr, -, rfl⟩ := mem_releasedRows.mp ha
  obtain ⟨s, hs, -, rfl⟩ := mem_releasedRows.mp hb
  obtain ⟨hha, hsa, hva⟩ := named_iff.mp (release_named ▸ hna)
  obtain ⟨hhb, hsb, hvb⟩ := named_iff.mp (release_named ▸ hnb)
  rw [named_unique hr hs (hha.trans hhb.symm) (hsa.trans hsb.symm) (hva.trans hvb.symm)]

theorem releases_iff : (registry db).releases name version = some a ↔
    a ∈ releasedRows db ∧ a.named name.1 name.2 version = true := by
  show (releasedRows db).find? (PublishedRow.named name.1 name.2 version) = some a ↔ _
  constructor
  · intro h
    exact ⟨List.mem_of_find?_eq_some h, List.find?_some h⟩
  · intro h
    obtain ⟨hmem, hnamed⟩ := h
    obtain ⟨b, hb⟩ := Option.isSome_iff_exists.mp (List.find?_isSome.mpr ⟨a, hmem, hnamed⟩)
    rw [hb, releasedRows_unique (List.mem_of_find?_eq_some hb) hmem (List.find?_some hb) hnamed]

/-- A registry is known by what is released and what is listed. -/
theorem registry_congr (hrows : ∀ a, a ∈ releasedRows db' ↔ a ∈ releasedRows db)
    (hlisted : ∀ name, (registry db').listed name ↔ (registry db).listed name) : registry db' = registry db := by
  have hreleases : (registry db').releases = (registry db).releases := by
    funext name version
    exact Option.ext fun a => by rw [releases_iff, releases_iff, hrows]
  have hlist : (registry db').listed = (registry db).listed := funext fun name => propext (hlisted name)
  calc registry db' = ⟨(registry db').releases, (registry db').listed⟩ := rfl
    _ = ⟨(registry db).releases, (registry db).listed⟩ := by rw [hreleases, hlist]

/-! ## What stays behind a row -/

/-- The accounts keep their handles and the models what was declared of them. -/
structure Stays (db db' : Db) : Prop where
  users : ∀ u ∈ db.users, ∃ u' ∈ db'.users, u'.id = u.id ∧ u'.handle = u.handle
  models : ∀ m ∈ db.models, ∃ m' ∈ db'.models, declared m' = declared m

theorem stays_of_mem (hu : ∀ u ∈ db.users, u ∈ db'.users) (hm : ∀ m ∈ db.models, m ∈ db'.models) : Stays db db' :=
  ⟨fun u hmem => ⟨u, hu u hmem, rfl, rfl⟩, fun m hmem => ⟨m, hm m hmem, rfl⟩⟩

theorem declared_keys {n : HubModel} (h : declared n = declared m) :
    n.id = m.id ∧ n.ownerId = m.ownerId ∧ n.slug = m.slug := by
  have hid : (declared n).id = (declared m).id := congrArg _ h
  have howner : (declared n).ownerId = (declared m).ownerId := congrArg _ h
  have hslug : (declared n).slug = (declared m).slug := congrArg _ h
  exact ⟨hid, howner, hslug⟩

theorem Stays.forward (hs : Stays db db') (hr : r ∈ joined db) (hw : w ∈ db'.versions)
    (hkey : w.modelId = r.version.modelId) :
    ∃ m, (⟨m, w, r.handle⟩ : PublishedRow) ∈ joined db' ∧ declared m = declared r.model := by
  obtain ⟨hm, -, hmodel, u, hu, howner, hhandle⟩ := mem_joined.mp hr
  obtain ⟨m', hm', hsame⟩ := hs.models r.model hm
  obtain ⟨u', hu', hid, hh⟩ := hs.users u hu
  obtain ⟨hmid, hmowner, -⟩ := declared_keys hsame
  refine ⟨m', mem_joined.mpr ⟨hm', hw, ?_, u', hu', ?_, hh.trans hhandle⟩, hsame⟩
  · exact hkey.trans (hmodel.trans hmid.symm)
  · exact hid.trans (howner.trans hmowner.symm)

theorem Stays.back (hs : Stays db db') (howners : ∀ m ∈ db.models, ∃ u ∈ db.users, u.id = m.ownerId)
    (hr : r' ∈ joined db') (hv : v ∈ db.versions) (hkey : v.modelId = r'.version.modelId) :
    ∃ m, (⟨m, v, r'.handle⟩ : PublishedRow) ∈ joined db ∧ declared m = declared r'.model := by
  obtain ⟨hm', -, hmodel, u', hu', howner, hhandle⟩ := mem_joined.mp hr
  obtain ⟨m, hm, hid⟩ := db.modelKey v hv
  obtain ⟨u, hu, huid⟩ := howners m hm
  obtain ⟨n, hn, hsame⟩ := hs.models m hm
  obtain ⟨x, hx, hxid, hxh⟩ := hs.users u hu
  obtain ⟨hnid, hnowner, -⟩ := declared_keys hsame
  obtain rfl : n = r'.model := model_eq hn hm' (by rw [hnid, hid, hkey, hmodel])
  obtain rfl : x = u' := db'.users.eq_of_clash hx hu' (.inl (by rw [hxid, huid, howner, hnowner]))
  exact ⟨m, mem_joined.mpr ⟨hm, hv, hid.symm, u, hu, huid, hxh.symm.trans hhandle⟩, hsame.symm⟩

theorem release_eq {m n : HubModel} {handle : String} (hmodel : declared n = declared m)
    (hversion : { w with downloadCount := 0 } = { v with downloadCount := 0 }) :
    release ⟨n, w, handle⟩ = release ⟨m, v, handle⟩ := by
  unfold release
  rw [hmodel, hversion]

/-- A published row is released still. -/
theorem Stays.released (hs : Stays db db')
    (hversions : ∀ v ∈ db.versions, v.state = .published →
      ∃ w ∈ db'.versions, { w with downloadCount := 0 } = { v with downloadCount := 0 })
    (ha : a ∈ releasedRows db) : a ∈ releasedRows db' := by
  obtain ⟨r, hr, hstate, rfl⟩ := mem_releasedRows.mp ha
  obtain ⟨w, hw, hsame⟩ := hversions r.version (mem_joined.mp hr).2.1 hstate
  have hkey : ({ w with downloadCount := 0 } : ModelVersion).modelId = r.version.modelId := by rw [hsame]
  have hpublished : ({ w with downloadCount := 0 } : ModelVersion).state = .published := by rw [hsame, hstate]
  obtain ⟨m, hm, hdeclared⟩ := hs.forward hr hw hkey
  exact mem_releasedRows.mpr ⟨_, hm, hpublished, release_eq hdeclared hsame⟩

/-- And was released, if its version was published before. -/
theorem Stays.released_back (hs : Stays db db') (howners : ∀ m ∈ db.models, ∃ u ∈ db.users, u.id = m.ownerId)
    (hr : r ∈ joined db') (hv : v ∈ db.versions) (hstate : v.state = .published)
    (hsame : { v with downloadCount := 0 } = { r.version with downloadCount := 0 }) :
    release r ∈ releasedRows db := by
  have hkey : ({ v with downloadCount := 0 } : ModelVersion).modelId = r.version.modelId := by rw [hsame]
  obtain ⟨m, hm, hdeclared⟩ := hs.back howners hr hv hkey
  exact mem_releasedRows.mpr ⟨_, hm, hstate, release_eq hdeclared hsame⟩

/-- New models are on show, and nothing happens to those there are. -/
theorem listed_same (hu : ∀ u ∈ db.users, ∃ u' ∈ db'.users, u'.id = u.id ∧ u'.handle = u.handle)
    (hm : ∀ m ∈ db.models, m ∈ db'.models) (hnew : ∀ m ∈ db'.models, m ∈ db.models ∨ onShow m = true)
    (howners : ∀ m ∈ db.models, ∃ u ∈ db.users, u.id = m.ownerId) (name : ModelName) :
    (registry db').listed name ↔ (registry db).listed name := by
  constructor
  · intro h m hmem u husr howner hname
    obtain ⟨u', hu', hid, hhandle⟩ := hu u husr
    exact h m (hm m hmem) u' hu' (hid.trans howner) (by rw [hhandle, hname])
  · intro h m hmem u husr howner hname
    rcases hnew m hmem with hold | hon
    · obtain ⟨x, hx, hxid⟩ := howners m hold
      obtain ⟨x', hx', hid, hhandle⟩ := hu x hx
      obtain rfl : x' = u := db'.users.eq_of_clash hx' husr (.inl (by rw [hid, hxid, howner]))
      exact h m hold x hx hxid (by rw [← hhandle, hname])
    · exact hon

/-! ## Requests -/

theorem keeps_serve (dep : Deployment) (c : Call) (h : Hub) : Catalogue.Keeps h.db (serve dep c h).2.db :=
  Catalogue.keeps_rowEffect (serve_renewed dep c h).carries.users (Catalogue.serve_rowEffect dep c h)

theorem stays_serve (dep : Deployment) (c : Call) (h : Hub) : Stays h.db (serve dep c h).2.db :=
  stays_of_mem (keeps_serve dep c h).users (keeps_serve dep c h).models

/-- A model a request makes is on show. -/
theorem models_serve (dep : Deployment) (c : Call) (h : Hub) (hm : m ∈ (serve dep c h).2.db.models) :
    m ∈ h.db.models ∨ onShow m = true := by
  have hrow := Catalogue.serve_rowEffect dep c h
  generalize (serve dep c h).1 = res at hrow
  generalize (serve dep c h).2.db = db' at hrow hm
  generalize c.body = body at hrow
  cases hrow with
  | same hsame => exact .inl (hsame.models ▸ hm)
  | reserved hx _ hgranted =>
    rcases hgranted.models hm with hold | rfl
    · exact .inl ((currentUser_ok hx).2.sameRows.models ▸ hold)
    · exact .inr rfl
  | stored hsame _ hstore =>
    obtain ⟨-, _, rfl⟩ := storeUploaded_ok hstore
    exact .inl (hsame.models ▸ hm)
  | published hsame => exact .inl (hsame.models ▸ hm)
  | counted => exact .inl hm

/-- What is published stays, with its count. -/
theorem published_serve (dep : Deployment) (c : Call) (h : Hub) (hv : v ∈ h.db.versions)
    (hstate : v.state = .published) : ∃ w ∈ (serve dep c h).2.db.versions,
      { w with downloadCount := 0 } = { v with downloadCount := 0 } := by
  have hkeeps := keeps_serve dep c h
  obtain ⟨w, hw, hpin⟩ := hkeeps.versions v hv (by rw [hstate]; decide)
  have hpublished : w.state = .published := hpin.state.published_stays hstate
  refine ⟨w, hw, ?_⟩
  cases version_origin dep c h hw with
  | old ha hcount =>
    rename_i b n
    subst hcount
    rw [version_eq ha hv hpin.id]
  | reserved _ _ _ _ hnew =>
    subst hnew
    cases hpublished
  | sent _ _ _ _ _ hnew =>
    subst hnew
    cases hpublished
  | committed _ _ _ ha huploaded _ hnew =>
    rename_i b user db₁
    subst hnew
    rw [version_eq ha hv (movedOn_id.symm.trans hpin.id), hstate] at huploaded
    cases huploaded

/-- What is published was, or this request committed it. -/
theorem published_back (dep : Deployment) (c : Call) (h : Hub) (hw : w ∈ (serve dep c h).2.db.versions)
    (hstate : w.state = .published) :
    (∃ v ∈ h.db.versions, v.state = .published ∧ { v with downloadCount := 0 } = { w with downloadCount := 0 }) ∨
      ∃ v ∈ h.db.versions, c.body = .commit v.id ∧ (serve dep c h).1 = .ok (.version w) ∧ v.state = .uploaded ∧
        w = movedOn h.now dep.config v := by
  cases version_origin dep c h hw with
  | old ha hcount =>
    rename_i b n
    subst hcount
    exact .inl ⟨b, ha, hstate, rfl⟩
  | reserved _ _ _ _ hnew =>
    subst hnew
    cases hstate
  | sent _ _ _ _ _ hnew =>
    subst hnew
    cases hstate
  | committed hbody _ hres ha huploaded _ hnew =>
    exact .inr ⟨_, ha, hbody, hres, huploaded, hnew⟩

/-- A request that publishes nothing is no step of the registry. -/
theorem registry_quiet (hi : Sound h)
    (hnone : ∀ w ∈ (serve dep c h).2.db.versions, w.state = .published → (serve dep c h).1 = .ok (.version w) →
      ∀ v ∈ h.db.versions, c.body = .commit v.id → v.state ≠ .uploaded) :
    registry (serve dep c h).2.db = registry h.db := by
  have hstays := stays_serve dep c h
  have hkeeps := keeps_serve dep c h
  refine registry_congr (fun a => ?_)
    (listed_same hstays.users hkeeps.models (fun m => models_serve dep c h) hi.owners)
  constructor
  · intro ha
    obtain ⟨r, hr, hstate, rfl⟩ := mem_releasedRows.mp ha
    have hw := (mem_joined.mp hr).2.1
    rcases published_back dep c h hw hstate with ⟨v, hv, hpublished, hsame⟩ | ⟨v, hv, hbody, hres, huploaded, -⟩
    · exact hstays.released_back hi.owners hr hv hpublished hsame
    · exact absurd huploaded (hnone r.version hw hstate hres v hv hbody)
  · exact hstays.released fun v hv hstate => published_serve dep c h hv hstate

/-- One more row is released, under the name it has. -/
theorem registry_released {b : PublishedRow} (hrows : ∀ a, a ∈ releasedRows db' ↔ a ∈ releasedRows db ∨ a = b)
    (hlisted : ∀ name, (registry db').listed name ↔ (registry db).listed name) :
    registry db' = (registry db).release (b.handle, b.model.slug) b.version.version b := by
  have hb : b ∈ releasedRows db' := (hrows b).mpr (.inr rfl)
  have hreleases : (registry db').releases =
      ((registry db).release (b.handle, b.model.slug) b.version.version b).releases := by
    funext name version
    refine Option.ext fun a => ?_
    rw [releases_iff, hrows]
    simp only [Registry.release]
    by_cases hname : name = (b.handle, b.model.slug) ∧ version = b.version.version
    · rw [if_pos hname, Option.some.injEq]
      obtain ⟨rfl, rfl⟩ := hname
      have hnamed : b.named (b.handle, b.model.slug).1 (b.handle, b.model.slug).2 b.version.version = true :=
        named_iff.mpr ⟨rfl, rfl, rfl⟩
      constructor
      · intro h
        exact (releasedRows_unique ((hrows a).mpr h.1) hb h.2 hnamed).symm
      · rintro rfl
        exact ⟨.inr rfl, hnamed⟩
    · rw [if_neg hname, releases_iff]
      refine and_congr_left fun hnamed => ⟨fun h => ?_, .inl⟩
      rcases h with hold | rfl
      · exact hold
      · obtain ⟨hh, hs, hv⟩ := named_iff.mp hnamed
        exact absurd ⟨Prod.ext hh.symm hs.symm, hv.symm⟩ hname
  have hlist : (registry db').listed = (registry db).listed := funext fun name => propext (hlisted name)
  calc registry db' = ⟨(registry db').releases, (registry db').listed⟩ := rfl
    _ = _ := by rw [hreleases, hlist]; rfl

theorem rowOf_eq (hr : r ∈ joined db) : rowOf db r.version.id = some r := by
  have hsome : ((joined db).find? fun s => s.version.id = r.version.id).isSome = true :=
    List.find?_isSome.mpr ⟨r, hr, decide_eq_true rfl⟩
  obtain ⟨s, hs⟩ := Option.isSome_iff_exists.mp hsome
  have hmem := List.mem_of_find?_eq_some hs
  have hid : s.version.id = r.version.id := by simpa using List.find?_some hs
  have hversion := version_eq (mem_joined.mp hmem).2.1 (mem_joined.mp hr).2.1 hid
  unfold rowOf
  rw [hs, version_unique hmem hr hversion]

/-- The row a commit moved on. -/
theorem commit_row {upload : Uuid} (hbody : c.body = .commit upload)
    (hres : (serve dep c h).1 = .ok (.version w)) : ∃ v ∈ h.db.versions, v.state = .uploaded ∧
      w = movedOn h.now dep.config v ∧ w ∈ (serve dep c h).2.db.versions := by
  obtain ⟨req, body, secret⟩ := c
  obtain rfl : body = .commit upload := hbody
  have hx : dbSession (commit dep h.now req upload) h.db h.volume = (.ok (.version w), _, _) := Prod.ext hres rfl
  obtain ⟨-, user, db₁, v, hwriter, hown, hstate, hreply, hdb⟩ := commit_ok hx
  obtain ⟨hv, -, -⟩ := ownedVersion_ok hown
  obtain rfl : w = movedOn h.now dep.config v := by cases hreply; rfl
  refine ⟨v, hwriter.sameRows.versions ▸ hv, hstate, rfl, ?_⟩
  have hmem : movedOn h.now dep.config v ∈
      (setVersion db₁ v.id (movedOn h.now dep.config) (movedOn_keys _ _)).versions :=
    mem_setVersion.mpr ⟨v, hv, if_pos rfl⟩
  rw [← hdb] at hmem
  exact hmem

/-- A commit that publishes releases its row. -/
theorem registry_commit {upload : Uuid} (hi : Sound h) (hbody : c.body = .commit upload)
    (hres : (serve dep c h).1 = .ok (.version w)) (hstate : w.state = .published) :
    ∃ r, emitted dep h (.service (.call c)) = [.release (r.handle, r.model.slug) r.version.version (release r)] ∧
      (registry h.db).releases (r.handle, r.model.slug) r.version.version = none ∧
      registry (serve dep c h).2.db =
        (registry h.db).release (r.handle, r.model.slug) r.version.version (release r) := by
  obtain ⟨v, hv, huploaded, rfl, hw⟩ := commit_row hbody hres
  have hstays := stays_serve dep c h
  have hkeeps := keeps_serve dep c h
  have hkept : ∀ {a}, a ∈ releasedRows h.db → a ∈ releasedRows (serve dep c h).2.db :=
    hstays.released fun v hv hstate => published_serve dep c h hv hstate
  -- the row of the version, with its model and its owner
  obtain ⟨m, hm, hid⟩ := (serve dep c h).2.db.modelKey _ hw
  obtain ⟨u, hu, howner⟩ := (sound_serve hi dep c).owners m hm
  let r : PublishedRow := ⟨m, movedOn h.now dep.config v, u.handle⟩
  have hr : r ∈ joined (serve dep c h).2.db := mem_joined.mpr ⟨hm, hw, hid.symm, u, hu, howner, rfl⟩
  have hreleased : release r ∈ releasedRows (serve dep c h).2.db := mem_releasedRows.mpr ⟨r, hr, hstate, rfl⟩
  refine ⟨r, ?_, ?_, registry_released (b := release r) (fun a => ?_) ?_⟩
  · have hrow : rowOf (serve dep c h).2.db (movedOn h.now dep.config v).id = some r := rowOf_eq hr
    simp only [emitted, hbody, hres, if_pos hstate, hrow]
    rfl
  · refine Option.eq_none_iff_forall_ne_some.mpr fun a ha => ?_
    obtain ⟨hmem, hnamed⟩ := releases_iff.mp ha
    obtain ⟨s, hs, hpublished, rfl⟩ := mem_releasedRows.mp hmem
    have hsame := releasedRows_unique (hkept hmem) hreleased hnamed (named_iff.mpr ⟨rfl, rfl, rfl⟩)
    have hversion : (release s).version.id = (release r).version.id := congrArg (·.version.id) hsame
    have hids : s.version.id = v.id := hversion.trans movedOn_id
    rw [version_eq (mem_joined.mp hs).2.1 hv hids, huploaded] at hpublished
    cases hpublished
  · constructor
    · intro ha
      obtain ⟨s, hs, hpublished, rfl⟩ := mem_releasedRows.mp ha
      have hsv := (mem_joined.mp hs).2.1
      rcases published_back dep c h hsv hpublished with ⟨x, hx, hxstate, hsame⟩ | ⟨x, hx, -, hxres, -, hmoved⟩
      · exact .inl (hstays.released_back hi.owners hs hx hxstate hsame)
      · have hsw : s.version = movedOn h.now dep.config v := by
          rw [hres] at hxres
          exact (Reply.version.inj (Except.ok.inj hxres)).symm
        exact .inr (congrArg release (version_unique hs hr hsw))
    · rintro (ha | rfl)
      · exact hkept ha
      · exact hreleased
  · exact listed_same hstays.users hkeeps.models (fun m => models_serve dep c h) hi.owners

/-! ## Steps and runs -/

abbrev registryLts : LTS (Registry ModelName String PublishedRow) (Registry.Lbl ModelName String PublishedRow) :=
  Registry.lts ModelName String PublishedRow

theorem emitted_quiet (hnone : ∀ upload w, c.body = .commit upload → (serve dep c h).1 = .ok (.version w) →
    w.state ≠ .published) : emitted dep h (.service (.call c)) = [] := by
  cases hbody : c.body with
  | commit upload =>
    cases hres : (serve dep c h).1 with
    | error => simp only [emitted, hbody, hres]
    | ok reply =>
      cases reply with
      | version w => simp only [emitted, hbody, hres, if_neg (hnone upload w hbody hres)]
      | _ => simp only [emitted, hbody, hres]
  | _ => simp only [emitted, hbody]

theorem registry_serve (hi : Sound h) :
    registryLts.Run (registry h.db) (emitted dep h (.service (.call c))) (registry (serve dep c h).2.db) := by
  by_cases hcommits : ∃ upload w, c.body = .commit upload ∧ (serve dep c h).1 = .ok (.version w) ∧
      w.state = .published
  · obtain ⟨upload, w, hbody, hres, hstate⟩ := hcommits
    obtain ⟨r, hemitted, hnone, hregistry⟩ := registry_commit hi hbody hres hstate
    rw [hemitted, hregistry]
    exact .cons (Registry.Step.release hnone) (.nil _)
  · rw [emitted_quiet fun upload w hbody hres hstate => hcommits ⟨upload, w, hbody, hres, hstate⟩,
      registry_quiet hi fun w _ hstate hres v _ hbody => absurd ⟨v.id, w, hbody, hres, hstate⟩ hcommits]
    exact .nil _

theorem registry_swept (hi : Sound h) : registry (swept h).db = registry h.db := by
  have hkeeps := keeps_swept h
  have hstays : Stays h.db (swept h).db := stays_of_mem hkeeps.users hkeeps.models
  have hmodels : (swept h).db.models = h.db.models := by rw [swept_db]; rfl
  refine registry_congr (fun a => ⟨fun ha => ?_, hstays.released fun v hv hstate => ?_⟩)
    (listed_same hstays.users hkeeps.models (fun m hm => .inl (hmodels ▸ hm)) hi.owners)
  · obtain ⟨r, hr, hstate, rfl⟩ := mem_releasedRows.mp ha
    have hv := (mem_joined.mp hr).2.1
    rw [swept_db] at hv
    exact hstays.released_back hi.owners hr (mem_deleteVersions.mp hv).1 hstate rfl
  · refine ⟨v, ?_, rfl⟩
    rw [swept_db, mem_deleteVersions]
    refine ⟨hv, fun hid => ?_⟩
    obtain ⟨w, hw, he⟩ := List.mem_map.mp hid
    obtain ⟨hmem, hreserved, -⟩ := mem_expired.mp hw
    rw [version_eq hmem hv he, hstate] at hreserved
    cases hreserved

theorem registry_account (hi : Sound h) (id : Uuid) (s : Standing) :
    registry (setStanding id s h.db) = registry h.db := by
  have husers : ∀ u ∈ h.db.users, ∃ u' ∈ (setStanding id s h.db).users, u'.id = u.id ∧ u'.handle = u.handle := by
    intro u hu
    refine ⟨_, mem_setStanding.mpr ⟨u, hu, rfl⟩, ?_⟩
    split
    · exact ⟨rfl, rfl⟩
    · exact ⟨rfl, rfl⟩
  have hstays : Stays h.db (setStanding id s h.db) := ⟨husers, fun m hm => ⟨m, hm, rfl⟩⟩
  refine registry_congr (fun a => ⟨fun ha => ?_, hstays.released fun v hv _ => ⟨v, hv, rfl⟩⟩)
    (listed_same husers (fun _ hm => hm) (fun _ hm => .inl hm) hi.owners)
  obtain ⟨r, hr, hstate, rfl⟩ := mem_releasedRows.mp ha
  have hv : r.version ∈ h.db.versions := (mem_joined.mp hr).2.1
  exact hstays.released_back hi.owners hr hv hstate rfl

theorem nameOf_eq {u : User} (hm : m ∈ db.models) (hu : u ∈ db.users) (howner : u.id = m.ownerId) :
    nameOf db m.id = some (u.handle, m.slug) := by
  have hmodel : (db.models.find? fun n => n.id = m.id) = some m :=
    Table.find?_eq hm (decide_eq_true rfl) fun n _ hn => .inl (of_decide_eq_true hn)
  have huser : (db.users.find? fun x => x.id = m.ownerId) = some u :=
    Table.find?_eq hu (decide_eq_true howner) fun x _ hx => .inl ((of_decide_eq_true hx).trans howner.symm)
  unfold nameOf
  rw [hmodel, Option.bind_some, huser]
  rfl

theorem stays_moderate (id : Uuid) (state : ModelState) (visibility : Visibility) (db : Db) :
    Stays db (setModel id state visibility db) where
  users u hu := ⟨u, hu, rfl, rfl⟩
  models m hm := by
    refine ⟨_, mem_setModel.mpr ⟨m, hm, rfl⟩, ?_⟩
    split
    · rfl
    · rfl

theorem releasedRows_moderate (hi : Sound h) (id : Uuid) (state : ModelState) (visibility : Visibility) :
    a ∈ releasedRows (setModel id state visibility h.db) ↔ a ∈ releasedRows h.db := by
  have hstays := stays_moderate id state visibility h.db
  constructor
  · intro ha
    obtain ⟨r, hr, hstate, rfl⟩ := mem_releasedRows.mp ha
    have hv : r.version ∈ h.db.versions := (mem_joined.mp hr).2.1
    exact hstays.released_back hi.owners hr hv hstate rfl
  · exact hstays.released fun v hv _ => ⟨v, hv, rfl⟩

/-- Moderation decides about one name. -/
theorem listed_moderate {u : User} (hm : m ∈ db.models) (hu : u ∈ db.users) (howner : u.id = m.ownerId)
    (state : ModelState) (visibility : Visibility) (name : ModelName) :
    (registry (setModel m.id state visibility db)).listed name ↔
      ((registry db).list (u.handle, m.slug) (state = .active && visibility = .public)).listed name := by
  simp only [Registry.list]
  by_cases hname : name = (u.handle, m.slug)
  · rw [if_pos hname]
    constructor
    · intro h
      exact h _ (mem_setModel.mpr ⟨m, hm, if_pos (decide_eq_true rfl)⟩) u hu howner hname.symm
    · intro hon n hn x hx hxowner hxname
      obtain ⟨b, hb, rfl⟩ := mem_setModel.mp hn
      split
      · exact hon
      · rename_i hother
        rw [if_neg hother] at hxowner hxname
        obtain ⟨hhandle, hslug⟩ := Prod.ext_iff.mp (hxname.trans hname)
        have hsame : x = u := db.users.eq_of_clash hx hu (.inr (.inl hhandle))
        have hbm : b = m :=
          db.models.eq_of_clash hb hm (.inr ⟨by rw [← hxowner, ← howner, hsame], hslug⟩)
        exact absurd (decide_eq_true (congrArg HubModel.id hbm)) hother
  · rw [if_neg hname]
    have hkept : ∀ b ∈ db.models, ∀ x ∈ db.users, x.id = b.ownerId → (x.handle, b.slug) = name → b.id ≠ m.id := by
      intro b hb x hx hxowner hxname hid
      obtain rfl : b = m := model_eq hb hm hid
      obtain rfl : x = u := db.users.eq_of_clash hx hu (.inl (hxowner.trans howner.symm))
      exact hname hxname.symm
    constructor
    · intro h b hb x hx hxowner hxname
      have hid := hkept b hb x hx hxowner hxname
      refine h b (mem_setModel.mpr ⟨b, hb, if_neg ?_⟩) x hx hxowner hxname
      exact fun he => hid (of_decide_eq_true he)
    · intro h n hn x hx hxowner hxname
      obtain ⟨b, hb, rfl⟩ := mem_setModel.mp hn
      by_cases hid : decide (b.id = m.id) = true
      · rw [if_pos hid] at hxowner hxname
        exact absurd (of_decide_eq_true hid) (hkept b hb x hx hxowner hxname)
      · rw [if_neg hid] at hxowner hxname ⊢
        exact h b hb x hx hxowner hxname

theorem registry_moderate (hi : Sound h) (id : Uuid) (state : ModelState) (visibility : Visibility) :
    registryLts.Run (registry h.db) (emitted dep h (.moderate id state visibility))
      (registry (setModel id state visibility h.db)) := by
  by_cases hthere : ∃ m ∈ h.db.models, m.id = id
  · obtain ⟨m, hm, rfl⟩ := hthere
    obtain ⟨u, hu, howner⟩ := hi.owners m hm
    have hemitted : emitted dep h (.moderate m.id state visibility) =
        [.list (u.handle, m.slug) (state = .active && visibility = .public)] := by
      unfold emitted
      dsimp only
      rw [nameOf_eq hm hu howner]
      rfl
    have hregistry : registry (setModel m.id state visibility h.db) =
        (registry h.db).list (u.handle, m.slug) (state = .active && visibility = .public) := by
      have hreleases : (registry (setModel m.id state visibility h.db)).releases = (registry h.db).releases := by
        funext name version
        exact Option.ext fun a => by rw [releases_iff, releases_iff, releasedRows_moderate hi]
      have hlisted := funext fun name => propext (listed_moderate hm hu howner state visibility name)
      calc registry (setModel m.id state visibility h.db)
          = ⟨(registry (setModel m.id state visibility h.db)).releases,
              (registry (setModel m.id state visibility h.db)).listed⟩ := rfl
        _ = _ := by rw [hreleases, hlisted]; rfl
    rw [hemitted, hregistry]
    exact .cons Registry.Step.list (.nil _)
  · have hnone : (h.db.models.find? fun m => m.id = id) = none := by
      refine Option.eq_none_iff_forall_ne_some.mpr fun m hm => ?_
      obtain ⟨hmem, hid⟩ := Table.find?_some hm
      exact hthere ⟨m, hmem, of_decide_eq_true hid⟩
    have hemitted : emitted dep h (.moderate id state visibility) = [] := by
      unfold emitted nameOf
      dsimp only
      rw [hnone]
      rfl
    have hsame : ∀ m ∈ (setModel id state visibility h.db).models, m ∈ h.db.models := by
      intro m hm
      obtain ⟨b, hb, rfl⟩ := mem_setModel.mp hm
      rw [if_neg fun he => hthere ⟨b, hb, of_decide_eq_true he⟩]
      exact hb
    have hkept : ∀ m ∈ h.db.models, m ∈ (setModel id state visibility h.db).models := fun m hm =>
      mem_setModel.mpr ⟨m, hm, if_neg fun he => hthere ⟨m, hm, of_decide_eq_true he⟩⟩
    rw [hemitted, registry_congr (fun a => releasedRows_moderate hi id state visibility)
      (listed_same (stays_moderate id state visibility h.db).users hkept (fun m hm => .inl (hsame m hm)) hi.owners)]
    exact .nil _

theorem registry_step (hi : Sound h) (l : Lbl) :
    registryLts.Run (registry h.db) (emitted dep h l) (registry (step dep h l).db) := by
  cases l with
  | account id s =>
    show registryLts.Run (registry h.db) [] (registry (setStanding id s h.db))
    rw [registry_account hi]
    exact .nil _
  | moderate id state visibility => exact registry_moderate hi id state visibility
  | service l =>
    cases l with
    | tick => exact .nil _
    | call c => exact registry_serve hi
    | sweep =>
      show registryLts.Run (registry h.db) [] (registry (swept h).db)
      rw [registry_swept hi]
      exact .nil _

theorem registry_empty : registry .empty = Registry.empty ModelName String PublishedRow := by
  have hlisted : (registry .empty).listed = fun _ => True := by
    funext name
    exact eq_true fun m hm => by cases hm
  calc registry .empty = ⟨(registry .empty).releases, (registry .empty).listed⟩ := rfl
    _ = _ := by rw [hlisted]; rfl

theorem registry_run (hi : Sound h) (hrun : (lts dep).Run h ls h') :
    registryLts.Run (registry h.db) (log dep h ls) (registry h'.db) := by
  induction hrun with
  | nil => exact .nil _
  | cons hs _ ih =>
    cases hs
    exact (registry_step hi _).append (ih (sound_step hi rfl))

/-- **The service is a registry**: what its database stands for is at any time
what a registry comes to by the commits that were answered and by moderation,
in their order; no other step of the service is a step of it. -/
theorem refines_registry (dep : Deployment) (h₀ h : Hub) (ls : List Lbl) (hstart : Start h₀)
    (hrun : (lts dep).Run h₀ ls h) :
    registryLts.Run (Registry.empty ModelName String PublishedRow) (log dep h₀ ls) (registry h.db) := by
  have hempty : h₀.db = .empty := hstart
  rw [← registry_empty, ← hempty]
  exact registry_run (sound_start hstart) hrun

end SpikeHub.L5.Surfaces
