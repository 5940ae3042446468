import SpikeHub.L5Runs.Surfaces

/-!
# What the public routes answer

Every public answer is read off the registry of `SpikeHub.L5.Surfaces`, and so
the routes agree: what one of them shows, the others show or find, with the
same declarations and at the same address (`views_agree`). A list that is
shorter than its limit has all there is; a longer one is cut off behind the
newest.
-/
namespace SpikeHub.L5.Views

open SpikeHub.Core SpikeHub.L1 SpikeHub.L2 SpikeHub.L4.Auth SpikeHub.L4.Uploads SpikeHub.L4.Catalog
open SpikeHub.L4.Routes SpikeHub.L5.Service SpikeHub.L5.Surfaces
open SpikeHub.L5.Interleave (Hub)
open SpikeHub.L5.Requests (serve)
open SpikeHub.L5.Catalogue (serve_download unverified)
open SpikeHub.L5.Policy (publishing released released_run)

/-- What a list of at most `limit` owes, of what the registry has and `p` picks out. -/
structure Lists (reg : Registry ModelName String PublishedRow) (p : PublishedRow → Bool) (limit : Nat)
    (rows : List PublishedRow) : Prop where
  sound : ∀ r ∈ rows, p r = true ∧ reg.Resolves (r.handle, r.model.slug) r.version.version r
  once : rows.Nodup
  sorted : rows.Pairwise fun r s => newestFirst r s = true
  short : rows.length ≤ limit
  complete : rows.length < limit → ∀ name version a, reg.Resolves name version a → p a = true → a ∈ rows
  /-- what is cut off is no newer than what is shown -/
  cut : ∀ name version a, reg.Resolves name version a → p a = true → a ∉ rows → ∀ r ∈ rows, newestFirst r a = true

/-- What a listing says of a release. -/
structure Tells (a : PublishedRow) (s : Summary) : Prop where
  id : s.id = s!"@{a.handle}/{a.model.slug}"
  owner : s.owner = a.handle
  name : s.name = a.model.slug
  version : s.version = a.version.version
  summary : s.summary = a.model.summary
  license : s.license = a.model.license
  dataset : s.dataset = a.model.dataset
  sizeBytes : s.sizeBytes = a.version.sizeBytes
  sha256 : s.sha256 = a.version.sha256
  trust : s.trust = labelFor a.version
  publishedAt : s.publishedAt = a.version.publishedAt

/-- And its page, besides. -/
structure TellsAll (a : PublishedRow) (pg : Page) : Prop extends Tells a pg.toSummary where
  description : pg.description = a.model.description
  datasetLicense : pg.datasetLicense = a.model.datasetLicense
  datasetAttribution : pg.datasetAttribution = a.model.datasetAttribution
  verification : pg.verification = a.version.verification

/-- What the index says of it, at the address its download is redirected to. -/
structure Offers (dep : Deployment) (h : Hub) (a : PublishedRow) (e : Entry) : Prop where
  id : e.id = s!"@{a.handle}/{a.model.slug}"
  license : e.license = a.model.license
  sizeBytes : e.sizeBytes = a.version.sizeBytes
  dataset : e.dataset = orNone a.model.dataset
  datasetLicense : e.datasetLicense = orNone a.model.datasetLicense
  datasetAttribution : e.datasetAttribution = orNone a.model.datasetAttribution
  url : ∀ req secret, (serve dep ⟨req, .download a.handle a.model.slug a.version.version, secret⟩ h).1 =
    .ok (.redirect e.url)

/-- The answers of the public routes, from a registry. -/
structure ReadsOff (dep : Deployment) (h : Hub) (reg : Registry ModelName String PublishedRow) : Prop where
  index : ∀ req secret, ∃ rows, Lists reg (fun _ => true) 1000 rows ∧
    (serve dep ⟨req, .catalogIndex, secret⟩ h).1 =
      .ok (.index (document (rows.map (entryFor · dep.config.artifactPublicBase)))) ∧
    ∀ a ∈ rows, Offers dep h a (entryFor a dep.config.artifactPublicBase)
  models : ∀ req secret listing, ∃ rows,
    Lists reg (fun r => listing.q = "" || r.matching dep.platform dep.sql listing.q) listing.limit rows ∧
    (serve dep ⟨req, .listModels listing, secret⟩ h).1 = .ok (.models (rows.map summarise)) ∧
    ∀ a ∈ rows, Tells a (summarise a)
  model : ∀ req secret handle slug version a, reg.Resolves (handle, slug) version a →
    ∃ version b, reg.Resolves (handle, slug) version b ∧ newestFirst b a = true ∧
      (serve dep ⟨req, .showModel handle slug, secret⟩ h).1 = .ok (.model (page b)) ∧ TellsAll b (page b)
  noModel : ∀ req secret handle slug, (∀ version a, ¬ reg.Resolves (handle, slug) version a) →
    (serve dep ⟨req, .showModel handle slug, secret⟩ h).1 =
      refuse .notFound s!"no published model @{handle}/{slug}"
  artifact : ∀ req secret handle slug version a, reg.Resolves (handle, slug) version a →
    (serve dep ⟨req, .download handle slug version, secret⟩ h).1 =
      .ok (.redirect (artifactUrl dep.config.artifactPublicBase a.version))
  noArtifact : ∀ req secret handle slug version, (∀ a, ¬ reg.Resolves (handle, slug) version a) →
    (serve dep ⟨req, .download handle slug version, secret⟩ h).1 =
      refuse .notFound s!"no published version {pyRepr version} of @{handle}/{slug}"

variable {dep : Deployment} {h h₀ : Hub} {ls : List Lbl} {db : Db} {a r s t : PublishedRow} {name : ModelName}
  {handle slug version : String} {p : PublishedRow → Bool} {limit : Nat}

/-! ## What is visible -/

theorem onShow_iff {m : HubModel} : onShow m = true ↔ m.state = .active ∧ m.visibility = .public := by
  unfold onShow
  rw [Bool.and_eq_true, decide_eq_true_eq, decide_eq_true_eq]

/-- A name resolves to the row that is visible under it. -/
theorem resolves_iff : (registry db).Resolves name version a ↔
    ∃ r ∈ visibleRows db, release r = a ∧ a.named name.1 name.2 version = true := by
  unfold Registry.Resolves
  rw [releases_iff]
  constructor
  · intro h
    obtain ⟨hlisted, hmem, hnamed⟩ := h
    obtain ⟨r, hr, hstate, rfl⟩ := mem_releasedRows.mp hmem
    obtain ⟨hm, -, -, u, hu, howner, hhandle⟩ := mem_joined.mp hr
    obtain ⟨hh, hs, -⟩ := named_iff.mp (release_named ▸ hnamed)
    have hshown := hlisted r.model hm u hu howner (Prod.ext (hhandle.trans hh) hs)
    obtain ⟨hactive, hpublic⟩ := onShow_iff.mp hshown
    exact ⟨r, mem_visibleRows.mpr ⟨hr, hactive, hpublic, hstate⟩, rfl, hnamed⟩
  · intro h
    obtain ⟨r, hr, rfl, hnamed⟩ := h
    obtain ⟨hjoined, hactive, hpublic, hstate⟩ := mem_visibleRows.mp hr
    obtain ⟨hm, -, -, u, hu, howner, hhandle⟩ := mem_joined.mp hjoined
    obtain ⟨hh, hs, -⟩ := named_iff.mp (release_named ▸ hnamed)
    refine ⟨fun n hn x hx hxowner hname => ?_, mem_releasedRows.mpr ⟨r, hjoined, hstate, rfl⟩, hnamed⟩
    have hxhandle : x.handle = name.1 := congrArg Prod.fst hname
    have hslug : n.slug = name.2 := congrArg Prod.snd hname
    have hsame : x = u := db.users.eq_of_clash hx hu (.inr (.inl (by rw [hxhandle, hhandle, hh])))
    have hmodel : n = r.model :=
      db.models.eq_of_clash hn hm (.inr ⟨by rw [← hxowner, ← howner, hsame], hslug.trans hs.symm⟩)
    rw [hmodel]
    exact onShow_iff.mpr ⟨hactive, hpublic⟩

theorem resolves_visible (hr : r ∈ visibleRows db) :
    (registry db).Resolves (r.handle, r.model.slug) r.version.version (release r) :=
  resolves_iff.mpr ⟨r, hr, rfl, named_iff.mpr ⟨rfl, rfl, rfl⟩⟩

/-! ## Newest first -/

theorem newestFirst_release : newestFirst (release r) (release s) = newestFirst r s := rfl

theorem newestFirst_trans (hrs : newestFirst r s = true) (hst : newestFirst s t = true) :
    newestFirst r t = true := by
  unfold newestFirst at *
  cases hr : r.version.publishedAt with
  | none => rfl
  | some i =>
    cases hs : s.version.publishedAt with
    | none => simp [hr, hs] at hrs
    | some j =>
      cases ht : t.version.publishedAt with
      | none => simp [hs, ht] at hst
      | some k =>
        simp only [hr, hs, ht, decide_eq_true_eq] at hrs hst ⊢
        exact le_trans hst hrs

theorem newestFirst_total (r s : PublishedRow) : (newestFirst r s || newestFirst s r) = true := by
  unfold newestFirst
  cases hr : r.version.publishedAt with
  | none => rfl
  | some i =>
    cases hs : s.version.publishedAt with
    | none => rfl
    | some j =>
      simp only [Bool.or_eq_true, decide_eq_true_eq]
      exact le_total j i

theorem sorted_rows (rows : List PublishedRow) :
    (rows.mergeSort newestFirst).Pairwise fun r s => newestFirst r s = true := by
  have htrans : ∀ r s t, newestFirst r s = true → newestFirst s t = true → newestFirst r t = true :=
    fun _ _ _ => newestFirst_trans
  exact List.pairwise_mergeSort htrans newestFirst_total rows

/-- The first `limit` of the visible rows of `p`, sorted. -/
theorem lists_of_sorted (hp : ∀ r, p (release r) = p r) :
    Lists (registry db) p limit (((((visibleRows db).filter p).mergeSort newestFirst).take limit).map release) := by
  have hsorted := sorted_rows ((visibleRows db).filter p)
  have hmem : ∀ r, r ∈ ((visibleRows db).filter p).mergeSort newestFirst ↔ r ∈ visibleRows db ∧ p r = true :=
    fun r => by rw [List.mem_mergeSort, List.mem_filter]
  have hinj : ∀ r ∈ visibleRows db, ∀ s ∈ visibleRows db, release r = release s → r = s := by
    intro r hr s hs he
    have hh : (release r).handle = (release s).handle := congrArg (·.handle) he
    have hslug : (release r).model.slug = (release s).model.slug := congrArg (·.model.slug) he
    have hv : (release r).version.version = (release s).version.version := congrArg (·.version.version) he
    exact named_unique (mem_visibleRows.mp hr).1 (mem_visibleRows.mp hs).1 hh hslug hv
  have hnodup : (((visibleRows db).filter p).mergeSort newestFirst).Nodup :=
    (List.mergeSort_perm _ _).nodup_iff.mpr ((visibleRows_nodup db).filter _)
  have hfound : ∀ {name version a}, (registry db).Resolves name version a → p a = true →
      ∃ r ∈ ((visibleRows db).filter p).mergeSort newestFirst, release r = a := by
    intro name version a hres hpa
    obtain ⟨r, hr, rfl, -⟩ := resolves_iff.mp hres
    exact ⟨r, (hmem r).mpr ⟨hr, hp r ▸ hpa⟩, rfl⟩
  refine ⟨fun a ha => ?_, ?_, ?_, ?_, fun hshort name version a hres hpa => ?_,
    fun name version a hres hpa hnot r hr => ?_⟩
  · obtain ⟨r, hr, rfl⟩ := List.mem_map.mp ha
    obtain ⟨hvisible, hpr⟩ := (hmem r).mp (List.mem_of_mem_take hr)
    have hres := resolves_visible hvisible
    exact ⟨(hp r).trans hpr, hres⟩
  · refine (hnodup.sublist (List.take_sublist _ _)).map_on fun r hr s hs he => ?_
    exact hinj r ((hmem r).mp (List.mem_of_mem_take hr)).1 s ((hmem s).mp (List.mem_of_mem_take hs)).1 he
  · rw [List.pairwise_map]
    exact hsorted.sublist (List.take_sublist _ _)
  · rw [List.length_map]
    exact List.length_take_le _ _
  · obtain ⟨r, hr, rfl⟩ := hfound hres hpa
    rw [List.length_map, List.length_take] at hshort
    rw [List.take_of_length_le (by omega)]
    exact List.mem_map_of_mem hr
  · obtain ⟨s, hs, rfl⟩ := hfound hres hpa
    obtain ⟨q, hq, rfl⟩ := List.mem_map.mp hr
    rw [← List.take_append_drop limit (((visibleRows db).filter p).mergeSort newestFirst)] at hs hsorted
    rcases List.mem_append.mp hs with hs | hs
    · exact absurd (List.mem_map_of_mem hs) hnot
    · rw [newestFirst_release]
      exact (List.pairwise_append.mp hsorted).2.2 q hq s hs

/-! ## The routes -/

theorem published_eq {query : String} : published dep.platform dep.sql db query limit =
    (((visibleRows db).filter fun r => query = "" || r.matching dep.platform dep.sql query).mergeSort
      newestFirst).take limit := by
  unfold published
  by_cases hquery : query = ""
  · rw [if_pos hquery]
    simp [hquery]
  · rw [if_neg hquery]
    simp [hquery]

theorem latest_of_resolves (hres : (registry db).Resolves (handle, slug) version a) :
    ∃ r, latestVersion db handle slug = some r ∧ r ∈ visibleRows db ∧ r.handle = handle ∧ r.model.slug = slug ∧
      newestFirst (release r) a = true := by
  obtain ⟨s, hs, rfl, hnamed⟩ := resolves_iff.mp hres
  obtain ⟨hh, hslug, -⟩ := named_iff.mp (release_named ▸ hnamed)
  have hsorted := sorted_rows ((visibleRows db).filter fun r => r.handle = handle && r.model.slug = slug)
  have hmem : s ∈ ((visibleRows db).filter fun r => r.handle = handle && r.model.slug = slug).mergeSort
      newestFirst := by
    rw [List.mem_mergeSort, List.mem_filter, Bool.and_eq_true, decide_eq_true_eq, decide_eq_true_eq]
    exact ⟨hs, hh, hslug⟩
  unfold latestVersion
  cases hrows : ((visibleRows db).filter fun r => r.handle = handle && r.model.slug = slug).mergeSort
      newestFirst with
  | nil => rw [hrows] at hmem; cases hmem
  | cons r rows =>
    have hr : r ∈ ((visibleRows db).filter fun r => r.handle = handle && r.model.slug = slug).mergeSort
        newestFirst := by
      rw [hrows]
      exact List.mem_cons_self
    rw [List.mem_mergeSort, List.mem_filter, Bool.and_eq_true, decide_eq_true_eq, decide_eq_true_eq] at hr
    refine ⟨r, rfl, hr.1, hr.2.1, hr.2.2, ?_⟩
    rw [newestFirst_release]
    rw [hrows] at hmem hsorted
    rcases List.mem_cons.mp hmem with rfl | hmem
    · simpa using newestFirst_total s s
    · exact (List.pairwise_cons.mp hsorted).1 s hmem

theorem latest_none (hnone : ∀ version a, ¬ (registry db).Resolves (handle, slug) version a) :
    latestVersion db handle slug = none := by
  cases hlatest : latestVersion db handle slug with
  | none => rfl
  | some r =>
    have hmem := List.mem_of_head? hlatest
    rw [List.mem_mergeSort, List.mem_filter, Bool.and_eq_true, decide_eq_true_eq, decide_eq_true_eq] at hmem
    obtain ⟨hvisible, rfl, rfl⟩ := hmem
    exact absurd (resolves_visible hvisible) (hnone _ _)

theorem one_none (hnone : ∀ a, ¬ (registry db).Resolves (handle, slug) version a) :
    oneVersion db handle slug version = none := by
  cases hone : oneVersion db handle slug version with
  | none => rfl
  | some r =>
    obtain ⟨hvisible, rfl, rfl, rfl⟩ := oneVersion_eq_some.mp hone
    exact absurd (resolves_visible hvisible) (hnone _)

theorem serve_showModel (dep : Deployment) (h : Hub) (req : Presented) (secret : Nat → String)
    (handle slug : String) : (serve dep ⟨req, .showModel handle slug, secret⟩ h).1 =
      (orNotFound s!"no published model @{handle}/{slug}" (latestVersion h.db handle slug)).map
        (Reply.model ∘ page) := by
  show (dbSession (showModel handle slug) h.db h.volume).1 = _
  unfold showModel
  rw [dbSession_session, Work.exec_bind, Work.exec_check]
  cases latestVersion h.db handle slug with
  | none => rfl
  | some r => rfl

theorem serve_resolves (hres : (registry h.db).Resolves (handle, slug) version a) (req : Presented)
    (secret : Nat → String) : (serve dep ⟨req, .download handle slug version, secret⟩ h).1 =
      .ok (.redirect (artifactUrl dep.config.artifactPublicBase a.version)) := by
  obtain ⟨r, hvisible, rfl, hnamed⟩ := resolves_iff.mp hres
  have hone := oneVersion_eq_some.mpr ⟨hvisible, named_iff.mp (release_named ▸ hnamed)⟩
  exact serve_download (r := r) hone

theorem tells_summary (a : PublishedRow) : Tells a (summarise a) :=
  ⟨rfl, rfl, rfl, rfl, rfl, rfl, rfl, rfl, rfl, rfl, rfl⟩

theorem tells_page (a : PublishedRow) : TellsAll a (page a) := ⟨tells_summary a, rfl, rfl, rfl, rfl⟩

theorem offers_entry (hres : (registry h.db).Resolves (a.handle, a.model.slug) a.version.version a) :
    Offers dep h a (entryFor a dep.config.artifactPublicBase) :=
  ⟨rfl, rfl, rfl, rfl, rfl, rfl, serve_resolves hres⟩

/-- **The views agree**: the index, every listing, every page and every
download are read off the one registry. -/
theorem views_agree (dep : Deployment) (h : Hub) : ReadsOff dep h (registry h.db) where
  index req secret := by
    have hlists : Lists (registry h.db) (fun _ => true) 1000
        (((((visibleRows h.db).filter fun _ => true).mergeSort newestFirst).take 1000).map release) :=
      lists_of_sorted fun _ => rfl
    refine ⟨_, hlists, ?_, fun a ha => offers_entry (hlists.sound a ha).2⟩
    rw [serve_catalogIndex, List.map_map]
    unfold newest
    rw [List.filter_true]
    rfl
  models req secret listing := by
    refine ⟨_, lists_of_sorted fun _ => rfl, ?_, fun a _ => tells_summary a⟩
    show Except.ok (Reply.models ((published dep.platform dep.sql h.db listing.q listing.limit).map summarise)) = _
    rw [published_eq, List.map_map]
    rfl
  model req secret handle slug version a hres := by
    obtain ⟨r, hlatest, hvisible, rfl, rfl, hnewest⟩ := latest_of_resolves hres
    refine ⟨r.version.version, release r, resolves_visible hvisible, hnewest, ?_, tells_page _⟩
    rw [serve_showModel, hlatest]
    rfl
  noModel req secret handle slug hnone := by
    rw [serve_showModel, latest_none hnone]
    rfl
  artifact req secret handle slug version a hres := serve_resolves hres req secret
  noArtifact req secret handle slug version hnone := by
    show (dbSession (download dep handle slug version) h.db h.volume).1 = _
    unfold download
    rw [dbSession_commit, Work.exec_bind, Work.exec_check, one_none hnone]
    rfl

/-- **Downloads by the log**: a download is redirected to an address just when
a commit released an artifact with this address under the name, and moderation
has not taken the model off show since it last put it there. -/
theorem download_by_log (dep : Deployment) (h₀ h : Hub) (ls : List Lbl) (hstart : Start h₀)
    (hrun : (lts dep).Run h₀ ls h) (handle slug version url : String) (req : Presented) (secret : Nat → String) :
    (serve dep ⟨req, .download handle slug version, secret⟩ h).1 = .ok (.redirect url) ↔
      Registry.lastWord (handle, slug) (log dep h₀ ls) ≠ some false ∧
        ∃ a, .release (handle, slug) version a ∈ log dep h₀ ls ∧
          url = artifactUrl dep.config.artifactPublicBase a.version := by
  have hlog : ∀ a, (registry h.db).Resolves (handle, slug) version a ↔
      .release (handle, slug) version a ∈ log dep h₀ ls ∧
        Registry.lastWord (handle, slug) (log dep h₀ ls) ≠ some false := fun _ =>
    Registry.run_resolves (refines_registry dep h₀ h ls hstart hrun)
  constructor
  · intro hreply
    by_cases hres : ∃ a, (registry h.db).Resolves (handle, slug) version a
    · obtain ⟨a, ha⟩ := hres
      obtain ⟨hreleased, hshown⟩ := (hlog a).mp ha
      rw [(views_agree dep h).artifact req secret handle slug version a ha] at hreply
      exact ⟨hshown, a, hreleased, (Reply.redirect.inj (Except.ok.inj hreply)).symm⟩
    · rw [(views_agree dep h).noArtifact req secret handle slug version fun a ha => hres ⟨a, ha⟩] at hreply
      cases hreply
  · intro hlogged
    obtain ⟨hshown, a, hreleased, rfl⟩ := hlogged
    exact (views_agree dep h).artifact req secret handle slug version a ((hlog a).mpr ⟨hreleased, hshown⟩)

/-! ## Traces -/

theorem released_registered : registryLts.Run (Registry.empty ModelName String PublishedRow)
    (log unverified blank publishing) (registry released.db) :=
  refines_registry unverified blank released publishing rfl released_run

/-- Whether a reply is a redirect. -/
def redirects : Except Raised Reply → Option String
  | .ok (.redirect url) => some url
  | _ => none

theorem released_logged : ∃ a, .release ("alice", "mnist") "1.0" a ∈ log unverified blank publishing := by
  have hsome : (redirects (serve unverified ⟨{}, .download "alice" "mnist" "1.0", fun _ => ""⟩ released).1).isSome =
      true := by decide +kernel
  obtain ⟨url, hurl⟩ := Option.isSome_iff_exists.mp hsome
  have hreply : (serve unverified ⟨{}, .download "alice" "mnist" "1.0", fun _ => ""⟩ released).1 =
      .ok (.redirect url) := by
    unfold redirects at hurl
    split at hurl
    · rename_i found hfound
      rw [hfound, Option.some.inj hurl]
    · cases hurl
  obtain ⟨-, a, ha, -⟩ := (download_by_log unverified blank released publishing rfl released_run "alice" "mnist" "1.0"
    url {} fun _ => "").mp hreply
  exact ⟨a, ha⟩

end SpikeHub.L5.Views
