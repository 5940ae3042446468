import SpikeHub.L5Runs.Views

/-!
# Downloads, counted

`download_count` is a column the download route moves on by one. One request
after the other, it is at any time how many downloads of the name were answered
since the service started from an empty database (`downloads_counted`): a row
is new with a count of 0, nothing else writes the column, and a name that was
released is never another row's.
-/
namespace SpikeHub.L5.Counting

open SpikeHub.Core SpikeHub.L1 SpikeHub.L2 SpikeHub.L3 SpikeHub.L4.Catalog SpikeHub.L4.Uploads SpikeHub.L4.Routes
open SpikeHub.L5.Service
open SpikeHub.L5.Interleave (Hub)
open SpikeHub.L5.Requests (Call serve)
open SpikeHub.L5.Catalogue (swept swept_db serve_rowEffect serve_download unverified)

/-- A download of the name is answered. -/
def Downloads (dep : Deployment) (handle slug version : String) (h : Hub) (l : Lbl) : Prop :=
  ∃ c url, l = .service (.call c) ∧ c.body = .download handle slug version ∧
    (serve dep c h).1 = .ok (.redirect url)

/-- And leads to the version. -/
def LeadsTo (id : Uuid) (h : Hub) (l : Lbl) : Prop :=
  ∃ c handle slug version row, l = .service (.call c) ∧ c.body = .download handle slug version ∧
    oneVersion h.db handle slug version = some row ∧ row.version.id = id

/-- The version has been counted `n` times. -/
structure Counted (id : Uuid) (n : Nat) (db : Db) : Prop where
  count : ∀ v ∈ db.versions, v.id = id → v.downloadCount = n
  unpublished : (∀ v ∈ db.versions, v.id = id → v.state ≠ .published) → n = 0

variable {dep : Deployment} {h h' h₀ : Hub} {l : Lbl} {ls : List Lbl} {c : Call} {db db' : Db} {id : Uuid} {n : Nat}
  {handle slug version : String} {row : PublishedRow} {now : Time} {v w : ModelVersion}

/-! ## A request -/

theorem oneVersion_row (hone : oneVersion db handle slug version = some row) :
    row.version ∈ db.versions ∧ row.version.state = .published := by
  obtain ⟨hvisible, -⟩ := oneVersion_eq_some.mp hone
  obtain ⟨hjoined, -, -, hstate⟩ := mem_visibleRows.mp hvisible
  exact ⟨(mem_joined.mp hjoined).2.1, hstate⟩

theorem download_db (hbody : c.body = .download handle slug version) : (serve dep c h).2.db =
    match oneVersion h.db handle slug version with
    | some row => setVersion h.db row.version.id (countedFrom row.version.downloadCount) (countedFrom_keys _)
    | none => h.db := by
  unfold serve
  rw [hbody]
  show (dbSession (download dep handle slug version) h.db h.volume).2.1 = _
  unfold download
  rw [dbSession_commit, Work.exec_bind, Work.exec_check]
  cases hone : oneVersion h.db handle slug version with
  | none => rfl
  | some row =>
    dsimp only [orNotFound]
    rw [Work.exec_bind, Work.exec_statement]
    unfold updateVersion
    rw [if_pos ⟨row.version, (oneVersion_row hone).1, rfl⟩]
    rfl

/-- Answered is led to a row. -/
theorem downloads_iff : Downloads dep handle slug version h (.service (.call c)) ↔
    c.body = .download handle slug version ∧ ∃ row, oneVersion h.db handle slug version = some row := by
  obtain ⟨req, body, secret⟩ := c
  constructor
  · intro hd
    obtain ⟨c', url, hl, hbody, hres⟩ := hd
    cases hl
    obtain rfl : body = .download handle slug version := hbody
    refine ⟨rfl, ?_⟩
    cases hone : oneVersion h.db handle slug version with
    | some row => exact ⟨row, rfl⟩
    | none =>
      have hnot : (dbSession (download dep handle slug version) h.db h.volume).1 = .ok (.redirect url) := hres
      unfold download at hnot
      rw [dbSession_commit, Work.exec_bind, Work.exec_check, hone] at hnot
      cases hnot
  · intro hd
    obtain ⟨hbody, row, hone⟩ := hd
    obtain rfl : body = .download handle slug version := hbody
    exact ⟨_, _, rfl, rfl, serve_download hone⟩

theorem Counted.same (hk : Counted id n db) (hversions : db'.versions = db.versions) : Counted id n db' :=
  ⟨hversions ▸ hk.count, hversions ▸ hk.unpublished⟩

/-- A version that is not published is changed otherwise. -/
theorem Counted.changed {f : ModelVersion → ModelVersion} (hf : KeepsKeys f) (hk : Counted id n db)
    (hv : v ∈ db.versions) (hstate : v.state ≠ .published) (hsame : (f v).downloadCount = v.downloadCount) :
    Counted id n (setVersion db v.id f hf) where
  count w hw hid := by
    obtain ⟨a, ha, rfl⟩ := mem_setVersion.mp hw
    by_cases he : a.id = v.id
    · obtain rfl := version_eq ha hv he
      rw [if_pos he] at hid ⊢
      rw [hsame]
      exact hk.count a ha ((hf.id a).symm.trans hid)
    · rw [if_neg he] at hid ⊢
      exact hk.count a ha hid
  unpublished hall := by
    refine hk.unpublished fun a ha hid => ?_
    by_cases he : a.id = v.id
    · rw [version_eq ha hv he]
      exact hstate
    · exact hall a (mem_setVersion.mpr ⟨a, ha, if_neg he⟩) hid

/-- The version a download leads to is counted once more, and no other. -/
theorem Counted.download (hk : Counted id n db) (hone : oneVersion db handle slug version = some row) :
    Counted id (if row.version.id = id then n + 1 else n)
      (setVersion db row.version.id (countedFrom row.version.downloadCount) (countedFrom_keys _)) := by
  obtain ⟨hrow, hstate⟩ := oneVersion_row hone
  by_cases hid : row.version.id = id
  · rw [if_pos hid]
    refine ⟨fun w hw hwid => ?_, fun hall => ?_⟩
    · obtain ⟨a, ha, rfl⟩ := mem_setVersion.mp hw
      by_cases he : a.id = row.version.id
      · rw [if_pos he]
        exact congrArg (· + 1) (hk.count _ hrow hid)
      · rw [if_neg he] at hwid
        exact absurd (hwid.trans hid.symm) he
    · exact absurd hstate
        (hall (countedFrom row.version.downloadCount row.version) (mem_setVersion.mpr ⟨_, hrow, if_pos rfl⟩) hid)
  · rw [if_neg hid]
    have hother : ∀ a : ModelVersion, a.id = id → a.id ≠ row.version.id := fun a ha he =>
      hid (he.symm.trans ha)
    refine ⟨fun w hw hwid => ?_, fun hall => hk.unpublished fun a ha haid => ?_⟩
    · obtain ⟨a, ha, rfl⟩ := mem_setVersion.mp hw
      by_cases he : a.id = row.version.id
      · rw [if_pos he] at hwid
        exact absurd (he.symm.trans hwid) hid
      · rw [if_neg he] at hwid ⊢
        exact hk.count a ha hwid
    · exact hall a (mem_setVersion.mpr ⟨a, ha, if_neg (hother a haid)⟩) haid

/-- A new row has not been counted, and there was none. -/
theorem Counted.added {u₀ : Uuid} (hk : Counted id n db) (hadd : AddedReservation u₀ v db db')
    (hzero : v.downloadCount = 0) (hstate : v.state ≠ .published) : Counted id n db' := by
  obtain ⟨hnew, he⟩ := hadd.versions
  have hfresh : v.id = id → n = 0 := fun hid =>
    hk.unpublished fun a ha haid => absurd (.inl (haid.trans hid.symm)) (hnew a ha)
  refine ⟨fun w hw hwid => ?_, fun hall => hk.unpublished fun a ha => hall a (hadd.mem.mpr (.inl ha))⟩
  rcases hadd.mem.mp hw with hold | rfl
  · exact hk.count w hold hwid
  · rw [hzero, hfresh hwid]

/-- No other request counts. -/
theorem counted_rowEffect {r : Rand} {req : Presented} {fs : Volume} {body : Request}
    {res : Except Raised Reply} (hk : Counted id n db) (h : RowEffect dep now r req db fs body res db')
    (hdown : ∀ handle slug version, body ≠ .download handle slug version) : Counted id n db' := by
  cases h with
  | same hsame => exact hk.same hsame.versions
  | reserved hcaller _ hgranted =>
    obtain ⟨modelId, hadd⟩ := hgranted.added
    exact (hk.same (currentUser_ok hcaller).2.sameRows.versions).added hadd rfl nofun
  | @stored _ _ _ user v key blob _ _ hsame hslot hstore =>
    obtain ⟨-, _, rfl⟩ := storeUploaded_ok hstore
    obtain ⟨hv, -, -, hstate, -⟩ := reservedSlot_ok hslot
    have hset := (hk.same hsame.versions).changed (uploadedAs_keys key) hv (by rw [hstate]; nofun) rfl
    exact hset.same rfl
  | published hsame hv hstate =>
    refine (hk.same hsame.versions).changed (movedOn_keys _ _) hv ?_ ?_
    · rw [hstate]
      nofun
    · unfold movedOn
      split
      · rfl
      · rfl
  | counted => exact absurd rfl (hdown _ _ _)

theorem counted_serve (hk : Counted id n h.db) (dep : Deployment) (c : Call) :
    (LeadsTo id h (.service (.call c)) → Counted id (n + 1) (serve dep c h).2.db) ∧
      (¬ LeadsTo id h (.service (.call c)) → Counted id n (serve dep c h).2.db) := by
  by_cases hdown : ∃ handle slug version, c.body = .download handle slug version
  · obtain ⟨handle, slug, version, hbody⟩ := hdown
    rw [download_db hbody]
    cases hone : oneVersion h.db handle slug version with
    | none =>
      refine ⟨fun hl => ?_, fun _ => hk⟩
      obtain ⟨c', _, _, _, row, hc, hbody', hone', -⟩ := hl
      cases hc
      rw [hbody] at hbody'
      cases hbody'
      rw [hone] at hone'
      cases hone'
    | some row =>
      have hafter := hk.download hone
      constructor
      · intro hl
        obtain ⟨c', _, _, _, row', hc, hbody', hone', hid⟩ := hl
        cases hc
        rw [hbody] at hbody'
        cases hbody'
        rw [hone] at hone'
        cases hone'
        rwa [if_pos hid] at hafter
      · intro hl
        rwa [if_neg fun hid => hl ⟨c, _, _, _, row, rfl, hbody, hone, hid⟩] at hafter
  · have hkept : Counted id n (serve dep c h).2.db :=
      counted_rowEffect hk (serve_rowEffect dep c h) fun handle slug version hbody =>
        hdown ⟨handle, slug, version, hbody⟩
    refine ⟨fun hl => ?_, fun _ => hkept⟩
    obtain ⟨c', handle, slug, version, -, hc, hbody, -⟩ := hl
    cases hc
    exact absurd ⟨handle, slug, version, hbody⟩ hdown

theorem counted_swept (hk : Counted id n h.db) : Counted id n (swept h).db := by
  rw [swept_db]
  refine ⟨fun v hv => hk.count v (mem_deleteVersions.mp hv).1, fun hall => hk.unpublished fun v hv hid => ?_⟩
  by_cases hexpired : v.id ∈ (expired h.db h.now).map ModelVersion.id
  · obtain ⟨w, hw, he⟩ := List.mem_map.mp hexpired
    obtain ⟨hmem, hreserved, -⟩ := mem_expired.mp hw
    rw [← version_eq hmem hv he, hreserved]
    nofun
  · exact hall v (mem_deleteVersions.mpr ⟨hv, hexpired⟩) hid

/-! ## Runs -/

theorem counted_step (hk : Counted id n h.db) (hs : (lts dep).step h l h') :
    (LeadsTo id h l → Counted id (n + 1) h'.db) ∧ (¬ LeadsTo id h l → Counted id n h'.db) := by
  have hquiet : (∀ c, l ≠ .service (.call c)) → ¬ LeadsTo id h l := fun hl hleads => by
    obtain ⟨c, -, -, -, -, hc, -⟩ := hleads
    exact hl c hc
  have hother : (∀ c, l ≠ .service (.call c)) → Counted id n h'.db →
      (LeadsTo id h l → Counted id (n + 1) h'.db) ∧ (¬ LeadsTo id h l → Counted id n h'.db) :=
    fun hl hsame => ⟨fun hleads => absurd hleads (hquiet hl), fun _ => hsame⟩
  cases hs
  cases l with
  | account => exact hother nofun (hk.same rfl)
  | moderate => exact hother nofun (hk.same rfl)
  | service l =>
    cases l with
    | tick => exact hother nofun (hk.same rfl)
    | sweep => exact hother nofun (counted_swept hk)
    | call c => exact counted_serve hk dep c

theorem counted_run (hk : Counted id 0 h.db) (ht : (lts dep).Times (LeadsTo id) n h ls h') :
    Counted id n h'.db := by
  have hafter := ht.counts (K := fun n h => Counted id n h.db) (fun _ _ _ _ hk hs => (counted_step hk hs).1)
    (fun _ _ _ _ hk hs => (counted_step hk hs).2) hk
  rwa [Nat.zero_add] at hafter

/-! ## By the name -/

/-- What a name leads to it leads to for good. -/
theorem released_onward (hi : Sound h) (hr : (lts dep).Run h ls h')
    (hone : oneVersion h.db handle slug version = some row) :
    Surfaces.release row ∈ Surfaces.releasedRows h'.db := by
  have hregistry : Surfaces.registryLts.Run (Surfaces.registry h.db) (Surfaces.log dep h ls)
      (Surfaces.registry h'.db) := Surfaces.registry_run hi hr
  obtain ⟨hvisible, hnamed⟩ := oneVersion_eq_some.mp hone
  obtain ⟨hjoined, -, -, hstate⟩ := mem_visibleRows.mp hvisible
  have hnow : (Surfaces.registry h.db).releases (handle, slug) version = some (Surfaces.release row) :=
    Surfaces.releases_iff.mpr ⟨Surfaces.mem_releasedRows.mpr ⟨row, hjoined, hstate, rfl⟩, named_iff.mpr hnamed⟩
  exact (Surfaces.releases_iff.mp ((Registry.run_releases hregistry).mpr (.inl hnow))).1

/-- In a run a name leads to the version it is of where the run ends. -/
theorem downloads_leadsTo (hi : Sound h) (hs : (lts dep).step h l h') (hr : (lts dep).Run h' ls h₀)
    (hrow : row ∈ joined h₀.db) :
    Downloads dep row.handle row.model.slug row.version.version h l ↔ LeadsTo row.version.id h l := by
  have hthere : ∀ {handle slug version r}, oneVersion h.db handle slug version = some r →
      ∃ s ∈ joined h₀.db, Surfaces.release s = Surfaces.release r ∧ s.handle = handle ∧ s.model.slug = slug ∧
        s.version.version = version ∧ s.version.id = r.version.id := by
    intro handle slug version r hone
    obtain ⟨s, hs', -, hsame⟩ := Surfaces.mem_releasedRows.mp (released_onward hi (.cons hs hr) hone)
    obtain ⟨-, hhandle, hslug, hversion⟩ := oneVersion_eq_some.mp hone
    have hh : (Surfaces.release s).handle = (Surfaces.release r).handle := congrArg _ hsame
    have hm : (Surfaces.release s).model.slug = (Surfaces.release r).model.slug := by rw [hsame]
    have hv : (Surfaces.release s).version.version = (Surfaces.release r).version.version := by rw [hsame]
    have hid : (Surfaces.release s).version.id = (Surfaces.release r).version.id := by rw [hsame]
    exact ⟨s, hs', hsame, hh.trans hhandle, hm.trans hslug, hv.trans hversion, hid⟩
  constructor
  · intro hd
    obtain ⟨c, url, rfl, hbody, hres⟩ := hd
    obtain ⟨-, r, hone⟩ := downloads_iff.mp ⟨c, url, rfl, hbody, hres⟩
    obtain ⟨s, hs', -, hhandle, hslug, hversion, hid⟩ := hthere hone
    rw [named_unique hs' hrow hhandle hslug hversion] at hid
    exact ⟨c, _, _, _, r, rfl, hbody, hone, hid.symm⟩
  · intro hl
    obtain ⟨c, handle, slug, version, r, rfl, hbody, hone, hid⟩ := hl
    obtain ⟨s, hs', -, rfl, rfl, rfl, hsid⟩ := hthere hone
    have hversion := version_eq (mem_joined.mp hs').2.1 (mem_joined.mp hrow).2.1 (hsid.trans hid)
    obtain rfl := version_unique hs' hrow hversion
    exact downloads_iff.mpr ⟨hbody, r, hone⟩

/-- **Downloads are counted**: the count of a version is how many downloads of
its name were answered. -/
theorem downloads_counted (dep : Deployment) (h₀ h : Hub) (ls : List Lbl) (hstart : Start h₀)
    (row : PublishedRow) (hrow : row ∈ joined h.db) (n : Nat)
    (ht : (lts dep).Times (Downloads dep row.handle row.model.slug row.version.version) n h₀ ls h) :
    row.version.downloadCount = n := by
  have hempty : h₀.db = .empty := hstart
  have hnone : Counted row.version.id 0 h₀.db := by
    rw [hempty]
    exact ⟨nofun, fun _ => rfl⟩
  have hleads : (lts dep).Times (LeadsTo row.version.id) n h₀ ls h :=
    ht.congr (I := Sound) (fun _ _ _ => sound_step) (sound_start hstart) fun _ _ _ _ hi hs hr =>
      downloads_leadsTo hi hs hr hrow
  exact (counted_run hnone hleads).count row.version (mem_joined.mp hrow).2.1 rfl

/-! ## Traces -/

def downloading : Lbl := .service (.call ⟨{}, .download "alice" "mnist" "1.0", fun _ => ""⟩)

/-- Published, and downloaded twice. -/
def downloadedTwice : Hub := after unverified blank (Policy.publishing ++ [downloading, downloading])

theorem counted_twice : ∃ row ∈ joined downloadedTwice.db,
    (lts unverified).Times (Downloads unverified row.handle row.model.slug row.version.version) 2 blank
      (Policy.publishing ++ [downloading, downloading]) downloadedTwice := by
  have hcount : ∃ row ∈ joined downloadedTwice.db, row.version.downloadCount = 2 := by decide +kernel
  obtain ⟨row, hrow, htwo⟩ := hcount
  have hrun : (lts unverified).Run blank (Policy.publishing ++ [downloading, downloading]) downloadedTwice :=
    run_after _ _ _
  obtain ⟨n, hn⟩ := hrun.times (Downloads unverified row.handle row.model.slug row.version.version)
  have hsame := downloads_counted unverified blank downloadedTwice _ rfl row hrow n hn
  rw [htwo] at hsame
  exact ⟨row, hrow, hsame ▸ hn⟩

end SpikeHub.L5.Counting
