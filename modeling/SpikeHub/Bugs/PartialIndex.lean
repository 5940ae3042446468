import SpikeHub.L5Runs.Stocking

/-!
# The index stops at a thousand versions

Behaviour (hub_api/routes/models.py:22-39): `catalog_index` renders what
`published` returns for `limit=1000`, the newest thousand, and there is no
second page.

What the code says (hub_api/routes/models.py:26-30): "Return the whole
published namespace in the toolkit's schema. Served as one document because
that is what the client caches and then loads offline".

Counterexample: 1001 published versions of a public model. The document has
1000 entries.

When it does hold: exactly when at most 1000 versions are public
(`complete_iff`). What is listed is public either way (`entryOf_public`).
-/
namespace SpikeHub.Bugs.PartialIndex

open SpikeHub.Core SpikeHub.L1 SpikeHub.L4.Auth SpikeHub.L4.Catalog SpikeHub.L4.Routes
open SpikeHub.L5.Interleave (Hub)
open SpikeHub.L5.Requests (serve)
open SpikeHub.L5.Service
open SpikeHub.L5.Stocking (spacious stocked)

/-- The entry is rendered from the version, its model and its owner. -/
def EntryOf (db : Db) (base : String) (v : ModelVersion) (e : Entry) : Prop :=
  ∃ r ∈ joined db, r.version = v ∧ entryFor r base = e

/-- An entry for every public version, and none for any other. -/
structure Lists (db : Db) (base : String) (entries : List Entry) : Prop where
  only : ∀ e ∈ entries, ∃ v ∈ db.versions, EntryOf db base v e
  every : ∀ v ∈ db.versions, (∃ e ∈ entries, EntryOf db base v e) ↔ v ∈ publicVersions db

/-- Whoever asks for the index gets all of it. -/
def Complete (dep : Deployment) (h : Hub) : Prop :=
  ∀ req secret, ∃ doc, (serve dep ⟨req, .catalogIndex, secret⟩ h).1 = .ok (.index doc) ∧
    Lists h.db dep.config.artifactPublicBase doc.entries

variable {dep : Deployment} {h : Hub} {db : Db} {base : String} {v : ModelVersion} {r : PublishedRow}

/-- An entry is of one version. -/
theorem entryOf_iff (hi : Sound h) (hr : r ∈ joined h.db) :
    EntryOf h.db base v (entryFor r base) ↔ r.version = v := by
  constructor
  · rintro ⟨r', hr', rfl, he⟩
    rw [entryFor_inj hr' hr hi.slash he]
  · intro hv
    exact ⟨r, hr, hv, rfl⟩

/-- An entry of the index is of a public version. -/
theorem entryOf_public (hi : Sound h) (hr : r ∈ newest h.db 1000)
    (he : EntryOf h.db base v (entryFor r base)) : v ∈ publicVersions h.db := by
  have hvisible := newest_visible hr
  rw [← (entryOf_iff hi (mem_visibleRows.mp hvisible).1).mp he]
  exact visible_version hvisible

/-- Few enough, they are all in it. -/
theorem lists_of_few (hi : Sound h) (hfew : (publicVersions h.db).length ≤ 1000) :
    Lists h.db base ((newest h.db 1000).map (entryFor · base)) where
  only e he := by
    obtain ⟨r, hr, rfl⟩ := List.mem_map.mp he
    have hjoined := (mem_visibleRows.mp (newest_visible hr)).1
    exact ⟨r.version, (mem_joined.mp hjoined).2.1, r, hjoined, rfl, rfl⟩
  every v _ := by
    constructor
    · rintro ⟨e, he, hentry⟩
      obtain ⟨r, hr, rfl⟩ := List.mem_map.mp he
      exact entryOf_public hi hr hentry
    · intro hv
      obtain ⟨r, hr, rfl⟩ := exists_visible hi.owners hv
      have hlimit : (visibleRows h.db).length ≤ 1000 := by rwa [length_visibleRows hi.owners]
      exact ⟨_, List.mem_map_of_mem (newest_all hlimit hr), r, (mem_visibleRows.mp hr).1, rfl, rfl⟩

/-- Every public version takes an entry of its own, and there are a thousand. -/
theorem few_of_lists (hi : Sound h) (hl : Lists h.db base ((newest h.db 1000).map (entryFor · base))) :
    (publicVersions h.db).length ≤ 1000 := by
  have hnodup : ((visibleRows h.db).map (entryFor · base)).Nodup := by
    refine (visibleRows_nodup h.db).map_on fun a ha b hb he => ?_
    exact entryFor_inj (mem_visibleRows.mp ha).1 (mem_visibleRows.mp hb).1 hi.slash he
  have hsub : (visibleRows h.db).map (entryFor · base) ⊆ (newest h.db 1000).map (entryFor · base) := by
    intro e he
    obtain ⟨r, hr, rfl⟩ := List.mem_map.mp he
    have hjoined := (mem_visibleRows.mp hr).1
    obtain ⟨e', he', hentry⟩ := (hl.every r.version (mem_joined.mp hjoined).2.1).mpr (visible_version hr)
    obtain ⟨r', hr', hversion, rfl⟩ := hentry
    rwa [← version_unique hr' hjoined hversion]
  calc (publicVersions h.db).length
      = ((visibleRows h.db).map (entryFor · base)).length := by
        rw [List.length_map, length_visibleRows hi.owners]
    _ ≤ ((newest h.db 1000).map (entryFor · base)).length := (hnodup.subperm hsub).length_le
    _ ≤ 1000 := by
        rw [List.length_map]
        exact length_newest_le h.db 1000

theorem few_of_complete (hi : Sound h) (hc : Complete dep h) : (publicVersions h.db).length ≤ 1000 := by
  obtain ⟨doc, hserve, hlists⟩ := hc {} fun _ => ""
  rw [serve_catalogIndex, Except.ok.injEq, Reply.index.injEq] at hserve
  subst hserve
  exact few_of_lists hi hlists

/-- **Complete up to a thousand**: of any state of any run. -/
theorem complete_iff (hr : (lts dep).Reachable h) :
    Complete dep h ↔ (publicVersions h.db).length ≤ 1000 := by
  have hi := sound_reachable hr
  constructor
  · exact few_of_complete hi
  · intro hfew req secret
    exact ⟨_, serve_catalogIndex dep h req secret, lists_of_few hi hfew⟩

/-- A thousand versions are all listed. -/
theorem complete_thousand : ∃ h, (publicVersions h.db).length = 1000 ∧ Complete spacious h := by
  obtain ⟨h, hs⟩ := stocked 1000 (by decide)
  exact ⟨h, hs.length_public, (complete_iff hs.reachable).mpr (Nat.le_of_eq hs.length_public)⟩

theorem not_complete : ¬ ∀ h, (lts spacious).Reachable h → Complete spacious h := by
  intro hall
  obtain ⟨h, hs⟩ := stocked 1001 (by decide)
  have hfew := few_of_complete (sound_reachable hs.reachable) (hall h hs.reachable)
  rw [hs.length_public] at hfew
  exact absurd hfew (by decide)

end SpikeHub.Bugs.PartialIndex
