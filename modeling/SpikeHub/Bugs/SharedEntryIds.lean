import SpikeHub.L5Runs.Stocking

/-!
# Versions of a model share an id in the index

Behaviour (hub_api/catalog/index.py:46-64): an entry is rendered for every
version `published` returns, and its id is `entry_id(handle, model.slug)`, which
the versions of a model have in common.

What the code says (hub_api/catalog/names.py:3-6): "A community entry is
`@handle/slug`, and the `@` is what keeps the two unambiguous in a list, a URL,
and a command-line argument". The page of a model shows its latest version
only (hub_api/routes/models.py:82-96).

Counterexample: two published versions of one model. The document has two
entries, of one id.

When it does hold: exactly when no model has two versions among the thousand
the index takes (`identified_iff`). Entries of different models never share an
id (`entryId_eq_iff`), nor an id with a curated entry (`entryId_ne`).
-/
namespace SpikeHub.Bugs.SharedEntryIds

open SpikeHub.Core SpikeHub.L1 SpikeHub.L4.Auth SpikeHub.L4.Catalog SpikeHub.L4.Routes SpikeHub.L4.Uploads
open SpikeHub.L5.Catalogue (abcIntent unverified uploading)
open SpikeHub.L5.Interleave (Hub)
open SpikeHub.L5.Requests (serve)
open SpikeHub.L5.Service
open SpikeHub.L5.Stocking (Stocked spacious stocked)

/-- Ids name entries, and no curated one: `start` is not a handle's. -/
structure Identifies (doc : Document) : Prop where
  distinct : (doc.entries.map fun e => e.id).Nodup
  apart : ∀ e ∈ doc.entries, ∀ start name : String, start.toList.head? ≠ some '@' →
    e.id ≠ start ++ "/" ++ name

/-- Whoever asks for the index can tell its entries apart. -/
def Identified (dep : Deployment) (h : Hub) : Prop :=
  ∀ req secret, ∃ doc, (serve dep ⟨req, .catalogIndex, secret⟩ h).1 = .ok (.index doc) ∧ Identifies doc

/-- Of each model one version at most, among the thousand newest. -/
def OneEach (db : Db) : Prop :=
  ∀ a ∈ newest db 1000, ∀ b ∈ newest db 1000, a.model.id = b.model.id → a = b

variable {dep : Deployment} {h : Hub} {db : Db} {base : String} {r : PublishedRow} {n : Nat}

theorem newest_joined (hr : r ∈ newest db n) : r ∈ joined db := (mem_visibleRows.mp (newest_visible hr)).1

/-- A community id starts with `@`. -/
theorem entryId_ne {handle slug start name : String} (hstart : start.toList.head? ≠ some '@') :
    entryId handle slug ≠ start ++ "/" ++ name := by
  intro he
  have hchars := congrArg String.toList he
  rw [entryId_toList, String.toList_append, String.toList_append] at hchars
  cases hs : start.toList with
  | nil =>
    rw [hs] at hchars
    exact absurd (List.cons.inj hchars).1 (by decide)
  | cons c cs =>
    rw [hs] at hchars hstart
    exact hstart (congrArg some (List.cons.inj hchars).1.symm)

/-- The ids are distinct when the models are. -/
theorem ids_nodup_iff (hi : Sound h) :
    (((newest h.db 1000).map (entryFor · base)).map fun e => e.id).Nodup ↔ OneEach h.db := by
  rw [List.map_map, List.nodup_map_iff_inj_on (newest_nodup h.db 1000)]
  constructor
  · intro hinj a ha b hb hid
    have hma := (mem_joined.mp (newest_joined ha)).1
    have hmb := (mem_joined.mp (newest_joined hb)).1
    have hmodel : a.model = b.model := h.db.models.eq_of_clash hma hmb (.inl hid)
    exact hinj a ha b hb ((entryId_eq_iff (newest_joined ha) (newest_joined hb) hi.slash).mpr hmodel)
  · intro hone a ha b hb hid
    have hmodel := (entryId_eq_iff (newest_joined ha) (newest_joined hb) hi.slash).mp hid
    exact hone a ha b hb (congrArg HubModel.id hmodel)

theorem identifies_iff (hi : Sound h) :
    Identifies (document ((newest h.db 1000).map (entryFor · base))) ↔ OneEach h.db := by
  constructor
  · intro hd
    exact (ids_nodup_iff hi).mp hd.distinct
  · intro hone
    refine ⟨(ids_nodup_iff hi).mpr hone, fun e he start name hstart => ?_⟩
    obtain ⟨r, -, rfl⟩ := List.mem_map.mp he
    exact entryId_ne hstart

theorem oneEach_of_identified (hi : Sound h) (hd : Identified dep h) : OneEach h.db := by
  obtain ⟨doc, hserve, hdoc⟩ := hd {} fun _ => ""
  rw [serve_catalogIndex, Except.ok.injEq, Reply.index.injEq] at hserve
  subst hserve
  exact (identifies_iff hi).mp hdoc

/-- **Ids name entries** as long as no model has two in the list. -/
theorem identified_iff (hr : (lts dep).Reachable h) : Identified dep h ↔ OneEach h.db := by
  have hi := sound_reachable hr
  constructor
  · exact oneEach_of_identified hi
  · intro hone req secret
    exact ⟨_, serve_catalogIndex dep h req secret, (identifies_iff hi).mpr hone⟩

/-! ## Traces -/

/-- The same bytes, for another model of hers. -/
def digitsIntent : UploadIntent := ⟨{ abcIntent.request with slug := "digits" }, abcIntent.positive⟩

/-- Alice has published a version of each. -/
def twoModels : Hub :=
  after unverified signedUp ((uploading abcIntent 8 ++ uploading digitsIntent 26).map .service)

theorem twoModels_reachable : (lts unverified).Reachable twoModels := reachable_after _

/-- Versions of two models have ids of their own. -/
theorem identified_two : (visibleRows twoModels.db).map (fun r => r.model.slug) = ["mnist", "digits"] ∧
    Identified unverified twoModels := by
  have hslugs : (visibleRows twoModels.db).map (fun r => r.model.slug) = ["mnist", "digits"] := by
    decide +kernel
  have hids : ((visibleRows twoModels.db).map fun r => r.model.id).Nodup := by decide +kernel
  refine ⟨hslugs, (identified_iff twoModels_reachable).mpr fun a ha b hb hid => ?_⟩
  exact List.inj_on_of_nodup_map hids (newest_visible ha) (newest_visible hb) hid

/-- The versions on the shelf are of one model. -/
theorem Stocked.model_eq (hs : Stocked n h) {a b : PublishedRow} (ha : a ∈ joined h.db)
    (hb : b ∈ joined h.db) : a.model = b.model := by
  have hma := (mem_joined.mp ha).1
  have hmb := (mem_joined.mp hb).1
  obtain ⟨-, howna, hsluga, -⟩ := hs.shelf.models _ hma
  obtain ⟨-, hownb, hslugb, -⟩ := hs.shelf.models _ hmb
  exact h.db.models.eq_of_clash hma hmb (.inr ⟨howna.trans hownb.symm, hsluga.trans hslugb.symm⟩)

theorem not_identified : ¬ ∀ h, (lts spacious).Reachable h → Identified spacious h := by
  intro hall
  obtain ⟨h, hs⟩ := stocked 2 (by decide)
  have hi := sound_reachable hs.reachable
  have hone := oneEach_of_identified hi (hall h hs.reachable)
  have hfew : (visibleRows h.db).length = 2 := (length_visibleRows hi.owners).trans hs.length_public
  obtain ⟨a, b, hrows⟩ := List.length_eq_two.mp hfew
  have hnodup := visibleRows_nodup h.db
  have ha : a ∈ newest h.db 1000 := newest_all (by rw [hfew]; decide) (by rw [hrows]; simp)
  have hb : b ∈ newest h.db 1000 := newest_all (by rw [hfew]; decide) (by rw [hrows]; simp)
  have hmodel := Stocked.model_eq hs (newest_joined ha) (newest_joined hb)
  have hab := hone a ha b hb (congrArg HubModel.id hmodel)
  rw [hrows, hab] at hnodup
  simp at hnodup

end SpikeHub.Bugs.SharedEntryIds
