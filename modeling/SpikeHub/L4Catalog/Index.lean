import SpikeHub.L4Catalog.Queries

/-!
# What the catalogue shows of a version

Models of hub_api/catalog/index.py, hub_api/catalog/trust.py and the listing
shapes of hub_api/routes/models.py: one published row, rendered as an entry of
the index, as a row of the listing and as a model's page.

A report is what `_publish_unchecked` writes: it says `passed` and `reason` and
nothing else, so the keys the index looks up besides are absent and their
defaults stand. The JSON text of a time is not rendered.

An entry has the id of its model (`entryId_eq_iff`), and its notes tell the
versions of the model apart (`entryFor_inj`).
-/
namespace SpikeHub.L4.Catalog

open SpikeHub.Core SpikeHub.L1

/-- mirrors hub_api/catalog/names.py:104-106 -/
def entryId (handle slug : String) : String := s!"@{handle}/{slug}"

/-- `{base.rstrip('/')}/{object_key}` -/
def artifactUrl (base : String) (v : ModelVersion) : String :=
  PyStr.rstrip (· = '/') base ++ "/" ++ v.objectKey

def machineChecked : String := "machine-checked"
def unchecked : String := "unchecked"

/-- mirrors hub_api/catalog/trust.py:26-31 -/
def labelFor (v : ModelVersion) : String :=
  if v.state = .published ∧ (v.verification.bind Verification.passed) = some true then machineChecked
  else unchecked

def schemaVersion : Nat := 1
def defaultKind : String := "bundle"

/-- `text or None` -/
def orNone (text : String) : Option String := if text = "" then none else some text

/-- mirrors hub_api/catalog/index.py:80-90 -/
def notes (m : HubModel) (v : ModelVersion) : String :=
  String.intercalate " " <|
    [s!"Community upload, version {v.version}."] ++ (orNone m.description).toList ++
      [s!"Checks: {labelFor v}."]

/-- The fields the curated schema requires of every entry. -/
structure CoreFields where
  id : String
  name : String
  framework : String
  kind : String
  source : String
  license : String
  notes : String
  url : String
  sizeBytes : Int
deriving DecidableEq, Repr

/-- mirrors hub_api/catalog/index.py:46-64 -/
def core (r : PublishedRow) (downloadBase : String) : CoreFields where
  id := entryId r.handle r.model.slug
  name := (orNone r.model.summary).getD r.model.slug
  framework := "spikeforge"
  kind := defaultKind
  source := "community"
  license := r.model.license
  notes := notes r.model r.version
  url := artifactUrl downloadBase r.version
  sizeBytes := r.version.sizeBytes

/-- The dataset declarations. -/
structure Provenance where
  dataset : Option String
  datasetLicense : Option String
  datasetAttribution : Option String
deriving DecidableEq, Repr

/-- mirrors hub_api/catalog/index.py:67-77 -/
def provenance (m : HubModel) : Provenance where
  dataset := orNone m.dataset
  datasetLicense := orNone m.datasetLicense
  datasetAttribution := orNone m.datasetAttribution

structure Entry extends CoreFields, Provenance where
  topology : Option String
  inputShape : Option (List Int)
deriving DecidableEq, Repr

/-- mirrors hub_api/catalog/index.py:31-43 -/
def entryFor (r : PublishedRow) (downloadBase : String) : Entry where
  toCoreFields := core r downloadBase
  toProvenance := provenance r.model
  topology := none
  inputShape := none

structure Document where
  version : Nat
  entries : List Entry
deriving DecidableEq, Repr

/-- mirrors hub_api/catalog/index.py:93-95 -/
def document (entries : List Entry) : Document := ⟨schemaVersion, entries⟩

structure Summary where
  id : String
  owner : String
  name : String
  version : String
  summary : String
  license : String
  dataset : String
  sizeBytes : Int
  sha256 : String
  trust : String
  publishedAt : Option Time
deriving DecidableEq, Repr

/-- mirrors hub_api/routes/models.py:59-80 -/
def summarise (r : PublishedRow) : Summary where
  id := entryId r.handle r.model.slug
  owner := r.handle
  name := r.model.slug
  version := r.version.version
  summary := r.model.summary
  license := r.model.license
  dataset := r.model.dataset
  sizeBytes := r.version.sizeBytes
  sha256 := r.version.sha256
  trust := labelFor r.version
  publishedAt := r.version.publishedAt

structure Page extends Summary where
  description : String
  datasetLicense : String
  datasetAttribution : String
  verification : Option Verification
deriving DecidableEq, Repr

/-- The body of `show_model`.
mirrors hub_api/routes/models.py:82-96 -/
def page (r : PublishedRow) : Page where
  toSummary := summarise r
  description := r.model.description
  datasetLicense := r.model.datasetLicense
  datasetAttribution := r.model.datasetAttribution
  verification := r.version.verification

/-! ## What an entry says of its row -/

variable {db : Db} {a b : PublishedRow} {handle handle' slug slug' base : String} {m : HubModel}
  {v w : ModelVersion}

theorem entryId_toList (handle slug : String) :
    (entryId handle slug).toList = '@' :: (handle.toList ++ '/' :: slug.toList) := by
  unfold entryId
  simp [toString]

/-- The first slash is where the handle ends. -/
theorem entryId_inj (hh : '/' ∉ handle.toList) (hh' : '/' ∉ handle'.toList)
    (h : entryId handle slug = entryId handle' slug') : handle = handle' ∧ slug = slug' := by
  have hchars := congrArg String.toList h
  rw [entryId_toList, entryId_toList] at hchars
  obtain ⟨hfront, hback⟩ := PyStr.split_first hh hh' (List.cons.inj hchars).2
  exact ⟨String.toList_inj.mp hfront, String.toList_inj.mp hback⟩

/-- `parts[1]`, where there is one, and the space after it. -/
def described (m : HubModel) : List Char :=
  match orNone m.description with
  | none => []
  | some text => text.toList ++ [' ']

theorem notes_toList (m : HubModel) (v : ModelVersion) :
    (notes m v).toList = "Community upload, version ".toList ++ v.version.toList ++
      (". ".toList ++ described m ++ "Checks: ".toList) ++ (labelFor v ++ ".").toList := by
  unfold notes described
  cases h : orNone m.description with
  | none => simp [toString, String.intercalate_cons_cons]
  | some text => simp [toString, String.intercalate_cons_cons]

theorem labelFor_cases (v : ModelVersion) : labelFor v = machineChecked ∨ labelFor v = unchecked := by
  unfold labelFor
  split
  · exact .inl rfl
  · exact .inr rfl

/-- No text ends with both labels. -/
theorem labelFor_inj {xs ys : List Char}
    (h : xs ++ (labelFor v ++ ".").toList = ys ++ (labelFor w ++ ".").toList) : labelFor v = labelFor w := by
  have hapart : ∀ {xs ys : List Char},
      xs ++ (machineChecked ++ ".").toList ≠ ys ++ (unchecked ++ ".").toList := by
    intro xs ys he
    have hchecked : (machineChecked ++ ".").toList = "machine".toList ++ "-checked.".toList := by decide
    have hunchecked : (unchecked ++ ".").toList = "u".toList ++ "nchecked.".toList := by decide
    rw [hchecked, hunchecked, ← List.append_assoc, ← List.append_assoc] at he
    exact absurd (List.append_inj_right' he (by decide)) (by decide)
  rcases labelFor_cases v with hv | hv
  · rcases labelFor_cases w with hw | hw
    · rw [hv, hw]
    · rw [hv, hw] at h
      exact absurd h hapart
  · rcases labelFor_cases w with hw | hw
    · rw [hv, hw] at h
      exact absurd h.symm hapart
    · rw [hv, hw]

/-- The notes of a model's versions tell them apart. -/
theorem notes_inj (h : notes m v = notes m w) : v.version = w.version := by
  have hchars := congrArg String.toList h
  rw [notes_toList, notes_toList] at hchars
  rw [labelFor_inj hchars] at hchars
  have hfront := List.append_cancel_right (List.append_cancel_right hchars)
  exact String.toList_inj.mp (List.append_cancel_left hfront)

/-- Two rows have one id when they are of one model. -/
theorem entryId_eq_iff (ha : a ∈ joined db) (hb : b ∈ joined db)
    (hhandles : ∀ u ∈ db.users, '/' ∉ u.handle.toList) :
    entryId a.handle a.model.slug = entryId b.handle b.model.slug ↔ a.model = b.model := by
  obtain ⟨hma, -, -, u, hu, howna, hua⟩ := mem_joined.mp ha
  obtain ⟨hmb, -, -, w, hw, hownb, hwb⟩ := mem_joined.mp hb
  constructor
  · intro h
    obtain ⟨hhandle, hslug⟩ := entryId_inj (hua ▸ hhandles u hu) (hwb ▸ hhandles w hw) h
    have huser : u = w := db.users.eq_of_clash hu hw (.inr (.inl (by rw [hua, hwb, hhandle])))
    exact db.models.eq_of_clash hma hmb (.inr ⟨by rw [← howna, ← hownb, huser], hslug⟩)
  · intro h
    have huser : u = w := db.users.eq_of_clash hu hw (.inl (by rw [howna, hownb, h]))
    rw [← hua, ← hwb, huser, h]

/-- An entry is of one row. -/
theorem entryFor_inj (ha : a ∈ joined db) (hb : b ∈ joined db)
    (hhandles : ∀ u ∈ db.users, '/' ∉ u.handle.toList) (h : entryFor a base = entryFor b base) : a = b := by
  have hcore : core a base = core b base := congrArg Entry.toCoreFields h
  have hmodel := (entryId_eq_iff ha hb hhandles).mp (congrArg CoreFields.id hcore)
  have hnotes : notes a.model a.version = notes b.model b.version := congrArg CoreFields.notes hcore
  rw [hmodel] at hnotes
  obtain ⟨hma, hva, hka, -⟩ := mem_joined.mp ha
  obtain ⟨hmb, hvb, hkb, -⟩ := mem_joined.mp hb
  have hkey : a.version.modelId = b.version.modelId := by rw [hka, hkb, hmodel]
  exact version_unique ha hb (db.versions.eq_of_clash hva hvb (.inr ⟨hkey, notes_inj hnotes⟩))

end SpikeHub.L4.Catalog
