import SpikeHub.L4Catalog.Names
import SpikeHub.L4Routes.Uploading

/-!
# The body of an upload

Model of hub_api/schemas/uploads.py: the fields of an upload as they are sent
(`IntentBody`), the limits they are declared with (`Bounded`), and the request
they come to (`toRequest`). `submit` is the route with such a body, which is
`create` with its request, or a refusal that leaves nothing (`submit_request`,
`submit_refused`).

A request that came from a body and was granted is in normal form: sent again
as it is, it is let through and comes to itself (`normal_of_body`). What
lower-cases to a digest has as many characters as the digest, so of the two
texts `isSha256` takes only the one of 64 fits in the field (`digest_of_body`).
-/
namespace SpikeHub.L4.Routes

open SpikeHub.Core SpikeHub.L1 SpikeHub.L2 SpikeHub.L4.Auth SpikeHub.L4.Uploads SpikeHub.L4.Catalog

/-- mirrors hub_api/schemas/uploads.py:9-20 -/
structure IntentBody where
  name : String
  version : String
  sha256 : String
  sizeBytes : Int
  license : String
  dataset : String := ""
  datasetLicense : String := ""
  datasetAttribution : String := ""
  summary : String := ""
deriving DecidableEq, Repr

namespace IntentBody

/-- The lengths of the fields, and the size above zero. -/
structure Bounded (b : IntentBody) : Prop where
  name : b.name.length ≤ 64
  version : b.version.length ≤ 64
  sha256 : b.sha256.length = 64
  sizeBytes : 0 < b.sizeBytes
  license : b.license.length ≤ 64
  dataset : b.dataset.length ≤ 64
  datasetLicense : b.datasetLicense.length ≤ 64
  datasetAttribution : b.datasetAttribution.length ≤ 2000
  summary : b.summary.length ≤ 200

/-- `validate(self.dataset_license, "dataset_license") if self.dataset_license else ""` -/
def checkedDatasetLicense (p : Platform) (raw : String) : Except Raised String :=
  if raw = "" then .ok "" else validate p raw "dataset_license"

/-- mirrors hub_api/schemas/uploads.py:22-42 -/
def toRequest (p : Platform) (b : IntentBody) : Except Raised UploadRequest := do
  let slug ← validateSlug p b.name
  let version ← validateVersion b.version
  let license ← validate p b.license "license"
  let datasetLicense ← checkedDatasetLicense p b.datasetLicense
  return {
    slug := slug
    version := version
    sha256 := p.lower b.sha256
    sizeBytes := b.sizeBytes
    license := license
    dataset := b.dataset
    datasetLicense := datasetLicense
    datasetAttribution := b.datasetAttribution
    summary := b.summary }

/-- A request as a body of its own. -/
def ofRequest (r : UploadRequest) : IntentBody where
  name := r.slug
  version := r.version
  sha256 := r.sha256
  sizeBytes := r.sizeBytes
  license := r.license
  dataset := r.dataset
  datasetLicense := r.datasetLicense
  datasetAttribution := r.datasetAttribution
  summary := r.summary

/-- Field by field, what the body was read as. -/
structure ReadAs (p : Platform) (b : IntentBody) (r : UploadRequest) : Prop where
  slug : validateSlug p b.name = .ok r.slug
  version : validateVersion b.version = .ok r.version
  sha256 : r.sha256 = p.lower b.sha256
  sizeBytes : r.sizeBytes = b.sizeBytes
  license : validate p b.license "license" = .ok r.license
  dataset : r.dataset = b.dataset
  datasetLicense : checkedDatasetLicense p b.datasetLicense = .ok r.datasetLicense
  datasetAttribution : r.datasetAttribution = b.datasetAttribution
  summary : r.summary = b.summary

end IntentBody

/-- Let through by its body model, and read as the request. -/
structure Submits (p : Platform) (b : IntentBody) (request : UploadRequest) : Prop where
  bounded : b.Bounded
  request : b.toRequest p = .ok request

/-- Sent again as it is, a request is let through and comes to itself. -/
def Normal (p : Platform) (request : UploadRequest) : Prop := Submits p (.ofRequest request) request

section
variable {dep : Deployment} (now : Time) (r : Rand) (req : Presented)

/-- mirrors hub_api/routes/uploads.py:30-48 -/
def submit (dep : Deployment) (body : IntentBody) : HubRoute Reply := committing do
  let user ← writeUser dep.platform now dep.config req
  let request ← .orRaise (body.toRequest dep.platform)
  let slot ← reserve now dep.free ⟨r.base, r.base + 1⟩ user request dep.config
  return .slot slot

end

variable {dep : Deployment} {now : Time} {r : Rand} {req : Presented} {db : Db} {fs : Volume}
  {p : Platform} {b : IntentBody} {request : UploadRequest} {raw name field value : String} {c : Char}
  {e : Raised}

/-! ## What a body comes to -/

namespace IntentBody

theorem toRequest_ok : b.toRequest p = .ok request ↔ b.ReadAs p request := by
  unfold toRequest
  constructor
  · intro h
    cases hslug : validateSlug p b.name with
    | error e => rw [hslug] at h; cases h
    | ok slug =>
      cases hversion : validateVersion b.version with
      | error e => rw [hslug, hversion] at h; cases h
      | ok version =>
        cases hlicense : validate p b.license "license" with
        | error e => rw [hslug, hversion, hlicense] at h; cases h
        | ok license =>
          cases hdataset : checkedDatasetLicense p b.datasetLicense with
          | error e => rw [hslug, hversion, hlicense, hdataset] at h; cases h
          | ok datasetLicense =>
            rw [hslug, hversion, hlicense, hdataset] at h
            cases h
            exact ⟨hslug, hversion, rfl, rfl, hlicense, rfl, hdataset, rfl, rfl⟩
  · intro h
    rw [h.slug, h.version, h.license, h.datasetLicense]
    cases request
    obtain ⟨-, -, rfl, rfl, -, rfl, -, rfl, rfl⟩ := h
    rfl

end IntentBody

theorem Submits.positive (h : Submits p b request) : 0 < request.sizeBytes := by
  rw [(IntentBody.toRequest_ok.mp h.request).sizeBytes]
  exact h.bounded.sizeBytes

/-- The version is read on its own. -/
theorem Submits.withVersion (h : Submits p b request) (hlength : raw.length ≤ 64)
    (hversion : validateVersion raw = .ok name) :
    Submits p { b with version := raw } { request with version := name } := by
  have hread := IntentBody.toRequest_ok.mp h.request
  refine ⟨{ h.bounded with version := hlength }, IntentBody.toRequest_ok.mpr ?_⟩
  exact { hread with version := hversion }

/-! ## The route -/

/-- A body that comes to a request is that request's upload. -/
theorem submit_request (h : Submits dep.platform b request) :
    dbSession (submit now r req dep b) db fs =
      dbSession (create dep now r req ⟨request, h.positive⟩) db fs := by
  unfold submit create
  rw [h.request]
  rfl

/-- A body that comes to none is refused, and leaves nothing. -/
theorem submit_refused (h : b.toRequest dep.platform = .error e) :
    ∃ e', dbSession (submit now r req dep b) db fs = (.error e', db, fs) := by
  have hworld : ((writeUser dep.platform now dep.config req).exec db fs).2.2 = fs := writeUser_world db fs
  unfold submit
  rw [h, dbSession_commit, Work.exec_bind]
  rcases hx : (writeUser dep.platform now dep.config req).exec db fs with ⟨res, db', fs'⟩
  rw [hx] at hworld
  obtain rfl : fs' = fs := hworld
  cases res with
  | ok user => exact ⟨e, rfl⟩
  | error e' => exact ⟨e', rfl⟩

/-! ## Normal forms -/

theorem validateSlug_again (hl : p.LawfulAscii) (hb : p.LawfulBreaks) (h : validateSlug p raw = .ok name) :
    validateSlug p name = .ok name ∧ name.length ≤ 64 := by
  obtain ⟨-, hslug⟩ := (validateSlug_ok (lower_strip_getLast hb raw)).mp h
  have hsame : p.lower (PyStr.strip name) = name := by
    rw [strip_of_slugChars hslug.spelled.chars, lower_of_slugChars hl hslug.spelled.chars]
  refine ⟨(validateSlug_ok (lower_strip_getLast hb name)).mpr ⟨hsame.symm, hslug⟩, ?_⟩
  rw [← String.length_toList]
  exact hslug.spelled.short

theorem validateVersion_again (h : validateVersion raw = .ok name) :
    validateVersion name = .ok name ∧ name.length ≤ 64 := by
  obtain ⟨-, hversion⟩ := validateVersion_ok.mp h
  refine ⟨validateVersion_ok.mpr ⟨(strip_of_versionChars hversion.chars).symm, hversion⟩, ?_⟩
  rw [← String.length_toList]
  exact hversion.short

theorem validate_length (hl : p.LawfulAscii) (h : validate p raw field = .ok value) :
    value.length ≤ raw.length := by
  rw [(validate_again hl h).1]
  exact PyStr.strip_length raw

/-- No declaration stays none. -/
theorem checkedDatasetLicense_again (hl : p.LawfulAscii)
    (h : IntentBody.checkedDatasetLicense p raw = .ok value) :
    IntentBody.checkedDatasetLicense p value = .ok value ∧ value.length ≤ raw.length := by
  unfold IntentBody.checkedDatasetLicense at h ⊢
  split at h
  · cases h
    exact ⟨rfl, Nat.zero_le _⟩
  · refine ⟨?_, validate_length hl h⟩
    split
    · rename_i hempty
      rw [hempty]
    · exact (validate_again hl h).2

/-- The digits of a digest, and a line break, are read off ASCII of the same length. -/
theorem length_of_lower (hl : p.LawfulAscii) (hx : p.LawfulHex) (h : isSha256 (p.lower raw) = true) :
    (p.lower raw).length = raw.length := by
  obtain ⟨digits, eol, hchars, -, hhex, heol⟩ := digits_of_isSha256 h
  have hascii : ∀ c ∈ raw.toList, c.toNat < 128 := by
    refine hx.ascii raw fun c hc => ?_
    rw [hchars, List.mem_append] at hc
    rcases hc with hc | hc
    · have hdigit := hhex c hc
      simp only [Sha256.isHex, Bool.or_eq_true, Bool.and_eq_true, decide_eq_true_eq] at hdigit
      exact hdigit.elim (fun hd => .inr (.inl hd)) .inl
    · rcases heol with rfl | rfl
      · cases hc
      · exact .inr (.inr (List.mem_singleton.mp hc))
  rw [hl.lowered raw hascii, String.length_ofList, List.length_map, String.length_toList]

theorem digest_of_body (hl : p.LawfulAscii) (hx : p.LawfulHex) (h : Submits p b request)
    (hdigest : isSha256 request.sha256 = true) : IsDigest request.sha256 := by
  have hlower := (IntentBody.toRequest_ok.mp h.request).sha256
  have hlength : request.sha256.length = 64 := by
    rw [hlower] at hdigest ⊢
    rw [length_of_lower hl hx hdigest, h.bounded.sha256]
  exact isDigest_of_length hdigest (Nat.le_of_eq hlength)

theorem alphanumeric_of_hex (h : Sha256.isHex c = true) : alphanumeric c = true := by
  simp only [Sha256.isHex, alphanumeric, Bool.or_eq_true, Bool.and_eq_true, decide_eq_true_eq] at h ⊢
  rcases h with hdigit | ⟨hlow, hhigh⟩
  · exact .inr hdigit
  · exact .inl ⟨hlow, Char.le_trans hhigh (by decide)⟩

/-- A digest has no capitals. -/
theorem lower_digest (hl : p.LawfulAscii) (h : IsDigest raw) : p.lower raw = raw :=
  lower_of_slugChars hl fun c hc => slugChar_of_alphanumeric (alphanumeric_of_hex (h.hex c hc))

/-- What was granted of a body is its own normal form. -/
theorem normal_of_body (hl : p.LawfulAscii) (hb : p.LawfulBreaks) (hx : p.LawfulHex)
    (h : Submits p b request) (hdigest : isSha256 request.sha256 = true) : Normal p request := by
  have hread := IntentBody.toRequest_ok.mp h.request
  have hplain := digest_of_body hl hx h hdigest
  obtain ⟨hslug, hslugLength⟩ := validateSlug_again hl hb hread.slug
  obtain ⟨hversion, hversionLength⟩ := validateVersion_again hread.version
  obtain ⟨hdataset, hdatasetLength⟩ := checkedDatasetLicense_again hl hread.datasetLicense
  refine ⟨⟨hslugLength, hversionLength, ?_, h.positive, ?_, ?_, ?_, ?_, ?_⟩, IntentBody.toRequest_ok.mpr ?_⟩
  · exact (String.length_toList).symm.trans hplain.length
  · exact Nat.le_trans (validate_length hl hread.license) h.bounded.license
  · exact (Nat.le_of_eq (congrArg String.length hread.dataset)).trans h.bounded.dataset
  · exact Nat.le_trans hdatasetLength h.bounded.datasetLicense
  · exact (Nat.le_of_eq (congrArg String.length hread.datasetAttribution)).trans h.bounded.datasetAttribution
  · exact (Nat.le_of_eq (congrArg String.length hread.summary)).trans h.bounded.summary
  · exact ⟨hslug, hversion, (lower_digest hl hplain).symm, rfl, (validate_again hl hread.license).2, rfl,
      hdataset, rfl, rfl⟩

end SpikeHub.L4.Routes
