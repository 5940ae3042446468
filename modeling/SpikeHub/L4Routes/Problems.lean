import SpikeHub.L4Routes.Bodies
import SpikeHub.L4Routes.OAuth

/-!
# Problem documents

Model of what a caller sees of a refusal: `HubError.problem` of
hub_api/errors.py and the handler of hub_api/app.py. The body is a `dict`, in
its order; `update` overwrites a member of the same name, which the machine
fields of a refusal never have (`Renders`).

What is raised and is no `HubError` is not rendered: the caller gets the
server's own answer (`Response.failed`). The provider routes raise more than
the others (`Fault`), of which only a `HubError` is rendered.
-/
namespace SpikeHub.L4.Routes

open SpikeHub.Core SpikeHub.L1 SpikeHub.L2 SpikeHub.L3 SpikeHub.L4.Auth SpikeHub.L4.Uploads

abbrev Members := List (String × Extra)

/-- `body[key] = value` -/
def setMember (key : String) (value : Extra) : Members → Members
  | [] => [(key, value)]
  | (k, v) :: rest => if k = key then (k, value) :: rest else (k, v) :: setMember key value rest

/-- `body.update(extra)` -/
def updateMembers (body extra : Members) : Members :=
  extra.foldl (fun body field => setMember field.1 field.2 body) body

/-- `code.replace("_", " ")` -/
def titleOf (code : String) : String :=
  String.ofList (code.toList.map fun c => if c = '_' then ' ' else c)

/-- The members every problem has. -/
def problemMembers (e : HubError) (path : String) : Members :=
  [("type", .str ("https://hub.spikeforge.net/errors/" ++ e.cls.code)), ("title", .str (titleOf e.cls.code)),
    ("status", .int e.cls.status), ("detail", .str e.detail), ("instance", .str path)]

/-- mirrors hub_api/errors.py:26-34 -/
def problem (e : HubError) (path : String) : Members := updateMembers (problemMembers e path) e.extra

inductive Response
  | reply (reply : Reply)
  | problem (status : Nat) (mediaType : String) (body : Members)
  | failed

/-- mirrors hub_api/app.py:52-62 -/
def renderProblem (path : String) : Raised → Response
  | .hub e => .problem e.cls.status "application/problem+json" (problem e path)
  | _ => .failed

def renderFault (path : String) : Fault → Response
  | .raised e => renderProblem path e
  | .runtimeError _ | .oauth2Error _ => .failed

/-- What a caller of any route sees, the provider's with the others. -/
def respondFault (path : String) : Except Fault Reply → Response
  | .ok reply => .reply reply
  | .error e => renderFault path e

/-! ## What is rendered -/

/-- The refusals that are about a limit. -/
def limits : ErrorClass → Bool
  | .quotaExceeded | .serviceUnavailable => true
  | _ => false

def memberNames : List String := ["type", "title", "status", "detail", "instance"]

/-- Where a refusal says what the limit was. -/
def limitNames : List String := ["limit", "limit_bytes", "floor_bytes"]

/-- The machine fields of a refusal stand beside the members, each once, and a
refusal that is about a limit says what it was. -/
structure Renders (e : HubError) : Prop where
  once : (e.extra.map Prod.fst).Nodup
  apart : ∀ k ∈ e.extra.map Prod.fst, k ∉ memberNames
  numbered : limits e.cls = true → ∃ k ∈ limitNames, ∃ n, (k, Extra.int n) ∈ e.extra

theorem setMember_new {key : String} {value : Extra} {body : Members} (h : key ∉ body.map Prod.fst) :
    setMember key value body = body ++ [(key, value)] := by
  induction body with
  | nil => rfl
  | cons field rest ih =>
    rw [List.map_cons, List.mem_cons, not_or] at h
    unfold setMember
    rw [if_neg (Ne.symm h.1), ih h.2]
    rfl

/-- Fields of other names are added in their order. -/
theorem updateMembers_apart {extra : Members} : ∀ {body : Members}, (extra.map Prod.fst).Nodup →
    (∀ k ∈ extra.map Prod.fst, k ∉ body.map Prod.fst) → updateMembers body extra = body ++ extra := by
  induction extra with
  | nil => exact fun _ _ => (List.append_nil _).symm
  | cons field rest ih =>
    intro body honce hapart
    rw [List.map_cons, List.nodup_cons] at honce
    have hnew : field.1 ∉ body.map Prod.fst := hapart _ List.mem_cons_self
    have hrest : ∀ k ∈ rest.map Prod.fst, k ∉ (body ++ [field]).map Prod.fst := by
      intro k hk hin
      rw [List.map_append, List.mem_append, List.map_singleton, List.mem_singleton] at hin
      rcases hin with hin | rfl
      · exact hapart k (List.mem_cons_of_mem _ hk) hin
      · exact honce.1 hk
    unfold updateMembers at ih ⊢
    rw [List.foldl_cons, setMember_new hnew, ih honce.2 hrest, List.append_assoc]
    rfl

theorem Renders.problem {e : HubError} (h : Renders e) (path : String) :
    problem e path = problemMembers e path ++ e.extra :=
  updateMembers_apart h.once h.apart

/-! ## What is raised -/

/-- A refusal, which renders. -/
def Proper (e : Raised) : Prop := ∃ refusal, e = .hub refusal ∧ Renders refusal

section
variable {α : Type} {e : Raised}

theorem proper_refuse {cls : ErrorClass} {detail : String} {extra : Members}
    (h : Renders ⟨cls, detail, extra⟩) (he : (refuse cls detail extra : Except Raised α) = .error e) :
    Proper e := by
  cases he
  exact ⟨_, rfl, h⟩

/-- A refusal with machine fields of these names. -/
theorem proper_fields {cls : ErrorClass} {detail : String} {extra : Members} (names : List String)
    (hnames : extra.map Prod.fst = names) (honce : names.Nodup) (hapart : ∀ k ∈ names, k ∉ memberNames)
    (hlimit : limits cls = true → ∃ k ∈ limitNames, ∃ n, (k, Extra.int n) ∈ extra)
    (he : (refuse cls detail extra : Except Raised α) = .error e) : Proper e := by
  subst hnames
  exact proper_refuse ⟨honce, hapart, hlimit⟩ he

/-- A refusal without machine fields, which is about no limit. -/
theorem proper_plain {cls : ErrorClass} {detail : String} (hcls : limits cls = false)
    (he : (refuse cls detail : Except Raised α) = .error e) : Proper e :=
  proper_fields [] rfl (by decide) (by decide) (fun hlimit => absurd hlimit (by rw [hcls]; decide)) he

theorem proper_refuseIf {cond : Prop} [Decidable cond] {c : Check} (hc : ∀ e, c = .error e → Proper e)
    (he : refuseIf cond c = .error e) : Proper e := by
  unfold refuseIf at he
  split at he
  · exact hc e he
  · cases he

/-- A refusal that says its limit first. -/
theorem proper_limit {cls : ErrorClass} {detail k : String} {n : Int} {extra : Members} (names : List String)
    (hk : k ∈ limitNames) (hnames : extra.map Prod.fst = names) (honce : (k :: names).Nodup)
    (hapart : ∀ k' ∈ k :: names, k' ∉ memberNames)
    (he : (refuse cls detail ((k, .int n) :: extra) : Except Raised α) = .error e) : Proper e :=
  proper_fields (k :: names) (by rw [List.map_cons, hnames]) honce hapart
    (fun _ => ⟨k, hk, n, List.mem_cons_self⟩) he

end

section
variable {p : Platform} {now : Time} {config : Settings} {db : Db} {user : User} {e : Raised}

theorem checkLive_proper {row : Token} (he : checkLive now row = .error e) : Proper e := by
  unfold checkLive at he
  split at he
  · exact proper_plain rfl he
  · split at he
    · exact proper_plain rfl he
    · cases he

theorem activeOwner_proper {row : Token} (he : activeOwner db row = .error e) : Proper e := by
  unfold activeOwner at he
  split at he
  · exact proper_plain rfl he
  · split at he
    · cases he
    · exact proper_plain rfl he

theorem usable_proper {presented : String} (he : usable p presented db = .error e) : Proper e := by
  unfold usable at he
  split at he
  · exact proper_plain rfl he
  · split at he
    · exact proper_plain rfl he
    · cases he

theorem checkStrength_proper {password : String} (he : Accounts.checkStrength p password = .error e) :
    Proper e := by
  unfold Accounts.checkStrength at he
  split at he
  · exact proper_plain rfl he
  · cases he

theorem checkUnregistered_proper {address : String} (he : Accounts.checkUnregistered p address db = .error e) :
    Proper e :=
  proper_refuseIf (fun _ => proper_plain rfl) he

theorem signIn_proper {email password : String} (he : Accounts.signIn p email password db = .error e) :
    Proper e := by
  unfold Accounts.signIn at he
  dsimp only at he
  split at he
  · split at he
    · cases he
    · exact proper_plain rfl he
  · exact proper_plain rfl he

theorem linkedOwner_proper {i : Identity} (he : Accounts.linkedOwner i db = .error e) : Proper e := by
  unfold Accounts.linkedOwner at he
  split at he
  · exact proper_plain rfl he
  · split at he
    · cases he
    · exact proper_plain rfl he

theorem checkAddressFree_proper {profile : OAuthProfile} (he : Accounts.checkAddressFree p profile db = .error e) :
    Proper e := by
  unfold Accounts.checkAddressFree at he
  split at he
  · exact proper_plain rfl he
  · exact proper_refuseIf (fun _ => proper_plain rfl) he

theorem checkScope_proper {scope : Scope} {granted : List Scope} (he : checkScope scope granted = .error e) :
    Proper e :=
  proper_refuseIf (fun _ => proper_fields ["required_scope"] rfl (by decide) (by decide) fun h => by cases h) he

theorem ownPat_proper {userId tokenId : Uuid} (he : ownPat userId tokenId db = .error e) : Proper e := by
  unfold ownPat at he
  split at he
  · cases he
  · exact proper_plain rfl he

theorem checkDeclaredLength_proper {declared : Bool} (he : checkDeclaredLength declared = .error e) :
    Proper e :=
  proper_refuseIf (fun _ => proper_plain rfl) he

theorem orNotFound_proper {detail : String} {found : Option L4.Catalog.PublishedRow}
    (he : orNotFound detail found = .error e) : Proper e := by
  unfold orNotFound at he
  split at he
  · cases he
  · exact proper_plain rfl he

/-! Uploads. -/

theorem validateSlug_proper {raw : String} (he : L4.Catalog.validateSlug p raw = .error e) : Proper e := by
  unfold L4.Catalog.validateSlug at he
  dsimp only at he
  split at he
  · exact proper_plain rfl he
  · cases he

theorem validateVersion_proper {raw : String} (he : L4.Catalog.validateVersion raw = .error e) : Proper e := by
  unfold L4.Catalog.validateVersion at he
  dsimp only at he
  split at he
  · exact proper_plain rfl he
  · cases he

theorem validate_proper {raw field : String} (he : L4.Catalog.validate p raw field = .error e) : Proper e := by
  unfold L4.Catalog.validate at he
  dsimp only at he
  split at he
  · cases he
  · split at he
    · exact proper_fields ["field"] rfl (by decide) (by decide) (fun h => by cases h) he
    · split at he
      · exact proper_fields ["field"] rfl (by decide) (by decide) (fun h => by cases h) he
      · cases he

theorem checkedDatasetLicense_proper {raw : String} (he : IntentBody.checkedDatasetLicense p raw = .error e) :
    Proper e := by
  unfold IntentBody.checkedDatasetLicense at he
  split at he
  · cases he
  · exact validate_proper he

theorem toRequest_proper {b : IntentBody} (he : b.toRequest p = .error e) : Proper e := by
  unfold IntentBody.toRequest at he
  cases hslug : L4.Catalog.validateSlug p b.name with
  | error e' =>
    rw [hslug] at he
    cases he
    exact validateSlug_proper hslug
  | ok slug =>
    cases hversion : L4.Catalog.validateVersion b.version with
    | error e' =>
      rw [hslug, hversion] at he
      cases he
      exact validateVersion_proper hversion
    | ok version =>
      cases hlicense : L4.Catalog.validate p b.license "license" with
      | error e' =>
        rw [hslug, hversion, hlicense] at he
        cases he
        exact validate_proper hlicense
      | ok license =>
        cases hdataset : IntentBody.checkedDatasetLicense p b.datasetLicense with
        | error e' =>
          rw [hslug, hversion, hlicense, hdataset] at he
          cases he
          exact checkedDatasetLicense_proper hdataset
        | ok datasetLicense =>
          rw [hslug, hversion, hlicense, hdataset] at he
          cases he

theorem checkPublisher_proper (he : checkPublisher user config = .error e) : Proper e := by
  unfold checkPublisher at he
  split at he
  · exact proper_plain rfl he
  · split at he
    · cases he
    · exact proper_plain rfl he

theorem checkCount_proper {detail : String} {limit count : Int} (he : checkCount detail limit count = .error e) :
    Proper e :=
  proper_refuseIf (fun _ => proper_limit ["current"] (by decide) rfl (by decide) (by decide)) he

theorem checkArtifactSize_proper {n : Int} (he : checkArtifactSize n config = .error e) : Proper e :=
  proper_refuseIf (fun _ => proper_limit ["requested_bytes"] (by decide) rfl (by decide) (by decide)) he

theorem checkFits_proper {usage : Usage} {n : Int} (he : checkFits usage n = .error e) : Proper e := by
  unfold checkFits at he
  split at he
  · cases he
  · exact proper_limit ["used_bytes", "reserved_bytes", "available_bytes", "requested_bytes"] (by decide) rfl
      (by decide) (by decide) he

theorem checkFootprint_proper {n : Int} (he : checkFootprint db n config = .error e) : Proper e :=
  proper_refuseIf (fun _ => proper_limit ["stored_bytes"] (by decide) rfl (by decide) (by decide)) he

theorem checkFreeSpace_proper {free n : Int} (he : checkFreeSpace free n config = .error e) : Proper e := by
  refine proper_refuseIf (fun _ => ?_) he
  refine proper_fields ["free_bytes", "floor_bytes"] rfl (by decide) (by decide) fun _ => ?_
  exact ⟨"floor_bytes", by decide, config.volumeFreeFloorBytes, by simp⟩

theorem checkVersionFree_proper {modelId : Uuid} {request : UploadRequest}
    (he : checkVersionFree db modelId request = .error e) : Proper e :=
  proper_refuseIf (fun _ => proper_plain rfl) he

theorem reservedSlot_proper {upload owner : Uuid} (he : reservedSlot db now upload owner = .error e) :
    Proper e := by
  unfold reservedSlot at he
  split at he
  · exact proper_plain rfl he
  · split at he
    · exact proper_plain rfl he
    · split at he
      · exact proper_plain rfl he
      · cases he

theorem checkMeasured_proper {v : ModelVersion} {blob : StoredBlob} (he : checkMeasured v blob = .error e) :
    Proper e := by
  unfold checkMeasured at he
  split at he
  · exact proper_fields ["reserved_bytes", "received_bytes"] rfl (by decide) (by decide) (fun h => by cases h) he
  · split at he
    · exact proper_fields ["declared_sha256", "received_sha256"] rfl (by decide) (by decide) (fun h => by cases h) he
    · cases he

theorem tooLarge_proper (maxBytes : Int) : Proper (tooLarge maxBytes) :=
  proper_limit (α := Unit) [] (by decide) rfl (by decide) (by decide) rfl

theorem ownedVersion_proper {upload owner : Uuid} (he : ownedVersion db upload owner = .error e) : Proper e := by
  unfold ownedVersion at he
  split at he
  · cases he
  · exact proper_plain rfl he

theorem checkUploaded_proper {v : ModelVersion} (he : checkUploaded v = .error e) : Proper e :=
  proper_refuseIf (fun _ => proper_plain rfl) he

end

end SpikeHub.L4.Routes
