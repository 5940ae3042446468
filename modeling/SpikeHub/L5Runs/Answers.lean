import SpikeHub.L4Routes.Problems
import SpikeHub.L4Uploads.Admission
import SpikeHub.L5Runs.Flows
import SpikeHub.L5Runs.Fresh
import SpikeHub.L5Runs.Policy

/-!
# How a request ends

Every request in every reachable state of the service with its provider routes
gets a reply or a problem document (`answered`), for whatever it presents and
asks for. What is left is a client that goes away in the middle of its body,
and what the server fails for (`Fails`): a token secret that is not set, a
provider that is not registered or whose client breaks, and a sign-up whose
handle is taken, which is where `allocate` has run out of suffixes
(`HandleTaken`). It fails for each of these whenever it gets there.

The primary keys are new because ids are (`Fresh`); the other constraints hold
because the route has looked before it inserts. That the drawn values are new
is assumed (`Unseen`).

Limitations: a request is one the framework's validation let through, and
requests are answered in turn. Its texts are such as the database stores
(`Stored`): PostgreSQL refuses a NUL character and a text longer than its
column, and the server fails for either, as for half of a surrogate pair,
which no text here has. Files, the database and the clock do not fail, so a
full disk, a lost connection and a lifetime that no `datetime` holds are left
out.
-/
namespace SpikeHub.L5.Answers

open SpikeHub.Core SpikeHub.L1 SpikeHub.L2 SpikeHub.L3 SpikeHub.L4.Auth SpikeHub.L4.Uploads
open SpikeHub.L4.Catalog SpikeHub.L4.Routes SpikeHub.L5.Service SpikeHub.L5.Fresh
open SpikeHub.L5.Flows (Front signingIn front forge leaving returning returning_genuine arrived)
open SpikeHub.L5.Interleave (Hub)
open SpikeHub.L5.Requests (Call serve asAlice plain)
open SpikeHub.L5.Catalogue (unverified)

/-- The client goes away in the middle of the body. -/
def cutOff : Request → Bool
  | .content _ _ body => body.cut
  | _ => false

/-- The handle a new account is to get is somebody's. -/
def HandleTaken (p : Platform) (db : Db) : Request → Prop
  | .register email password _ =>
    Accounts.checkStrength p password = .ok () ∧ Accounts.byEmail p email db = none ∧
      ∃ u ∈ db.users, u.handle = Handles.allocate p db [Accounts.normaliseEmail p email]
  | .oauthCallback profile _ =>
    Accounts.identityOf profile db = none ∧ Accounts.adoptable p profile db = none ∧
      Accounts.checkAddressFree p profile db = .ok () ∧
      ∃ u ∈ db.users, u.handle = Handles.allocate p db [profile.username, profile.email]
  | _ => False

/-- What a request may raise. -/
inductive Ends (p : Platform) (db : Db) (body : Request) (e : Raised) : Prop
  | refused : Proper e → Ends p db body e
  | gone : cutOff body = true → e = .clientDisconnect → Ends p db body e
  | taken : HandleTaken p db body → e = .integrityError → Ends p db body e

/-- The values a request draws for cookies and tokens name none that is there. -/
structure Unseen (dep : Deployment) (secret : Nat → String) (db : Db) : Prop where
  sessions : ∀ s ∈ db.sessions, ∀ i, s.tokenHash ≠ dep.platform.hashToken ("sfh_s_" ++ secret i)
  tokens : ∀ t ∈ db.tokens, ∀ i, t.tokenHash ≠ dep.platform.hashToken ("sfh_pat_" ++ secret i)

variable {p : Platform}

/-- The texts of a request that a statement brings to the database, with the
width of the column where they are to be stored in one. -/
def brings (p : Platform) : Request → List (String × Option Nat)
  | .register email _ agent => [(Accounts.normaliseEmail p email, some 320), (agent, none)]
  | .login email _ agent => [(Accounts.normaliseEmail p email, none), (agent, none)]
  | .oauthCallback profile agent =>
    [(profile.provider, some 32), (profile.subject, some 128), (profile.email, some 320),
      (Accounts.normaliseEmail p profile.email, some 320), (profile.displayName, none),
      (profile.avatarUrl, none), (agent, none)]
  | .tokensCreate body => [(body.name, some 120)]
  | .create intent => intent.request.texts
  | .listModels listing => [(listing.q, none)]
  | .showModel handle slug => [(handle, none), (slug, none)]
  | .download handle slug version => [(handle, none), (slug, none), (version, none)]
  | _ => []

/-- The database takes them. -/
def Stored (p : Platform) (body : Request) : Prop := ∀ t ∈ brings p body, Takes t.2 t.1

/-- Not a refusal of the service's own. -/
def Foreign (e : Fault) : Prop := ∀ refusal, e ≠ .raised (.hub refusal)

/-- A request to any route, the body of an upload as it is sent; the provider's
client raises what is its own. -/
inductive Ask (p : Platform)
  | call (c : Call) (stored : Stored p c.body)
  | submit (req : Presented) (body : IntentBody) (secret : Nat → String)
      (stored : ∀ request, body.toRequest p = .ok request → request.Storable)
  | start (provider : String) (pkce : Pkce)
  | callback (cb : OAuth.Callback)
      (stored : ∀ code verifier profile, cb.complete code verifier = .ok profile →
        Stored p (.oauthCallback profile cb.userAgent))
      (foreign : ∀ code verifier e, cb.complete code verifier = .error e → Foreign e)

def answer (door : Door) (f : Front) : Ask door.dep.platform → Except Fault Reply
  | .call c _ => (serve door.dep c f.hub).1.mapError .raised
  | .submit req body secret _ =>
    (dbSession (submit f.hub.now ⟨f.hub.fresh, secret⟩ req door.dep body) f.hub.db f.hub.volume).1.mapError .raised
  | .start provider pkce => (OAuth.oauthStart door f.hub.now provider pkce).map .redirect
  | .callback cb _ _ => (Flows.oauthCallback door cb f.hub).1

def Ask.cutOff : Ask p → Bool
  | .call c _ => Answers.cutOff c.body
  | _ => false

/-- What the request draws is new. -/
def Ask.Unseen (dep : Deployment) (db : Db) : Ask p → Prop
  | .call c _ => Answers.Unseen dep c.secret db
  | .submit _ _ secret _ => Answers.Unseen dep secret db
  | .start _ _ => True
  | .callback cb _ _ => Answers.Unseen dep cb.secret db

/-- What the server fails for. -/
inductive Fails (door : Door) (f : Front) : Ask door.dep.platform → Prop
  | taken {c stored} : HandleTaken door.dep.platform f.hub.db c.body → Fails door f (.call c stored)
  | unset {provider pkce} : door.settings.tokenSecret = "" → Fails door f (.start provider pkce)
  | unregistered {provider pkce e} : OAuth.client door provider = .error e → Fails door f (.start provider pkce)
  | unread {cb stored foreign} : door.settings.tokenSecret = "" → Fails door f (.callback cb stored foreign)
  | broken {cb stored foreign verifier e} :
      OAuth.readState door f.hub.now cb.state cb.provider = .ok verifier →
      OAuth.completed door cb verifier = .error e → (∀ text, e ≠ .oauth2Error text) →
      Fails door f (.callback cb stored foreign)
  | takenBack {cb stored foreign profile} : OAuth.profileFrom door f.hub.now cb = .ok profile →
      HandleTaken door.dep.platform f.hub.db (.oauthCallback profile cb.userAgent) →
      Fails door f (.callback cb stored foreign)

/-- The route raised the refusal, and what is sent is its problem document: its
status, the five members, and its machine fields behind them. -/
structure RefusedAs (path : String) (res : Except Fault Reply) (refusal : HubError) : Prop where
  raised : res = .error (.raised (.hub refusal))
  renders : Renders refusal
  document : respondFault path res = .problem refusal.cls.status "application/problem+json"
    ([("type", .str ("https://hub.spikeforge.net/errors/" ++ refusal.cls.code)),
      ("title", .str (titleOf refusal.cls.code)), ("status", .int refusal.cls.status),
      ("detail", .str refusal.detail), ("instance", .str path)] ++ refusal.extra)

/-- An address is normalised once and for all. -/
def NormalOnce (p : Platform) : Prop :=
  ∀ s, Accounts.normaliseEmail p (Accounts.normaliseEmail p s) = Accounts.normaliseEmail p s

variable {dep : Deployment} {h : Hub} {c : Call} {db db' : Db} {fs fs' : Volume} {now : Time}
  {r : Rand} {req : Presented} {body : Request} {config : Settings} {user : User} {granted : List Scope}
  {e : Raised}

/-! ## The caller -/

theorem resolve_raises {presented : String} :
    (resolve p now presented : AuthWork (User × Token)).RaisesOnly Proper db fs := by
  refine Work.check_raises (fun _ => usable_proper) fun row _ => ?_
  refine Work.orRaise_bind_raises (fun _ => checkLive_proper) fun _ _ => ?_
  exact Work.check_raises (fun _ => activeOwner_proper) fun user _ => Work.write_raises (Work.pure_raises _)

theorem anonymous_proper : Proper anonymous := proper_plain (α := Unit) rfl rfl

theorem currentUser_raises : (currentUser p now config req).RaisesOnly Proper db fs := by
  unfold currentUser
  split
  · exact resolve_raises.bind fun found _ _ _ => Work.pure_raises _
  · split
    · exact Work.throw_raises anonymous_proper
    · refine Work.RaisesOnly.bind ?_ fun found d w _ => ?_
      · unfold Sessions.resolve
        refine Work.query_raises ?_
        split
        · exact Work.pure_raises _
        · exact Work.write_raises (Work.pure_raises _)
      · cases found with
        | some found => exact Work.pure_raises _
        | none => exact Work.throw_raises anonymous_proper

theorem writeUser_raises : (writeUser p now config req).RaisesOnly Proper db fs := by
  refine currentUser_raises.bind fun found d w _ => ?_
  exact Work.orRaise_bind_raises (fun _ => checkScope_proper) fun _ _ => Work.pure_raises _

/-- What a request finds, once it knows its caller. -/
structure Ready (dep : Deployment) (r : Rand) (db : Db) : Prop where
  below : Below r.base db
  unseen : Unseen dep r.secret db

theorem Ready.caller (hi : Ready dep r db) (hc : CallerOf dep.platform now dep.config req db user granted db') :
    Ready dep r db' where
  below := by
    have hsame := hc.sameRows
    refine below_of (hi.below.auth.caller hc) ⟨?_, ?_, ?_⟩
    · exact hsame.models ▸ hi.below.models
    · exact hsame.versions ▸ hi.below.versions
    · exact hsame.entries ▸ hi.below.entries
  unseen := by
    cases hc with
    | bearer =>
      refine ⟨hi.unseen.sessions, ?_⟩
      exact Table.forall_updateWhere (touched now) (fun _ _ h => h) hi.unseen.tokens fun _ h => h
    | cookie =>
      refine ⟨?_, hi.unseen.tokens⟩
      exact Table.forall_updateWhere (Sessions.seen now) (fun _ _ h => h) hi.unseen.sessions fun _ h => h

/-! ## Accounts -/

/-- A new session goes in. -/
theorem start_raises {d : Draw} {agent : String} {P : Raised → Prop} (hid : ∀ s ∈ db.sessions, s.id ≠ d.id)
    (hhash : ∀ s ∈ db.sessions, s.tokenHash ≠ p.hashToken ("sfh_s_" ++ d.secret)) :
    (Sessions.start p now d user config agent).RaisesOnly P db fs := by
  have hnew : ∀ s ∈ db.sessions, ¬ Record.clash s (Sessions.opened p now d user config agent) := by
    intro s hs hclash
    rcases hclash with hclash | hclash
    · exact hid s hs hclash
    · exact hhash s hs hclash
  refine Work.statement_raises (fun e he => ?_) fun _ _ => Work.pure_raises _
  unfold Sessions.addSession Table.insert? at he
  rw [dif_pos hnew] at he
  cases he

theorem addUser_error {u : User} (he : Accounts.addUser u db = .error e) :
    e = .integrityError ∧ ∃ a ∈ db.users, Record.clash a u := by
  by_cases hnew : ∀ a ∈ db.users, ¬ Record.clash a u
  · rw [Accounts.addUser_isOk hnew] at he
    cases he
  · unfold Accounts.addUser Table.insert? at he
    rw [dif_neg hnew] at he
    push Not at hnew
    cases he
    exact ⟨rfl, hnew⟩

theorem byEmail_none {email : String} (hnone : Accounts.byEmail p email db = none) :
    ∀ u ∈ db.users, u.email ≠ Accounts.normaliseEmail p email := fun u hu he => by
  simpa [he] using Table.find?_none hnone hu

theorem register_raises {id : Uuid} {salt email password agent : String} (hnormal : NormalOnce p)
    (hid : ∀ u ∈ db.users, u.id ≠ id) : (Accounts.register p id salt email password config).RaisesOnly
      (Ends p db (.register email password agent)) db fs := by
  unfold Accounts.register
  refine Work.orRaise_bind_raises (fun _ he => .refused (checkStrength_proper he)) fun _ hstrong => ?_
  refine Work.check_raises (fun _ he => .refused (checkUnregistered_proper he)) fun _ hfree => ?_
  refine Work.query_raises (Work.statement_raises (fun e he => ?_) fun _ _ => Work.pure_raises _)
  have hnone : Accounts.byEmail p email db = none := by
    unfold Accounts.checkUnregistered refuse at hfree
    have hagain : Accounts.byEmail p (Accounts.normaliseEmail p email) db = none := by
      simpa using refuseIf_ok.mp hfree
    unfold Accounts.byEmail at hagain ⊢
    rwa [hnormal] at hagain
  obtain ⟨rfl, a, ha, hclash⟩ := addUser_error he
  rcases hclash with hclash | hhandle | hemail
  · exact absurd hclash (hid a ha)
  · rw [Accounts.registered_handle] at hhandle
    exact .taken ⟨hstrong, hnone, a, ha, hhandle⟩ rfl
  · have hfound : a.email = Accounts.normaliseEmail p email := hemail
    exact absurd hfound (byEmail_none hnone a ha)

theorem fromProfile_raises {id : Uuid} {profile : OAuthProfile} {agent : String}
    (hid : ∀ u ∈ db.users, u.id ≠ id) (hlink : Accounts.identityOf profile db = none)
    (hadopt : Accounts.adoptable p profile db = none) : (Accounts.fromProfile p id profile config).RaisesOnly
      (Ends p db (.oauthCallback profile agent)) db fs := by
  refine Work.check_raises (fun _ he => .refused (checkAddressFree_proper he)) fun _ hfree => ?_
  refine Work.query_raises (Work.statement_raises (fun e he => ?_) fun _ _ => Work.pure_raises _)
  obtain ⟨rfl, a, ha, hclash⟩ := addUser_error he
  rcases hclash with hclash | hhandle | hemail
  · exact absurd hclash (hid a ha)
  · rw [Accounts.profiled_handle] at hhandle
    exact .taken ⟨hlink, hadopt, hfree, a, ha, hhandle⟩ rfl
  · have hfound : a.email = Accounts.normaliseEmail p profile.email := hemail
    have hnone : Accounts.byEmail p profile.email db = none := by
      unfold Accounts.checkAddressFree refuse at hfree
      split at hfree
      · cases hfree
      · simpa using refuseIf_ok.mp hfree
    exact absurd hfound (byEmail_none hnone a ha)

theorem linkOrCreate_raises {ids : Accounts.LinkIds} {profile : OAuthProfile} {agent : String}
    (hid : ∀ u ∈ db.users, u.id ≠ ids.user) (hlid : ∀ i ∈ db.identities, i.id ≠ ids.identity) :
    (Accounts.linkOrCreate p now ids profile config).RaisesOnly
      (Ends p db (.oauthCallback profile agent)) db fs := by
  unfold Accounts.linkOrCreate Accounts.byIdentity
  rw [bind_assoc]
  refine Work.query_raises ?_
  cases hlink : Accounts.identityOf profile db with
  | some identity =>
    dsimp only
    rw [bind_assoc]
    refine Work.write_raises ?_
    rw [bind_assoc]
    exact Work.check_raises (fun _ he => .refused (linkedOwner_proper he)) fun _ _ => Work.pure_raises _
  | none =>
    simp only [pure_bind]
    refine Work.RaisesOnly.bind ?_ fun user d w hx => ?_
    · unfold Accounts.adoptOrCreate
      refine Work.query_raises ?_
      cases hadopt : Accounts.adoptable p profile db with
      | some existing => exact Work.pure_raises _
      | none => exact fromProfile_raises hid hlink hadopt
    · have hsame : d.identities = db.identities := by
        obtain ⟨-, ⟨-, rfl⟩ | ⟨-, -, _, rfl, -⟩⟩ := Accounts.adoptOrCreate_ok hx
        · rfl
        · rfl
      have hadd : ∃ d', Accounts.addIdentity (Accounts.linkTo now ids.identity user profile) d = .ok d' :=
        Accounts.addIdentity_isOk (hsame ▸ hlid) (hsame ▸ hlink)
      obtain ⟨d', hadd⟩ := hadd
      refine Work.statement_raises (fun e he => ?_) fun _ _ => Work.pure_raises _
      rw [hadd] at he
      cases he

/-- A new personal access token goes in. -/
theorem issuePat_raises {d : Draw} {scopes : List Scope} {name : String} {P : Raised → Prop}
    (hid : ∀ t ∈ db.tokens, t.id ≠ d.id)
    (hhash : ∀ t ∈ db.tokens, t.tokenHash ≠ p.hashToken ("sfh_pat_" ++ d.secret)) :
    (issuePat p now d user scopes name config).RaisesOnly P db fs := by
  have hnew : ∀ t ∈ db.tokens,
      ¬ Record.clash t (Mint.row p now d config ⟨user.id, .pat, scopes, none, name⟩) := by
    intro t ht hclash
    rcases hclash with hclash | hclash
    · exact hid t ht hclash
    · exact hhash t ht hclash
  refine Work.statement_raises (fun e he => ?_) fun _ _ => Work.pure_raises _
  unfold addToken Table.insert? at he
  rw [dif_pos hnew] at he
  cases he

/-! ## Uploads -/

/-- The model is there in the end, and the versions are the ones there were. -/
theorem modelFor_kept {id : Uuid} {request : UploadRequest} {m : HubModel}
    (hx : (modelFor now id user request config).exec db fs = (.ok m, db', fs')) :
    m ∈ db'.models ∧ db'.versions = db.versions := by
  obtain ⟨-, htarget⟩ := modelFor_ok hx
  cases htarget with
  | found hnamed => exact ⟨(Table.find?_some hnamed).1, rfl⟩
  | created =>
    rename_i hnew _ _ _
    exact ⟨(Table.mem_insert (h := hnew)).mpr (.inr rfl), rfl⟩

theorem modelFor_raises {id : Uuid} {request : UploadRequest} (hid : ∀ m ∈ db.models, m.id ≠ id) :
    (modelFor now id user request config).RaisesOnly Proper db fs := by
  cases hnamed : namedModel db user.id request.slug with
  | some m => exact .of_exec (modelFor_found hnamed) fun _ => nofun
  | none =>
    cases hcount : checkModelCount db user.id config with
    | error e =>
      refine .of_exec (modelFor_full hnamed hcount) fun e' he => ?_
      cases he
      exact checkCount_proper hcount
    | ok _ =>
      obtain ⟨db₁, hx, -⟩ := modelFor_new now fs hnamed hid hcount
      exact .of_exec hx fun _ => nofun

theorem openSlot_raises {id : Uuid} {m : HubModel} {request : UploadRequest} (hm : m ∈ db.models)
    (hid : ∀ v ∈ db.versions, v.id ≠ id) : (openSlot now id m request config).RaisesOnly Proper db fs := by
  refine Work.check_raises (fun _ => checkVersionFree_proper) fun _ hfree => ?_
  refine Work.statement_raises (fun e he => ?_) fun _ _ => Work.pure_raises _
  have hnew : ∀ v ∈ db.versions, ¬ Record.clash v (newVersion now id m.id request config) := by
    intro v hv hclash
    rcases hclash with hclash | ⟨hmodel, hversion⟩
    · exact hid v hv hclash
    · exact checkVersionFree_ok hfree v hv hmodel hversion
  have hadd : ∃ d, addVersion (newVersion now id m.id request config) db = .ok d :=
    addVersion_isOk hnew ⟨m, hm, rfl⟩
  obtain ⟨d, hadd⟩ := hadd
  rw [hadd] at he
  cases he

/-- A reservation, the ids of its rows new. -/
theorem reserve_raises {free : Volume → Int} {ids : NewIds} {request : UploadRequest}
    (hmodel : ∀ m ∈ db.models, m.id ≠ ids.model) (hversion : ∀ v ∈ db.versions, v.id ≠ ids.version) :
    (reserve now free ids user request config).RaisesOnly Proper db fs := by
  refine Work.orRaise_bind_raises (fun _ => checkPublisher_proper) fun _ _ => ?_
  refine Work.orRaise_bind_raises (fun _ => proper_refuseIf fun _ => proper_plain rfl) fun _ _ => ?_
  refine Work.orRaise_bind_raises (fun _ => checkArtifactSize_proper) fun _ _ => ?_
  refine Work.check_raises (fun _ => checkCount_proper) fun _ _ => ?_
  refine Work.check_raises (fun _ => checkFits_proper) fun _ _ => ?_
  refine Work.check_raises (fun _ => checkFootprint_proper) fun _ _ => ?_
  refine Work.RaisesOnly.bind (.of_exec (Work.exec_observe free) fun _ => nofun) fun n d w hx => ?_
  rw [Work.exec_observe, Prod.mk.injEq, Prod.mk.injEq] at hx
  obtain ⟨-, rfl, rfl⟩ := hx
  refine Work.orRaise_bind_raises (fun _ => checkFreeSpace_proper) fun _ _ => ?_
  refine (modelFor_raises hmodel).bind fun m d w hx => ?_
  obtain ⟨hm, hversions⟩ := modelFor_kept hx
  refine Work.check_raises (fun _ => checkCount_proper) fun _ _ => ?_
  exact openSlot_raises hm (hversions ▸ hversion)

/-- What receiving a body may raise. -/
theorem receive_raises {entry upload owner : Uuid} {body : Body} (hentry : ∀ a ∈ db.entries, a.id ≠ entry) :
    (receive now entry upload owner body).RaisesOnly
      (fun e => Proper e ∨ body.cut = true ∧ e = .clientDisconnect) db fs := by
  refine Work.check_raises (fun _ he => .inl (reservedSlot_proper he)) fun v hslot => ?_
  obtain ⟨hv, -⟩ := reservedSlot_ok hslot
  obtain ⟨r, mid, hstage, hended⟩ := stage_ended db fs upload body v.sizeBytes
  refine Work.RaisesOnly.bind (.of_exec hstage fun e he => ?_) fun blob d w hx => ?_
  · cases hended with
    | stored => cases he
    | disconnected hcut => exact .inr ⟨hcut, (Except.error.inj he).symm⟩
    | dropped => exact .inl (Except.error.inj he ▸ tooLarge_proper _)
  rw [hstage] at hx
  cases hended with
  | disconnected => cases hx
  | dropped => cases hx
  | stored hcut hfits hothers =>
    obtain ⟨hblob, rfl, rfl⟩ : Except.ok (measure body.bytes) = .ok blob ∧ db = d ∧ mid = w := by
      simpa only [Prod.mk.injEq] using hx
    obtain rfl := Except.ok.inj hblob
    refine Work.RaisesOnly.bind (.of_exec (verifyOrAbandon_exec v _ db mid) fun e he => ?_) fun _ d w hx => ?_
    · split at he
      · cases he
      · cases he
        exact .inl (checkMeasured_proper ‹_›)
    rw [verifyOrAbandon_exec] at hx
    split at hx
    · cases hx
      have hkey : ∃ key, objectKey (measure body.bytes).sha256 = .ok key := objectKey_sha256 body.bytes
      obtain ⟨key, hkey⟩ := hkey
      obtain ⟨fs', hpromote, -⟩ := promote_spec (d := db) hkey hothers.at
      refine Work.RaisesOnly.bind (.of_exec hpromote fun _ => nofun) fun key' d w hx => ?_
      rw [hpromote] at hx
      cases hx
      obtain ⟨d, hstore⟩ := storeUploaded_isOk now owner key (measure body.bytes) ⟨v, hv, rfl⟩ hentry
      refine Work.statement_raises (fun e he => ?_) fun _ _ => Work.pure_raises _
      rw [hstore] at he
      cases he
    · cases hx

theorem publish_raises {v : ModelVersion} (hv : v ∈ db.versions) :
    (publish now v config).RaisesOnly Proper db fs := by
  refine Work.orRaise_bind_raises (fun _ => checkUploaded_proper) fun _ hstate => ?_
  refine Work.statement_raises (fun e he => ?_) fun _ _ => Work.pure_raises _
  have hstore : storePublished now config v.id db = .ok _ := if_pos ⟨v, hv, rfl⟩
  rw [hstore] at he
  cases he

/-! ## Every request -/

theorem Ready.draw (hi : Ready dep r db) (i : Nat) : (∀ s ∈ db.sessions, s.id ≠ (r.draw i).id) ∧
    ∀ t ∈ db.tokens, t.id ≠ (r.draw i).id :=
  ⟨fun s hs => Nat.ne_of_lt (Nat.lt_add_right _ (hi.below.sessions s hs)),
    fun t ht => Nat.ne_of_lt (Nat.lt_add_right _ (hi.below.tokens t ht))⟩

/-- What a route behind the guard raises, from what its work does for an account. -/
theorem guarded_raises {P : Raised → Prop} {f : User → HubWork Reply} (hP : ∀ e, Proper e → P e)
    (hi : Ready dep r db) (hf : ∀ user db', Ready dep r db' → (f user).RaisesOnly P db' fs) :
    (writeUser dep.platform now dep.config req >>= f).RaisesOnly P db fs := by
  refine (writeUser_raises.mono hP).bind fun user d w hx => ?_
  obtain ⟨granted, hcurrent, -⟩ := scopeGuard_ok hx
  obtain ⟨rfl, hcaller⟩ := currentUser_ok hcurrent
  exact hf user d (hi.caller hcaller)

theorem account_raises {P : Raised → Prop} {f : User × List Scope → AuthWork Reply}
    (hP : ∀ e, Proper e → P e) (hi : Ready dep r db)
    (hf : ∀ user granted db', Ready dep r db' → (f (user, granted)).RaisesOnly P db' fs) :
    (currentUser dep.platform now dep.config req >>= f).RaisesOnly P db fs := by
  refine (currentUser_raises.mono hP).bind fun found d w hx => ?_
  obtain ⟨user, granted⟩ := found
  obtain ⟨rfl, hcaller⟩ := currentUser_ok hx
  exact hf user granted d (hi.caller hcaller)

/-- What a route raises, from a state in which ids are new and no refresh token is there. -/
theorem route_raises (hnormal : NormalOnce dep.platform) (hi : Ready dep r db)
    (hkind : ∀ t ∈ db.tokens, t.kind ≠ .refresh) (body : Request)
    (he : (dbSession (route dep now r req body) db fs).1 = .error e) : Ends dep.platform db body e := by
  have hrefused : ∀ e, Proper e → Ends dep.platform db body e := fun _ => .refused
  have huser : ∀ u ∈ db.users, u.id ≠ r.base := fun u hu => Nat.ne_of_lt (hi.below.users u hu)
  cases body with
  | register email password agent =>
    refine committing_raises (P := Ends dep.platform db _) ?_ he
    refine (register_raises hnormal huser).bind fun user d w hx => ?_
    obtain ⟨rfl, hnew, hd, -⟩ := Accounts.register_ok hx
    have hsessions : d.sessions = db.sessions := by rw [hd]
    refine (start_raises ?_ ?_).bind fun _ _ _ _ => Work.pure_raises _
    · exact hsessions ▸ (hi.draw 1).1
    · exact hsessions ▸ fun s hs => hi.unseen.sessions s hs 1
  | login email password agent =>
    refine committing_raises (P := Ends dep.platform db _) ?_ he
    refine Work.check_raises (fun _ he => hrefused _ (signIn_proper he)) fun user _ => ?_
    exact (start_raises (hi.draw 0).1 (fun s hs => hi.unseen.sessions s hs 0)).bind fun _ _ _ _ =>
      Work.pure_raises _
  | logout =>
    have hdone : dbSession (logout dep now req) db fs = (.error e, (dbSession (logout dep now req) db fs).2) :=
      Prod.ext he rfl
    unfold logout at hdone
    split at hdone
    · cases hdone
    · cases hdone
  | refresh presented =>
    have hraises : (do
        let issued ← rotate dep.platform now (pairDraws r) presented dep.config
        return Reply.pair issued : AuthWork Reply).RaisesOnly (Ends dep.platform db (.refresh presented)) db fs := by
      unfold rotate
      rw [bind_assoc]
      refine Work.check_raises (fun e he => hrefused _ ?_) fun row hrow => ?_
      · rw [Policy.exchangeable_none hkind] at he
        exact proper_plain rfl he
      · obtain ⟨hmem, -, hrefresh⟩ := exchangeable_ok hrow
        exact absurd hrefresh (hkind row hmem)
    exact committing_raises hraises he
  | oauthCallback profile agent =>
    refine committing_raises (P := Ends dep.platform db _) ?_ he
    have hidentity : ∀ i ∈ db.identities, i.id ≠ r.base + 1 := fun i hid =>
      Nat.ne_of_lt (Nat.lt_succ_of_lt (hi.below.identities i hid))
    have hlink : (Accounts.linkOrCreate dep.platform now ⟨r.base, r.base + 1⟩ profile dep.config).RaisesOnly
        (Ends dep.platform db (.oauthCallback profile agent)) db fs := linkOrCreate_raises huser hidentity
    refine hlink.bind fun user d w hx => ?_
    obtain ⟨rfl, hlinked⟩ := Accounts.linkOrCreate_ok hx
    have hsessions : d.sessions = db.sessions := by
      cases hlinked with
      | known | adopted | created => rfl
    refine (start_raises ?_ ?_).bind fun _ _ _ _ => Work.pure_raises _
    · exact hsessions ▸ (hi.draw 1).1
    · exact hsessions ▸ fun s hs => hi.unseen.sessions s hs 1
  | revokeAll =>
    refine committing_raises (P := Ends dep.platform db _) ?_ he
    refine account_raises hrefused hi fun user granted d _ => ?_
    have hrevoke : (Sessions.revokeAll now user.id : AuthWork Nat).exec d fs = (.ok _, _, fs) := rfl
    exact (Work.RaisesOnly.of_exec hrevoke fun _ => nofun).bind fun _ _ _ _ => Work.pure_raises _
  | tokensIndex =>
    refine session_raises (P := Ends dep.platform db _) ?_ he
    refine account_raises hrefused hi fun user granted d _ => ?_
    exact Work.query_raises (Work.pure_raises _)
  | tokensCreate token =>
    refine committing_raises (P := Ends dep.platform db _) ?_ he
    refine account_raises hrefused hi fun user granted d hd => ?_
    exact (issuePat_raises (hd.draw 0).2 (fun t ht => hd.unseen.tokens t ht 0)).bind fun _ _ _ _ =>
      Work.pure_raises _
  | tokensRevoke id =>
    refine committing_raises (P := Ends dep.platform db _) ?_ he
    refine account_raises hrefused hi fun user granted d _ => ?_
    refine Work.check_raises (fun _ he => hrefused _ (ownPat_proper he)) fun row _ => ?_
    exact Work.write_raises (Work.pure_raises _)
  | me =>
    refine session_raises (P := Ends dep.platform db _) ?_ he
    refine account_raises hrefused hi fun user granted d _ => ?_
    exact Work.query_raises (Work.pure_raises _)
  | create intent =>
    refine committing_raises (P := Ends dep.platform db _) ?_ he
    refine guarded_raises hrefused hi fun user d hd => ?_
    have hmodel : ∀ m ∈ d.models, m.id ≠ r.base := fun m hm => Nat.ne_of_lt (hd.below.models m hm)
    have hversion : ∀ v ∈ d.versions, v.id ≠ r.base + 1 := fun v hv =>
      Nat.ne_of_lt (Nat.lt_succ_of_lt (hd.below.versions v hv))
    have hreserve : (reserve now dep.free ⟨r.base, r.base + 1⟩ user intent.request dep.config).RaisesOnly
        Proper d fs := reserve_raises hmodel hversion
    refine (hreserve.mono hrefused).bind ?_
    exact fun _ _ _ _ => Work.pure_raises _
  | content upload declared body =>
    refine committing_raises (P := Ends dep.platform db _) ?_ he
    refine guarded_raises hrefused hi fun user d hd => ?_
    refine Work.orRaise_bind_raises (fun _ he => hrefused _ (checkDeclaredLength_proper he)) fun _ _ => ?_
    have hentry : ∀ a ∈ d.entries, a.id ≠ r.base := fun a ha => Nat.ne_of_lt (hd.below.entries a ha)
    refine ((receive_raises hentry).mono fun e he => ?_).bind fun _ _ _ _ => Work.pure_raises _
    rcases he with hproper | ⟨hcut, hgone⟩
    · exact .refused hproper
    · exact .gone hcut hgone
  | commit upload =>
    refine committing_raises (P := Ends dep.platform db _) ?_ he
    refine guarded_raises hrefused hi fun user d _ => ?_
    refine Work.check_raises (fun _ he => hrefused _ (ownedVersion_proper he)) fun v hown => ?_
    obtain ⟨hv, -⟩ := ownedVersion_ok hown
    exact ((publish_raises hv).mono hrefused).bind fun _ _ _ _ => Work.pure_raises _
  | catalogIndex =>
    have hdone : (Except.ok _ : Except Raised Reply) = .error e := he
    cases hdone
  | listModels listing =>
    have hdone : (Except.ok _ : Except Raised Reply) = .error e := he
    cases hdone
  | showModel handle slug =>
    have hx : (dbSession (showModel handle slug) db fs).1 = .error e := he
    unfold showModel at hx
    refine session_raises (P := Ends dep.platform db _) ?_ hx
    exact Work.check_raises (fun _ he => hrefused _ (orNotFound_proper he)) fun _ _ => Work.pure_raises _
  | download handle slug version =>
    refine committing_raises (P := Ends dep.platform db _) ?_ he
    refine Work.check_raises (fun _ he => hrefused _ (orNotFound_proper he)) fun row hrow => ?_
    refine Work.statement_raises (fun e he => ?_) fun _ _ => Work.pure_raises _
    have hmem : row.version ∈ db.versions := by
      unfold orNotFound refuse at hrow
      split at hrow
      · rename_i found hfound
        obtain ⟨hvisible, -⟩ := oneVersion_eq_some.mp hfound
        cases hrow
        exact (mem_joined.mp (mem_visibleRows.mp hvisible).1).2.1
      · cases hrow
    have hupdate : updateVersion row.version.id (countedFrom row.version.downloadCount) (countedFrom_keys _) db =
        .ok _ := if_pos ⟨row.version, hmem, rfl⟩
    rw [hupdate] at he
    cases he

/-- Where the allocated handle is taken, the insert breaks the constraint. -/
theorem taken_raises (hnormal : NormalOnce dep.platform) {body : Request}
    (htaken : HandleTaken dep.platform db body) :
    (dbSession (route dep now r req body) db fs).1 = .error .integrityError := by
  have hclash : ∀ u : User, (∃ a ∈ db.users, u.handle = a.handle) →
      Accounts.addUser u db = .error .integrityError := by
    intro u ⟨a, ha, hhandle⟩
    unfold Accounts.addUser Table.insert?
    rw [dif_neg fun hnew => hnew a ha (.inr (.inl hhandle.symm))]
  cases body with
  | register email password agent =>
    obtain ⟨hstrong, hnone, u, hu, hhandle⟩ := htaken
    have hfree : Accounts.checkUnregistered dep.platform (Accounts.normaliseEmail dep.platform email) db =
        .ok () := by
      unfold Accounts.checkUnregistered refuse
      refine refuseIf_ok.mpr ?_
      unfold Accounts.byEmail at hnone ⊢
      rw [hnormal, hnone]
      decide
    have hraises : (Accounts.register dep.platform r.base (r.secret 0) email password dep.config).exec db fs =
        (.error .integrityError, db, fs) := by
      rw [Accounts.register_exec, hstrong, hfree, hclash _ ⟨u, hu, ?_⟩]
      rw [Accounts.registered_handle, hhandle]
    exact congrArg Prod.fst (dbSession_raises (Work.exec_bind_error hraises))
  | oauthCallback profile agent =>
    obtain ⟨hlink, hadopt, hfree, u, hu, hhandle⟩ := htaken
    have hraises : (Accounts.linkOrCreate dep.platform now ⟨r.base, r.base + 1⟩ profile dep.config).exec db fs =
        (.error .integrityError, db, fs) := by
      unfold Accounts.linkOrCreate Accounts.byIdentity
      rw [bind_assoc, Work.query_bind, hlink]
      simp only [pure_bind]
      unfold Accounts.adoptOrCreate
      rw [bind_assoc, Work.query_bind, hadopt]
      dsimp only
      unfold Accounts.fromProfile
      rw [bind_assoc, Work.exec_bind, Work.exec_check, hfree]
      dsimp only
      rw [bind_assoc, Work.query_bind, bind_assoc, Work.exec_bind, Work.exec_statement, hclash _ ⟨u, hu, ?_⟩]
      rw [Accounts.profiled_handle, hhandle]
    exact congrArg Prod.fst (dbSession_raises (Work.exec_bind_error hraises))
  | _ => cases htaken

theorem ready_reachable (hr : (lts dep).Reachable h) {secret : Nat → String} (hnew : Unseen dep secret h.db) :
    Ready dep ⟨h.fresh, secret⟩ h.db := ⟨fresh_reachable hr, hnew⟩

theorem no_refresh (hr : (lts dep).Reachable h) : ∀ t ∈ h.db.tokens, t.kind ≠ .refresh := fun t ht hkind => by
  rw [(Policy.personal_reachable hr t ht).1] at hkind
  cases hkind

/-- The body of an upload is refused, or its request is reserved or refused. -/
theorem submit_raises (hi : Ready dep r db) {body : IntentBody}
    (he : (dbSession (submit now r req dep body) db fs).1 = .error e) : Proper e := by
  refine committing_raises (P := Proper) ?_ he
  refine guarded_raises (fun _ => id) hi fun user d hd => ?_
  refine Work.orRaise_bind_raises (fun _ => toRequest_proper) fun request _ => ?_
  refine (reserve_raises ?_ ?_).bind fun _ _ _ _ => Work.pure_raises _
  · exact fun m hm => Nat.ne_of_lt (hd.below.models m hm)
  · exact fun v hv => Nat.ne_of_lt (Nat.lt_succ_of_lt (hd.below.versions v hv))

theorem refusedAs {refusal : HubError} {path : String} (h : Renders refusal) :
    RefusedAs path (.error (.raised (.hub refusal))) refusal where
  raised := rfl
  renders := h
  document := by
    have hproblem := h.problem path
    unfold problemMembers at hproblem
    rw [← hproblem]
    rfl

/-- The answers of the routes behind the front. -/
theorem route_answered (hnormal : NormalOnce dep.platform) (hr : (lts dep).Reachable h) (path : String)
    (hnew : Unseen dep c.secret h.db) :
    (∃ reply, respondFault path ((serve dep c h).1.mapError .raised) = .reply reply) ∨
      (∃ refusal, RefusedAs path ((serve dep c h).1.mapError .raised) refusal) ∨
      (cutOff c.body = true ∨ HandleTaken dep.platform h.db c.body) ∧
        respondFault path ((serve dep c h).1.mapError .raised) = .failed := by
  cases hres : (serve dep c h).1 with
  | ok reply => exact .inl ⟨reply, rfl⟩
  | error e =>
    right
    cases route_raises hnormal (ready_reachable hr hnew) (no_refresh hr) c.body hres with
    | refused hproper =>
      obtain ⟨refusal, rfl, hrenders⟩ := hproper
      exact .inl ⟨refusal, refusedAs hrenders⟩
    | gone hcut hgone =>
      subst hgone
      exact .inr ⟨.inl hcut, rfl⟩
    | taken htaken hraised =>
      subst hraised
      exact .inr ⟨.inr htaken, rfl⟩

/-! ## The provider routes -/

/-- What raises nothing of the service's own ends in the server's answer. -/
theorem foreign_failed {path : String} {e : Fault} (hforeign : Foreign e) : renderFault path e = .failed := by
  cases e with
  | raised e =>
    cases e with
    | hub refusal => exact absurd rfl (hforeign refusal)
    | _ => rfl
  | _ => rfl

/-- What a client breaks with is its own, or its provider is not there. -/
theorem completed_foreign {door : Door} {cb : OAuth.Callback} {verifier : String} {e : Fault}
    (hforeign : ∀ provider e, OAuth.client door provider = .error e → Foreign e)
    (hcomplete : ∀ code verifier e, cb.complete code verifier = .error e → Foreign e)
    (he : OAuth.completed door cb verifier = .error e) : Foreign e := by
  unfold OAuth.completed at he
  cases hclient : OAuth.client door cb.provider with
  | error e' =>
    rw [hclient] at he
    obtain rfl := Except.error.inj he
    exact hforeign _ _ hclient
  | ok client =>
    rw [hclient] at he
    exact hcomplete _ _ _ he

theorem unauthorized_renders (detail : String) : Renders ⟨.unauthorized, detail, []⟩ :=
  ⟨List.nodup_nil, nofun, nofun⟩

/-- A callback ends as its profile is missed, or as the request with the profile does. -/
theorem oauthCallback_error {door : Door} {cb : OAuth.Callback} {h : Hub} {e : Fault}
    (he : OAuth.profileFrom door h.now cb = .error e) : (Flows.oauthCallback door cb h).1 = .error e := by
  unfold Flows.oauthCallback
  rw [he]
  rfl

theorem oauthCallback_profile {door : Door} {cb : OAuth.Callback} {h : Hub} {profile : OAuthProfile}
    (hp : OAuth.profileFrom door h.now cb = .ok profile) :
    (Flows.oauthCallback door cb h).1 = (serve door.dep (signingIn cb profile) h).1.mapError .raised := by
  unfold Flows.oauthCallback
  rw [hp]
  rfl

section
variable {door : Door} {f : Front} {a : Ask door.dep.platform} {path : String}

theorem fails_failed (hnormal : NormalOnce door.dep.platform)
    (hforeign : ∀ provider e, OAuth.client door provider = .error e → Foreign e) (hfail : Fails door f a) :
    respondFault path (answer door f a) = .failed := by
  cases hfail with
  | @taken c stored htaken =>
    have hraised : (serve door.dep c f.hub).1 = .error .integrityError := taken_raises hnormal htaken
    simp only [answer, hraised]
    rfl
  | @unset provider pkce hunset =>
    cases hclient : OAuth.client door provider with
    | error e =>
      simp only [answer, OAuth.oauthStart_error hclient]
      exact foreign_failed (hforeign provider e hclient)
    | ok client =>
      simp only [answer, OAuth.oauthStart_unset hclient hunset]
      rfl
  | unregistered hclient =>
    simp only [answer, OAuth.oauthStart_error hclient]
    exact foreign_failed (hforeign _ _ hclient)
  | unread hunset =>
    simp only [answer, oauthCallback_error (OAuth.profileFrom_unset hunset)]
    rfl
  | @broken cb stored foreign verifier e hread hanswer hother =>
    have hmissed : OAuth.profileFrom door f.hub.now cb = .error e := by
      rw [OAuth.profileFrom_read hread]
      exact OAuth.orUnauthorized_error hanswer hother
    simp only [answer, oauthCallback_error hmissed]
    exact foreign_failed (completed_foreign hforeign foreign hanswer)
  | @takenBack cb stored foreign profile hp htaken =>
    have hraised : (dbSession (route door.dep f.hub.now ⟨f.hub.fresh, cb.secret⟩ cb.req
        (.oauthCallback profile cb.userAgent)) f.hub.db f.hub.volume).1 = .error .integrityError :=
      taken_raises hnormal htaken
    have hserved : (serve door.dep (signingIn cb profile) f.hub).1 = .error .integrityError := hraised
    simp only [answer, oauthCallback_profile hp, hserved]
    rfl

/-- An answer that is a refusal of one of the provider routes. -/
theorem unauthorized_answered {detail : String}
    (ha : answer door f a = .error (.raised (.hub ⟨.unauthorized, detail, []⟩))) :
    ∃ refusal, RefusedAs path (answer door f a) refusal := by
  rw [ha]
  exact ⟨_, refusedAs (unauthorized_renders detail)⟩

end

/-- **Every request is answered**: by a reply, or by a problem document whose
status and five members are the refusal's own, with its machine fields beside
them and its limit among these. What is left is a body that is cut off, and
what the server fails for. -/
theorem answered (door : Door) (hnormal : NormalOnce door.dep.platform)
    (hforeign : ∀ provider e, OAuth.client door provider = .error e → Foreign e) (f : Front)
    (hr : (Flows.lts door).Reachable f) (a : Ask door.dep.platform) (path : String)
    (hnew : a.Unseen door.dep f.hub.db) :
    ((∃ reply, respondFault path (answer door f a) = .reply reply) ∨
      (∃ refusal, RefusedAs path (answer door f a) refusal) ∨
      (a.cutOff = true ∨ Fails door f a) ∧ respondFault path (answer door f a) = .failed) ∧
    (Fails door f a → respondFault path (answer door f a) = .failed) := by
  have hhub := Flows.service_reachable hr
  refine ⟨?_, fails_failed hnormal hforeign⟩
  cases a with
  | call c stored =>
    exact (route_answered hnormal hhub path hnew).imp id (.imp id (.imp (.imp id .taken) id))
  | submit req body secret stored =>
    cases hres : (dbSession (submit f.hub.now ⟨f.hub.fresh, secret⟩ req door.dep body) f.hub.db f.hub.volume).1 with
    | ok reply =>
      simp only [answer, hres]
      exact .inl ⟨reply, rfl⟩
    | error e =>
      obtain ⟨refusal, rfl, hrenders⟩ := submit_raises (ready_reachable hhub hnew) hres
      simp only [answer, hres]
      exact .inr (.inl ⟨refusal, refusedAs hrenders⟩)
  | start provider pkce =>
    cases hclient : OAuth.client door provider with
    | error e =>
      exact .inr (.inr ⟨.inr (.unregistered hclient), fails_failed hnormal hforeign (.unregistered hclient)⟩)
    | ok client =>
      by_cases hsecret : door.settings.tokenSecret = ""
      · exact .inr (.inr ⟨.inr (.unset hsecret), fails_failed hnormal hforeign (.unset hsecret)⟩)
      · obtain ⟨url, hurl⟩ : ∃ url, OAuth.oauthStart door f.hub.now provider pkce = .ok url :=
          OAuth.oauthStart_ok hclient hsecret
        simp only [answer, hurl]
        exact .inl ⟨.redirect url, rfl⟩
  | callback cb stored foreign =>
    by_cases hsecret : door.settings.tokenSecret = ""
    · exact .inr (.inr ⟨.inr (.unread hsecret), fails_failed hnormal hforeign (.unread hsecret)⟩)
    · cases hp : OAuth.profileFrom door f.hub.now cb with
      | error e =>
        rcases OAuth.profileFrom_error hsecret hp with ⟨detail, rfl⟩ | ⟨verifier, hread, hanswer, hother⟩
        · exact .inr (.inl (unauthorized_answered (oauthCallback_error hp)))
        · exact .inr (.inr ⟨.inr (.broken hread hanswer hother),
            fails_failed hnormal hforeign (.broken hread hanswer hother)⟩)
      | ok profile =>
        have hends := route_answered (c := signingIn cb profile) hnormal hhub path hnew
        simp only [answer, oauthCallback_profile hp]
        refine hends.imp id (.imp id (.imp (fun hwhy => ?_) id))
        exact hwhy.imp (fun hcut => absurd hcut Bool.false_ne_true) (.takenBack hp)

theorem isSpace_toLower {c : Char} (h : PyStr.isSpace c = false) : PyStr.isSpace c.toLower = false := by
  by_cases hcapital : 'A' ≤ c ∧ c ≤ 'Z'
  · obtain ⟨hlow, hhigh⟩ := PyStr.toLower_capital hcapital
    exact PyStr.isSpace_of_graphic (by omega) (by omega)
  · rwa [PyStr.toLower_eq_self hcapital]

theorem plain_normalOnce : NormalOnce plain := by
  intro s
  have hlist : ∀ t : String, (plain.lower t).toList = t.toList.map Char.toLower := fun _ =>
    String.toList_ofList
  have hstrip : PyStr.strip (plain.lower (PyStr.strip s)) = plain.lower (PyStr.strip s) := by
    refine String.toList_inj.mp ?_
    have hstripped : (PyStr.strip s).toList = PyStr.stripOf PyStr.isSpace s.toList := String.toList_ofList
    rw [PyStr.strip, String.toList_ofList, hlist, hstripped]
    refine PyStr.stripOf_eq_self (fun c hc => ?_) fun c hc => ?_
    · rw [List.head?_map, Option.map_eq_some_iff] at hc
      obtain ⟨a, ha, rfl⟩ := hc
      exact isSpace_toLower (PyStr.stripOf_head ha)
    · rw [List.getLast?_map, Option.map_eq_some_iff] at hc
      obtain ⟨a, ha, rfl⟩ := hc
      exact isSpace_toLower (PyStr.stripOf_getLast ha)
  unfold Accounts.normaliseEmail
  rw [hstrip]
  refine String.toList_inj.mp ?_
  rw [hlist, hlist, List.map_map]
  exact List.map_congr_left fun c _ => PyStr.toLower_toLower c

/-! ## Traces -/

/-- A token that is not there. -/
def revoking : Call := asAlice (.tokensRevoke 99)

theorem revoking_stored : Stored forge.dep.platform revoking.body := nofun

theorem forge_foreign (provider : String) (e : Fault) (he : OAuth.client forge provider = .error e) :
    Foreign e := by
  have hclient : OAuth.client forge provider = if provider = "forge" then
      .ok ⟨fun state challenge => state ++ challenge⟩ else .error (.oauth2Error "no such provider") := rfl
  rw [hclient] at he
  split at he
  · cases he
  · cases he
    exact nofun

/-- Signed in, she asks for a token that is not there; a provider that is not there cannot be started. -/
theorem arrived_answered :
    (∃ refusal, RefusedAs "/v1/tokens/99" (answer forge arrived (.call revoking revoking_stored)) refusal) ∧
    respondFault "/oauth/other/start" (answer forge arrived (.start "other" ⟨"v", "c"⟩)) = .failed := by
  have hreachable : (Flows.lts forge).Reachable arrived :=
    ⟨front, [leaving, .callback returning], ⟨rfl, rfl⟩,
      .cons ⟨nofun, rfl⟩ (.cons ⟨returning_genuine, rfl⟩ (.nil _))⟩
  have hnew : Unseen forge.dep revoking.secret arrived.hub.db := by
    have hsessions : ∀ s ∈ arrived.hub.db.sessions.rows, s.tokenHash ≠ plain.hashToken ("sfh_s_" ++ "x") := by
      decide +kernel
    have htokens : ∀ t ∈ arrived.hub.db.tokens.rows, t.tokenHash ≠ plain.hashToken ("sfh_pat_" ++ "x") := by
      decide +kernel
    exact ⟨fun s hs _ => hsessions s hs, fun t ht _ => htokens t ht⟩
  constructor
  · have herror : (serve forge.dep revoking arrived.hub).1.toOption.isNone = true := by decide +kernel
    obtain ⟨⟨reply, hreply⟩ | hrefused | ⟨hcut | hfail, -⟩, -⟩ := answered forge plain_normalOnce forge_foreign
      arrived hreachable (.call revoking revoking_stored) "/v1/tokens/99" hnew
    · rw [answer] at hreply
      cases hres : (serve forge.dep revoking arrived.hub).1 with
      | ok reply => rw [hres] at herror; cases herror
      | error e =>
        rw [hres] at hreply
        cases e <;> cases hreply
    · exact hrefused
    · cases hcut
    · cases hfail with
      | taken htaken => cases htaken
  · have hunregistered : OAuth.client forge "other" = .error (.oauth2Error "no such provider") := rfl
    exact (answered forge plain_normalOnce forge_foreign arrived hreachable (.start "other" ⟨"v", "c"⟩)
      "/oauth/other/start" trivial).2 (.unregistered hunregistered)

end SpikeHub.L5.Answers
