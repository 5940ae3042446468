import SpikeHub.L5Runs.Service

/-!
# One account's requests and another's rows

What a request made for one account does, in its session and committed, to the
rows that belong to another: nothing (`isolated`), whether the request is
granted, refused or raises on the way.

A row is found by an id the request names, and then by its owner as well:
versions through their model, tokens by their account. The tokens of a chain
are found by the chain alone, and are one account's in every reachable state.
-/
namespace SpikeHub.L5.Tenants

open SpikeHub.Core SpikeHub.L1 SpikeHub.L2 SpikeHub.L3 SpikeHub.L4.Auth SpikeHub.L4.Uploads
open SpikeHub.L4.Routes SpikeHub.L5.Service
open SpikeHub.L5.Interleave (Hub)
open SpikeHub.L5.Requests (Call serve caller caller_some asAlice)
open SpikeHub.L5.Catalogue (unverified abcIntent)

/-- What belongs to the account is as it was. -/
structure Untouched (w : Uuid) (db db' : Db) : Prop where
  models : db'.models.select (fun m => m.ownerId = w) = db.models.select fun m => m.ownerId = w
  versions : db'.versions.select (db'.ownedBy w) = db.versions.select (db.ownedBy w)
  entries : db'.entries.select (fun e => e.userId = w) = db.entries.select fun e => e.userId = w
  tokens : db'.tokens.select (fun t => t.userId = w) = db.tokens.select fun t => t.userId = w
  sessions : db'.sessions.select (fun s => s.userId = w) = db.sessions.select fun s => s.userId = w

/-- The requests that are made for `u`: authenticated as it, or with a token of its to be exchanged. -/
inductive ActsFor (dep : Deployment) (h : Hub) (u : Uuid) (c : Call) : Prop
  | authenticated {user : User} :
      c.body.keepsUse = true → caller dep h c.req = some user → user.id = u → ActsFor dep h u c
  | refreshing {presented : String} {row : Token} :
      c.body = .refresh presented → row ∈ h.db.tokens →
      row.tokenHash = dep.platform.hashToken presented → row.userId = u → ActsFor dep h u c

/-- The request's own view of the database when its route ended. -/
def viewOf (dep : Deployment) (c : Call) (h : Hub) : Db :=
  viewAfter (route dep h.now ⟨h.fresh, c.secret⟩ c.req c.body) h.db h.volume

variable {dep : Deployment} {h : Hub} {c : Call} {u w : Uuid} {db db' db'' : Db} {fs : Volume}
  {now : Time} {r : Rand} {req : Presented} {user : User} {granted : List Scope} {config : Settings}
  {p : Platform}

theorem Untouched.refl (w : Uuid) (db : Db) : Untouched w db db := ⟨rfl, rfl, rfl, rfl, rfl⟩

theorem Untouched.trans (h : Untouched w db db') (h' : Untouched w db' db'') : Untouched w db db'' where
  models := h'.models.trans h.models
  versions := h'.versions.trans h.versions
  entries := h'.entries.trans h.entries
  tokens := h'.tokens.trans h.tokens
  sessions := h'.sessions.trans h.sessions

/-! ## Statements -/

theorem untouched_tokens {q : Token → Bool} {g : Token → Token} {hg}
    (hq : ∀ t ∈ db.tokens, q t = true → t.userId ≠ w) (hkeep : ∀ t, (g t).userId = t.userId) :
    Untouched w db { db with tokens := db.tokens.updateWhere q g hg } where
  models := rfl
  versions := rfl
  entries := rfl
  tokens := Table.select_updateWhere_of_not hg (fun t ht hqt => decide_eq_false (hq t ht hqt))
    fun t ht hqt => decide_eq_false (hkeep t ▸ hq t ht hqt)
  sessions := rfl

/-- One token of another account's. -/
theorem untouched_token {row : Token} {g : Token → Token} {hg} (hrow : row ∈ db.tokens)
    (hw : row.userId ≠ w) (hkeep : ∀ t, (g t).userId = t.userId) :
    Untouched w db { db with tokens := db.tokens.updateWhere (fun t => t.id = row.id) g hg } := by
  refine untouched_tokens (fun t ht hid => ?_) hkeep
  rw [db.tokens.eq_of_clash ht hrow (.inl (of_decide_eq_true hid))]
  exact hw

theorem untouched_sessions {q : Session → Bool} {g : Session → Session} {hg}
    (hq : ∀ s ∈ db.sessions, q s = true → s.userId ≠ w) (hkeep : ∀ s, (g s).userId = s.userId) :
    Untouched w db { db with sessions := db.sessions.updateWhere q g hg } where
  models := rfl
  versions := rfl
  entries := rfl
  tokens := rfl
  sessions := Table.select_updateWhere_of_not hg (fun s hs hqs => decide_eq_false (hq s hs hqs))
    fun s hs hqs => decide_eq_false (hkeep s ▸ hq s hs hqs)

theorem untouched_addToken {t : Token} (ht : t.userId ≠ w) (h : addToken t db = .ok db') :
    Untouched w db db' := by
  obtain ⟨hnew, rfl⟩ := addToken_ok h
  exact ⟨rfl, rfl, rfl, Table.select_insert_of_not hnew (decide_eq_false ht), rfl⟩

theorem untouched_addModel {m : HubModel} (hm : m.ownerId ≠ w) (h : addModel m db = .ok db') :
    Untouched w db db' := by
  obtain ⟨hnew, hgrow, rfl⟩ := addModel_ok h
  refine ⟨Table.select_insert_of_not hnew (decide_eq_false hm), ?_, rfl, rfl, rfl⟩
  exact Table.select_congr fun v hv => ownedBy_grow hgrow hv rfl

theorem untouched_addVersion {v : ModelVersion} (hv : db.ownedBy w v = false)
    (h : addVersion v db = .ok db') : Untouched w db db' := by
  obtain ⟨hnew, hkey, rfl⟩ := addVersion_ok h
  exact ⟨rfl, Table.select_insert_of_not (p := db.ownedBy w) hnew hv, rfl, rfl, rfl⟩

theorem untouched_setVersion {id : Uuid} {f : ModelVersion → ModelVersion} {hf : KeepsKeys f}
    (hid : ∀ v ∈ db.versions, v.id = id → db.ownedBy w v = false) :
    Untouched w db (setVersion db id f hf) := by
  refine ⟨rfl, ?_, rfl, rfl, rfl⟩
  refine Table.select_updateWhere_of_not (p := db.ownedBy w) hf.clash (fun v hv he => ?_) fun v hv he => ?_
  · exact hid v hv (of_decide_eq_true he)
  · rw [ownedBy_changed hf]
    exact hid v hv (of_decide_eq_true he)

theorem untouched_deleteVersions {ids : List Uuid}
    (hids : ∀ v ∈ db.versions, v.id ∈ ids → db.ownedBy w v = false) :
    Untouched w db (deleteVersions ids db) := by
  refine ⟨rfl, ?_, rfl, rfl, rfl⟩
  exact Table.select_delete_of_not (p := db.ownedBy w) fun v hv he => hids v hv (of_decide_eq_true he)

/-! ## The caller -/

theorem caller_untouched (h : CallerOf p now config req db user granted db') (hw : user.id ≠ w) :
    Untouched w db db' := by
  cases h with
  | bearer _ hacc => exact untouched_token hacc.mem (hacc.owner ▸ hw) fun _ => rfl
  | cookie _ _ hs =>
    obtain ⟨hrow, -, -, -, howner, -⟩ := Sessions.signedIn_some hs
    refine untouched_sessions (fun s hsm hid => ?_) fun _ => rfl
    rw [db.sessions.eq_of_clash hsm hrow (.inl (of_decide_eq_true hid)), ← howner]
    exact hw

/-- Work behind the write guard. -/
theorem writeUser_view {α : Type} {m : User → HubWork α}
    (hx : (currentUser p now config req).exec db fs = (.ok (user, granted), db', fs))
    (hcaller : Untouched w db db') (hm : Untouched w db' ((m user).exec db' fs).2.1) :
    Untouched w db ((writeUser p now config req >>= m).exec db fs).2.1 := by
  have hguard : (writeUser p now config req).exec db fs =
      ((checkScope .write granted).map fun _ => user, db', fs) := by
    unfold writeUser scopeGuard
    rw [Work.exec_bind_ok hx, Work.exec_bind, Work.exec_orRaise]
    cases checkScope .write granted <;> rfl
  refine Work.bind_view Untouched.trans ?_ fun a d' w' ha => ?_
  · rw [hguard]
    exact hcaller
  · rw [hguard] at ha
    cases hscope : checkScope .write granted with
    | error e => rw [hscope] at ha; cases ha
    | ok _ => rw [hscope] at ha; cases ha; exact hm

/-! ## Uploads -/

section
variable {free : Volume → Int} {ids : NewIds} {request : UploadRequest} {m : HubModel} {id : Uuid}
  {v : ModelVersion} {uploadId entryId : Uuid} {body : Body}

/-- A version of another account's is not `w`'s. -/
theorem ownedBy_other (hv : v ∈ db.versions) (ho : db.ownedBy u v = true) (hw : u ≠ w) :
    ∀ a ∈ db.versions, a.id = v.id → db.ownedBy w a = false := by
  intro a ha hid
  rw [version_eq ha hv hid, Bool.eq_false_iff]
  exact fun h => hw (owner_unique ho h)

theorem modelFor_untouched (hw : user.id ≠ w) :
    Untouched w db ((modelFor now id user request config).exec db fs).2.1 := by
  unfold modelFor
  rw [Work.query_bind]
  cases namedModel db user.id request.slug with
  | some found => exact .refl w db
  | none =>
    refine Work.check_view (.refl w db) fun _ _ => Work.return_view ?_
    exact Work.statement_view (.refl w db) fun d hadd => untouched_addModel hw hadd

theorem modelFor_owner {fs' : Volume}
    (hx : (modelFor now id user request config).exec db fs = (.ok m, db', fs')) :
    m ∈ db'.models ∧ m.ownerId = user.id := by
  obtain ⟨-, hfor⟩ := modelFor_ok hx
  cases hfor with
  | found hn =>
    obtain ⟨hm, hp⟩ := Table.find?_some hn
    exact ⟨hm, (of_decide_eq_true hp).1⟩
  | created =>
    rename_i hnew _ _ _
    exact ⟨Table.mem_insert_self hnew, rfl⟩

theorem openSlot_untouched (hm : m ∈ db.models) (hw : m.ownerId ≠ w) :
    Untouched w db ((openSlot now id m request config).exec db fs).2.1 := by
  have howned : db.ownedBy w (newVersion now id m.id request config) = false := by
    rw [Bool.eq_false_iff]
    intro ho
    obtain ⟨n, hn, hid, hown⟩ := ownedBy_iff.mp ho
    rw [model_eq hm hn hid.symm] at hw
    exact hw hown
  refine Work.check_view (.refl w db) fun _ _ => Work.return_view ?_
  exact Work.statement_view (.refl w db) fun d hadd => untouched_addVersion howned hadd

theorem reserve_untouched (hw : user.id ≠ w) :
    Untouched w db ((reserve now free ids user request config).exec db fs).2.1 := by
  have hsame := Untouched.refl w db
  unfold reserve
  refine Work.orRaise_view hsame fun _ _ => Work.orRaise_view hsame fun _ _ =>
    Work.orRaise_view hsame fun _ _ => Work.check_view hsame fun _ _ => Work.check_view hsame fun _ _ =>
    Work.check_view hsame fun _ _ => ?_
  refine Work.KeepsView.bind_view (fun _ _ => rfl) hsame fun _ _ => Work.orRaise_view hsame fun _ _ => ?_
  refine Work.bind_view Untouched.trans (modelFor_untouched hw) fun m d w' hx => ?_
  obtain ⟨hm, howner⟩ := modelFor_owner hx
  exact Work.check_view (.refl w d) fun _ _ => openSlot_untouched hm (howner ▸ hw)

theorem storeUploaded_untouched {key : String} {blob : StoredBlob}
    (hother : ∀ a ∈ db.versions, a.id = v.id → db.ownedBy w a = false) (hw : u ≠ w)
    (h : storeUploaded now entryId u v key blob db = .ok db') : Untouched w db db' := by
  obtain ⟨-, hnew, rfl⟩ := storeUploaded_ok h
  have hset : Untouched w db (setVersion db v.id (uploadedAs key) (uploadedAs_keys key)) :=
    untouched_setVersion hother
  exact hset.trans ⟨rfl, rfl, Table.select_insert_of_not hnew (decide_eq_false hw), rfl, rfl⟩

theorem receive_untouched (hw : u ≠ w) :
    Untouched w db ((receive now entryId uploadId u body).exec db fs).2.1 := by
  have hsame := Untouched.refl w db
  unfold receive
  refine Work.check_view hsame fun v hslot => ?_
  obtain ⟨hv, -, howned, -⟩ := reservedSlot_ok hslot
  have hother := ownedBy_other hv howned hw
  refine Work.KeepsView.bind_view stage_view hsame fun blob w₁ => ?_
  refine Work.bind_view Untouched.trans ?_ fun _ d w₂ hverify => ?_
  · rw [verifyOrAbandon_exec]
    cases checkMeasured v blob with
    | ok _ => exact hsame
    | error e =>
      exact untouched_deleteVersions fun a ha hid => hother a ha (List.mem_singleton.mp hid)
  · rw [verifyOrAbandon_exec] at hverify
    cases hm : checkMeasured v blob with
    | error e => rw [hm] at hverify; cases hverify
    | ok _ =>
      rw [hm] at hverify
      cases hverify
      refine Work.KeepsView.bind_view promote_view hsame fun key w₃ => ?_
      refine Work.return_view ?_
      exact Work.statement_view hsame fun d hstore => storeUploaded_untouched hother hw hstore

theorem publish_untouched (hv : v ∈ db.versions) (howned : db.ownedBy u v = true) (hw : u ≠ w) :
    Untouched w db ((publish now v config).exec db fs).2.1 := by
  have hsame := Untouched.refl w db
  refine Work.orRaise_view hsame fun _ _ => Work.return_view ?_
  refine Work.statement_view hsame fun d hset => ?_
  obtain ⟨-, rfl⟩ := updateVersion_ok hset
  exact untouched_setVersion (ownedBy_other hv howned hw)

end

/-! ## Tokens -/

theorem mint_untouched {d : Draw} {spec : Mint} (hw : spec.userId ≠ w) :
    Untouched w db ((mint p now d spec config).exec db fs).2.1 := by
  refine Work.return_view ?_
  exact Work.statement_view (.refl w db) fun d' hadd => untouched_addToken hw hadd

theorem issuePair_untouched {ds : PairDraws} {scopes : List Scope} {chain : Option Uuid}
    (hw : user.id ≠ w) :
    Untouched w db ((issuePair p now ds user scopes config chain).exec db fs).2.1 := by
  refine Work.bind_view Untouched.trans (mint_untouched hw) fun _ d w₁ _ => ?_
  exact Work.return_view (mint_untouched hw)

/-- An exchange touches the chain of the token, and a chain is one account's. -/
theorem rotate_untouched {ds : PairDraws} {presented : String} {row : Token}
    (hchains : ∀ t ∈ db.tokens, ∀ t' ∈ db.tokens, t.chainId = t'.chainId → t.userId = t'.userId)
    (hrow : row ∈ db.tokens) (hhash : row.tokenHash = p.hashToken presented) (hw : row.userId ≠ w) :
    Untouched w db ((rotate p now ds presented config).exec db fs).2.1 := by
  have hsame := Untouched.refl w db
  unfold rotate
  refine Work.check_view hsame fun found hfound => ?_
  obtain ⟨hmem, hfoundhash, -⟩ := exchangeable_ok hfound
  obtain rfl := db.tokens.eq_of_clash hrow hmem (.inr (hhash.trans hfoundhash.symm))
  refine Work.bind_view Untouched.trans ?_ fun _ d w₁ hreplay => ?_
  · rw [checkNotReplayed_exec]
    split
    · refine untouched_tokens (fun t ht hin => ?_) fun _ => rfl
      simp only [inChain, Bool.and_eq_true, decide_eq_true_eq] at hin
      rw [hchains t ht row hrow hin.1]
      exact hw
    · exact hsame
  · rw [checkNotReplayed_exec] at hreplay
    split at hreplay
    · cases hreplay
    cases hreplay
    refine Work.orRaise_view hsame fun _ _ => Work.check_view hsame fun owner howner => ?_
    obtain ⟨-, hid, -⟩ := activeOwner_ok.mp howner
    rw [Work.write_bind]
    refine Untouched.trans ?_ (issuePair_untouched (hid ▸ hw))
    exact untouched_token hrow hw fun _ => rfl

/-! ## Requests -/

/-- A route that ends in a commit commits its session's view, or nothing. -/
theorem committing_untouched {m : HubWork Reply}
    (hroute : route dep h.now ⟨h.fresh, c.secret⟩ c.req c.body = committing m)
    (hm : Untouched w h.db (m.exec h.db h.volume).2.1) :
    Untouched w h.db (viewOf dep c h) ∧ Untouched w h.db (serve dep c h).2.db := by
  have hdb : (serve dep c h).2.db = (dbSession (committing m) h.db h.volume).2.1 := by
    rw [← hroute]
    rfl
  constructor
  · rw [viewOf, hroute, viewAfter_commit]
    exact hm
  · rcases dbSession_view m h.db h.volume with hsame | hview
    · rw [hdb, hsame]
      exact .refl w h.db
    · rw [hdb, hview]
      exact hm

/-- A request authenticated as `user`. -/
theorem authenticated_untouched (hkeeps : c.body.keepsUse = true)
    (hcaller : caller dep h c.req = some user) (hw : user.id ≠ w) :
    Untouched w h.db (viewOf dep c h) ∧ Untouched w h.db (serve dep c h).2.db := by
  obtain ⟨granted, db₁, hx, hof⟩ := caller_some hcaller
  have hauth := caller_untouched hof hw
  obtain ⟨req, body, secret⟩ := c
  cases body with
  | revokeAll =>
    refine committing_untouched rfl ?_
    rw [Work.exec_bind_ok hx]
    refine hauth.trans (untouched_sessions (fun s _ hopen => ?_) fun _ => rfl)
    simp only [Sessions.openOf, Bool.and_eq_true, decide_eq_true_eq] at hopen
    rw [hopen.1]
    exact hw
  | tokensCreate body =>
    refine committing_untouched rfl ?_
    rw [Work.exec_bind_ok hx]
    exact hauth.trans (Work.return_view (mint_untouched hw))
  | tokensRevoke id =>
    refine committing_untouched rfl ?_
    rw [Work.exec_bind_ok hx]
    refine hauth.trans (Work.check_view (.refl w db₁) fun row hown => ?_)
    obtain ⟨hrow, -, howner, -⟩ := ownPat_ok hown
    exact untouched_token hrow (howner ▸ hw) fun _ => rfl
  | create intent =>
    refine committing_untouched rfl (writeUser_view hx hauth ?_)
    exact Work.return_view (reserve_untouched hw)
  | content uploadId declaresLength chunks =>
    refine committing_untouched rfl (writeUser_view hx hauth ?_)
    refine Work.orRaise_view (.refl w db₁) fun _ _ => ?_
    exact Work.return_view (receive_untouched hw)
  | commit uploadId =>
    refine committing_untouched rfl (writeUser_view hx hauth ?_)
    refine Work.check_view (.refl w db₁) fun v hown => ?_
    obtain ⟨hv, -, howned⟩ := ownedVersion_ok hown
    exact Work.return_view (publish_untouched hv howned hw)
  | _ => cases hkeeps

theorem refreshing_untouched (hi : Sound h) {presented : String} {row : Token}
    (hbody : c.body = .refresh presented) (hrow : row ∈ h.db.tokens)
    (hhash : row.tokenHash = dep.platform.hashToken presented) (hw : row.userId ≠ w) :
    Untouched w h.db (viewOf dep c h) ∧ Untouched w h.db (serve dep c h).2.db := by
  refine committing_untouched (congrArg (route dep h.now ⟨h.fresh, c.secret⟩ c.req) hbody) ?_
  exact Work.return_view (rotate_untouched hi.chains hrow hhash hw)

/-- **Tenant isolation**: no row of another account's is changed by a request
made for `u`, in its session or committed. -/
theorem isolated (dep : Deployment) (h : Hub) (hr : (lts dep).Reachable h) (u : Uuid) (c : Call)
    (hacts : ActsFor dep h u c) : ∀ w, w ≠ u →
      Untouched w h.db (viewOf dep c h) ∧ Untouched w h.db (serve dep c h).2.db := by
  intro w hne
  cases hacts with
  | authenticated hkeeps hcaller huser => exact authenticated_untouched hkeeps hcaller (huser ▸ hne.symm)
  | refreshing hbody hrow hhash huser =>
    exact refreshing_untouched (sound_reachable hr) hbody hrow hhash (huser ▸ hne.symm)

/-! ## Traces -/

/-- A request of bob's. -/
def asBob (body : Request) : Call := ⟨{ cookie := some "sfh_s_second" }, body, fun _ => "y"⟩

def bobProfile : OAuthProfile where
  provider := "forge"
  subject := "8"
  email := "bob@example.org"
  emailVerified := true
  username := "bob"

/-- Bob has signed up after alice, minted a token and reserved an upload. -/
def joined : Hub := after unverified signedUp
  [.service (.call ⟨{}, .oauthCallback bobProfile "", fun _ => "second"⟩),
    .service (.call (asBob (.tokensCreate { name := "ci" }))), .service (.call (asBob (.create abcIntent)))]

theorem joined_reachable : (lts unverified).Reachable joined := reachable_after _

theorem isolated_revokeAll :
    (joined.db.models.select (fun m => m.ownerId = 7) ≠ [] ∧
      joined.db.versions.select (joined.db.ownedBy 7) ≠ [] ∧
      joined.db.tokens.select (fun t => t.userId = 7) ≠ [] ∧
      joined.db.sessions.select (fun s => s.userId = 7) ≠ []) ∧
    Untouched 7 joined.db (viewOf unverified (asAlice .revokeAll) joined) ∧
      Untouched 7 joined.db (serve unverified (asAlice .revokeAll) joined).2.db := by
  have hcaller : (caller unverified joined (asAlice .revokeAll).req).any (·.id = 1) = true := by decide +kernel
  obtain ⟨user, hcaller, hid⟩ := (Option.any_eq_true _ _).mp hcaller
  exact ⟨by decide +kernel, isolated unverified joined joined_reachable 1 (asAlice .revokeAll)
    (.authenticated rfl hcaller (of_decide_eq_true hid)) 7 (by decide)⟩

end SpikeHub.L5.Tenants
