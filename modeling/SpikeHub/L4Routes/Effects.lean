import SpikeHub.L4Routes.Routes
import SpikeHub.L4Uploads.Frame

/-!
# What a request can do

`Effect` is what one request, run by itself, can have done to the committed
database: nothing, or what its route commits. `effect_of_route` is the
inversion every invariant about accounts and credentials is proved from.
-/
namespace SpikeHub.L4.Routes

open SpikeHub.Core SpikeHub.L1 SpikeHub.L2 SpikeHub.L4.Auth SpikeHub.L4.Uploads

variable {dep : Deployment} {now : Time} {r : Rand} {req : Presented} {db db' : Db} {fs fs' : Volume}
  {res : Except Raised Reply}

/-- A session opened for `user`, named by `cookie`. -/
structure OpensSession (dep : Deployment) (now : Time) (d : Draw) (user : User) (agent cookie : String)
    (db db' : Db) : Prop where
  row : ∃ h, db' = { db with
    sessions := db.sessions.insert (Sessions.opened dep.platform now d user dep.config agent) h }
  cookie : cookie = newToken "sfh_s_" d

/-- The row of a personal access token. -/
def patRow (dep : Deployment) (now : Time) (d : Draw) (user : User) (body : TokenBody) : Token :=
  Mint.row dep.platform now d dep.config ⟨user.id, .pat, body.knownScopes, none, body.name⟩

/-- The requests of an upload. -/
def Request.uploads : Request → Bool
  | .create _ | .content _ _ _ | .commit _ => true
  | _ => false

/-- The routes that need an account and end in a commit. -/
def Request.keepsUse : Request → Bool
  | .revokeAll | .tokensCreate _ | .tokensRevoke _ => true
  | body => body.uploads

/-- What `POST /v1/auth/refresh` draws. -/
def pairDraws (r : Rand) : PairDraws := ⟨r.draw 0, r.draw 1, r.base + 4⟩

inductive Effect (dep : Deployment) (now : Time) (r : Rand) (req : Presented) (db : Db) :
    Request → Except Raised Reply → Db → Prop
  | quiet {body : Request} {res : Except Raised Reply} :
      (∀ reply, res = .ok reply → reply.Quiet) → (body.keepsUse = true → ∃ e, res = .error e) →
      Effect dep now r req db body res db
  | registered {email password agent handle cookie : String} {user : User} {hu} {db' : Db} :
      user = Accounts.registered dep.platform r.base (Accounts.normaliseEmail dep.platform email)
        password (r.secret 0) handle dep.config →
      OpensSession dep now (r.draw 1) user agent cookie
        { db with users := db.users.insert user hu } db' →
      Effect dep now r req db (.register email password agent) (.ok (.signedIn cookie user.handle)) db'
  | loggedIn {email password agent cookie : String} {user : User} {db' : Db} :
      Accounts.signIn dep.platform email password db = .ok user →
      OpensSession dep now (r.draw 0) user agent cookie db db' →
      Effect dep now r req db (.login email password agent) (.ok (.signedIn cookie user.handle)) db'
  | loggedOut {cookie : String} :
      req.cookie = some cookie →
      Effect dep now r req db .logout (.ok .signedOut)
        (Sessions.endSessions now (fun s => s.tokenHash = dep.platform.hashToken cookie) db)
  | refreshed {presented : String} {user : User} {row : Token} {pair : IssuedPair} {db' : Db} :
      Accepted dep.platform now presented db user row → row.kind = .refresh →
      pair.accessToken = newToken (startOf .access) (r.draw 0) →
      pair.refreshToken = newToken (startOf .refresh) (r.draw 1) →
      AddedPair dep.platform now (pairDraws r) user row.scopes dep.config row.chainId
        (revokeTokens now (fun t => t.id = row.id) db) db' →
      Effect dep now r req db (.refresh presented) (.ok (.pair pair)) db'
  | linked {profile : OAuthProfile} {agent cookie : String} {user : User} {db₁ db' : Db} :
      Accounts.Linked dep.platform now ⟨r.base, r.base + 1⟩ profile dep.config db user db₁ →
      OpensSession dep now (r.draw 1) user agent cookie db₁ db' →
      Effect dep now r req db (.oauthCallback profile agent) (.ok (.signedIn cookie user.handle)) db'
  | endedAll {user : User} {granted : List Scope} {n : Nat} {db₁ : Db} :
      CallerOf dep.platform now dep.config req db user granted db₁ →
      Effect dep now r req db .revokeAll (.ok (.revoked n))
        (Sessions.endSessions now (Sessions.openOf user.id) db₁)
  | minted {body : TokenBody} {user : User} {granted : List Scope} {db₁ : Db} {h} :
      CallerOf dep.platform now dep.config req db user granted db₁ →
      Effect dep now r req db (.tokensCreate body)
        (.ok (.minted (newToken (startOf .pat) (r.draw 0)) body.name body.knownScopes))
        { db₁ with tokens := db₁.tokens.insert (patRow dep now (r.draw 0) user body) h }
  | revokedPat {id : Uuid} {user : User} {granted : List Scope} {row : Token} {db₁ : Db} :
      CallerOf dep.platform now dep.config req db user granted db₁ →
      row ∈ db₁.tokens → row.id = id → row.userId = user.id → row.kind = .pat →
      Effect dep now r req db (.tokensRevoke id) (.ok .done)
        (revokeTokens now (fun t => t.id = row.id) db₁)
  | uploaded {body : Request} {reply : Reply} {user : User} {granted : List Scope} {db₁ db' : Db} :
      body.uploads = true → CallerOf dep.platform now dep.config req db user granted db₁ →
      Scope.write ∈ granted →
      SameAuth db₁ db' → reply.Quiet → Effect dep now r req db body (.ok reply) db'
  | downloaded {handle slug version url : String} {db' : Db} :
      SameAuth db db' →
      Effect dep now r req db (.download handle slug version) (.ok (.redirect url)) db'

theorem quiet_error {body : Request} {e : Raised} : Effect dep now r req db body (.error e) db :=
  .quiet (fun _ h => by cases h) fun _ => ⟨e, rfl⟩

theorem start_opens {d : Draw} {user : User} {agent cookie : String}
    (h : (Sessions.start dep.platform now d user dep.config agent).exec db fs = (.ok cookie, db', fs')) :
    OpensSession dep now d user agent cookie db db' := by
  obtain ⟨-, hc, hs⟩ := Sessions.start_ok h
  exact ⟨hs, hc⟩

theorem writeUser_caller {user : User}
    (h : (writeUser dep.platform now dep.config req).exec db fs = (.ok user, db', fs')) :
    ∃ granted, CallerOf dep.platform now dep.config req db user granted db' ∧ Scope.write ∈ granted := by
  obtain ⟨granted, hx, hscope⟩ := scopeGuard_ok h
  exact ⟨granted, (currentUser_ok hx).2, hscope⟩

theorem effect_of_register {email password agent : String}
    (h : dbSession (register dep now r email password agent) db fs = (res, db', fs')) :
    Effect dep now r req db (.register email password agent) res db' := by
  rcases committing_cases h with ⟨e, rfl, rfl⟩ | ⟨reply, rfl, hx⟩
  · exact quiet_error
  obtain ⟨user, d₁, w₁, h₁, hrest⟩ := Work.exec_bind_eq_ok hx
  obtain ⟨rfl, hu, rfl, hreg⟩ := Accounts.register_ok h₁
  obtain ⟨cookie, d₂, w₂, h₂, hrest⟩ := Work.exec_bind_eq_ok hrest
  have hopen := start_opens h₂
  cases hrest
  exact .registered hreg hopen

theorem effect_of_login {email password agent : String}
    (h : dbSession (login dep now r email password agent) db fs = (res, db', fs')) :
    Effect dep now r req db (.login email password agent) res db' := by
  rcases committing_cases h with ⟨e, rfl, rfl⟩ | ⟨reply, rfl, hx⟩
  · exact quiet_error
  obtain ⟨user, hsign, hrest⟩ := Work.check_bind_eq_ok hx
  obtain ⟨cookie, d₂, w₂, h₂, hrest⟩ := Work.exec_bind_eq_ok hrest
  have hopen := start_opens h₂
  cases hrest
  exact .loggedIn hsign hopen

theorem effect_of_refresh {presented : String}
    (h : dbSession (refresh dep now r presented) db fs = (res, db', fs')) :
    Effect dep now r req db (.refresh presented) res db' := by
  rcases committing_cases h with ⟨e, rfl, rfl⟩ | ⟨reply, rfl, hx⟩
  · exact quiet_error
  obtain ⟨pair, d₁, w₁, h₁, hrest⟩ := Work.exec_bind_eq_ok hx
  obtain ⟨-, ha, hr, user, row, hacc, hkind, hadd⟩ := rotate_ok h₁
  cases hrest
  exact .refreshed hacc hkind ha hr hadd

theorem effect_of_oauthCallback {profile : OAuthProfile} {agent : String}
    (h : dbSession (oauthCallback dep now r profile agent) db fs = (res, db', fs')) :
    Effect dep now r req db (.oauthCallback profile agent) res db' := by
  rcases committing_cases h with ⟨e, rfl, rfl⟩ | ⟨reply, rfl, hx⟩
  · exact quiet_error
  obtain ⟨user, d₁, w₁, h₁, hrest⟩ := Work.exec_bind_eq_ok hx
  obtain ⟨-, hlink⟩ := Accounts.linkOrCreate_ok h₁
  obtain ⟨cookie, d₂, w₂, h₂, hrest⟩ := Work.exec_bind_eq_ok hrest
  have hopen := start_opens h₂
  cases hrest
  exact .linked hlink hopen

theorem effect_of_revokeAll
    (h : dbSession (revokeAll dep now req) db fs = (res, db', fs')) :
    Effect dep now r req db .revokeAll res db' := by
  rcases committing_cases h with ⟨e, rfl, rfl⟩ | ⟨reply, rfl, hx⟩
  · exact quiet_error
  obtain ⟨⟨user, granted⟩, d₁, w₁, h₁, hrest⟩ := Work.exec_bind_eq_ok hx
  obtain ⟨-, hcaller⟩ := currentUser_ok h₁
  obtain ⟨n, d₂, w₂, h₂, hrest⟩ := Work.exec_bind_eq_ok hrest
  obtain ⟨-, rfl⟩ := Sessions.revokeAll_ok h₂
  cases hrest
  exact .endedAll hcaller

theorem effect_of_tokensCreate {body : TokenBody}
    (h : dbSession (tokensCreate dep now r req body) db fs = (res, db', fs')) :
    Effect dep now r req db (.tokensCreate body) res db' := by
  rcases committing_cases h with ⟨e, rfl, rfl⟩ | ⟨reply, rfl, hx⟩
  · exact quiet_error
  obtain ⟨⟨user, granted⟩, d₁, w₁, h₁, hrest⟩ := Work.exec_bind_eq_ok hx
  obtain ⟨-, hcaller⟩ := currentUser_ok h₁
  obtain ⟨plaintext, d₂, w₂, h₂, hrest⟩ := Work.exec_bind_eq_ok hrest
  obtain ⟨-, rfl, hm, rfl⟩ := mint_ok h₂
  cases hrest
  exact .minted hcaller

theorem ownPat_ok {userId tokenId : Uuid} {row : Token} (h : ownPat userId tokenId db = .ok row) :
    row ∈ db.tokens ∧ row.id = tokenId ∧ row.userId = userId ∧ row.kind = .pat := by
  unfold ownPat refuse at h
  split at h
  · rename_i found hf
    cases h
    obtain ⟨hm, hp⟩ := Table.find?_some hf
    exact ⟨hm, by simpa using hp⟩
  · cases h

theorem effect_of_tokensRevoke {id : Uuid}
    (h : dbSession (tokensRevoke dep now req id) db fs = (res, db', fs')) :
    Effect dep now r req db (.tokensRevoke id) res db' := by
  rcases committing_cases h with ⟨e, rfl, rfl⟩ | ⟨reply, rfl, hx⟩
  · exact quiet_error
  obtain ⟨⟨user, granted⟩, d₁, w₁, h₁, hrest⟩ := Work.exec_bind_eq_ok hx
  obtain ⟨-, hcaller⟩ := currentUser_ok h₁
  obtain ⟨row, hown, hrest⟩ := Work.check_bind_eq_ok hrest
  obtain ⟨hm, hid, howner, hkind⟩ := ownPat_ok hown
  rw [Work.write_bind] at hrest
  cases hrest
  exact .revokedPat hcaller hm hid howner hkind

theorem effect_of_logout
    (h : dbSession (logout dep now req) db fs = (res, db', fs')) :
    Effect dep now r req db .logout res db' := by
  unfold logout at h
  split at h
  · rename_i cookie hc
    cases h
    exact .loggedOut (Option.filter_eq_some_iff.mp hc).1
  · cases h
    exact .quiet (fun reply hreply => by cases hreply; exact ⟨rfl, rfl⟩) fun hk => by cases hk

/-- A route that commits nothing and hands out nothing. -/
theorem effect_of_reading {body : Request} {m : AuthWork Reply} (hbody : body.keepsUse = false)
    (hm : ∀ d w reply d' w', m.exec d w = (.ok reply, d', w') → reply.Quiet)
    (h : dbSession (Route.session m) db fs = (res, db', fs')) : Effect dep now r req db body res db' := by
  rw [dbSession_session] at h
  rcases hx : m.exec db fs with ⟨out, d', w'⟩
  rw [hx] at h
  simp only [Prod.mk.injEq] at h
  obtain ⟨rfl, rfl, rfl⟩ := h
  refine .quiet (fun reply hreply => ?_) fun hk => by rw [hbody] at hk; cases hk
  rw [hreply] at hx
  exact hm _ _ _ _ _ hx

theorem effect_of_tokensIndex
    (h : dbSession (tokensIndex dep now req) db fs = (res, db', fs')) :
    Effect dep now r req db .tokensIndex res db' := by
  refine effect_of_reading rfl (fun d w reply d' w' hx => ?_) h
  obtain ⟨⟨user, granted⟩, d₁, w₁, h₁, hrest⟩ := Work.exec_bind_eq_ok hx
  cases hrest
  exact ⟨rfl, rfl⟩

theorem effect_of_me
    (h : dbSession (me dep now req) db fs = (res, db', fs')) :
    Effect dep now r req db .me res db' := by
  refine effect_of_reading rfl (fun d w reply d' w' hx => ?_) h
  obtain ⟨⟨user, granted⟩, d₁, w₁, h₁, hrest⟩ := Work.exec_bind_eq_ok hx
  cases hrest
  exact ⟨rfl, rfl⟩

/-- A route behind the write guard, whose work keeps the credentials. -/
theorem effect_of_writing {body : Request} {m : User → HubWork Reply} (hbody : body.uploads = true)
    (hkeep : ∀ user, KeepsAuth (m user))
    (hquiet : ∀ user d w reply d' w', (m user).exec d w = (.ok reply, d', w') → reply.Quiet)
    (h : dbSession (committing do
      let user ← writeUser dep.platform now dep.config req
      m user) db fs = (res, db', fs')) : Effect dep now r req db body res db' := by
  rcases committing_cases h with ⟨e, rfl, rfl⟩ | ⟨reply, rfl, hx⟩
  · exact quiet_error
  obtain ⟨user, d₁, w₁, h₁, hrest⟩ := Work.exec_bind_eq_ok hx
  obtain ⟨granted, hcaller, hscope⟩ := writeUser_caller h₁
  have hsame := hkeep user d₁ w₁
  rw [hrest] at hsame
  exact .uploaded hbody hcaller hscope hsame (hquiet _ _ _ _ _ _ hrest)

theorem effect_of_create {intent : UploadIntent}
    (h : dbSession (create dep now r req intent) db fs = (res, db', fs')) :
    Effect dep now r req db (.create intent) res db' := by
  refine effect_of_writing rfl (fun user => ?_) (fun user d w reply d' w' hx => ?_) h
  · exact keepsAuth_bind reserve_keepsAuth fun _ => keepsAuth_view fun _ _ => rfl
  · obtain ⟨slot, d₁, w₁, h₁, hrest⟩ := Work.exec_bind_eq_ok hx
    cases hrest
    exact ⟨rfl, rfl⟩

theorem effect_of_content {uploadId : Uuid} {declaresLength : Bool} {chunks : Body}
    (h : dbSession (content dep now r req uploadId declaresLength chunks) db fs = (res, db', fs')) :
    Effect dep now r req db (.content uploadId declaresLength chunks) res db' := by
  refine effect_of_writing rfl (fun user => ?_) (fun user d w reply d' w' hx => ?_) h
  · exact keepsAuth_then (fun _ _ => rfl) fun _ =>
      keepsAuth_bind receive_keepsAuth fun _ => keepsAuth_view fun _ _ => rfl
  · obtain ⟨_, -, hx⟩ := Work.orRaise_bind_eq_ok hx
    obtain ⟨version, d₁, w₁, h₁, hrest⟩ := Work.exec_bind_eq_ok hx
    cases hrest
    exact ⟨rfl, rfl⟩

theorem effect_of_commit {uploadId : Uuid}
    (h : dbSession (commit dep now req uploadId) db fs = (res, db', fs')) :
    Effect dep now r req db (.commit uploadId) res db' := by
  refine effect_of_writing rfl (fun user => ?_) (fun user d w reply d' w' hx => ?_) h
  · exact keepsAuth_then (fun _ _ => rfl) fun _ =>
      keepsAuth_bind publish_keepsAuth fun _ => keepsAuth_view fun _ _ => rfl
  · obtain ⟨version, hown, hx⟩ := Work.check_bind_eq_ok hx
    obtain ⟨published, d₁, w₁, h₁, hrest⟩ := Work.exec_bind_eq_ok hx
    cases hrest
    exact ⟨rfl, rfl⟩

theorem effect_of_catalogIndex
    (h : dbSession (catalogIndex dep) db fs = (res, db', fs')) :
    Effect dep now r req db .catalogIndex res db' := by
  refine effect_of_reading rfl (fun d w reply d' w' hx => ?_) h
  cases hx
  exact ⟨rfl, rfl⟩

theorem effect_of_listModels {listing : Listing}
    (h : dbSession (listModels dep listing) db fs = (res, db', fs')) :
    Effect dep now r req db (.listModels listing) res db' := by
  refine effect_of_reading rfl (fun d w reply d' w' hx => ?_) h
  cases hx
  exact ⟨rfl, rfl⟩

theorem effect_of_showModel {handle slug : String}
    (h : dbSession (showModel handle slug) db fs = (res, db', fs')) :
    Effect dep now r req db (.showModel handle slug) res db' := by
  refine effect_of_reading rfl (fun d w reply d' w' hx => ?_) h
  obtain ⟨row, -, hrest⟩ := Work.check_bind_eq_ok hx
  cases hrest
  exact ⟨rfl, rfl⟩

theorem effect_of_download {handle slug version : String}
    (h : dbSession (download dep handle slug version) db fs = (res, db', fs')) :
    Effect dep now r req db (.download handle slug version) res db' := by
  rcases committing_cases h with ⟨e, rfl, rfl⟩ | ⟨reply, rfl, hx⟩
  · exact quiet_error
  obtain ⟨row, -, hrest⟩ := Work.check_bind_eq_ok hx
  obtain ⟨d₁, hset, hrest⟩ := Work.statement_bind_eq_ok hrest
  obtain ⟨-, rfl⟩ := updateVersion_ok hset
  cases hrest
  exact .downloaded ⟨rfl, rfl, rfl, rfl⟩

/-- What a request did, whatever it asked for. -/
theorem effect_of_route {body : Request}
    (h : dbSession (route dep now r req body) db fs = (res, db', fs')) :
    Effect dep now r req db body res db' := by
  cases body with
  | register => exact effect_of_register h
  | login => exact effect_of_login h
  | logout => exact effect_of_logout h
  | refresh => exact effect_of_refresh h
  | oauthCallback => exact effect_of_oauthCallback h
  | revokeAll => exact effect_of_revokeAll h
  | tokensIndex => exact effect_of_tokensIndex h
  | tokensCreate => exact effect_of_tokensCreate h
  | tokensRevoke => exact effect_of_tokensRevoke h
  | me => exact effect_of_me h
  | create => exact effect_of_create h
  | content => exact effect_of_content h
  | commit => exact effect_of_commit h
  | catalogIndex => exact effect_of_catalogIndex h
  | listModels => exact effect_of_listModels h
  | showModel => exact effect_of_showModel h
  | download => exact effect_of_download h

end SpikeHub.L4.Routes
