import SpikeHub.Core.History
import SpikeHub.L5Runs.Service

/-!
# What a deployment lets happen

The policy of a deployment, as every run from an empty database keeps it: who
comes to own a model (`published_by_vouched`), what is ever shown and under
which label (`labels_are_honest`), which credentials are ever handed out
(`only_personal_tokens`).

A path the service has no code for is one no run takes. Nothing sets
`email_verified` of an account that is there, so an account without a provider
never publishes; nothing moves a version on from `VERIFYING`; nothing starts a
chain of access and refresh tokens.
-/
namespace SpikeHub.L5.Policy

open SpikeHub.Core SpikeHub.L1 SpikeHub.L2 SpikeHub.L4.Auth SpikeHub.L4.Uploads SpikeHub.L4.Catalog
open SpikeHub.L4.Routes SpikeHub.L5.Service
open SpikeHub.L5.Interleave (Hub)
open SpikeHub.L5.Requests (Call serve serve_effect serve_renewed asAlice)
open SpikeHub.L5.Catalogue (swept swept_db serve_rowEffect unverified uploading abcIntent)

variable {dep : Deployment} {h h' h₀ : Hub} {l : Lbl} {ls : List Lbl} {c : Call} {db db' : Db}
  {fs : Volume} {now : Time} {r : Rand} {req : Presented} {body : Request} {res : Except Raised Reply}
  {id : Uuid} {email : String}

/-! ## A trace -/

/-- Alice signs in with her provider, publishes the three bytes and mints a token. -/
def publishing : List Lbl :=
  [.service (.call ⟨{}, .oauthCallback aliceProfile "", fun _ => "first"⟩)] ++
    (uploading abcIntent 8).map .service ++ [.service (.call (asAlice (.tokensCreate { name := "ci" })))]

def released : Hub := after unverified blank publishing

theorem released_run : (lts unverified).Run blank publishing released := run_after unverified blank publishing

theorem released_reachable : (lts unverified).Reachable released := ⟨blank, publishing, rfl, released_run⟩

/-! ## Accounts -/

/-- An account as a request creates it. -/
structure NewAccount (dep : Deployment) (body : Request) (u : User) : Prop where
  gate : u.canPublish = true → dep.config.publishingGate = .open
  vouched : u.emailVerified = true → ∃ profile agent, body = .oauthCallback profile agent ∧
    profile.emailVerified = true ∧ Accounts.normaliseEmail dep.platform profile.email = u.email

theorem newAccount_effect (h : Effect dep now r req db body res db') :
    ∀ u ∈ db'.users, u ∈ db.users ∨ NewAccount dep body u := by
  have hsame : ∀ {db' : Db}, db'.users = db.users → ∀ u ∈ db'.users, u ∈ db.users ∨ NewAccount dep body u :=
    fun husers u hu => .inl (husers ▸ hu)
  cases h with
  | quiet => exact hsame rfl
  | registered hreg hopen =>
    rename_i hnew
    obtain ⟨_, rfl⟩ := hopen.row
    intro u hu
    rcases (Table.mem_insert (h := hnew)).mp hu with hold | rfl
    · exact .inl hold
    · rw [hreg]
      exact .inr ⟨fun hgate => of_decide_eq_true hgate, nofun⟩
  | loggedIn _ hopen =>
    obtain ⟨_, rfl⟩ := hopen.row
    exact hsame rfl
  | loggedOut => exact hsame rfl
  | refreshed _ _ _ _ hadd =>
    obtain ⟨_, _, _, _, rfl⟩ := hadd.rows
    exact hsame rfl
  | linked hlink hopen =>
    obtain ⟨hsession, rfl⟩ := hopen.row
    cases hlink with
    | known => exact hsame rfl
    | adopted => exact hsame rfl
    | created _ _ _ hprofiled =>
      rename_i hnew hidentity
      intro u hu
      rcases (Table.mem_insert (h := hnew)).mp hu with hold | rfl
      · exact .inl hold
      · rw [hprofiled]
        exact .inr ⟨fun hgate => of_decide_eq_true hgate, fun hverified => ⟨_, _, rfl, hverified, rfl⟩⟩
  | endedAll hcaller | minted hcaller | revokedPat hcaller => exact hsame hcaller.sameUsers
  | uploaded _ hcaller _ hauth => exact hsame (hauth.users.trans hcaller.sameUsers)
  | downloaded hauth => exact hsame hauth.users

/-- A provider's sign-in whose profile says the address was verified. -/
def Vouches (dep : Deployment) (email : String) (_ : Hub) (l : Lbl) : Prop :=
  ∃ c profile agent, l = .service (.call c) ∧ c.body = .oauthCallback profile agent ∧
    profile.emailVerified = true ∧ Accounts.normaliseEmail dep.platform profile.email = email

/-- An operator lets the account publish. -/
def Lets (id : Uuid) (_ : Hub) (l : Lbl) : Prop :=
  ∃ standing, l = .account id standing ∧ standing.canPublish = true

/-- The account's address is recorded as verified. -/
def Proven (id : Uuid) (email : String) (h : Hub) : Prop :=
  ∃ u ∈ h.db.users, u.id = id ∧ u.emailVerified = true ∧ u.email = email

def Allowed (id : Uuid) (h : Hub) : Prop := ∃ u ∈ h.db.users, u.id = id ∧ u.canPublish = true

theorem swept_users (h : Hub) : (swept h).db.users = h.db.users := by
  rw [swept_db]
  rfl

theorem swept_models (h : Hub) : (swept h).db.models = h.db.models := by
  rw [swept_db]
  rfl

theorem proven_step (hs : (lts dep).step h l h') (hp : Proven id email h') :
    Proven id email h ∨ Vouches dep email h l := by
  obtain ⟨u, hu, hid, hverified, hemail⟩ := hp
  cases hs
  cases l with
  | account a standing =>
    obtain ⟨a, ha, hau⟩ := mem_setStanding.mp hu
    refine .inl ⟨a, ha, ?_⟩
    split at hau
    · rw [← hau] at hid hverified hemail
      exact ⟨hid, hverified, hemail⟩
    · rw [hau]
      exact ⟨hid, hverified, hemail⟩
  | moderate => exact .inl ⟨u, hu, hid, hverified, hemail⟩
  | service l =>
    cases l with
    | tick => exact .inl ⟨u, hu, hid, hverified, hemail⟩
    | call c =>
      rcases newAccount_effect (serve_effect dep c h) u hu with hold | hnew
      · exact .inl ⟨u, hold, hid, hverified, hemail⟩
      · obtain ⟨profile, agent, hbody, hvouched, haddress⟩ := hnew.vouched hverified
        exact .inr ⟨c, profile, agent, rfl, hbody, hvouched, haddress.trans hemail⟩
    | sweep => exact .inl ⟨u, swept_users h ▸ hu, hid, hverified, hemail⟩

/-- Nothing takes it back. -/
theorem proven_keeps (hs : (lts dep).step h l h') (hp : Proven id email h) : Proven id email h' := by
  obtain ⟨u, hu, hrow⟩ := hp
  cases hs
  cases l with
  | account a standing =>
    refine ⟨_, mem_setStanding.mpr ⟨u, hu, rfl⟩, ?_⟩
    split
    · exact hrow
    · exact hrow
  | moderate => exact ⟨u, hu, hrow⟩
  | service l =>
    cases l with
    | tick => exact ⟨u, hu, hrow⟩
    | call c => exact ⟨u, (serve_renewed dep c h).carries.users u hu, hrow⟩
    | sweep => exact ⟨u, (swept_users h).symm ▸ hu, hrow⟩

theorem allowed_step (hgate : dep.config.publishingGate = .invite) (hs : (lts dep).step h l h')
    (ha : Allowed id h') : Allowed id h ∨ Lets id h l := by
  obtain ⟨u, hu, hid, hmay⟩ := ha
  cases hs
  cases l with
  | account a standing =>
    obtain ⟨b, hb, hbu⟩ := mem_setStanding.mp hu
    split at hbu
    · rename_i hba
      rw [← hbu] at hid hmay
      rw [decide_eq_true_eq] at hba
      exact .inr ⟨standing, by rw [← hba, ← hid]; rfl, hmay⟩
    · exact .inl ⟨b, hb, hbu ▸ hid, hbu ▸ hmay⟩
  | moderate => exact .inl ⟨u, hu, hid, hmay⟩
  | service l =>
    cases l with
    | tick => exact .inl ⟨u, hu, hid, hmay⟩
    | call c =>
      rcases newAccount_effect (serve_effect dep c h) u hu with hold | hnew
      · exact .inl ⟨u, hold, hid, hmay⟩
      · rw [hnew.gate hmay] at hgate
        cases hgate
    | sweep => exact .inl ⟨u, swept_users h ▸ hu, hid, hmay⟩

/-! ## Who publishes -/

def Owns (id : Uuid) (h : Hub) : Prop := ∃ m ∈ h.db.models, m.ownerId = id

/-- The account may publish when the step is taken. -/
def Publishes (dep : Deployment) (id : Uuid) (h : Hub) (_ : Lbl) : Prop :=
  ∃ u ∈ h.db.users, u.id = id ∧ u.emailVerified = true ∧
    (dep.config.publishingGate = .open ∨ u.canPublish = true)

theorem owns_step (hs : (lts dep).step h l h') (ho : Owns id h') : Owns id h ∨ Publishes dep id h l := by
  obtain ⟨m, hm, howner⟩ := ho
  cases hs
  cases l with
  | account => exact .inl ⟨m, hm, howner⟩
  | moderate =>
    obtain ⟨a, ha, ham⟩ := mem_setModel.mp hm
    refine .inl ⟨a, ha, ?_⟩
    rw [← howner, ← ham]
    split
    · rfl
    · rfl
  | service l =>
    cases l with
    | tick => exact .inl ⟨m, hm, howner⟩
    | sweep => exact .inl ⟨m, swept_models h ▸ hm, howner⟩
    | call c =>
      have hrow := serve_rowEffect dep c h
      have hmodels : m ∈ (serve dep c h).2.db.models := hm
      generalize (serve dep c h).2.db = db' at hrow hmodels
      generalize (serve dep c h).1 = res at hrow
      obtain ⟨req, body, secret⟩ := c
      dsimp only at hrow
      cases hrow with
      | same hsame => exact .inl ⟨m, hsame.models ▸ hmodels, howner⟩
      | reserved hx _ hgranted =>
        obtain ⟨-, hcaller⟩ := currentUser_ok hx
        rcases hgranted.models hmodels with hold | rfl
        · exact .inl ⟨m, hcaller.sameRows.models ▸ hold, howner⟩
        · obtain ⟨hverified, hgate⟩ := checkPublisher_ok.mp hgranted.publisher
          exact .inr ⟨_, hcaller.account.1, howner, hverified, hgate⟩
      | stored hsame _ hstore =>
        obtain ⟨-, _, rfl⟩ := storeUploaded_ok hstore
        exact .inl ⟨m, hsame.models ▸ hmodels, howner⟩
      | published hsame => exact .inl ⟨m, hsame.models ▸ hmodels, howner⟩
      | counted => exact .inl ⟨m, hmodels, howner⟩

theorem empty_of_start (hstart : Start h) : (∀ u, u ∉ h.db.users) ∧ ∀ m, m ∉ h.db.models := by
  unfold Start at hstart
  rw [hstart]
  exact ⟨nofun, nofun⟩

/-- What came about in a run from an empty database. -/
theorem sometime_of_start {R : Hub → Prop} {Q : Hub → Lbl → Prop}
    (hR : ∀ s l s', (lts dep).step s l s' → R s' → R s ∨ Q s l) (hrun : (lts dep).Run h₀ ls h)
    (hstart : ¬ R h₀) (hend : R h) : (lts dep).Sometime Q h₀ ls h := by
  have hsince := hrun.since (I := fun _ => True) (fun _ _ _ _ _ => trivial) (fun s l s' _ => hR s l s')
    trivial hend
  exact hsince.resolve_left hstart

/-- **Only vouched accounts publish**: whoever owns a model signed in with a
provider that had verified the account's address, and on an invite-only
deployment an operator let the account publish. -/
theorem published_by_vouched (dep : Deployment) (h₀ h : Hub) (ls : List Lbl) (hstart : Start h₀)
    (hrun : (lts dep).Run h₀ ls h) (m : HubModel) (hm : m ∈ h.db.models) :
    ∃ owner ∈ h.db.users, owner.id = m.ownerId ∧ owner.emailVerified = true ∧
      (lts dep).Sometime (Vouches dep owner.email) h₀ ls h ∧
      (dep.config.publishingGate = .invite → (lts dep).Sometime (Lets owner.id) h₀ ls h) := by
  obtain ⟨hnouser, hnomodel⟩ := empty_of_start hstart
  have hpublished : (lts dep).Sometime (Publishes dep m.ownerId) h₀ ls h :=
    sometime_of_start (R := Owns m.ownerId) (fun s l s' => owns_step) hrun
      (fun ho => by obtain ⟨n, hn, -⟩ := ho; exact hnomodel n hn) ⟨m, hm, rfl⟩
  obtain ⟨pre, l, post, t, t', rfl, hpre, ⟨u, hu, hid, hverified, hgate⟩, hs, hpost⟩ := hpublished.split
  have hproven : Proven m.ownerId u.email t := ⟨u, hu, hid, hverified, rfl⟩
  have hend : Proven m.ownerId u.email h :=
    (LTS.Run.cons hs hpost).keeps (fun _ _ _ hp hs => proven_keeps hs hp) hproven
  obtain ⟨owner, howner, hoid, hoverified, hemail⟩ := hend
  refine ⟨owner, howner, hoid, hoverified, ?_, fun hinvite => ?_⟩
  · have hvouched : (lts dep).Sometime (Vouches dep u.email) h₀ pre t :=
      sometime_of_start (fun s l s' => proven_step) hpre
        (fun hp => by obtain ⟨a, ha, -⟩ := hp; exact hnouser a ha) hproven
    rw [hemail]
    exact hvouched.then_run (.cons hs hpost)
  · have hmay : u.canPublish = true := by
      rcases hgate with hopen | hmay
      · rw [hinvite] at hopen
        cases hopen
      · exact hmay
    have hlet : (lts dep).Sometime (Lets m.ownerId) h₀ pre t :=
      sometime_of_start (fun s l s' => allowed_step hinvite) hpre
        (fun ha => by obtain ⟨a, ha, -⟩ := ha; exact hnouser a ha) ⟨u, hu, hid, hmay⟩
    rw [hoid]
    exact hlet.then_run (.cons hs hpost)

theorem released_vouched : ∃ m ∈ released.db.models, ∃ owner ∈ released.db.users,
    owner.id = m.ownerId ∧ owner.emailVerified = true ∧
      (lts unverified).Sometime (Vouches unverified owner.email) blank publishing released := by
  obtain ⟨m, hm⟩ : ∃ m, m ∈ released.db.models.rows :=
    List.exists_mem_of_ne_nil _ (List.ne_nil_of_length_pos (by decide +kernel))
  obtain ⟨owner, howner, hid, hverified, hvouched, -⟩ :=
    published_by_vouched unverified blank released publishing rfl released_run m hm
  exact ⟨m, hm, owner, howner, hid, hverified, hvouched⟩

/-! ## What is shown -/

/-- A version as the service can have left it: it is visible only where no
verification is required, and then it says that nothing was checked. -/
def Honest (dep : Deployment) (v : ModelVersion) : Prop :=
  v.state = .reserved ∨ v.state = .uploaded ∨ v.state = .verifying ∨
    (v.state = .published ∧ dep.config.requireVerification = false ∧ v.publishedAt.isSome = true ∧
      ∃ reason, v.verification = some ⟨none, reason⟩)

theorem honest_movedOn (v : ModelVersion) : Honest dep (movedOn now dep.config v) := by
  unfold movedOn publishUnchecked
  split
  · exact .inr (.inr (.inl rfl))
  · rename_i hverify
    exact .inr (.inr (.inr ⟨rfl, Bool.not_eq_true _ ▸ hverify, rfl, _, rfl⟩))

theorem honest_setVersion {f : ModelVersion → ModelVersion} (hf : KeepsKeys f)
    (hdb : ∀ v ∈ db.versions, Honest dep v) (hnew : ∀ v, Honest dep v → Honest dep (f v)) :
    ∀ v ∈ (setVersion db id f hf).versions, Honest dep v := by
  intro v hv
  rcases setVersion_changed hv with ⟨a, ha, -, rfl⟩ | ⟨hold, -⟩
  · exact hnew a (hdb a ha)
  · exact hdb v hold

theorem honest_rowEffect (h : RowEffect dep now r req db fs body res db')
    (hdb : ∀ v ∈ db.versions, Honest dep v) : ∀ v ∈ db'.versions, Honest dep v := by
  cases h with
  | same hsame => exact hsame.versions ▸ hdb
  | reserved hx _ hgranted =>
    obtain ⟨modelId, hadd⟩ := hgranted.added
    intro v hv
    rcases hadd.mem.mp hv with hold | rfl
    · exact hdb v ((currentUser_ok hx).2.sameRows.versions ▸ hold)
    · exact .inl rfl
  | stored hsame _ hstore =>
    obtain ⟨-, _, rfl⟩ := storeUploaded_ok hstore
    exact honest_setVersion (uploadedAs_keys _) (hsame.versions ▸ hdb) fun _ _ => .inr (.inl rfl)
  | published hsame =>
    exact honest_setVersion (movedOn_keys _ _) (hsame.versions ▸ hdb) fun v _ => honest_movedOn v
  | counted => exact honest_setVersion (countedFrom_keys _) hdb fun _ hv => hv

theorem honest_step (hs : (lts dep).step h l h') (hdb : ∀ v ∈ h.db.versions, Honest dep v) :
    ∀ v ∈ h'.db.versions, Honest dep v := by
  cases hs
  cases l with
  | account => exact hdb
  | moderate => exact hdb
  | service l =>
    cases l with
    | tick => exact hdb
    | call c => exact honest_rowEffect (serve_rowEffect dep c h) hdb
    | sweep =>
      intro v hv
      have hswept : v ∈ (swept h).db.versions := hv
      rw [swept_db] at hswept
      exact hdb v (mem_deleteVersions.mp hswept).1

theorem honest_reachable (hr : (lts dep).Reachable h) : ∀ v ∈ h.db.versions, Honest dep v := by
  have hinductive : (lts dep).Inductive fun h => ∀ v ∈ h.db.versions, Honest dep v := by
    refine ⟨fun s hstart => ?_, fun _ _ _ hdb hs => honest_step hs hdb⟩
    have hempty : s.db = .empty := hstart
    rw [hempty]
    exact nofun
  exact hinductive.reachable h hr

theorem visible_honest (hr : (lts dep).Reachable h) {row : PublishedRow} (hv : row ∈ visibleRows h.db) :
    dep.config.requireVerification = false ∧ row.version.publishedAt.isSome = true ∧
      ∃ reason, row.version.verification = some ⟨none, reason⟩ := by
  obtain ⟨hjoined, -, -, hstate⟩ := mem_visibleRows.mp hv
  rcases honest_reachable hr row.version (mem_joined.mp hjoined).2.1 with h | h | h | ⟨-, hshown⟩
  · rw [hstate] at h; cases h
  · rw [hstate] at h; cases h
  · rw [hstate] at h; cases h
  · exact hshown

/-- What an anonymous caller gets when nothing is visible. -/
structure ShowsNothing (dep : Deployment) (h : Hub) (req : Presented) (secret : Nat → String) : Prop where
  index : (serve dep ⟨req, .catalogIndex, secret⟩ h).1 = .ok (.index (document []))
  models : ∀ listing, (serve dep ⟨req, .listModels listing, secret⟩ h).1 = .ok (.models [])
  model : ∀ handle slug, (serve dep ⟨req, .showModel handle slug, secret⟩ h).1 =
    refuse .notFound s!"no published model @{handle}/{slug}"
  artifact : ∀ handle slug version, (serve dep ⟨req, .download handle slug version, secret⟩ h).1 =
    refuse .notFound s!"no published version {pyRepr version} of @{handle}/{slug}"

theorem showsNothing (hempty : visibleRows h.db = []) (req : Presented) (secret : Nat → String) :
    ShowsNothing dep h req secret where
  index := by
    rw [serve_catalogIndex]
    unfold newest
    rw [hempty, List.mergeSort_nil]
    rfl
  models listing := by
    have hnone : published dep.platform dep.sql h.db listing.q listing.limit = [] := by
      refine List.eq_nil_iff_forall_not_mem.mpr fun row hrow => ?_
      have hvisible := mem_published hrow
      rw [hempty] at hvisible
      cases hvisible
    show Except.ok (Reply.models ((published dep.platform dep.sql h.db listing.q listing.limit).map summarise)) = _
    rw [hnone]
    rfl
  model handle slug := by
    have hnone : latestVersion h.db handle slug = none := by
      unfold latestVersion
      rw [hempty, List.filter_nil, List.mergeSort_nil]
      rfl
    show (dbSession (showModel handle slug) h.db h.volume).1 = _
    unfold showModel
    rw [dbSession_session, Work.exec_bind, Work.exec_check, hnone]
    rfl
  artifact handle slug version := by
    have hnone : oneVersion h.db handle slug version = none := by
      unfold oneVersion
      rw [hempty]
      rfl
    show (dbSession (download dep handle slug version) h.db h.volume).1 = _
    unfold download
    rw [dbSession_commit, Work.exec_bind, Work.exec_check, hnone]
    rfl

/-- **Labels are honest**: what is visible was published without a check, and
is labelled so; a deployment that requires verification shows nothing. -/
theorem labels_are_honest (dep : Deployment) (h : Hub) (hr : (lts dep).Reachable h) :
    (∀ row ∈ visibleRows h.db, labelFor row.version = unchecked ∧ row.version.publishedAt.isSome = true ∧
      ∃ reason, row.version.verification = some ⟨none, reason⟩) ∧
    (dep.config.requireVerification = true → ∀ req secret, ShowsNothing dep h req secret) := by
  constructor
  · intro row hv
    obtain ⟨-, hwhen, reason, hreport⟩ := visible_honest hr hv
    refine ⟨?_, hwhen, reason, hreport⟩
    unfold labelFor
    rw [hreport]
    exact if_neg fun hchecked => by cases hchecked.2
  · intro hverify req secret
    refine showsNothing (List.eq_nil_iff_forall_not_mem.mpr fun row hv => ?_) req secret
    rw [(visible_honest hr hv).1] at hverify
    cases hverify

theorem released_unchecked : ∃ row ∈ visibleRows released.db, labelFor row.version = unchecked := by
  obtain ⟨row, hrow⟩ : ∃ row, row ∈ visibleRows released.db :=
    List.exists_mem_of_ne_nil _ (List.ne_nil_of_length_pos (by decide +kernel))
  obtain ⟨hlabel, -⟩ := (labels_are_honest unverified released released_reachable).1 row hrow
  exact ⟨row, hrow, hlabel⟩

/-! ## What is handed out -/

/-- A personal access token, which does not lapse. -/
def Personal (t : Token) : Prop := t.kind = .pat ∧ t.expiresAt = none

theorem personal_revoked (q : Token → Bool) (hdb : ∀ t ∈ db.tokens, Personal t) :
    ∀ t ∈ (revokeTokens now q db).tokens, Personal t :=
  Table.forall_updateWhere (L4.Auth.revoked now) (fun _ _ h => h) hdb fun _ h => h

theorem personal_caller {user : User} {granted : List Scope}
    (hc : CallerOf dep.platform now dep.config req db user granted db')
    (hdb : ∀ t ∈ db.tokens, Personal t) : ∀ t ∈ db'.tokens, Personal t := by
  cases hc with
  | bearer => exact Table.forall_updateWhere (touched now) (fun _ _ h => h) hdb fun _ h => h
  | cookie => exact hdb

theorem opened_tokens {d : Draw} {user : User} {agent cookie : String}
    (h : OpensSession dep now d user agent cookie db db') : db'.tokens = db.tokens := by
  obtain ⟨_, rfl⟩ := h.row
  rfl

theorem linked_tokens {ids : Accounts.LinkIds} {profile : OAuthProfile} {user : User}
    (h : Accounts.Linked dep.platform now ids profile dep.config db user db') : db'.tokens = db.tokens := by
  cases h with
  | known | adopted | created => rfl

/-- An exchange needs a refresh token, and there is none to exchange. -/
theorem personal_effect (h : Effect dep now r req db body res db') (hdb : ∀ t ∈ db.tokens, Personal t) :
    ∀ t ∈ db'.tokens, Personal t := by
  cases h with
  | quiet => exact hdb
  | registered _ hopen => exact (opened_tokens hopen).symm ▸ hdb
  | loggedIn _ hopen => exact (opened_tokens hopen).symm ▸ hdb
  | loggedOut => exact hdb
  | refreshed hacc hkind =>
    rw [(hdb _ hacc.mem).1] at hkind
    cases hkind
  | linked hlink hopen => exact ((opened_tokens hopen).trans (linked_tokens hlink)).symm ▸ hdb
  | endedAll hcaller =>
    have hc := personal_caller hcaller hdb
    exact hc
  | minted hcaller =>
    rename_i hnew
    exact Table.forall_insert hnew (personal_caller hcaller hdb) ⟨rfl, rfl⟩
  | revokedPat hcaller => exact personal_revoked _ (personal_caller hcaller hdb)
  | uploaded _ hcaller _ hsame => exact hsame.tokens ▸ personal_caller hcaller hdb
  | downloaded hsame => exact hsame.tokens ▸ hdb

theorem personal_step (hs : (lts dep).step h l h') (hdb : ∀ t ∈ h.db.tokens, Personal t) :
    ∀ t ∈ h'.db.tokens, Personal t := by
  cases hs
  cases l with
  | account => exact hdb
  | moderate => exact hdb
  | service l =>
    cases l with
    | tick => exact hdb
    | call c => exact personal_effect (serve_effect dep c h) hdb
    | sweep =>
      intro t ht
      have hswept : t ∈ (swept h).db.tokens := ht
      rw [swept_db] at hswept
      exact hdb t hswept

theorem personal_reachable (hr : (lts dep).Reachable h) : ∀ t ∈ h.db.tokens, Personal t := by
  have hinductive : (lts dep).Inductive fun h => ∀ t ∈ h.db.tokens, Personal t := by
    refine ⟨fun s hstart => ?_, fun _ _ _ hdb hs => personal_step hs hdb⟩
    have hempty : s.db = .empty := hstart
    rw [hempty]
    exact nofun
  exact hinductive.reachable h hr

/-- A pair is given for a refresh token only. -/
theorem pair_effect {pair : IssuedPair} (h : Effect dep now r req db body (.ok (.pair pair)) db') :
    ∃ t ∈ db.tokens, t.kind = .refresh := by
  cases h with
  | quiet hquiet => cases (hquiet _ rfl).bearers
  | refreshed hacc hrefresh => exact ⟨_, hacc.mem, hrefresh⟩
  | uploaded _ _ _ _ hquiet => cases hquiet.bearers

theorem exchangeable_none (hdb : ∀ t ∈ db.tokens, t.kind ≠ .refresh) (presented : String) :
    exchangeable dep.platform presented db = refuse .unauthorized "no such refresh token" := by
  cases hx : exchangeable dep.platform presented db with
  | ok row =>
    obtain ⟨hrow, -, hkind⟩ := exchangeable_ok hx
    exact absurd hkind (hdb row hrow)
  | error e =>
    unfold exchangeable at hx
    split at hx
    · cases hx
    · exact hx.symm

/-- The exchange never gets past its lookup. -/
theorem refresh_refused {presented : String} (hdb : ∀ t ∈ h.db.tokens, t.kind ≠ .refresh) (hbody : c.body = .refresh presented) :
    (serve dep c h).1 = refuse .unauthorized "no such refresh token" ∧ (serve dep c h).2.db = h.db := by
  obtain ⟨req, body, secret⟩ := c
  obtain rfl : body = .refresh presented := hbody
  have hraises : (do
      let issued ← rotate dep.platform h.now (pairDraws ⟨h.fresh, secret⟩) presented dep.config
      return Reply.pair issued : AuthWork Reply).exec h.db h.volume =
        (refuse .unauthorized "no such refresh token", h.db, h.volume) := by
    unfold rotate
    rw [Work.exec_bind, Work.exec_bind, Work.exec_check, exchangeable_none hdb]
    rfl
  have hserve := dbSession_raises hraises
  exact ⟨congrArg Prod.fst hserve, congrArg (fun out => out.2.1) hserve⟩

/-- **Only personal tokens**: every bearer credential there ever is is a
personal access token without an expiry. No reply hands out a pair, and
`POST /v1/auth/refresh` refuses every request and changes nothing. -/
theorem only_personal_tokens (dep : Deployment) (h : Hub) (hr : (lts dep).Reachable h) :
    (∀ t ∈ h.db.tokens, t.kind = .pat ∧ t.expiresAt = none) ∧
      (∀ c pair, (serve dep c h).1 ≠ .ok (.pair pair)) ∧
      ∀ c presented, c.body = .refresh presented →
        (serve dep c h).1 = refuse .unauthorized "no such refresh token" ∧ (serve dep c h).2.db = h.db := by
  have hdb := personal_reachable hr
  have hkind : ∀ t ∈ h.db.tokens, t.kind ≠ .refresh := fun t ht hk => by
    rw [(hdb t ht).1] at hk
    cases hk
  refine ⟨hdb, fun c pair hpair => ?_, fun c presented => refresh_refused hkind⟩
  obtain ⟨t, ht, hrefresh⟩ := pair_effect (hpair ▸ serve_effect dep c h)
  exact hkind t ht hrefresh

theorem released_personal : ∃ t ∈ released.db.tokens, t.kind = .pat ∧ t.expiresAt = none ∧
    (serve unverified (asAlice (.refresh "sfh_pat_x")) released).1 =
      refuse .unauthorized "no such refresh token" := by
  obtain ⟨t, ht⟩ : ∃ t, t ∈ released.db.tokens.rows :=
    List.exists_mem_of_ne_nil _ (List.ne_nil_of_length_pos (by decide +kernel))
  obtain ⟨hdb, -, hrefused⟩ := only_personal_tokens unverified released released_reachable
  exact ⟨t, ht, (hdb t ht).1, (hdb t ht).2, (hrefused (asAlice (.refresh "sfh_pat_x")) _ rfl).1⟩

end SpikeHub.L5.Policy
