import SpikeHub.L4Routes.Versions

/-!
# The three requests of an upload

What a reservation, a transfer and a commit did when they were answered: for
which account, with which credential, to which row, from which bytes. `Effect`
and `RowEffect` say what any request leaves; these say all of it, of the three
that publish.

`Shelved` is what any request leaves of the objects: those that were there,
and perhaps one more, the bytes of which its key names.
-/
namespace SpikeHub.L4.Routes

open SpikeHub.Core SpikeHub.L1 SpikeHub.L2 SpikeHub.L4.Auth SpikeHub.L4.Uploads SpikeHub.L4.Catalog

variable {dep : Deployment} {now : Time} {r : Rand} {req : Presented} {db db' : Db} {fs fs' : Volume}
  {body : Request} {reply : Reply} {res : Except Raised Reply}

/-- The caller of an upload's request, who may write. -/
def Writer (dep : Deployment) (now : Time) (req : Presented) (db : Db) (fs : Volume) (user : User)
    (db₁ : Db) : Prop :=
  ∃ granted, (currentUser dep.platform now dep.config req).exec db fs = (.ok (user, granted), db₁, fs) ∧
    CallerOf dep.platform now dep.config req db user granted db₁ ∧ Scope.write ∈ granted

theorem writer_of_exec {user : User} {db₁ : Db}
    (h : (writeUser dep.platform now dep.config req).exec db fs = (.ok user, db₁, fs')) :
    fs' = fs ∧ Writer dep now req db fs user db₁ := by
  obtain ⟨granted, hx, hscope⟩ := scopeGuard_ok h
  obtain ⟨rfl, hcaller⟩ := currentUser_ok hx
  exact ⟨rfl, granted, hx, hcaller, hscope⟩

theorem Writer.exec {user : User} {db₁ : Db} (h : Writer dep now req db fs user db₁) :
    (writeUser dep.platform now dep.config req).exec db fs = (.ok user, db₁, fs) := by
  obtain ⟨granted, hx, -, hscope⟩ := h
  unfold writeUser scopeGuard
  rw [Work.exec_bind_ok hx]
  show (Work.orRaise (checkScope .write granted) >>= fun _ => pure user : AuthWork User).exec db₁ fs = _
  have hpass : checkScope .write granted = .ok () := by
    unfold checkScope
    exact refuseIf_ok.mpr (not_not.mpr hscope)
  rw [hpass]
  rfl

theorem Writer.sameRows {user : User} {db₁ : Db} (h : Writer dep now req db fs user db₁) : SameRows db db₁ := by
  obtain ⟨granted, -, hcaller, -⟩ := h
  exact hcaller.sameRows

theorem Writer.sameUsers {user : User} {db₁ : Db} (h : Writer dep now req db fs user db₁) :
    db₁.users = db.users := by
  obtain ⟨granted, -, hcaller, -⟩ := h
  exact hcaller.sameUsers

theorem Writer.unique {user user' : User} {db₁ db₂ : Db} (h : Writer dep now req db fs user db₁)
    (h' : Writer dep now req db fs user' db₂) : user = user' := by
  obtain ⟨granted, -, hcaller, -⟩ := h
  obtain ⟨granted', -, hcaller', -⟩ := h'
  exact hcaller.unique hcaller'

theorem Writer.ownedBy {user : User} {db₁ : Db} {u : Uuid} {v : ModelVersion}
    (h : Writer dep now req db fs user db₁) : db₁.ownedBy u v = db.ownedBy u v := by
  unfold Db.ownedBy
  rw [h.sameRows.models]

theorem create_ok {intent : UploadIntent}
    (h : dbSession (create dep now r req intent) db fs = (.ok reply, db', fs')) :
    fs' = fs ∧ ∃ user db₁ slot, Writer dep now req db fs user db₁ ∧ reply = .slot slot ∧
      slot.uploadId = r.base + 1 ∧
      Granted now (dep.free fs) ⟨r.base, r.base + 1⟩ user intent.request dep.config db₁ db' := by
  rcases committing_cases h with ⟨e, he, -⟩ | ⟨reply', he, hx⟩
  · cases he
  cases he
  obtain ⟨user, db₁, w₁, hwriter, hrest⟩ := Work.exec_bind_eq_ok hx
  obtain ⟨rfl, hwriter⟩ := writer_of_exec hwriter
  obtain ⟨slot, d₂, w₂, hreserve, hrest⟩ := Work.exec_bind_eq_ok hrest
  obtain ⟨hkept, hid, hgranted⟩ := reserve_ok hreserve
  cases hrest
  exact ⟨hkept, user, db₁, slot, hwriter, rfl, hid, hgranted⟩

/-- A transfer that was taken: the slot it found, the body it had, and what it stored. -/
structure Took (now : Time) (entryId uploadId userId : Uuid) (body : Body) (db : Db) (fs : Volume)
    (v : ModelVersion) (key : String) (db' : Db) (fs' : Volume) : Prop where
  slot : reservedSlot db now uploadId userId = .ok v
  whole : body.cut = false
  measured : checkMeasured v (measure body.bytes) = .ok ()
  named : objectKey v.sha256 = .ok key
  stored : storeUploaded now entryId userId v key (measure body.bytes) db = .ok db'
  reads : ∀ p, fs'.read p = if p = .artifact key then some ((fs.read p).getD body.bytes)
    else if p = .staging uploadId then none else fs.read p

theorem receive_took {entryId uploadId userId : Uuid} {chunks : Body} {out : ModelVersion}
    (h : (receive now entryId uploadId userId chunks).exec db fs = (.ok out, db', fs')) :
    ∃ v key, Took now entryId uploadId userId chunks db fs v key db' fs' ∧ out = uploadedAs key v := by
  obtain ⟨v, hslot, hstaging⟩ := Work.check_bind_eq_ok h
  obtain ⟨blob, d₁, w₁, hstage, hverifying⟩ := Work.exec_bind_eq_ok hstaging
  obtain ⟨r', mid, hx, hended⟩ := stage_ended db fs uploadId chunks v.sizeBytes
  rw [hx] at hstage
  cases hended with
  | disconnected => cases hstage
  | dropped => cases hstage
  | stored hcut _ hothers =>
    cases hstage
    obtain ⟨_, d₂, w₂, hverify, hpromoting⟩ := Work.exec_bind_eq_ok hverifying
    rw [verifyOrAbandon_exec] at hverify
    cases hm : checkMeasured v (measure chunks.bytes) with
    | error e => rw [hm] at hverify; cases hverify
    | ok _ =>
      rw [hm] at hverify
      cases hverify
      obtain ⟨key, d₃, w₃, hpromote, hstoring⟩ := Work.exec_bind_eq_ok hpromoting
      obtain ⟨-, hsha⟩ := checkMeasured_ok hm
      have hkey : ∃ key, objectKey (measure chunks.bytes).sha256 = .ok key := objectKey_sha256 chunks.bytes
      obtain ⟨key', hkey⟩ := hkey
      obtain ⟨fs₁, hpromoted, -, hreads⟩ := promote_spec (d := db) hkey hothers.at
      rw [hpromoted] at hpromote
      cases hpromote
      obtain ⟨d₄, hstore, hdone⟩ := Work.statement_bind_eq_ok hstoring
      cases hdone
      refine ⟨v, key, ⟨hslot, hcut, hm, hsha ▸ hkey, hstore, fun p => ?_⟩, rfl⟩
      rw [hreads]
      by_cases hartifact : p = .artifact key
      · rw [if_pos hartifact, if_pos hartifact, hartifact, hothers.other (by simp)]
      · rw [if_neg hartifact, if_neg hartifact]
        by_cases hstaging : p = .staging uploadId
        · rw [if_pos hstaging, if_pos hstaging]
        · rw [if_neg hstaging, if_neg hstaging, hothers.other hstaging]

theorem content_ok {uploadId : Uuid} {declaresLength : Bool} {chunks : Body}
    (h : dbSession (content dep now r req uploadId declaresLength chunks) db fs = (.ok reply, db', fs')) :
    ∃ user db₁ v key, Writer dep now req db fs user db₁ ∧
      Took now r.base uploadId user.id chunks db₁ fs v key db' fs' ∧ reply = .version (uploadedAs key v) := by
  rcases committing_cases h with ⟨e, he, -⟩ | ⟨reply', he, hx⟩
  · cases he
  cases he
  obtain ⟨user, db₁, w₁, hwriter, hrest⟩ := Work.exec_bind_eq_ok hx
  obtain ⟨rfl, hwriter⟩ := writer_of_exec hwriter
  obtain ⟨_, -, hrest⟩ := Work.orRaise_bind_eq_ok hrest
  obtain ⟨out, d₂, w₂, hreceive, hrest⟩ := Work.exec_bind_eq_ok hrest
  obtain ⟨v, key, htook, rfl⟩ := receive_took hreceive
  cases hrest
  exact ⟨user, db₁, v, key, hwriter, htook, rfl⟩

theorem commit_ok {uploadId : Uuid}
    (h : dbSession (commit dep now req uploadId) db fs = (.ok reply, db', fs')) :
    fs' = fs ∧ ∃ user db₁ v, Writer dep now req db fs user db₁ ∧
      ownedVersion db₁ uploadId user.id = .ok v ∧ v.state = .uploaded ∧
      reply = .version (movedOn now dep.config v) ∧
      db' = setVersion db₁ v.id (movedOn now dep.config) (movedOn_keys now dep.config) := by
  rcases committing_cases h with ⟨e, he, -⟩ | ⟨reply', he, hx⟩
  · cases he
  cases he
  obtain ⟨user, db₁, w₁, hwriter, hrest⟩ := Work.exec_bind_eq_ok hx
  obtain ⟨rfl, hwriter⟩ := writer_of_exec hwriter
  obtain ⟨v, hown, hrest⟩ := Work.check_bind_eq_ok hrest
  obtain ⟨out, d₂, w₂, hpublish, hrest⟩ := Work.exec_bind_eq_ok hrest
  obtain ⟨hstate, hset⟩ := publish_ok hpublish
  obtain ⟨hmem, -, -⟩ := ownedVersion_ok hown
  rw [publish_uploaded hmem hstate] at hpublish
  cases hpublish
  cases hrest
  exact ⟨rfl, user, db₁, v, hwriter, hown, hstate, rfl, rfl⟩

/-! ## What any request leaves of the objects -/

/-- Every object is kept; a new one is the bytes its key names. -/
structure Shelved (fs fs' : Volume) : Prop where
  kept : ∀ key bs, fs.read (.artifact key) = some bs → fs'.read (.artifact key) = some bs
  named : ∀ key bs, fs'.read (.artifact key) = some bs →
    fs.read (.artifact key) = some bs ∨ objectKey (sha256 bs) = .ok key

theorem Shelved.refl (fs : Volume) : Shelved fs fs := ⟨fun _ _ h => h, fun _ _ h => .inl h⟩

theorem Shelved.trans {fs'' : Volume} (h : Shelved fs fs') (h' : Shelved fs' fs'') : Shelved fs fs'' where
  kept key bs hread := h'.kept key bs (h.kept key bs hread)
  named key bs hread := by
    rcases h'.named key bs hread with hmid | hkey
    · exact h.named key bs hmid
    · exact .inr hkey

/-- The same objects. -/
theorem shelved_same (h : ∀ key, fs'.read (.artifact key) = fs.read (.artifact key)) : Shelved fs fs' where
  kept key bs hread := by rw [h, hread]
  named key bs hread := .inl (h key ▸ hread)

theorem shelved_rewrites {u : Uuid} {o : Option Bytes} (h : fs.Rewrites (.staging u) o fs') : Shelved fs fs' :=
  shelved_same fun _ => h.other (by simp)

theorem shelved_promote {u : Uuid} {bs : Bytes} (hstaged : fs.read (.staging u) = some bs) :
    Shelved fs ((promote u (sha256 bs) : HubWork String).exec db fs).2.2 := by
  have hkey : ∃ key, objectKey (sha256 bs) = .ok key := objectKey_sha256 bs
  obtain ⟨key, hkey⟩ := hkey
  obtain ⟨fs₁, hx, -, hreads⟩ := promote_spec (d := db) hkey hstaged
  rw [hx]
  refine ⟨fun key' old hold => ?_, fun key' new hnew => ?_⟩
  · show fs₁.read (.artifact key') = some old
    rw [hreads]
    by_cases hsame : Path.artifact key' = .artifact key
    · rw [if_pos hsame, hold]
      rfl
    · rw [if_neg hsame, if_neg (by simp), hold]
  · have hread : fs₁.read (.artifact key') = some new := hnew
    rw [hreads] at hread
    by_cases hsame : Path.artifact key' = .artifact key
    · rw [if_pos hsame] at hread
      cases hold : fs.read (.artifact key') with
      | some old => rw [hold] at hread; exact .inl hread
      | none =>
        rw [hold] at hread
        obtain rfl : bs = new := Option.some.inj hread
        rw [Path.artifact.inj hsame]
        exact .inr hkey
    · rw [if_neg hsame, if_neg (by simp)] at hread
      exact .inl hread

theorem receive_shelved {entryId uploadId userId : Uuid} {chunks : Body} :
    Shelved fs ((receive now entryId uploadId userId chunks).exec db fs).2.2 := by
  refine Work.bind_world Shelved.trans (.refl fs) fun v d w hx => ?_
  obtain ⟨-, rfl, rfl⟩ : _ ∧ db = d ∧ fs = w := by simpa only [Work.exec_check, Prod.mk.injEq] using hx
  obtain ⟨r', mid, hstage, hended⟩ := stage_ended db fs uploadId chunks v.sizeBytes
  refine Work.bind_world Shelved.trans ?_ fun blob d w hx => ?_
  · rw [hstage]
    cases hended with
    | stored _ _ hothers | disconnected _ _ hothers | dropped _ hothers => exact shelved_rewrites hothers
  rw [hstage] at hx
  cases hended with
  | disconnected => cases hx
  | dropped => cases hx
  | stored _ _ hothers =>
    cases hx
    refine Work.bind_world Shelved.trans ?_ fun _ d w hx => ?_
    · rw [verifyOrAbandon_exec]
      split
      · exact .refl mid
      · exact shelved_rewrites Fs.rewrites_unlink
    rw [verifyOrAbandon_exec] at hx
    split at hx
    · cases hx
      refine Work.bind_world Shelved.trans (shelved_promote hothers.at) fun key d w _ => ?_
      refine shelved_same fun _ => ?_
      rw [(Work.keepsWorld_statement _).bind fun _ => Work.keepsWorld_pure _]
    · cases hx

/-! The other routes leave the volume alone. -/

open Work in
theorem currentUser_world : (currentUser dep.platform now dep.config req).KeepsWorld := by
  unfold currentUser
  split
  · refine KeepsWorld.bind ?_ fun _ => keepsWorld_pure _
    exact (keepsWorld_check _).bind fun _ => (keepsWorld_orRaise _).bind fun _ => (keepsWorld_check _).bind fun _ =>
      (keepsWorld_write _).bind fun _ => keepsWorld_pure _
  · split
    · exact keepsWorld_throw _
    · refine KeepsWorld.bind ((keepsWorld_query _).bind fun found => ?_) fun found => ?_
      · cases found with
        | none => exact keepsWorld_pure _
        | some found => exact (keepsWorld_write _).bind fun _ => keepsWorld_pure _
      · cases found with
        | some found => exact keepsWorld_pure _
        | none => exact keepsWorld_throw _

open Work in
theorem writeUser_world : (writeUser dep.platform now dep.config req).KeepsWorld :=
  currentUser_world.bind fun _ => (keepsWorld_orRaise _).bind fun _ => keepsWorld_pure _

open Work in
theorem start_world {d : Draw} {user : User} {agent : String} :
    (Sessions.start dep.platform now d user dep.config agent).KeepsWorld :=
  (keepsWorld_statement _).bind fun _ => keepsWorld_pure _

open Work in
theorem mint_world {d : Draw} {spec : Mint} : (mint dep.platform now d spec dep.config).KeepsWorld :=
  (keepsWorld_statement _).bind fun _ => keepsWorld_pure _

open Work in
theorem rotate_world {ds : PairDraws} {presented : String} :
    (rotate dep.platform now ds presented dep.config).KeepsWorld := by
  refine (keepsWorld_check _).bind fun row => KeepsWorld.bind ?_ fun _ => (keepsWorld_orRaise _).bind fun _ =>
    (keepsWorld_check _).bind fun _ => (keepsWorld_write _).bind fun _ => mint_world.bind fun _ =>
    mint_world.bind fun _ => keepsWorld_pure _
  unfold checkNotReplayed
  split
  · exact (keepsWorld_write _).bind fun _ => keepsWorld_throw _
  · exact keepsWorld_pure _

open Work in
theorem register_world {id : Uuid} {salt email password : String} :
    (Accounts.register dep.platform id salt email password dep.config).KeepsWorld :=
  (keepsWorld_orRaise _).bind fun _ => (keepsWorld_check _).bind fun _ => (keepsWorld_query _).bind fun _ =>
    (keepsWorld_statement _).bind fun _ => keepsWorld_pure _

open Work in
theorem linkOrCreate_world {ids : Accounts.LinkIds} {profile : OAuthProfile} :
    (Accounts.linkOrCreate dep.platform now ids profile dep.config).KeepsWorld := by
  refine KeepsWorld.bind ((keepsWorld_query _).bind fun identity => ?_) fun found => ?_
  · cases identity with
    | none => exact keepsWorld_pure _
    | some identity =>
      exact (keepsWorld_write _).bind fun _ => (keepsWorld_check _).bind fun _ => keepsWorld_pure _
  · cases found with
    | some linked => exact keepsWorld_pure _
    | none =>
      refine KeepsWorld.bind ((keepsWorld_query _).bind fun existing => ?_) fun _ =>
        (keepsWorld_statement _).bind fun _ => keepsWorld_pure _
      cases existing with
      | some existing => exact keepsWorld_pure _
      | none =>
        exact (keepsWorld_check _).bind fun _ => (keepsWorld_query _).bind fun _ =>
          (keepsWorld_statement _).bind fun _ => keepsWorld_pure _

theorem dbSession_same {m : HubWork Reply} (hm : m.KeepsWorld) : (dbSession (committing m) db fs).2.2 = fs :=
  (dbSession_world m db fs).trans (hm db fs)

open Work in
/-- Only a transfer touches the volume. -/
theorem route_world (hbody : ∀ upload declared chunks, body ≠ .content upload declared chunks) :
    (dbSession (route dep now r req body) db fs).2.2 = fs := by
  have hread : ∀ m : HubWork Reply, m.KeepsWorld → (dbSession (Route.session m) db fs).2.2 = fs := by
    intro m hm
    rw [dbSession_session]
    exact hm db fs
  cases body with
  | register => exact dbSession_same (register_world.bind fun _ => start_world.bind fun _ => keepsWorld_pure _)
  | login =>
    exact dbSession_same ((keepsWorld_check _).bind fun _ => start_world.bind fun _ => keepsWorld_pure _)
  | logout =>
    show (dbSession (logout dep now req) db fs).2.2 = fs
    unfold logout
    split
    · rfl
    · rfl
  | refresh => exact dbSession_same (rotate_world.bind fun _ => keepsWorld_pure _)
  | oauthCallback =>
    exact dbSession_same (linkOrCreate_world.bind fun _ => start_world.bind fun _ => keepsWorld_pure _)
  | revokeAll =>
    refine dbSession_same (currentUser_world.bind fun _ => ?_)
    exact KeepsWorld.bind (fun _ _ => rfl) fun _ => keepsWorld_pure _
  | tokensIndex =>
    exact hread _ (currentUser_world.bind fun _ => (keepsWorld_query _).bind fun _ => keepsWorld_pure _)
  | tokensCreate =>
    exact dbSession_same (currentUser_world.bind fun _ => mint_world.bind fun _ => keepsWorld_pure _)
  | tokensRevoke =>
    exact dbSession_same (currentUser_world.bind fun _ => (keepsWorld_check _).bind fun _ =>
      (keepsWorld_write _).bind fun _ => keepsWorld_pure _)
  | me => exact hread _ (currentUser_world.bind fun _ => (keepsWorld_query _).bind fun _ => keepsWorld_pure _)
  | create =>
    exact dbSession_same (writeUser_world.bind fun _ => reserve_world.bind fun _ => keepsWorld_pure _)
  | content => exact absurd rfl (hbody _ _ _)
  | commit =>
    refine dbSession_same (writeUser_world.bind fun _ => (keepsWorld_check _).bind fun _ => KeepsWorld.bind ?_
      fun _ => keepsWorld_pure _)
    exact (keepsWorld_orRaise _).bind fun _ => (keepsWorld_statement _).bind fun _ => keepsWorld_pure _
  | catalogIndex => rfl
  | listModels => rfl
  | showModel handle slug =>
    show (dbSession (showModel handle slug) db fs).2.2 = fs
    unfold showModel
    exact hread _ ((keepsWorld_check _).bind fun _ => keepsWorld_pure _)
  | download =>
    exact dbSession_same ((keepsWorld_check _).bind fun _ => (keepsWorld_statement _).bind fun _ =>
      keepsWorld_pure _)

theorem route_shelved : Shelved fs (dbSession (route dep now r req body) db fs).2.2 := by
  by_cases hbody : ∃ upload declared chunks, body = .content upload declared chunks
  · obtain ⟨upload, declared, chunks, rfl⟩ := hbody
    show Shelved fs (dbSession (content dep now r req upload declared chunks) db fs).2.2
    unfold content
    rw [dbSession_world]
    refine Work.bind_world Shelved.trans ?_ fun user d w _ => ?_
    · rw [writeUser_world]
      exact .refl fs
    refine Work.bind_world Shelved.trans (.refl w) fun _ d' w' hx => ?_
    refine Work.bind_world Shelved.trans receive_shelved fun _ _ w'' _ => .refl w''
  · rw [route_world fun upload declared chunks he => hbody ⟨upload, declared, chunks, he⟩]
    exact .refl fs

end SpikeHub.L4.Routes
