import SpikeHub.L5Runs.Fresh
import SpikeHub.L5Runs.Stocking
import SpikeHub.L5Runs.Surfaces

/-!
# A reservation is kept

What a granted reservation promises: whatever else the service does meanwhile,
the declared bytes are taken when they come before it expires, and committed
when its owner says so. The owner may reach every limit and try and fail at
this very upload, the janitor may run at any time: nothing is checked a second
time once the reservation stands (`reservation_is_kept`).

`Held` is what a run keeps of an upload that nothing has answered for.

Limitations: the volume of the model takes every write. On a disk that is full
one fails, and other uploads may fill it, reserved bytes or not.
-/
namespace SpikeHub.L5.Completing

open SpikeHub.Core SpikeHub.L1 SpikeHub.L2 SpikeHub.L4.Auth SpikeHub.L4.Uploads SpikeHub.L4.Catalog
open SpikeHub.L4.Routes SpikeHub.L5.Service SpikeHub.L5.Surfaces
open SpikeHub.L5.Fresh (fresh_reachable)
open SpikeHub.L5.Interleave (Hub)
open SpikeHub.L5.Requests (Call serve asAlice)
open SpikeHub.L5.Catalogue (swept swept_db serve_rowEffect unverified abcIntent)
open SpikeHub.L5.Stocking (content_goes commit_goes)
open SpikeHub.L5.Provenance (Answered By Under granted_model models_step version_origin)

/-- A transfer or a commit of the upload. -/
def ForUpload (upload : Uuid) : Request → Prop
  | .content id _ _ => id = upload
  | .commit id => id = upload
  | _ => False

/-- No request for the upload is answered. -/
def Unanswered (dep : Deployment) (upload : Uuid) (h : Hub) (l : Lbl) : Prop :=
  ∀ c, l = .service (.call c) → ForUpload upload c.body → ¬ Answered dep h c

/-- Received, or reserved and not expired. -/
def Pending (now : Time) (v : ModelVersion) : Prop :=
  v.state = .uploaded ∨ v.state = .reserved ∧ ∃ t, v.expiresAt = some t ∧ now < t

/-- The row of an upload, but for a count that is not its own, under its account and its slug. -/
structure Held (dep : Deployment) (owner : Uuid) (slug : String) (v : ModelVersion) (h : Hub) : Prop where
  reachable : (lts dep).Reachable h
  row : ∃ n, { v with downloadCount := n } ∈ h.db.versions
  under : Under owner slug h.db v.modelId

variable {dep : Deployment} {h h' : Hub} {l : Lbl} {ls : List Lbl} {c : Call} {db db' : Db} {v w : ModelVersion}
  {owner upload : Uuid} {slug : String} {now now' : Time}

theorem Pending.earlier (hp : Pending now' v) (hle : now ≤ now') : Pending now v :=
  hp.imp_right fun h => ⟨h.1, h.2.imp fun _ ht => ⟨ht.1, lt_of_le_of_lt hle ht.2⟩⟩

theorem now_step (hs : (lts dep).step h l h') : h.now ≤ h'.now := by
  cases hs
  cases l with
  | account | moderate => exact le_refl _
  | service l =>
    cases l with
    | tick d => exact le_add_of_nonneg_right (Int.natCast_nonneg d)
    | call => exact le_refl _
    | sweep => exact le_refl _

/-- No request removes a row. -/
theorem row_serve (dep : Deployment) (c : Call) (h : Hub) (hv : v ∈ h.db.versions) :
    ∃ w ∈ (serve dep c h).2.db.versions, w.id = v.id := by
  have hset : ∀ {db : Db} {id : Uuid} {f : ModelVersion → ModelVersion} (hf : KeepsKeys f), v ∈ db.versions →
      ∃ w ∈ (setVersion db id f hf).versions, w.id = v.id := by
    intro db id f hf hv
    refine ⟨_, mem_setVersion.mpr ⟨v, hv, rfl⟩, ?_⟩
    split
    · exact hf.id v
    · rfl
  have hrow := serve_rowEffect dep c h
  generalize (serve dep c h).1 = res at hrow
  generalize (serve dep c h).2.db = db' at hrow
  generalize c.body = body at hrow
  cases hrow with
  | same hsame => exact ⟨v, hsame.versions ▸ hv, rfl⟩
  | reserved hx _ hgranted =>
    obtain ⟨modelId, hadd⟩ := hgranted.added
    exact ⟨v, hadd.mem.mpr (.inl ((currentUser_ok hx).2.sameRows.versions ▸ hv)), rfl⟩
  | stored hsame _ hstore =>
    obtain ⟨-, _, rfl⟩ := storeUploaded_ok hstore
    exact hset (uploadedAs_keys _) (hsame.versions ▸ hv)
  | published hsame => exact hset (movedOn_keys _ _) (hsame.versions ▸ hv)
  | counted => exact hset (countedFrom_keys _) hv

/-- Nor does it change a row it was not answered for. -/
theorem kept_serve (hr : (lts dep).Reachable h) (hv : v ∈ h.db.versions)
    (hleave : Unanswered dep v.id h (.service (.call c))) :
    ∃ n, { v with downloadCount := n } ∈ (serve dep c h).2.db.versions := by
  obtain ⟨w, hw, hid⟩ := row_serve dep c h hv
  cases version_origin dep c h hw with
  | old ha hcount =>
    rename_i a n
    subst hcount
    have hsame : a = v := version_eq ha hv hid
    exact ⟨n, hsame ▸ hw⟩
  | reserved _ _ _ _ hnew =>
    subst hnew
    have hlow := (fresh_reachable hr).versions v hv
    have hhigh : v.id = h.fresh + 1 := hid.symm
    rw [hhigh] at hlow
    exact absurd hlow (Nat.not_lt.mpr (Nat.le_succ _))
  | sent hbody _ hans _ _ hnew =>
    subst hnew
    exact absurd hans (hleave c rfl (by rw [hbody]; exact hid))
  | committed hbody _ hres _ _ _ hnew =>
    subst hnew
    rw [movedOn_id] at hid
    exact absurd ⟨_, hres⟩ (hleave c rfl (by rw [hbody]; exact hid))

theorem under_step (hs : (lts dep).step h l h') {modelId : Uuid} (hu : Under owner slug h.db modelId) :
    Under owner slug h'.db modelId := by
  obtain ⟨m, hm, hid, howner, hslug⟩ := hu
  obtain ⟨n, hn, hnid, hnowner, hnslug⟩ := models_step hs m hm
  exact ⟨n, hn, hnid.trans hid, hnowner.trans howner, hnslug.trans hslug⟩

theorem held_step (hs : (lts dep).step h l h') (hleave : Unanswered dep v.id h l) (hp : Pending h.now v)
    (hh : Held dep owner slug v h) : Held dep owner slug v h' := by
  refine ⟨hh.reachable.step hs, ?_, under_step hs hh.under⟩
  obtain ⟨n, hv⟩ := hh.row
  cases l with
  | account | moderate =>
    cases hs
    exact ⟨n, hv⟩
  | service l =>
    cases l with
    | tick =>
      cases hs
      exact ⟨n, hv⟩
    | call c =>
      have hserve : h' = (serve dep c h).2 := hs
      obtain ⟨k, hk⟩ := kept_serve hh.reachable hv hleave
      exact ⟨k, hserve ▸ hk⟩
    | sweep =>
      refine ⟨n, ?_⟩
      have hswept : h' = swept h := hs
      rw [hswept, swept_db, mem_deleteVersions]
      refine ⟨hv, fun hid => ?_⟩
      obtain ⟨w, hw, he⟩ := List.mem_map.mp hid
      obtain ⟨hmem, hreserved, t, hexpires, hpast⟩ := mem_expired.mp hw
      rw [version_eq hmem hv he] at hreserved hexpires
      rcases hp with huploaded | ⟨-, t', hexpires', hlive⟩
      · rw [huploaded] at hreserved
        cases hreserved
      · rw [hexpires'] at hexpires
        obtain rfl := Option.some.inj hexpires
        exact absurd hpast (not_le.mpr hlive)

/-- **An upload is held** as long as nothing was answered for it. -/
theorem held_run (hrun : ((lts dep).restrict (Unanswered dep v.id)).Run h ls h') (hp : Pending h'.now v)
    (hh : Held dep owner slug v h) : Held dep owner slug v h' := by
  have hlater : ∀ {s s' ls}, ((lts dep).restrict (Unanswered dep v.id)).Run s ls s' → s.now ≤ s'.now := by
    intro s s' ls hr
    induction hr with
    | nil => exact le_refl _
    | cons hs _ ih => exact le_trans (now_step hs.2) ih
  induction hrun with
  | nil => exact hh
  | cons hs hrest ih =>
    have hafter := hlater (.cons hs hrest)
    exact ih hp (held_step hs.2 hs.1 (hp.earlier hafter) hh)

/-! ## The three requests -/

/-- What was declared for the upload. -/
structure DeclaredAs (request : UploadRequest) (v : ModelVersion) : Prop where
  version : v.version = request.version
  sha256 : v.sha256 = request.sha256
  sizeBytes : v.sizeBytes = request.sizeBytes

theorem create_slot {intent : UploadIntent} {reply : Reply} (hbody : c.body = .create intent)
    (hres : (serve dep c h).1 = .ok reply) : ∃ slot, reply = .slot slot ∧ slot.uploadId = h.fresh + 1 := by
  obtain ⟨req, body, secret⟩ := c
  obtain rfl : body = .create intent := hbody
  have hx : dbSession (create dep h.now ⟨h.fresh, secret⟩ req intent) h.db h.volume = (.ok reply, _, _) :=
    Prod.ext hres rfl
  obtain ⟨-, -, -, slot, -, hreply, hid, -⟩ := create_ok hx
  exact ⟨slot, hreply, hid⟩

/-- The row a reservation is answered for. -/
theorem held_create {intent : UploadIntent} {slot : Reservation} (hr : (lts dep).Reachable h)
    (hbody : c.body = .create intent) (hby : By dep owner h c) (hslot : (serve dep c h).1 = .ok (.slot slot)) :
    ∃ v, v.id = slot.uploadId ∧ DeclaredAs intent.request v ∧ v.state = .reserved ∧
      v.expiresAt = some (h.now + seconds dep.config.reservationTtlSeconds) ∧
      Held dep owner intent.request.slug v (serve dep c h).2 := by
  have hstep : (lts dep).step h (.service (.call c)) (serve dep c h).2 := rfl
  have hnext := hr.step hstep
  obtain ⟨req, body, secret⟩ := c
  obtain rfl : body = .create intent := hbody
  have hx : dbSession (create dep h.now ⟨h.fresh, secret⟩ req intent) h.db h.volume = (.ok (.slot slot),
      (serve dep ⟨req, .create intent, secret⟩ h).2.db, (serve dep ⟨req, .create intent, secret⟩ h).2.volume) :=
    Prod.ext hslot rfl
  obtain ⟨-, user, db₁, slot', hwriter, hreply, hid, hgranted⟩ := create_ok hx
  obtain rfl : slot = slot' := Reply.slot.inj hreply
  obtain ⟨user', db₂, hwriter', howner⟩ := hby
  have huser : user = user' := hwriter.unique hwriter'
  obtain ⟨modelId, hadd⟩ := hgranted.added
  have hv : newVersion h.now (h.fresh + 1) modelId intent.request dep.config ∈
      (serve dep ⟨req, .create intent, secret⟩ h).2.db.versions := hadd.mem.mpr (.inr rfl)
  refine ⟨newVersion h.now (h.fresh + 1) modelId intent.request dep.config, hid.symm, ⟨rfl, rfl, rfl⟩, rfl, rfl,
    hnext, ⟨0, hv⟩, ?_⟩
  rcases granted_model hgranted hv with hold | ⟨m, hm, hmowner, hmslug, hnew⟩
  · rw [hwriter.sameRows.versions] at hold
    exact absurd ((fresh_reachable hr).versions _ hold) (Nat.not_lt.mpr (Nat.le_succ _))
  · have hmodel : modelId = m.id := congrArg ModelVersion.modelId hnew
    exact ⟨m, hm, hmodel.symm, hmowner.trans (huser ▸ howner), hmslug⟩

theorem Held.owned (hh : Held dep owner slug v h) : h.db.ownedBy owner v = true := by
  obtain ⟨m, hm, hid, howner, -⟩ := hh.under
  exact ownedBy_iff.mpr ⟨m, hm, hid, howner⟩

/-- The declared bytes are taken. -/
theorem held_content {chunks : Body} {declaredBy : UploadRequest} (hh : Held dep owner slug v h)
    (hstate : v.state = .reserved) (hp : Pending h.now v) (hdeclared : DeclaredAs declaredBy v)
    (hbody : c.body = .content v.id true chunks) (hby : By dep owner h c) (hcut : chunks.cut = false)
    (hsize : (chunks.bytes.length : Int) = declaredBy.sizeBytes) (hsha : sha256 chunks.bytes = declaredBy.sha256) :
    ∃ w, (serve dep c h).1 = .ok (.version w) ∧ w.id = v.id ∧ DeclaredAs declaredBy w ∧ w.state = .uploaded ∧
      w.modelId = v.modelId ∧ Held dep owner slug w (serve dep c h).2 := by
  have hstep : (lts dep).step h (.service (.call c)) (serve dep c h).2 := rfl
  have hnext := hh.reachable.step hstep
  have hunder := under_step hstep hh.under
  obtain ⟨n, hv⟩ := hh.row
  obtain ⟨user, db₁, hwriter, rfl⟩ := hby
  obtain ⟨req, body, secret⟩ := c
  obtain rfl : body = .content v.id true chunks := hbody
  have hv₁ : { v with downloadCount := n } ∈ db₁.versions := hwriter.sameRows.versions ▸ hv
  have howned : db₁.ownedBy user.id { v with downloadCount := n } = true := by
    rw [hwriter.ownedBy]
    exact hh.owned
  have hlive : ∀ t, v.expiresAt = some t → h.now < t := by
    rcases hp with huploaded | ⟨-, t, hexpires, hlive⟩
    · rw [huploaded] at hstate
      cases hstate
    · intro t' ht'
      rw [hexpires] at ht'
      cases ht'
      exact hlive
  have hslot : reservedSlot db₁ h.now v.id user.id = .ok { v with downloadCount := n } :=
    reservedSlot_eq hv₁ rfl howned hstate hlive
  have hmeasured : checkMeasured { v with downloadCount := n } (measure chunks.bytes) = .ok () :=
    checkMeasured_eq (hsize.trans hdeclared.sizeBytes.symm) (hsha.trans hdeclared.sha256.symm)
  have hids : ∀ e ∈ db₁.entries, e.id ≠ h.fresh := fun e he =>
    Nat.ne_of_lt ((fresh_reachable hh.reachable).entries e (hwriter.sameRows.entries ▸ he))
  obtain ⟨key, db', fs', hx, hstore⟩ := content_goes hwriter.exec hslot hcut hmeasured (r := ⟨h.fresh, secret⟩) hids
  have hserved : (serve dep ⟨req, .content v.id true chunks, secret⟩ h).1 =
      .ok (.version (uploadedAs key { v with downloadCount := n })) := congrArg Prod.fst hx
  have hdb : (serve dep ⟨req, .content v.id true chunks, secret⟩ h).2.db = db' := congrArg (·.2.1) hx
  refine ⟨_, hserved, rfl, ⟨hdeclared.version, hdeclared.sha256, hdeclared.sizeBytes⟩, rfl, rfl, hnext, ⟨n, ?_⟩,
    hunder⟩
  rw [hdb]
  exact (storedUpload hstore).mem_versions.mpr ⟨_, hv₁, if_pos rfl⟩

/-- And committed. -/
theorem held_commit (hh : Held dep owner slug v h) (hstate : v.state = .uploaded)
    (hbody : c.body = .commit v.id) (hby : By dep owner h c) :
    ∃ n, (serve dep c h).1 = .ok (.version (movedOn h.now dep.config { v with downloadCount := n })) ∧
      movedOn h.now dep.config { v with downloadCount := n } ∈ (serve dep c h).2.db.versions := by
  obtain ⟨n, hv⟩ := hh.row
  obtain ⟨user, db₁, hwriter, rfl⟩ := hby
  obtain ⟨req, body, secret⟩ := c
  obtain rfl : body = .commit v.id := hbody
  have hv₁ : { v with downloadCount := n } ∈ db₁.versions := hwriter.sameRows.versions ▸ hv
  have howned : db₁.ownedBy user.id { v with downloadCount := n } = true := by
    rw [hwriter.ownedBy]
    exact hh.owned
  have hx := commit_goes hwriter.exec hv₁ howned hstate
  have hserved : (serve dep ⟨req, .commit v.id, secret⟩ h).1 =
      .ok (.version (movedOn h.now dep.config { v with downloadCount := n })) := congrArg Prod.fst hx
  refine ⟨n, hserved, ?_⟩
  have hbody : (⟨req, .commit v.id, secret⟩ : Call).body = .commit v.id := rfl
  obtain ⟨b, hb, -, hmoved, hmem⟩ := commit_row hbody hserved
  exact hmem

/-- The answers of the transfer and the commit of an upload. -/
structure Completes (dep : Deployment) (owner upload : Uuid) (request : UploadRequest) (h₁ h₂ : Hub) (c₁ c₂ : Call) :
    Prop where
  taken : ∃ w, (serve dep c₁ h₁).1 = .ok (.version w) ∧ w.id = upload ∧ DeclaredAs request w ∧ w.state = .uploaded
  committed : ∃ w, (serve dep c₂ h₂).1 = .ok (.version w) ∧ w.id = upload ∧ DeclaredAs request w ∧
    w.state = if dep.config.requireVerification = true then .verifying else .published
  /-- where nothing waits for a verification, it is released under its owner's name -/
  released : dep.config.requireVerification = false → ∀ u ∈ (serve dep c₂ h₂).2.db.users, u.id = owner →
    ∃ a, (registry (serve dep c₂ h₂).2.db).releases (u.handle, request.slug) request.version = some a ∧
      a.version.sha256 = request.sha256

theorem movedOn_released (hverify : dep.config.requireVerification = false) :
    (movedOn now dep.config v).state = .published := by
  unfold movedOn
  rw [if_neg (by rw [hverify]; decide)]
  rfl

theorem movedOn_state : (movedOn now dep.config v).state =
    if dep.config.requireVerification = true then .verifying else .published := by
  unfold movedOn publishUnchecked
  split
  · rfl
  · rfl

/-- **A reservation is kept**: once an intent is granted, the transfer of the
declared bytes is taken at any time before it expires, and then the commit at
any time, whatever the service does in between, short of answering for this
very upload. -/
theorem reservation_is_kept (dep : Deployment) (owner : Uuid) (h₀ h₁ h₂ : Hub) (ls₁ ls₂ : List Lbl)
    (c₀ c₁ c₂ : Call) (intent : UploadIntent) (slot : Reservation) (chunks : Body)
    (hr : (lts dep).Reachable h₀)
    (hcreate : c₀.body = .create intent) (hby₀ : By dep owner h₀ c₀) (hslot : (serve dep c₀ h₀).1 = .ok (.slot slot))
    (hrun₁ : ((lts dep).restrict (Unanswered dep slot.uploadId)).Run (serve dep c₀ h₀).2 ls₁ h₁)
    (hcontent : c₁.body = .content slot.uploadId true chunks) (hby₁ : By dep owner h₁ c₁)
    (htime : h₁.now < h₀.now + seconds dep.config.reservationTtlSeconds) (hcut : chunks.cut = false)
    (hsize : (chunks.bytes.length : Int) = intent.request.sizeBytes)
    (hsha : sha256 chunks.bytes = intent.request.sha256)
    (hrun₂ : ((lts dep).restrict (Unanswered dep slot.uploadId)).Run (serve dep c₁ h₁).2 ls₂ h₂)
    (hcommit : c₂.body = .commit slot.uploadId) (hby₂ : By dep owner h₂ c₂) :
    Completes dep owner slot.uploadId intent.request h₁ h₂ c₁ c₂ := by
  obtain ⟨v, hid, hdeclared, hstate, hexpires, hheld⟩ := held_create hr hcreate hby₀ hslot
  rw [← hid] at hrun₁ hrun₂ hcontent hcommit
  have hpending : Pending h₁.now v := .inr ⟨hstate, _, hexpires, htime⟩
  have hheld₁ := held_run hrun₁ hpending hheld
  obtain ⟨w, htaken, hwid, hwdeclared, hwstate, hwmodel, hheldw⟩ :=
    held_content hheld₁ hstate hpending hdeclared hcontent hby₁ hcut hsize hsha
  rw [← hwid] at hrun₂ hcommit
  have hheld₂ := held_run hrun₂ (.inl hwstate) hheldw
  obtain ⟨n, hcommitted, hmem⟩ := held_commit hheld₂ hwstate hcommit hby₂
  have hstep : (lts dep).step h₂ (.service (.call c₂)) (serve dep c₂ h₂).2 := rfl
  refine ⟨⟨w, htaken, hwid.trans hid, hwdeclared, hwstate⟩, ⟨_, hcommitted, ?_, ?_, movedOn_state⟩, ?_⟩
  · exact movedOn_id.trans (hwid.trans hid)
  · refine ⟨((movedOn_keys h₂.now dep.config).version _).trans hwdeclared.version,
      movedOn_sha256.trans hwdeclared.sha256, movedOn_sizeBytes.trans hwdeclared.sizeBytes⟩
  · intro hverify u hu howner
    obtain ⟨m, hm, hmid, hmowner, hmslug⟩ := under_step hstep hheld₂.under
    have hkey : (movedOn h₂.now dep.config { w with downloadCount := n }).modelId = m.id :=
      movedOn_modelId.trans hmid.symm
    have hrow : (⟨m, movedOn h₂.now dep.config { w with downloadCount := n }, u.handle⟩ : PublishedRow) ∈
        joined (serve dep c₂ h₂).2.db :=
      mem_joined.mpr ⟨hm, hmem, hkey, u, hu, howner.trans hmowner.symm, rfl⟩
    refine ⟨_, releases_iff.mpr ⟨mem_releasedRows.mpr ⟨_, hrow, movedOn_released hverify, rfl⟩, ?_⟩, ?_⟩
    · refine named_iff.mpr ⟨rfl, hmslug, ?_⟩
      exact ((movedOn_keys h₂.now dep.config).version _).trans hwdeclared.version
    · exact movedOn_sha256.trans hwdeclared.sha256

/-! ## A trace -/

theorem unanswered_quiet (hquiet : ∀ c, l ≠ .service (.call c)) : Unanswered dep upload h l := fun c hc =>
  absurd hc (hquiet c)

/-- The account a request may write for. -/
def writerOf (dep : Deployment) (h : Hub) (c : Call) : Option Uuid :=
  match ((writeUser dep.platform h.now dep.config c.req).exec h.db h.volume).1 with
  | .ok user => some user.id
  | .error _ => none

theorem by_of_writerOf (hw : writerOf dep h c = some owner) : By dep owner h c := by
  unfold writerOf at hw
  split at hw
  · rename_i user hx
    obtain ⟨-, hwriter⟩ := writer_of_exec (Prod.ext hx rfl)
    exact ⟨user, _, hwriter, Option.some.inj hw⟩
  · cases hw

/-- Alice has reserved `abc`, fails to send it, and time goes by. -/
def granted : Hub := step unverified signedUp (.service (.call (asAlice (.create abcIntent))))

def wrongBytes : Call := asAlice (.content 8 true ⟨[[97]], false⟩)

def failing : List Lbl := [.service (.tick 60), .service (.call wrongBytes), .service .sweep]

/-- Then she sends it, and the janitor comes by. -/
def rightBytes : Call := asAlice (.content 8 true ⟨[[97, 98], [99]], false⟩)

def received : Hub := step unverified (after unverified granted failing) (.service (.call rightBytes))

theorem failing_run : ((lts unverified).restrict (Unanswered unverified 8)).Run granted failing
    (after unverified granted failing) := by
  refine .cons ⟨unanswered_quiet nofun, rfl⟩ (.cons ⟨fun c hc _ hans => ?_, rfl⟩
    (.cons ⟨unanswered_quiet nofun, rfl⟩ (.nil _)))
  obtain ⟨reply, hreply⟩ := hans
  obtain rfl : wrongBytes = c := by
    injection hc with hc
    injection hc
  have hrefused : (serve unverified wrongBytes (step unverified granted (.service (.tick 60)))).1.isOk = false := by
    decide +kernel
  rw [hreply] at hrefused
  cases hrefused

theorem abc_kept : ∃ slot, (serve unverified (asAlice (.create abcIntent)) signedUp).1 = .ok (.slot slot) ∧
    Completes unverified 1 slot.uploadId abcIntent.request (after unverified granted failing)
      (after unverified received [.service .sweep]) rightBytes (asAlice (.commit 8)) := by
  have hby₀ : By unverified 1 signedUp (asAlice (.create abcIntent)) := by_of_writerOf (by decide +kernel)
  have hby₁ : By unverified 1 (after unverified granted failing) rightBytes := by_of_writerOf (by decide +kernel)
  have hby₂ : By unverified 1 (after unverified received [.service .sweep]) (asAlice (.commit 8)) :=
    by_of_writerOf (by decide +kernel)
  have hok : (serve unverified (asAlice (.create abcIntent)) signedUp).1.isOk = true := by decide +kernel
  cases hres : (serve unverified (asAlice (.create abcIntent)) signedUp).1 with
  | error e => rw [hres] at hok; cases hok
  | ok reply =>
    obtain ⟨slot, rfl, hid⟩ := create_slot rfl hres
    have hupload : slot.uploadId = 8 := hid
    refine ⟨slot, rfl, ?_⟩
    rw [hupload]
    have hsweep : ((lts unverified).restrict (Unanswered unverified 8)).Run received [.service .sweep]
        (after unverified received [.service .sweep]) := .cons ⟨unanswered_quiet nofun, rfl⟩ (.nil _)
    have hkept := reservation_is_kept unverified 1 signedUp (after unverified granted failing)
      (after unverified received [.service .sweep]) failing [.service .sweep] (asAlice (.create abcIntent)) rightBytes
      (asAlice (.commit 8)) abcIntent slot ⟨[[97, 98], [99]], false⟩ signedUp_reachable rfl hby₀ hres
    rw [hupload] at hkept
    exact hkept failing_run rfl hby₁ (by decide +kernel) rfl rfl rfl hsweep rfl hby₂

end SpikeHub.L5.Completing
