import SpikeHub.Core.History
import SpikeHub.L4Routes.Uploading
import SpikeHub.L5Runs.Policy

/-!
# Where a published version comes from

A version row is made by a reservation, gets its bytes by a transfer and is
made visible by a commit, each a request of the account that owns its model
(`version_origin`). Read backwards over a run from an empty database: whatever
is visible was declared, sent and committed by its owner, in this order
(`published_by_owner`), and what is behind its address is the bytes its digest
names, then and from then on (`served`).
-/
namespace SpikeHub.L5.Provenance

open SpikeHub.Core SpikeHub.L1 SpikeHub.L2 SpikeHub.L4.Auth SpikeHub.L4.Uploads SpikeHub.L4.Catalog
open SpikeHub.L4.Routes SpikeHub.L5.Service
open SpikeHub.L5.Interleave (Hub)
open SpikeHub.L5.Requests (Call serve serve_effect)
open SpikeHub.L5.Catalogue (swept swept_db serve_rowEffect unverified)
open SpikeHub.L5.Policy (publishing released released_run)

/-- The same upload: what was declared of it. -/
structure SameUpload (v w : ModelVersion) : Prop where
  id : w.id = v.id
  modelId : w.modelId = v.modelId
  version : w.version = v.version
  sha256 : w.sha256 = v.sha256
  sizeBytes : w.sizeBytes = v.sizeBytes

/-- The request is the account's, with a credential that may write. -/
def By (dep : Deployment) (owner : Uuid) (h : Hub) (c : Call) : Prop :=
  ∃ user db₁, Writer dep h.now c.req h.db h.volume user db₁ ∧ user.id = owner

def Answered (dep : Deployment) (h : Hub) (c : Call) : Prop := ∃ reply, (serve dep c h).1 = .ok reply

/-- A reservation of the upload, under this slug, answered with its id. -/
def Reserves (dep : Deployment) (owner : Uuid) (slug : String) (v : ModelVersion) (h : Hub) (l : Lbl) : Prop :=
  ∃ c intent slot, l = .service (.call c) ∧ c.body = .create intent ∧ By dep owner h c ∧
    (serve dep c h).1 = .ok (.slot slot) ∧ slot.uploadId = v.id ∧ intent.request.slug = slug ∧
    intent.request.version = v.version ∧ intent.request.sha256 = v.sha256 ∧
    intent.request.sizeBytes = v.sizeBytes

/-- A transfer of the bytes that were declared. -/
def Sends (dep : Deployment) (owner : Uuid) (v : ModelVersion) (h : Hub) (l : Lbl) : Prop :=
  ∃ c declared chunks, l = .service (.call c) ∧ c.body = .content v.id declared chunks ∧ By dep owner h c ∧
    Answered dep h c ∧ chunks.cut = false ∧ (chunks.bytes.length : Int) = v.sizeBytes ∧
    sha256 chunks.bytes = v.sha256

/-- A commit of the upload. -/
def Commits (dep : Deployment) (owner : Uuid) (v : ModelVersion) (h : Hub) (l : Lbl) : Prop :=
  ∃ c, l = .service (.call c) ∧ c.body = .commit v.id ∧ By dep owner h c ∧ Answered dep h c

variable {dep : Deployment} {h h' h₀ : Hub} {l : Lbl} {ls : List Lbl} {c : Call} {db db' : Db} {v w : ModelVersion}
  {owner : Uuid} {slug : String} {s : VersionState}

theorem SameUpload.refl (v : ModelVersion) : SameUpload v v := ⟨rfl, rfl, rfl, rfl, rfl⟩

theorem SameUpload.trans {u : ModelVersion} (h : SameUpload u v) (h' : SameUpload v w) : SameUpload u w :=
  ⟨h'.id.trans h.id, h'.modelId.trans h.modelId, h'.version.trans h.version, h'.sha256.trans h.sha256,
    h'.sizeBytes.trans h.sizeBytes⟩

/-- How a row comes to be what it is after a request. -/
inductive Origin (dep : Deployment) (h : Hub) (c : Call) (w : ModelVersion) : Prop
  | old {a : ModelVersion} {n : Nat} : a ∈ h.db.versions → w = { a with downloadCount := n } → Origin dep h c w
  | reserved {intent : UploadIntent} {user : User} {db₁ : Db} {m : HubModel} {slot : Reservation} :
      c.body = .create intent → Writer dep h.now c.req h.db h.volume user db₁ →
      (serve dep c h).1 = .ok (.slot slot) → slot.uploadId = h.fresh + 1 →
      w = newVersion h.now (h.fresh + 1) m.id intent.request dep.config →
      m ∈ (serve dep c h).2.db.models → m.ownerId = user.id → m.slug = intent.request.slug →
      Origin dep h c w
  | sent {a : ModelVersion} {declared : Bool} {chunks : Body} {user : User} {db₁ : Db} {key : String} :
      c.body = .content a.id declared chunks → Writer dep h.now c.req h.db h.volume user db₁ →
      Answered dep h c → a ∈ h.db.versions → Took h.now h.fresh a.id user.id chunks db₁ h.volume a key (serve dep c h).2.db
        (serve dep c h).2.volume → w = uploadedAs key a → Origin dep h c w
  | committed {a : ModelVersion} {user : User} {db₁ : Db} :
      c.body = .commit a.id → Writer dep h.now c.req h.db h.volume user db₁ →
      (serve dep c h).1 = .ok (.version w) → a ∈ h.db.versions → a.state = .uploaded →
      h.db.ownedBy user.id a = true → w = movedOn h.now dep.config a → Origin dep h c w

theorem origin_old {a : ModelVersion} (ha : a ∈ h.db.versions) : Origin dep h c a :=
  .old ha rfl

/-- The model a granted version is of. -/
theorem granted_model {now : Time} {n : Int} {ids : NewIds} {user : User} {request : UploadRequest}
    {config : Settings} (hg : Granted now n ids user request config db db') (hw : w ∈ db'.versions) :
    w ∈ db.versions ∨ ∃ m ∈ db'.models, m.ownerId = user.id ∧ m.slug = request.slug ∧
      w = newVersion now ids.version m.id request config := by
  obtain ⟨m, db₁, htarget, -, -, hv, hv', rfl⟩ := hg.rows
  cases htarget with
  | found hnamed =>
    obtain ⟨hm, hp⟩ := Table.find?_some hnamed
    rw [decide_eq_true_eq] at hp
    rcases (Table.mem_insert (h := hv)).mp hw with hold | rfl
    · exact .inl hold
    · exact .inr ⟨m, hm, hp.1, hp.2, rfl⟩
  | created =>
    rename_i hnew _ _ _
    rcases (Table.mem_insert (h := hv)).mp hw with hold | rfl
    · exact .inl hold
    · exact .inr ⟨_, (Table.mem_insert (h := hnew)).mpr (.inr rfl), rfl, rfl, rfl⟩

/-- **Where a row comes from**, whatever the request was. -/
theorem version_origin (dep : Deployment) (c : Call) (h : Hub) (hw : w ∈ (serve dep c h).2.db.versions) :
    Origin dep h c w := by
  obtain ⟨req, body, secret⟩ := c
  have hsame : SameRows h.db (serve dep ⟨req, body, secret⟩ h).2.db → Origin dep h ⟨req, body, secret⟩ w :=
    fun hsame => origin_old (hsame.versions ▸ hw)
  have hother : body.uploads = false → (∀ handle slug version, body ≠ .download handle slug version) →
      Origin dep h ⟨req, body, secret⟩ w := fun hbody hdown =>
    hsame (sameRows_of_effect (serve_effect dep ⟨req, body, secret⟩ h) hbody hdown)
  cases hres : (serve dep ⟨req, body, secret⟩ h).1 with
  | error e =>
    have hrow := serve_rowEffect dep ⟨req, body, secret⟩ h
    rw [hres] at hrow
    generalize (serve dep ⟨req, body, secret⟩ h).2.db = db' at hrow hsame
    cases hrow with
    | same hrows => exact hsame hrows
  | ok reply =>
    cases body with
    | create intent =>
      have hx : dbSession (create dep h.now ⟨h.fresh, secret⟩ req intent) h.db h.volume = (.ok reply, _, _) :=
        Prod.ext hres rfl
      obtain ⟨-, user, db₁, slot, hwriter, rfl, hid, hgranted⟩ := create_ok hx
      rcases granted_model hgranted hw with hold | ⟨m, hm, howner, hslug, hnew⟩
      · exact origin_old (hwriter.sameRows.versions ▸ hold)
      · exact .reserved rfl hwriter hres hid hnew hm howner hslug
    | content upload declared chunks =>
      have hx : dbSession (content dep h.now ⟨h.fresh, secret⟩ req upload declared chunks) h.db h.volume =
          (.ok reply, _, _) := Prod.ext hres rfl
      obtain ⟨user, db₁, v, key, hwriter, htook, -⟩ := content_ok hx
      obtain ⟨hv, rfl, -⟩ := reservedSlot_ok htook.slot
      rcases (storedUpload htook.stored).version_cases hv hw with hnew | ⟨hold, -⟩
      · exact .sent rfl hwriter ⟨reply, hres⟩ (hwriter.sameRows.versions ▸ hv) htook hnew
      · exact origin_old (hwriter.sameRows.versions ▸ hold)
    | commit upload =>
      have hx : dbSession (commit dep h.now req upload) h.db h.volume = (.ok reply, _, _) := Prod.ext hres rfl
      obtain ⟨-, user, db₁, v, hwriter, hown, hstate, hreply, hdb⟩ := commit_ok hx
      obtain ⟨hv, rfl, howned⟩ := ownedVersion_ok hown
      have hset : w ∈ (setVersion db₁ v.id (movedOn h.now dep.config) (movedOn_keys _ _)).versions := hdb ▸ hw
      rcases setVersion_cases hv hset with hnew | ⟨hold, -⟩
      · exact .committed rfl hwriter (by rw [hres, hreply, hnew]) (hwriter.sameRows.versions ▸ hv) hstate
          (hwriter.ownedBy ▸ howned) hnew
      · exact origin_old (hwriter.sameRows.versions ▸ hold)
    | download handle slug version =>
      have hrow := serve_rowEffect dep ⟨req, .download handle slug version, secret⟩ h
      rw [hres] at hrow
      generalize (serve dep ⟨req, .download handle slug version, secret⟩ h).2.db = db' at hrow hw hsame
      cases hrow with
      | same hrows => exact hsame hrows
      | counted =>
        rcases setVersion_changed hw with ⟨a, ha, -, rfl⟩ | ⟨hold, -⟩
        · exact .old ha rfl
        · exact origin_old hold
    | _ => exact hother rfl fun _ _ _ he => by cases he

/-! ## One step back -/

/-- The model of that id is the account's, under this slug. -/
def Under (owner : Uuid) (slug : String) (db : Db) (modelId : Uuid) : Prop :=
  ∃ m ∈ db.models, m.id = modelId ∧ m.ownerId = owner ∧ m.slug = slug

/-- The upload is there, in this state, under the account and the slug. -/
def Stands (owner : Uuid) (slug : String) (v : ModelVersion) (s : VersionState) (h : Hub) : Prop :=
  ∃ w ∈ h.db.versions, SameUpload v w ∧ w.state = s ∧ Under owner slug h.db w.modelId

/-- A model is kept, with its account and its slug. -/
theorem models_step (hs : (lts dep).step h l h') : ∀ m ∈ h.db.models, ∃ n ∈ h'.db.models,
    n.id = m.id ∧ n.ownerId = m.ownerId ∧ n.slug = m.slug := by
  cases hs
  intro m hm
  cases l with
  | service l =>
    have hstep : (Catalogue.lts dep).step h l (step dep h (.service l)) := rfl
    exact ⟨m, (Catalogue.keeps_step hstep).models m hm, rfl, rfl, rfl⟩
  | account => exact ⟨m, hm, rfl, rfl, rfl⟩
  | moderate id state visibility =>
    refine ⟨_, mem_setModel.mpr ⟨m, hm, rfl⟩, ?_⟩
    split
    · exact ⟨rfl, rfl, rfl⟩
    · exact ⟨rfl, rfl, rfl⟩

/-- The model of a version that is there was there. -/
theorem under_back (hs : (lts dep).step h l h') (hv : v ∈ h.db.versions)
    (hu : Under owner slug h'.db v.modelId) : Under owner slug h.db v.modelId := by
  obtain ⟨m, hm, hid, howner, hslug⟩ := hu
  obtain ⟨a, ha, haid⟩ := h.db.modelKey v hv
  obtain ⟨n, hn, hnid, hnowner, hnslug⟩ := models_step hs a ha
  obtain rfl : n = m := model_eq hn hm (by rw [hnid, haid, hid])
  exact ⟨a, ha, haid, hnowner ▸ howner, hnslug ▸ hslug⟩

/-- Who may act on the version is who its model is under. -/
theorem owner_of_under {u : Uuid} (hu : Under owner slug db v.modelId) (howned : db.ownedBy u v = true) :
    u = owner := by
  obtain ⟨m, hm, hid, howner, -⟩ := hu
  exact owner_unique howned (ownedBy_iff.mpr ⟨m, hm, hid, howner⟩)

/-- What brings an upload into a state, from the state before. -/
def Brings (dep : Deployment) (owner : Uuid) (slug : String) (v : ModelVersion) :
    VersionState → Hub → Lbl → Prop
  | .reserved, h, l => Reserves dep owner slug v h l
  | .uploaded, h, l => Sends dep owner v h l ∧ Stands owner slug v .reserved h
  | .published, h, l => Commits dep owner v h l ∧ Stands owner slug v .uploaded h
  | _, _, _ => True

theorem brings_call (hs : (lts dep).step h (.service (.call c)) h') (hst : Stands owner slug v s h') :
    Stands owner slug v s h ∨ Brings dep owner slug v s h (.service (.call c)) := by
  obtain ⟨w, hw, hsame, rfl, hunder⟩ := hst
  have hserve : h' = (serve dep c h).2 := hs
  cases version_origin dep c h (hserve ▸ hw) with
  | old ha hrow =>
    rename_i a n
    subst hrow
    refine .inl ⟨a, ha, ?_, rfl, under_back hs ha hunder⟩
    exact ⟨hsame.id, hsame.modelId, hsame.version, hsame.sha256, hsame.sizeBytes⟩
  | reserved hbody hwriter hres hid hnew hm howner hslug =>
    rename_i intent user db₁ m slot
    subst hnew
    refine .inr ⟨c, intent, slot, rfl, hbody, ⟨user, db₁, hwriter, ?_⟩, hres, hid.trans hsame.id, ?_,
      hsame.version, hsame.sha256, hsame.sizeBytes⟩
    · obtain ⟨n, hn, hnid, hnowner, -⟩ := hunder
      obtain rfl : n = m := model_eq hn (hserve ▸ hm) hnid
      exact howner ▸ hnowner
    · obtain ⟨n, hn, hnid, -, hnslug⟩ := hunder
      obtain rfl : n = m := model_eq hn (hserve ▸ hm) hnid
      exact hslug ▸ hnslug
  | sent hbody hwriter hans ha htook hnew =>
    rename_i a declared chunks user db₁ key
    subst hnew
    have hback := under_back hs ha hunder
    obtain ⟨-, -, howned, hreserved, -⟩ := reservedSlot_ok htook.slot
    obtain ⟨hsize, hsha⟩ := checkMeasured_ok htook.measured
    have hid : a.id = v.id := hsame.id
    refine .inr ⟨⟨c, declared, chunks, rfl, hid ▸ hbody, ⟨user, db₁, hwriter, ?_⟩, hans, htook.whole, ?_, ?_⟩,
      a, ha, ⟨hsame.id, hsame.modelId, hsame.version, hsame.sha256, hsame.sizeBytes⟩, hreserved, hback⟩
    · exact owner_of_under hback (hwriter.ownedBy ▸ howned)
    · exact hsize.trans hsame.sizeBytes
    · exact hsha.trans hsame.sha256
  | committed hbody hwriter hans ha hstate howned hnew =>
    rename_i a user db₁
    subst hnew
    rw [movedOn_modelId] at hunder
    have hback := under_back hs ha hunder
    have hup : SameUpload v a := ⟨movedOn_id ▸ hsame.id, movedOn_modelId ▸ hsame.modelId,
      (movedOn_keys h.now dep.config).version a ▸ hsame.version, movedOn_sha256 ▸ hsame.sha256,
      movedOn_sizeBytes ▸ hsame.sizeBytes⟩
    have hcommits : Commits dep owner v h (.service (.call c)) :=
      ⟨c, rfl, hup.id ▸ hbody, ⟨user, db₁, hwriter, owner_of_under hback howned⟩, _, hans⟩
    unfold movedOn publishUnchecked
    split
    · exact .inr trivial
    · exact .inr ⟨hcommits, a, ha, hup, hstate, hback⟩

/-- Nothing but these requests does. -/
theorem brings_step (hs : (lts dep).step h l h') (hst : Stands owner slug v s h') :
    Stands owner slug v s h ∨ Brings dep owner slug v s h l := by
  have hold : h'.db.versions = h.db.versions → Stands owner slug v s h := by
    intro hsame
    obtain ⟨w, hw, hup, hstate, hunder⟩ := hst
    have hw : w ∈ h.db.versions := hsame ▸ hw
    exact ⟨w, hw, hup, hstate, under_back hs hw hunder⟩
  cases l with
  | account | moderate =>
    cases hs
    exact .inl (hold rfl)
  | service l =>
    cases l with
    | call c => exact brings_call hs hst
    | tick =>
      cases hs
      exact .inl (hold rfl)
    | sweep =>
      obtain ⟨w, hw, hup, hstate, hunder⟩ := hst
      have hswept : h' = swept h := hs
      rw [hswept, swept_db] at hw
      have hw : w ∈ h.db.versions := (mem_deleteVersions.mp hw).1
      exact .inl ⟨w, hw, hup, hstate, under_back hs hw hunder⟩

/-! ## Back to the reservation -/

theorem brought (hstart : Start h₀) (hrun : (lts dep).Run h₀ ls h) (hst : Stands owner slug v s h) :
    (lts dep).Sometime (Brings dep owner slug v s) h₀ ls h := by
  rcases hrun.since (fun _ _ _ hi _ => hi) (fun _ _ _ (_ : True) hs => brings_step hs) trivial hst with hbegin | hsome
  · obtain ⟨w, hw, -⟩ := hbegin
    have hempty : h₀.db = .empty := hstart
    rw [hempty] at hw
    cases hw
  · exact hsome

theorem reserved_by (hstart : Start h₀) (hrun : (lts dep).Run h₀ ls h)
    (hst : Stands owner slug v .reserved h) : (lts dep).InOrder [Reserves dep owner slug v] h₀ ls h := by
  obtain ⟨pre, l, post, t, t', rfl, hpre, hbrings, hs, hpost⟩ := (brought hstart hrun hst).split
  exact (LTS.InOrder.done hpre).snoc hs hbrings hpost

theorem sent_by (hstart : Start h₀) (hrun : (lts dep).Run h₀ ls h) (hst : Stands owner slug v .uploaded h) :
    (lts dep).InOrder [Reserves dep owner slug v, Sends dep owner v] h₀ ls h := by
  obtain ⟨pre, l, post, t, t', rfl, hpre, ⟨hsends, hst⟩, hs, hpost⟩ := (brought hstart hrun hst).split
  exact (reserved_by hstart hpre hst).snoc hs hsends hpost

/-- **Published by its owner**: behind every visible row there are, in this
order, a reservation that declared it, a transfer of the declared bytes and a
commit, each answered, and each made with a credential of the account it is
shown under that may write. -/
theorem published_by_owner (dep : Deployment) (h₀ h : Hub) (ls : List Lbl) (hstart : Start h₀)
    (hrun : (lts dep).Run h₀ ls h) (row : PublishedRow) (hv : row ∈ visibleRows h.db) :
    ∃ owner ∈ h.db.users, owner.id = row.model.ownerId ∧ owner.handle = row.handle ∧
      (lts dep).InOrder [Reserves dep owner.id row.model.slug row.version, Sends dep owner.id row.version,
        Commits dep owner.id row.version] h₀ ls h := by
  obtain ⟨hjoined, -, -, hstate⟩ := mem_visibleRows.mp hv
  obtain ⟨hm, hmem, hkey, owner, howner, hid, hhandle⟩ := mem_joined.mp hjoined
  have hst : Stands owner.id row.model.slug row.version .published h :=
    ⟨row.version, hmem, .refl _, hstate, row.model, hm, hkey.symm, hid.symm, rfl⟩
  obtain ⟨pre, l, post, t, t', rfl, hpre, ⟨hcommits, hst⟩, hs, hpost⟩ := (brought hstart hrun hst).split
  exact ⟨owner, howner, hid, hhandle, (sent_by hstart hpre hst).snoc hs hcommits hpost⟩

theorem released_by_owner : ∃ row ∈ visibleRows released.db, ∃ owner ∈ released.db.users,
    owner.id = row.model.ownerId ∧
      (lts unverified).InOrder [Reserves unverified owner.id row.model.slug row.version,
        Sends unverified owner.id row.version, Commits unverified owner.id row.version] blank publishing
        released := by
  obtain ⟨row, hrow⟩ : ∃ row, row ∈ visibleRows released.db :=
    List.exists_mem_of_ne_nil _ (List.ne_nil_of_length_pos (by decide +kernel))
  obtain ⟨owner, howner, hid, -, hsteps⟩ :=
    published_by_owner unverified blank released publishing rfl released_run row hrow
  exact ⟨row, hrow, owner, howner, hid, hsteps⟩

/-! ## What is behind its address -/

/-- Every object is the bytes its key names. -/
def Named (fs : Volume) : Prop := ∀ key bs, fs.read (.artifact key) = some bs → objectKey (sha256 bs) = .ok key

/-- Every version whose bytes were taken has its object. -/
structure Stocked (h : Hub) : Prop where
  named : Named h.volume
  stored : ∀ v ∈ h.db.versions, v.state ≠ .reserved →
    objectKey v.sha256 = .ok v.objectKey ∧ ∃ bs, h.volume.read (.artifact v.objectKey) = some bs

theorem swept_shelved (h : Hub) : Shelved h.volume (swept h).volume := by
  have hunlinked : ∀ (vs : List ModelVersion) (fs : Volume),
      Shelved fs (vs.foldl (fun fs v => fs.unlink (.staging v.id)) fs) := by
    intro vs
    induction vs with
    | nil => exact .refl
    | cons v vs ih => exact fun fs => (shelved_rewrites Fs.rewrites_unlink).trans (ih _)
  unfold swept
  dsimp only
  rw [dbSession_world, sweep_exec]
  exact hunlinked _ _

theorem shelved_step (hs : (lts dep).step h l h') : Shelved h.volume h'.volume := by
  cases hs
  cases l with
  | account | moderate => exact .refl _
  | service l =>
    cases l with
    | tick => exact .refl _
    | call c => exact route_shelved
    | sweep => exact swept_shelved h

/-- An object that is there stays there. -/
theorem read_run {key : String} {bs : Bytes} (hrun : (lts dep).Run h ls h')
    (hread : h.volume.read (.artifact key) = some bs) : h'.volume.read (.artifact key) = some bs :=
  hrun.keeps (P := fun s => s.volume.read (.artifact key) = some bs)
    (fun _ _ _ hkept hs => (shelved_step hs).kept _ _ hkept) hread

theorem stocked_step (hi : Stocked h) (hs : (lts dep).step h l h') : Stocked h' := by
  have hshelved := shelved_step hs
  have hkept : ∀ v ∈ h.db.versions, v.state ≠ .reserved → objectKey v.sha256 = .ok v.objectKey ∧
      ∃ bs, h'.volume.read (.artifact v.objectKey) = some bs := by
    intro v hv hleft
    obtain ⟨hkey, bs, hread⟩ := hi.stored v hv hleft
    exact ⟨hkey, bs, hshelved.kept _ _ hread⟩
  refine ⟨fun key bs hread => ?_, fun w hw hleft => ?_⟩
  · rcases hshelved.named key bs hread with hold | hnew
    · exact hi.named key bs hold
    · exact hnew
  cases l with
  | account | moderate =>
    cases hs
    exact hkept w hw hleft
  | service l =>
    cases l with
    | tick =>
      cases hs
      exact hkept w hw hleft
    | sweep =>
      have hswept : h' = swept h := hs
      rw [hswept, swept_db] at hw
      exact hkept w (mem_deleteVersions.mp hw).1 hleft
    | call c =>
      have hserve : h' = (serve dep c h).2 := hs
      cases version_origin dep c h (hserve ▸ hw) with
      | old ha hrow =>
        rename_i a n
        subst hrow
        exact hkept a ha hleft
      | reserved _ _ _ _ hnew =>
        subst hnew
        exact absurd rfl hleft
      | sent _ _ _ _ htook hnew =>
        subst hnew
        rw [hserve]
        exact ⟨htook.named, _, (htook.reads _).trans (if_pos rfl)⟩
      | committed _ _ _ ha hstate _ hnew =>
        subst hnew
        rw [movedOn_sha256, movedOn_objectKey]
        exact hkept _ ha (by rw [hstate]; decide)

/-- **Served**: the address a visible row is downloaded from is that of its
digest, and what is there, then and after any further run, are bytes of this
digest. -/
theorem served (dep : Deployment) (h₀ h : Hub) (ls : List Lbl) (hstart : Start h₀) (hnamed : Named h₀.volume)
    (hrun : (lts dep).Run h₀ ls h) (row : PublishedRow) (hv : row ∈ visibleRows h.db) :
    ∃ key bs, objectKey row.version.sha256 = .ok key ∧ sha256 bs = row.version.sha256 ∧
      (∀ req secret, (serve dep ⟨req, .download row.handle row.model.slug row.version.version, secret⟩ h).1 =
        .ok (.redirect (PyStr.rstrip (· = '/') dep.config.artifactPublicBase ++ "/" ++ key))) ∧
      ∀ ls' h', (lts dep).Run h ls' h' → h'.volume.read (.artifact key) = some bs := by
  have hstocked : Stocked h := by
    refine hrun.keeps (fun _ _ _ hi hs => stocked_step hi hs) ⟨hnamed, fun v hv => ?_⟩
    have hempty : h₀.db = .empty := hstart
    rw [hempty] at hv
    cases hv
  obtain ⟨hjoined, -, -, hstate⟩ := mem_visibleRows.mp hv
  obtain ⟨-, hmem, -⟩ := mem_joined.mp hjoined
  obtain ⟨hkey, bs, hread⟩ := hstocked.stored row.version hmem (by rw [hstate]; decide)
  refine ⟨row.version.objectKey, bs, hkey, objectKey_inj (hstocked.named _ _ hread) hkey, fun req secret => ?_,
    fun ls' h' hlater => read_run hlater hread⟩
  exact Catalogue.serve_download (oneVersion_eq_some.mpr ⟨hv, rfl, rfl, rfl⟩)

theorem released_served : ∃ row ∈ visibleRows released.db, ∃ key bs,
    objectKey row.version.sha256 = .ok key ∧ sha256 bs = row.version.sha256 ∧
      released.volume.read (.artifact key) = some bs := by
  obtain ⟨row, hrow⟩ : ∃ row, row ∈ visibleRows released.db :=
    List.exists_mem_of_ne_nil _ (List.ne_nil_of_length_pos (by decide +kernel))
  have hblank : Named blank.volume := fun key bs hread => by cases hread
  obtain ⟨key, bs, hkey, hsha, -, hread⟩ :=
    served unverified blank released publishing rfl hblank released_run row hrow
  exact ⟨row, hrow, key, bs, hkey, hsha, hread [] released (.nil _)⟩

end SpikeHub.L5.Provenance
