import SpikeHub.L4Uploads.Intent
import SpikeHub.L4Uploads.Publish

/-!
# What the uploads write

A relation that holds between the database before and after each write of
`reserve`, `receive`, `publish` or `sweep` holds of the call, whether it returns
or raises (`reserve_changes` and the three after it). They write models, versions
and ledger entries only, so accounts and credentials stay as they were, and they
delete versions only, so models stay.
-/
namespace SpikeHub.L4.Uploads

open SpikeHub.Core SpikeHub.L1 SpikeHub.L2 SpikeHub.L3 Work

/-- The same accounts, links, sessions and tokens. -/
structure SameAuth (db db' : Db) : Prop where
  users : db'.users = db.users
  identities : db'.identities = db.identities
  sessions : db'.sessions = db.sessions
  tokens : db'.tokens = db.tokens

theorem SameAuth.refl (db : Db) : SameAuth db db := ⟨rfl, rfl, rfl, rfl⟩

theorem SameAuth.trans {a b c : Db} (h : SameAuth a b) (h' : SameAuth b c) : SameAuth a c :=
  ⟨h'.users.trans h.users, h'.identities.trans h.identities, h'.sessions.trans h.sessions,
    h'.tokens.trans h.tokens⟩

/-- Work that keeps the accounts and credentials. -/
abbrev KeepsAuth {α : Type} (m : HubWork α) : Prop := Changes SameAuth m

section
variable {α β : Type} {m : HubWork α} {f : α → HubWork β}

theorem keepsAuth_view (h : m.KeepsView) : KeepsAuth m := changes_view SameAuth.refl h

theorem keepsAuth_bind (hm : KeepsAuth m) (hf : ∀ a, KeepsAuth (f a)) : KeepsAuth (m >>= f) :=
  Changes.bind SameAuth.trans hm hf

/-- A step that does not write the database, and the rest. -/
theorem keepsAuth_then (h : m.KeepsView) (hf : ∀ a, KeepsAuth (f a)) :
    KeepsAuth (m >>= f) :=
  keepsAuth_bind (keepsAuth_view h) hf

end

variable {now : Time} {config : Settings}

/-! ## What a call writes -/

section
variable {R : Db → Db → Prop}

/-- A reserve adds a model and a version at most. -/
theorem reserve_changes (hrefl : ∀ d, R d d) (htrans : ∀ {a b c}, R a b → R b c → R a c)
    (hmodel : ∀ m d d', addModel m d = .ok d' → R d d')
    (hversion : ∀ v d d', addVersion v d = .ok d' → R d d') {free : Volume → Int} {ids : NewIds}
    {user : User} {request : UploadRequest} : Changes R (reserve now free ids user request config) := by
  have hthen : ∀ {α β : Type} {m : HubWork α} {f : α → HubWork β}, m.KeepsView →
      (∀ a, Changes R (f a)) → Changes R (m >>= f) :=
    fun h hf => Changes.bind htrans (changes_view hrefl h) hf
  refine hthen (fun _ _ => rfl) fun _ => hthen (fun _ _ => rfl) fun _ =>
    hthen (fun _ _ => rfl) fun _ => hthen (fun _ _ => rfl) fun _ =>
    hthen (fun _ _ => rfl) fun _ => hthen (fun _ _ => rfl) fun _ =>
    hthen (fun _ _ => rfl) fun _ => hthen (fun _ _ => rfl) fun _ =>
    Changes.bind htrans ?_ fun m => hthen (fun _ _ => rfl) fun _ =>
    hthen (fun _ _ => rfl) fun _ =>
    Changes.bind htrans (changes_statement hrefl (hversion _)) fun _ =>
    changes_view hrefl fun _ _ => rfl
  refine hthen (fun _ _ => rfl) fun found => ?_
  cases found with
  | some m => exact changes_view hrefl fun _ _ => rfl
  | none =>
    exact hthen (fun _ _ => rfl) fun _ =>
      Changes.bind htrans (changes_statement hrefl (hmodel _)) fun _ =>
      changes_view hrefl fun _ _ => rfl

/-- A receive deletes its row, or stores the upload. -/
theorem receive_changes (hrefl : ∀ d, R d d) (htrans : ∀ {a b c}, R a b → R b c → R a c)
    (hdelete : ∀ ids d, R d (deleteVersions ids d)) {entryId uploadId userId : Uuid}
    (hstore : ∀ v key blob d d', storeUploaded now entryId userId v key blob d = .ok d' → R d d')
    {body : Body} : Changes R (receive now entryId uploadId userId body) := by
  have hthen : ∀ {α β : Type} {m : HubWork α} {f : α → HubWork β}, m.KeepsView →
      (∀ a, Changes R (f a)) → Changes R (m >>= f) :=
    fun h hf => Changes.bind htrans (changes_view hrefl h) hf
  refine hthen (fun _ _ => rfl) fun v => hthen stage_view fun blob =>
    Changes.bind htrans ?_ fun _ => hthen promote_view fun key =>
    Changes.bind htrans (changes_statement hrefl (hstore v key blob)) fun _ =>
    changes_view hrefl fun _ _ => rfl
  refine Changes.tryCatch htrans (changes_view hrefl fun _ _ => rfl) fun e => ?_
  refine hthen (fun _ _ => rfl) fun _ => Changes.bind htrans (fun d w => ?_) fun _ =>
    changes_view hrefl fun _ _ => rfl
  exact hdelete [v.id] d

/-- A publish sets columns of one version. -/
theorem publish_changes (hrefl : ∀ d, R d d) (htrans : ∀ {a b c}, R a b → R b c → R a c)
    (hset : ∀ id f hf d, R d (setVersion d id f hf)) {v : ModelVersion} :
    Changes R (publish now v config) := by
  refine Changes.bind htrans (changes_view hrefl fun _ _ => rfl) fun _ =>
    Changes.bind htrans (changes_statement hrefl fun d d' h => ?_) fun _ =>
    changes_view hrefl fun _ _ => rfl
  obtain ⟨-, rfl⟩ := updateVersion_ok h
  exact hset _ _ _ d

/-- A sweep deletes versions. -/
theorem sweep_changes (hdelete : ∀ ids d, R d (deleteVersions ids d)) : Changes R (sweep now) := by
  intro d w
  rw [sweep_exec]
  exact hdelete _ d

end

/-! ## The accounts -/

theorem addModel_sameAuth (m : HubModel) (d d' : Db) (h : addModel m d = .ok d') : SameAuth d d' := by
  obtain ⟨hm, hm', rfl⟩ := addModel_ok h
  exact ⟨rfl, rfl, rfl, rfl⟩

theorem addVersion_sameAuth (v : ModelVersion) (d d' : Db) (h : addVersion v d = .ok d') :
    SameAuth d d' := by
  obtain ⟨hv, hv', rfl⟩ := addVersion_ok h
  exact ⟨rfl, rfl, rfl, rfl⟩

theorem reserve_keepsAuth {free : Volume → Int} {ids : NewIds} {user : User}
    {request : UploadRequest} : KeepsAuth (reserve now free ids user request config) :=
  reserve_changes SameAuth.refl SameAuth.trans addModel_sameAuth addVersion_sameAuth

theorem receive_keepsAuth {entryId uploadId userId : Uuid} {body : Body} :
    KeepsAuth (receive now entryId uploadId userId body) := by
  refine receive_changes SameAuth.refl SameAuth.trans (fun _ _ => ⟨rfl, rfl, rfl, rfl⟩) ?_
  intro v key blob d d' h
  obtain ⟨-, he, rfl⟩ := storeUploaded_ok h
  exact ⟨rfl, rfl, rfl, rfl⟩

theorem publish_keepsAuth {v : ModelVersion} : KeepsAuth (publish now v config) :=
  publish_changes SameAuth.refl SameAuth.trans fun _ _ _ _ => ⟨rfl, rfl, rfl, rfl⟩

/-! ## The models -/

/-- The models that were there are there, perhaps with new ones after them. -/
def ModelsStay (db db' : Db) : Prop := db.models.rows.Sublist db'.models.rows

theorem ModelsStay.refl (db : Db) : ModelsStay db db := List.Sublist.refl _

theorem ModelsStay.trans {a b c : Db} (h : ModelsStay a b) (h' : ModelsStay b c) : ModelsStay a c :=
  List.Sublist.trans h h'

theorem ModelsStay.same {db db' : Db} (h : db'.models = db.models) : ModelsStay db db' := by
  unfold ModelsStay
  rw [h]

theorem ModelsStay.count {db db' : Db} (h : ModelsStay db db') (userId : Uuid) :
    modelCount db userId ≤ modelCount db' userId :=
  List.Sublist.length_le (List.Sublist.filter _ h)

theorem addModel_stay (m : HubModel) (d d' : Db) (h : addModel m d = .ok d') : ModelsStay d d' := by
  obtain ⟨hm, hm', rfl⟩ := addModel_ok h
  exact List.sublist_append_left _ _

theorem addVersion_stay (v : ModelVersion) (d d' : Db) (h : addVersion v d = .ok d') :
    ModelsStay d d' := by
  obtain ⟨hv, hv', rfl⟩ := addVersion_ok h
  exact .same rfl

theorem reserve_stay {free : Volume → Int} {ids : NewIds} {user : User} {request : UploadRequest} :
    Changes ModelsStay (reserve now free ids user request config) :=
  reserve_changes ModelsStay.refl ModelsStay.trans addModel_stay addVersion_stay

theorem receive_stay {entryId uploadId userId : Uuid} {body : Body} :
    Changes ModelsStay (receive now entryId uploadId userId body) := by
  refine receive_changes ModelsStay.refl ModelsStay.trans (fun _ _ => .same rfl) ?_
  intro v key blob d d' h
  obtain ⟨-, he, rfl⟩ := storeUploaded_ok h
  exact .same rfl

theorem publish_stay {v : ModelVersion} : Changes ModelsStay (publish now v config) :=
  publish_changes ModelsStay.refl ModelsStay.trans fun _ _ _ _ => .same rfl

theorem sweep_stay : Changes ModelsStay (sweep now) := sweep_changes fun _ _ => .same rfl

end SpikeHub.L4.Uploads
