import SpikeHub.L5Runs.Interleave

/-!
# Rows and what requests in flight know of them

A request acts on the row it read (`Job.version`), which other requests may
have changed or deleted since. `Rows` is what stays true of it in every
reachable state, under no discipline: if the row is still there it is the
same upload, and once it has left `RESERVED` it has not come back (`Later`);
it belongs to the request's account; and a blob past the digest check is the
one the reservation declared. Ids are never reused, so a deleted row does not
come back as another one.
-/
namespace SpikeHub.L5.Interleave

open SpikeHub.Core SpikeHub.L1 SpikeHub.L2 SpikeHub.L3 SpikeHub.L4.Uploads

/-- `w` is a later form of the row `v`. -/
structure Later (v w : ModelVersion) : Prop where
  id : w.id = v.id
  modelId : w.modelId = v.modelId
  version : w.version = v.version
  sha256 : w.sha256 = v.sha256
  sizeBytes : w.sizeBytes = v.sizeBytes
  expiresAt : w.expiresAt = v.expiresAt
  left : v.state ≠ .reserved → w.state ≠ .reserved

theorem Later.refl (v : ModelVersion) : Later v v := ⟨rfl, rfl, rfl, rfl, rfl, rfl, fun h => h⟩

theorem Later.trans {u v w : ModelVersion} (h : Later u v) (h' : Later v w) : Later u w :=
  ⟨h'.id.trans h.id, h'.modelId.trans h.modelId, h'.version.trans h.version,
    h'.sha256.trans h.sha256, h'.sizeBytes.trans h.sizeBytes, h'.expiresAt.trans h.expiresAt,
    fun hu => h'.left (h.left hu)⟩

theorem later_uploadedAs (key : String) (v : ModelVersion) : Later v (uploadedAs key v) :=
  ⟨rfl, rfl, rfl, rfl, rfl, rfl, fun _ => by simp [uploadedAs]⟩

theorem later_movedOn (now : Time) (config : Settings) (v : ModelVersion) :
    Later v (movedOn now config v) :=
  ⟨movedOn_id, (movedOn_keys now config).modelId v, (movedOn_keys now config).version v,
    movedOn_sha256, movedOn_sizeBytes, movedOn_expiresAt, fun _ => movedOn_state_ne⟩

/-- What a committed effect may do: rows move on, are added with ids from `n`
on, or go; models and entries are only added. -/
structure Evolves (n : Uuid) (db db' : Db) : Prop where
  rows : ∀ w ∈ db'.versions, (∃ v ∈ db.versions, Later v w) ∨ n ≤ w.id
  models : ∀ m ∈ db.models, m ∈ db'.models

theorem Evolves.refl (n : Uuid) (db : Db) : Evolves n db db :=
  ⟨fun w hw => .inl ⟨w, hw, Later.refl w⟩, fun _ hm => hm⟩

section
variable {n : Uuid} {db db' : Db} {v : ModelVersion} {u : Uuid}

theorem evolves_added (h : AddedReservation u v db db') (hn : n ≤ v.id) :
    Evolves n db db' := by
  refine ⟨fun w hw => ?_, h.models⟩
  rcases h.mem.mp hw with hw | rfl
  · exact .inl ⟨w, hw, Later.refl w⟩
  · exact .inr hn

theorem evolves_setVersion {id : Uuid} {f : ModelVersion → ModelVersion} (hf : KeepsKeys f)
    (hl : ∀ v, Later v (f v)) : Evolves n db (setVersion db id f hf) := by
  refine ⟨fun w hw => .inl ?_, fun _ hm => hm⟩
  obtain ⟨v, hv, rfl⟩ := mem_setVersion.mp hw
  refine ⟨v, hv, ?_⟩
  split
  · exact hl v
  · exact Later.refl v

theorem evolves_delete {ids : List Uuid} : Evolves n db (deleteVersions ids db) :=
  ⟨fun w hw => .inl ⟨w, (mem_deleteVersions.mp hw).1, Later.refl w⟩, fun _ hm => hm⟩

end

/-- The row a request read and will act on. -/
def Job.version : Job → Option ModelVersion
  | .content _ _ _ (.opening v) | .content _ _ _ (.streaming v ..) | .content _ _ _ (.measured v _)
  | .content _ _ _ (.mismatched v _) | .content _ _ _ (.promoting v _)
  | .content _ _ _ (.reusing v ..) | .content _ _ _ (.replacing v ..)
  | .content _ _ _ (.writing v ..) | .commit _ _ (.writing v) => some v
  | _ => none

/-- A blob past the digest check. -/
def Job.verified : Job → Option StoredBlob
  | .content _ _ _ (.promoting _ blob) | .content _ _ _ (.reusing _ blob _)
  | .content _ _ _ (.replacing _ blob _) | .content _ _ _ (.writing _ blob _) => some blob
  | _ => none

def Job.user : Job → Option Uuid
  | .content user .. | .commit user .. => some user
  | .sweep _ => none

structure Knows (n : Uuid) (db : Db) (j : Job) (v : ModelVersion) : Prop where
  lt : v.id < n
  row : ∀ w ∈ db.versions, w.id = v.id → Later v w
  owner : ∀ u, j.user = some u → db.ownedBy u v = true
  upload : ∀ user id chunks pc, j = .content user id chunks pc → v.id = id ∧ v.state = .reserved
  uploaded : ∀ user id pc, j = .commit user id pc → v.state = .uploaded
  blob : ∀ b, j.verified = some b → (b.sizeBytes : Int) = v.sizeBytes ∧ b.sha256 = v.sha256

structure Rows (s : Sys) : Prop where
  versions : ∀ v ∈ s.hub.db.versions, v.id < s.hub.fresh
  entries : ∀ e ∈ s.hub.db.entries, e.id < s.hub.fresh ∧
    ∀ id, e.modelVersionId = some id → id < s.hub.fresh
  knows : ∀ (r : Nat) (j : Job), s.jobs[r]? = some j → ∀ v, j.version = some v →
    Knows s.hub.fresh s.hub.db j v

variable {config : Settings} {s s' : Sys} {l : Lbl} {r : Nat} {j j' : Job} {h' : Hub}
  {n n' : Uuid} {db db' : Db} {v : ModelVersion}

/-- A property of what an option holds, where it is known. -/
theorem of_none {α : Type} {o : Option α} {p : α → Prop} (h : o = none) : ∀ a, o = some a → p a := by
  intro a ha
  rw [h] at ha
  cases ha

theorem of_some {α : Type} {o : Option α} {p : α → Prop} {a : α} (h : o = some a) (hp : p a) :
    ∀ b, o = some b → p b := by
  intro b hb
  rw [h] at hb
  cases hb
  exact hp

theorem Knows.mono (h : Knows n db j v) (he : Evolves n db db') (hn : n ≤ n') :
    Knows n' db' j v where
  lt := Nat.lt_of_lt_of_le h.lt hn
  row w hw hid := by
    rcases he.rows w hw with ⟨u, hu, hl⟩ | hge
    · exact (h.row u hu (hl.id.symm.trans hid)).trans hl
    · exact absurd h.lt (Nat.not_lt.mpr (hid ▸ hge))
  owner u hu := by
    obtain ⟨m, hm, h₁⟩ := ownedBy_iff.mp (h.owner u hu)
    exact ownedBy_iff.mpr ⟨m, he.models m hm, h₁⟩
  upload := h.upload
  uploaded := h.uploaded
  blob := h.blob

/-- A content request that goes on with the row it read. -/
theorem Knows.content {user id : Uuid} {chunks : List Bytes} {pc pc' : ContentPc}
    (h : Knows n db (.content user id chunks pc) v)
    (hb : ∀ b, (Job.content user id chunks pc').verified = some b →
      (b.sizeBytes : Int) = v.sizeBytes ∧ b.sha256 = v.sha256) :
    Knows n db (.content user id chunks pc') v where
  lt := h.lt
  row := h.row
  owner := h.owner
  upload _ _ _ _ he := by
    cases he
    exact h.upload _ _ _ _ rfl
  uploaded _ _ _ he := by cases he
  blob := hb

theorem knows_admitted {user id : Uuid} {chunks : List Bytes} (hrows : Rows s)
    (hv : reservedSlot s.hub.db s.hub.now id user = .ok v) :
    Knows s.hub.fresh s.hub.db (.content user id chunks (.opening v)) v := by
  obtain ⟨hmem, hid, hown, hres, -⟩ := reservedSlot_ok hv
  exact {
    lt := hrows.versions v hmem
    row := fun w hw he => version_eq hmem hw he.symm ▸ Later.refl v
    owner := of_some rfl hown
    upload := fun _ _ _ _ he => by
      cases he
      exact ⟨hid, hres⟩
    uploaded := fun _ _ _ he => by cases he
    blob := of_none rfl }

theorem knows_committing {user id : Uuid} (hrows : Rows s)
    (hv : ownedVersion s.hub.db id user = .ok v) (hu : v.state = .uploaded) :
    Knows s.hub.fresh s.hub.db (.commit user id (.writing v)) v := by
  obtain ⟨hmem, -, hown⟩ := ownedVersion_ok hv
  exact {
    lt := hrows.versions v hmem
    row := fun w hw he => version_eq hmem hw he.symm ▸ Later.refl v
    owner := of_some rfl hown
    upload := fun _ _ _ _ he => by cases he
    uploaded := fun _ _ _ he => by
      cases he
      exact hu
    blob := of_none rfl }

/-! ## Step by step -/

theorem Rows.set (h : Rows s) (hj : s.jobs[r]? = some j)
    (he : Evolves s.hub.fresh s.hub.db h'.db) (hn : s.hub.fresh ≤ h'.fresh)
    (hv : ∀ v ∈ h'.db.versions, v.id < h'.fresh)
    (hen : ∀ e ∈ h'.db.entries, e.id < h'.fresh ∧ ∀ id, e.modelVersionId = some id → id < h'.fresh)
    (hk : ∀ v, j'.version = some v → Knows s.hub.fresh s.hub.db j' v) :
    Rows ⟨h', s.jobs.set r j'⟩ where
  versions := hv
  entries := hen
  knows q k hq v hkv := by
    rw [jobs_set hj] at hq
    split at hq
    · obtain rfl := Option.some.inj hq; exact (hk v hkv).mono he hn
    · exact (h.knows q k hq v hkv).mono he hn

/-- A step that leaves the database alone. -/
theorem Rows.quiet (h : Rows s) (hj : s.jobs[r]? = some j) (hdb : h'.db = s.hub.db)
    (hf : h'.fresh = s.hub.fresh)
    (hk : ∀ v, j'.version = some v → Knows s.hub.fresh s.hub.db j' v) :
    Rows ⟨h', s.jobs.set r j'⟩ :=
  h.set hj (hdb ▸ Evolves.refl _ _) (hf ▸ Nat.le_refl _) (hdb ▸ hf ▸ h.versions)
    (hdb ▸ hf ▸ h.entries) hk

theorem setVersion_lt {id m : Uuid} {f : ModelVersion → ModelVersion} (hf : KeepsKeys f)
    (h : ∀ v ∈ db.versions, v.id < m) : ∀ v ∈ (setVersion db id f hf).versions, v.id < m := by
  intro w hw
  obtain ⟨v, hv, rfl⟩ := mem_setVersion.mp hw
  split
  · rw [hf.id]; exact h v hv
  · exact h v hv

theorem Rows.charged (h : Rows s) {user id : Uuid} {chunks : List Bytes} {blob : StoredBlob}
    {key : String} (hj : s.jobs[r]? = some (.content user id chunks (.writing v blob key)))
    (hc : storeUploaded s.hub.now s.hub.fresh user v key blob s.hub.db = .ok db) :
    Rows ⟨{ s.hub with db := db, fresh := s.hub.fresh + 1 },
      s.jobs.set r (.content user id chunks (.done none))⟩ := by
  obtain ⟨-, he, rfl⟩ := storeUploaded_ok hc
  refine h.set hj ?_ (Nat.le_succ _) ?_ ?_ (of_none rfl)
  · exact ⟨(evolves_setVersion (uploadedAs_keys key) (later_uploadedAs key)).rows, fun _ hm => hm⟩
  · exact setVersion_lt (uploadedAs_keys key) fun v hv => Nat.lt_succ_of_lt (h.versions v hv)
  · intro e hem
    rcases (Table.mem_insert (h := he)).mp hem with hem | rfl
    · obtain ⟨h₁, h₂⟩ := h.entries e hem
      exact ⟨Nat.lt_succ_of_lt h₁, fun id hid => Nat.lt_succ_of_lt (h₂ id hid)⟩
    · refine ⟨Nat.lt_succ_self _, fun id hid => ?_⟩
      cases hid
      exact Nat.lt_succ_of_lt (h.knows r _ hj v rfl).lt

theorem Rows.contentStep (h : Rows s) {user id : Uuid} {chunks : List Bytes}
    {pc pc' : ContentPc} (hj : s.jobs[r]? = some (.content user id chunks pc))
    (hs : ContentStep s.hub user id chunks pc h' pc') :
    Rows ⟨h', s.jobs.set r (.content user id chunks pc')⟩ := by
  have hk := h.knows r _ hj
  cases hs with
  | quit => exact h.quiet hj rfl rfl (of_none rfl)
  | admitted hv => exact h.quiet hj rfl rfl (of_some rfl (knows_admitted h hv))
  | opened => exact h.quiet hj rfl rfl (of_some rfl ((hk _ rfl).content (of_none rfl)))
  | chunk hc => exact h.quiet hj rfl rfl (of_some rfl ((hk _ rfl).content (of_none rfl)))
  | capped => exact h.quiet hj rfl rfl (of_none rfl)
  | ended => exact h.quiet hj rfl rfl (of_some rfl ((hk _ rfl).content (of_none rfl)))
  | dropped => exact h.quiet hj rfl rfl (of_none rfl)
  | verified hm =>
    have hblob := checkMeasured_ok hm
    exact h.quiet hj rfl rfl (of_some rfl ((hk _ rfl).content (of_some rfl hblob)))
  | mismatch => exact h.quiet hj rfl rfl (of_some rfl ((hk _ rfl).content (of_none rfl)))
  | found => exact h.quiet hj rfl rfl (of_some rfl ((hk _ rfl).content (hk _ rfl).blob))
  | absent => exact h.quiet hj rfl rfl (of_some rfl ((hk _ rfl).content (hk _ rfl).blob))
  | reused => exact h.quiet hj rfl rfl (of_some rfl ((hk _ rfl).content (hk _ rfl).blob))
  | replaced => exact h.quiet hj rfl rfl (of_some rfl ((hk _ rfl).content (hk _ rfl).blob))
  | charged hc => exact h.charged hj hc

theorem Rows.jobStep (h : Rows s) (hj : s.jobs[r]? = some j)
    (hs : JobStep config s.hub j h' j') : Rows ⟨h', s.jobs.set r j'⟩ := by
  cases hs with
  | content hc => exact h.contentStep hj hc
  | commitQuit => exact h.quiet hj rfl rfl (of_none rfl)
  | committing hv hu => exact h.quiet hj rfl rfl (of_some rfl (knows_committing h hv hu))
  | committed hp =>
    obtain ⟨-, rfl⟩ := updateVersion_ok hp
    exact h.set hj (evolves_setVersion (movedOn_keys _ _) (later_movedOn _ _)) (Nat.le_refl _)
      (setVersion_lt (movedOn_keys _ _) h.versions) h.entries (of_none rfl)
  | selected => exact h.quiet hj rfl rfl (of_none rfl)
  | discarded => exact h.quiet hj rfl rfl (of_none rfl)
  | swept =>
    exact h.set hj evolves_delete (Nat.le_refl _)
      (fun v hv => h.versions v (mem_deleteVersions.mp hv).1) h.entries (of_none rfl)

theorem version_request (h : request l = some j) : j.version = none := by
  cases l <;> cases h <;> rfl

theorem version_failed (j : Job) : j.failed.version = none := by cases j <;> rfl

theorem rows_step (h : Rows s) (hs : step config s l = some s') : Rows s' := by
  cases step_trans hs with
  | tick => exact ⟨h.versions, h.entries, h.knows⟩
  | granted hu hg =>
    obtain ⟨modelId, ha⟩ := hg.added
    refine ⟨fun w hw => ?_, fun e he => ?_, fun q k hq v hv => ?_⟩
    · rcases ha.mem.mp hw with hw | rfl
      · exact Nat.lt_add_right 2 (h.versions w hw)
      · exact Nat.lt_succ_self _
    · rw [ha.entries] at he
      obtain ⟨h₁, h₂⟩ := h.entries e he
      exact ⟨Nat.lt_add_right 2 h₁, fun id hid => Nat.lt_add_right 2 (h₂ id hid)⟩
    · exact (h.knows q k hq v hv).mono (evolves_added ha (Nat.le_succ _)) (Nat.le_add_right _ 2)
  | refused =>
    refine ⟨fun w hw => Nat.lt_add_right 2 (h.versions w hw), fun e he => ?_, fun q k hq v hv => ?_⟩
    · obtain ⟨h₁, h₂⟩ := h.entries e he
      exact ⟨Nat.lt_add_right 2 h₁, fun id hid => Nat.lt_add_right 2 (h₂ id hid)⟩
    · exact (h.knows q k hq v hv).mono (Evolves.refl _ _) (Nat.le_add_right _ 2)
  | spawned hr =>
    refine ⟨h.versions, h.entries, fun q k hq v hv => ?_⟩
    rcases jobs_spawn hq with hq | rfl
    · exact h.knows q k hq v hv
    · rw [version_request hr] at hv; cases hv
  | stepped hj hf hjs => exact h.jobStep hj hjs
  | failed hj hf => exact h.quiet hj rfl rfl (of_none (version_failed _))

theorem rows_start (users : Table User) (now : Time) : Rows (start users now) where
  versions v hv := absurd hv (Table.not_mem_empty v)
  entries e he := absurd he (Table.not_mem_empty e)
  knows r j h := by simp [start] at h

theorem rows_inductive (config : Settings) : (lts config).Inductive Rows where
  init s h := by
    obtain ⟨users, now, rfl⟩ := h
    exact rows_start users now
  step s l s' h hs := rows_step h hs

/-! ## What a step commits -/

/-- The committed database changes in four ways only. -/
inductive Effect (config : Settings) (s : Sys) (l : Lbl) (s' : Sys) : Prop
  | none : s'.hub.db = s.hub.db → Effect config s l s'
  | granted {u : User} {modelId : Uuid} {request : UploadRequest} :
      AddedReservation u.id (newVersion s.hub.now (s.hub.fresh + 1) modelId request config)
        s.hub.db s'.hub.db → Effect config s l s'
  | charged {r : Nat} {user id : Uuid} {chunks : List Bytes} {v : ModelVersion} {blob : StoredBlob}
      {key : String} : l = .step r →
      s.jobs[r]? = some (.content user id chunks (.writing v blob key)) →
      storeUploaded s.hub.now s.hub.fresh user v key blob s.hub.db = .ok s'.hub.db →
      Effect config s l s'
  | published {r : Nat} {user id : Uuid} {v : ModelVersion} : l = .step r →
      s.jobs[r]? = some (.commit user id (.writing v)) →
      storePublished s.hub.now config v.id s.hub.db = .ok s'.hub.db → Effect config s l s'
  | swept {r : Nat} {ids : List Uuid} : l = .step r →
      s.jobs[r]? = some (.sweep (.discarding [] ids)) →
      s'.hub.db = deleteVersions ids s.hub.db → Effect config s l s'

theorem effect_of_step (hs : step config s l = some s') : Effect config s l s' := by
  cases step_trans hs with
  | tick => exact .none rfl
  | granted hu hg =>
    obtain ⟨modelId, ha⟩ := hg.added
    exact .granted ha
  | refused => exact .none rfl
  | spawned hr => exact .none rfl
  | failed hj hf => exact .none rfl
  | stepped hj hf hjs =>
    cases hjs with
    | commitQuit => exact .none rfl
    | committing hv hu => exact .none rfl
    | committed hp => exact .published rfl hj hp
    | selected => exact .none rfl
    | discarded => exact .none rfl
    | swept => exact .swept rfl hj rfl
    | content hc =>
      cases hc with
      | charged hc => exact .charged rfl hj hc
      | _ => exact .none rfl

end SpikeHub.L5.Interleave
