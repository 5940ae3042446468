import SpikeHub.L5Runs.Rows
import SpikeHub.L5Runs.Service

/-!
# The three readings of an expiry

`receive` takes bytes while Python's `expires_at <= now` is false, a missing
value included; `pending_bytes` counts a row while SQL's `expires_at > now` is
true, a missing value excluded; `sweep` selects one once `expires_at <= now` is
true, and never a missing value. The three agree wherever no value is missing
(`agree_of_timed`), and no run of the service leaves one out: neither with
requests interleaved and failing anywhere, nor over all the routes, the janitor
and the operator (`readings_agree`).
-/
namespace SpikeHub.L5.Expiry

open SpikeHub.Core SpikeHub.L1 SpikeHub.L2 SpikeHub.L3 SpikeHub.L4.Uploads SpikeHub.L4.Routes
open SpikeHub.L5.Catalogue (swept_db serve_rowEffect unverified abcIntent)
open SpikeHub.L5.Interleave (intentFor length_pos)
open SpikeHub.L5.Requests (asAlice)
open SpikeHub.L5.Service (signedUp after reachable_after)

/-- The account may send the reservation's bytes at `t`. -/
def Usable (db : Db) (t : Time) (u : Uuid) (v : ModelVersion) : Prop :=
  reservedSlot db t v.id u = .ok v

/-- The rows whose sizes `pending_bytes` sums. -/
def pendingRows (db : Db) (t : Time) (u : Uuid) : List ModelVersion :=
  db.versions.select fun v => db.ownedBy u v && live t v

def Counted (db : Db) (t : Time) (u : Uuid) (v : ModelVersion) : Prop := v ∈ pendingRows db t u

/-- `sweep` would take the row at `t`. -/
def Selected (db : Db) (t : Time) (v : ModelVersion) : Prop := v ∈ expired db t

/-- At any time a reservation is its owner's to use and counted, or else it is
the janitor's, and never two of these. -/
def Agree (db : Db) : Prop :=
  ∀ v ∈ db.versions, v.state = .reserved → ∀ u, db.ownedBy u v = true → ∀ t : Time,
    Xor (Usable db t u v ∧ Counted db t u v) (Selected db t v) ∧
      (Usable db t u v ↔ Counted db t u v) ∧ (Usable db t u v ↔ ¬ Selected db t v)

/-- Every row has an expiry. -/
def Timed (db : Db) : Prop := ∀ v ∈ db.versions, v.expiresAt.isSome = true

variable {config : Settings} {dep : Deployment} {s s' : Interleave.Sys} {l : Interleave.Lbl}
  {h h' : Interleave.Hub} {db db' : Db} {t e : Time} {u : Uuid} {v : ModelVersion}

/-- What `pending_bytes` returns is the sum of those rows. -/
theorem pendingBytes_sum (db : Db) (t : Time) (u : Uuid) :
    pendingBytes db t u = ((pendingRows db t u).map ModelVersion.sizeBytes).sum := rfl

/-! ## One row -/

section
variable (hv : v ∈ db.versions) (hreserved : v.state = .reserved) (howned : db.ownedBy u v = true)
  (hexpiry : v.expiresAt = some e)
include hv hreserved howned hexpiry

theorem usable_iff : Usable db t u v ↔ t < e := by
  unfold Usable
  constructor
  · intro h
    obtain ⟨-, -, -, -, hlive⟩ := reservedSlot_ok h
    exact hlive e hexpiry
  · intro hlt
    refine reservedSlot_eq hv rfl howned hreserved fun t' ht' => ?_
    rw [hexpiry] at ht'
    rwa [← Option.some.inj ht']

theorem counted_iff_lt : Counted db t u v ↔ t < e := by
  unfold Counted pendingRows
  rw [Table.mem_select, Bool.and_eq_true, live_iff]
  constructor
  · rintro ⟨-, -, -, t', ht', hlt⟩
    rw [hexpiry] at ht'
    rwa [Option.some.inj ht']
  · intro hlt
    exact ⟨hv, howned, hreserved, e, hexpiry, hlt⟩

omit howned in
theorem selected_iff : Selected db t v ↔ e ≤ t := by
  unfold Selected
  rw [mem_expired]
  constructor
  · rintro ⟨-, -, t', ht', hle⟩
    rw [hexpiry] at ht'
    rwa [Option.some.inj ht']
  · intro hle
    exact ⟨hv, hreserved, e, hexpiry, hle⟩

end

theorem agree_of_timed (h : Timed db) : Agree db := by
  intro v hv hreserved u howned t
  obtain ⟨e, he⟩ := Option.isSome_iff_exists.mp (h v hv)
  rw [usable_iff hv hreserved howned he, counted_iff_lt hv hreserved howned he,
    selected_iff hv hreserved he, Int.not_le]
  refine ⟨?_, Iff.rfl, Iff.rfl⟩
  by_cases hlt : t < e
  · exact .inl ⟨⟨hlt, hlt⟩, Int.not_le.mpr hlt⟩
  · exact .inr ⟨Int.not_lt.mp hlt, fun hboth => hlt hboth.1⟩

/-! ## Every write keeps the expiry -/

theorem Timed.same (h : Timed db) (hsame : db'.versions = db.versions) : Timed db' := by
  unfold Timed
  rw [hsame]
  exact h

theorem Timed.delete (h : Timed db) (ids : List Uuid) : Timed (deleteVersions ids db) :=
  fun v hv => h v (mem_deleteVersions.mp hv).1

theorem Timed.setVersion {id : Uuid} {f : ModelVersion → ModelVersion} (h : Timed db) (hf : KeepsKeys f)
    (hexpiry : ∀ v, (f v).expiresAt = v.expiresAt) : Timed (setVersion db id f hf) := by
  intro w hw
  obtain ⟨v, hv, rfl⟩ := mem_setVersion.mp hw
  split
  · rw [hexpiry]
    exact h v hv
  · exact h v hv

theorem Timed.stored {now : Time} {entryId userId : Uuid} {key : String} {blob : StoredBlob}
    (h : Timed db) (hstore : storeUploaded now entryId userId v key blob db = .ok db') : Timed db' := by
  obtain ⟨-, he, rfl⟩ := storeUploaded_ok hstore
  exact h.setVersion (uploadedAs_keys key) fun _ => rfl

theorem Timed.published {now : Time} {id : Uuid} (h : Timed db)
    (hpublish : storePublished now config id db = .ok db') : Timed db' := by
  obtain ⟨-, rfl⟩ := updateVersion_ok hpublish
  exact h.setVersion (movedOn_keys now config) fun _ => movedOn_expiresAt

/-- What a grant adds expires. -/
theorem Timed.granted {now : Time} {id modelId : Uuid} {request : UploadRequest} (h : Timed db)
    (hadd : AddedReservation u (newVersion now id modelId request config) db db') : Timed db' := by
  intro v hv
  rcases hadd.mem.mp hv with hv | rfl
  · exact h v hv
  · rfl

/-! ## Every run -/

theorem timed_interleave (config : Settings) :
    (Interleave.lts config).Inductive fun s => Timed s.hub.db where
  init s hs := by
    obtain ⟨users, now, rfl⟩ := hs
    exact fun v hv => absurd hv (Table.not_mem_empty v)
  step s l s' h hs := by
    cases Interleave.effect_of_step hs with
    | none hsame => exact h.same (congrArg Db.versions hsame)
    | granted hadd => exact h.granted hadd
    | charged _ _ hstore => exact h.stored hstore
    | published _ _ hpublish => exact h.published hpublish
    | swept _ _ hdb =>
      rw [hdb]
      exact h.delete _

theorem timed_rowEffect {now : Time} {r : Rand} {req : Presented} {fs : Volume} {body : Request}
    {res : Except Raised Reply} (h : Timed db) (he : RowEffect dep now r req db fs body res db') :
    Timed db' := by
  cases he with
  | same hsame => exact h.same hsame.versions
  | reserved hcaller _ hgranted =>
    obtain ⟨modelId, hadd⟩ := hgranted.added
    exact (h.same (currentUser_ok hcaller).2.sameRows.versions).granted hadd
  | stored hsame _ hstore => exact (h.same hsame.versions).stored hstore
  | published hsame =>
    exact (h.same hsame.versions).setVersion (movedOn_keys now dep.config) fun _ => movedOn_expiresAt
  | counted => exact h.setVersion (countedFrom_keys _) fun _ => rfl

theorem timed_service (dep : Deployment) : (Service.lts dep).Inductive fun h => Timed h.db where
  init h hstart := by
    unfold Service.lts Service.Start at hstart
    dsimp only at hstart
    rw [hstart]
    exact fun v hv => absurd hv (Table.not_mem_empty v)
  step h l h' hi hs := by
    cases hs
    cases l with
    | account => exact hi
    | moderate => exact hi
    | service l =>
      cases l with
      | tick => exact hi
      | call c => exact timed_rowEffect hi (serve_rowEffect dep c h)
      | sweep =>
        show Timed (Catalogue.swept h).db
        rw [swept_db]
        exact hi.delete _

/-- **The readings agree** in every state that is reached: by requests that
interleave and fail anywhere, and by all the routes in turn, from an empty
database on. -/
theorem readings_agree (config : Settings) (dep : Deployment) :
    (∀ s, (Interleave.lts config).Reachable s → Agree s.hub.db) ∧
      ∀ h, (Service.lts dep).Reachable h → Agree h.db :=
  ⟨fun s hs => agree_of_timed ((timed_interleave config).reachable s hs),
    fun h hh => agree_of_timed ((timed_service dep).reachable h hh)⟩

/-! ## Traces -/

/-- Four bytes, for another version of the model. -/
def abcdIntent : UploadIntent := ⟨intentFor [97, 98, 99, 100] "2.0", length_pos _ (by decide)⟩

/-- Alice reserves one version, another 600 seconds later, and 500 seconds pass. -/
def late : Interleave.Hub := after unverified signedUp
  [.service (.call (asAlice (.create abcIntent))), .service (.tick 600000000),
    .service (.call (asAlice (.create abcdIntent))), .service (.tick 500000000)]

theorem late_reachable : (Service.lts unverified).Reachable late := reachable_after _

/-- The row of the first, 200 seconds after its expiry. -/
def lapsed : ModelVersion := newVersion 0 8 7 abcIntent.request unverified.config

/-- The row of the second, not yet expired. -/
def unlapsed : ModelVersion := newVersion 600000000 14 7 abcdIntent.request unverified.config

theorem late_agrees :
    (Usable late.db late.now 1 unlapsed ∧ Counted late.db late.now 1 unlapsed ∧
      ¬ Selected late.db late.now unlapsed) ∧
    (Selected late.db late.now lapsed ∧ ¬ Usable late.db late.now 1 lapsed ∧
      ¬ Counted late.db late.now 1 lapsed) ∧
    pendingBytes late.db late.now 1 = unlapsed.sizeBytes := by
  obtain ⟨hnow, hrows, howned, howned', hpending⟩ : late.now = 1100000000 ∧
      late.db.versions.rows = [lapsed, unlapsed] ∧ late.db.ownedBy 1 lapsed = true ∧
      late.db.ownedBy 1 unlapsed = true ∧ pendingRows late.db late.now 1 = [unlapsed] := by decide +kernel
  have hlapsed : lapsed ∈ late.db.versions := by rw [← Table.mem_rows, hrows]; exact List.mem_cons_self
  have hunlapsed : unlapsed ∈ late.db.versions := by rw [← Table.mem_rows, hrows]; simp
  have hagree := (readings_agree {} unverified).2 late late_reachable
  obtain ⟨-, hcounted, hselected⟩ := hagree lapsed hlapsed rfl 1 howned late.now
  obtain ⟨-, hcounted', hselected'⟩ := hagree unlapsed hunlapsed rfl 1 howned' late.now
  have husable : Usable late.db late.now 1 unlapsed := by
    rw [usable_iff hunlapsed rfl howned' rfl, hnow]
    decide
  have htaken : Selected late.db late.now lapsed := by
    rw [selected_iff hlapsed rfl rfl, hnow]
    decide
  have hunusable : ¬ Usable late.db late.now 1 lapsed := fun h => hselected.mp h htaken
  refine ⟨⟨husable, hcounted'.mp husable, hselected'.mp husable⟩,
    ⟨htaken, hunusable, fun h => hunusable (hcounted.mpr h)⟩, ?_⟩
  rw [pendingBytes_sum, hpending, List.map_singleton, List.sum_singleton]

end SpikeHub.L5.Expiry
