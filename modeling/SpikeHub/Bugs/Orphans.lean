import SpikeHub.L5Runs.Serial

/-!
# An object whose row was never committed stays

Behaviour (hub_api/uploads/receive.py:73-90, hub_api/storage/volume.py:79-93):
`promote` renames the staged file to its final name; the row that names it and
the ledger entry reach the database with the commit of the route, after it. A
request that fails in between (the client goes away, the database is down, the
worker is killed) leaves the object and rolls the rest back. Nothing removes
it: `sweep` discards staged files (uploads/janitor.py:32-35), and
`Storage.delete` is called nowhere.

What the code says: the footprint cap is "the share of the volume this service
may ever claim" (quota/footprint.py:7) and is checked against the ledger, which
"can be recomputed from the stored artifacts and reconciled"
(quota_entry.py:23-25); what the janitor reclaims is "disk … the staged file of
a transfer that was interrupted" (janitor.py:5-6).

Counterexample: an upload of three bytes fails after its rename; the
reservation expires and is swept. No version is left, the ledger is empty, and
the object is on the volume.

When it does hold: in every run in which no request fails between its rename
and its commit, unless a version that is committed has the same object
(`keepsObjects`).
-/
namespace SpikeHub.Bugs.Orphans

open SpikeHub.Core SpikeHub.L1 SpikeHub.L2 SpikeHub.L3 SpikeHub.L4.Uploads SpikeHub.L5.Interleave

/-- The entry is under the artifact root. -/
def isObject (d : Dirent Path) : Bool :=
  match d.path with
  | .artifact _ => true
  | .staging _ => false

/-- Bytes under the artifact root. -/
def objectBytes (fs : Volume) : Int := fs.dir.sum isObject fun d => (fs.data d.ino).length

/-- Every object is some committed version's, and the ledger has charged as
many bytes as the objects take. -/
structure NoOrphans (db : Db) (volume : Volume) : Prop where
  referenced : ∀ key, volume.present (.artifact key) = true → ∃ v ∈ db.versions, v.objectKey = key
  charged : objectBytes volume ≤ totalStoredBytes db

/-- The object whose row the request is about to write. -/
def promotedKey : Job → Option String
  | .content _ _ _ (.writing _ _ key) => some key
  | _ => none

/-- No request fails that has promoted an object which no version has. -/
def keepsObjects (s : Sys) : Lbl → Bool
  | .fail r => ((s.jobs[r]?).bind promotedKey).all fun key => ∃ v ∈ s.hub.db.versions, v.objectKey = key
  | _ => true

/-- A stored version accounts for an object of `n` bytes under `key`. -/
def Backs (db : Db) (key : String) (n : Nat) : Prop :=
  ∃ v ∈ db.versions, v.state.stored = true ∧ v.objectKey = key ∧ v.sizeBytes = n

/-- A row is a reservation without an object, or has the object of its key. -/
def Settled (volume : Volume) (v : ModelVersion) : Prop :=
  (v.state = .reserved ∧ v.objectKey = "") ∨
    (v.state.stored = true ∧ 0 ≤ v.sizeBytes ∧ volume.present (.artifact v.objectKey) = true)

structure Books (db : Db) (volume : Volume) : Prop where
  total : totalStoredBytes db = db.versions.sum (fun v => v.state.stored) ModelVersion.sizeBytes
  rows : ∀ v ∈ db.versions, Settled volume v

/-- What the request in flight has established. -/
def Ready (db : Db) (volume : Volume) : Job → Prop
  | .content _ _ _ (.opening v) | .content _ _ _ (.streaming v ..) | .content _ _ _ (.measured v _)
  | .content _ _ _ (.promoting v _) => v ∈ db.versions
  | .content _ _ _ (.replacing v _ key) => v ∈ db.versions ∧ ∀ w ∈ db.versions, w.objectKey ≠ key
  | .content _ _ _ (.reusing v _ key) =>
    v ∈ db.versions ∧ ∃ bs, volume.read (.artifact key) = some bs ∧ Backs db key bs.length
  | .content _ _ _ (.writing v blob key) =>
    v ∈ db.versions ∧ ∃ bs, volume.read (.artifact key) = some bs ∧
      (Backs db key bs.length ∨ (blob.sizeBytes = bs.length ∧ ∀ w ∈ db.versions, w.objectKey ≠ key))
  | .sweep (.discarding _ ids) => ∀ v ∈ db.versions, v.id ∈ ids → v.state = .reserved
  | _ => True

structure Inv (s : Sys) : Prop where
  books : Books s.hub.db s.hub.volume
  backed : ∀ key bs, s.hub.volume.read (.artifact key) = some bs →
    Backs s.hub.db key bs.length ∨ ∃ j ∈ s.jobs, promotedKey j = some key
  ready : ∀ j ∈ s.jobs, Ready s.hub.db s.hub.volume j

variable {config : Settings} {db db' : Db} {volume volume' : Volume} {v w : ModelVersion}
  {key : String} {n : Nat}

/-! ## The four effects on the books -/

theorem not_stored_of_reserved (h : v.state = .reserved) : v.state.stored = false := by rw [h]; rfl

theorem Settled.onVolume (h : Settled volume v)
    (hkeep : ∀ key, volume.present (.artifact key) = true → volume'.present (.artifact key) = true) :
    Settled volume' v := by
  rcases h with hres | ⟨hstored, hsize, hpresent⟩
  · exact .inl hres
  · exact .inr ⟨hstored, hsize, hkeep _ hpresent⟩

theorem Books.onVolume (h : Books db volume)
    (hkeep : ∀ key, volume.present (.artifact key) = true → volume'.present (.artifact key) = true) :
    Books db volume' :=
  ⟨h.total, fun v hv => (h.rows v hv).onVolume hkeep⟩

theorem Books.granted {u : Uuid} (h : Books db volume) (ha : AddedReservation u v db db')
    (hstate : v.state = .reserved) (hkey : v.objectKey = "") : Books db' volume where
  total := by
    have htotal : totalStoredBytes db' = totalStoredBytes db := by
      unfold totalStoredBytes
      rw [ha.entries]
    obtain ⟨hv, he⟩ := ha.versions
    rw [htotal, h.total, he, Table.sum_insert, not_stored_of_reserved hstate]
    simp
  rows w hw := by
    rcases ha.mem.mp hw with hw | hw
    · exact h.rows w hw
    · rw [hw]
      exact .inl ⟨hstate, hkey⟩

theorem Backs.granted {u : Uuid} (h : Backs db key n) (ha : AddedReservation u v db db') :
    Backs db' key n := by
  obtain ⟨w, hw, hback⟩ := h
  exact ⟨w, ha.mem.mpr (.inl hw), hback⟩

section
variable {now : Time} {entryId user : Uuid} {blob : StoredBlob}

theorem Books.charged (h : Books db volume) (hup : StoredUpload now entryId user v key blob db db')
    (hv : v ∈ db.versions) (hres : v.state = .reserved) (hsize : (blob.sizeBytes : Int) = v.sizeBytes)
    (hpresent : volume.present (.artifact key) = true) : Books db' volume where
  total := by
    rw [hup.totalStoredBytes, h.total, hup.versions, setVersion_versions,
      Table.sum_updateWhere hv fun b hb => ?_, not_stored_of_reserved hres]
    · simp [uploadedAs, VersionState.stored, hsize]
    · rw [decide_eq_true_eq]
      exact ⟨fun he => version_eq hb hv he, fun he => he ▸ rfl⟩
  rows w hw := by
    rcases hup.version_cases hv hw with rfl | ⟨hold, -⟩
    · refine .inr ⟨rfl, ?_, hpresent⟩
      show 0 ≤ v.sizeBytes
      omega
    · exact h.rows w hold

/-- The row that is charged was a reservation, and backed nothing. -/
theorem Backs.charged (h : Backs db key n) {key' : String}
    (hup : StoredUpload now entryId user v key' blob db db') (hv : v ∈ db.versions)
    (hres : v.state = .reserved) : Backs db' key n := by
  obtain ⟨w, hw, hstored, hback⟩ := h
  have hne : w.id ≠ v.id := by
    intro he
    rw [version_eq hw hv he, not_stored_of_reserved hres] at hstored
    cases hstored
  exact ⟨w, hup.mem_versions.mpr ⟨w, hw, if_neg hne⟩, hstored, hback⟩

theorem backs_charged (hup : StoredUpload now entryId user v key blob db db') (hv : v ∈ db.versions)
    (hsize : (blob.sizeBytes : Int) = v.sizeBytes) : Backs db' key blob.sizeBytes :=
  ⟨uploadedAs key v, hup.mem_versions.mpr ⟨v, hv, if_pos rfl⟩, rfl, rfl, hsize.symm⟩

theorem Books.published (h : Books db volume) (hv : v ∈ db.versions) (hup : v.state.stored = true) :
    Books (setVersion db v.id (movedOn now config) (movedOn_keys now config)) volume where
  total := by
    show totalStoredBytes db = _
    rw [h.total, setVersion_versions, Table.sum_updateWhere hv fun b hb => ?_, hup]
    · simp
    · rw [decide_eq_true_eq]
      exact ⟨fun he => version_eq hb hv he, fun he => he ▸ rfl⟩
  rows w hw := by
    rcases setVersion_cases hv hw with rfl | ⟨hold, -⟩
    · rcases h.rows v hv with ⟨hres, -⟩ | ⟨-, hsize, hpresent⟩
      · rw [not_stored_of_reserved hres] at hup
        cases hup
      · unfold Settled
        rw [movedOn_sizeBytes, movedOn_objectKey]
        exact .inr ⟨movedOn_stored, hsize, hpresent⟩
    · exact h.rows w hold

theorem Backs.published {id : Uuid} (h : Backs db key n) :
    Backs (setVersion db id (movedOn now config) (movedOn_keys now config)) key n := by
  obtain ⟨w, hw, hstored, hkey, hsize⟩ := h
  refine ⟨_, mem_setVersion.mpr ⟨w, hw, rfl⟩, ?_⟩
  split
  · exact ⟨movedOn_stored, movedOn_objectKey.trans hkey, movedOn_sizeBytes.trans hsize⟩
  · exact ⟨hstored, hkey, hsize⟩

end

section
variable {ids : List Uuid}

theorem Books.swept (h : Books db volume)
    (hids : ∀ v ∈ db.versions, v.id ∈ ids → v.state = .reserved) :
    Books (deleteVersions ids db) volume where
  total := by
    have hnone :
        db.versions.sum (fun v => v.state.stored && decide (v.id ∈ ids)) ModelVersion.sizeBytes = 0 := by
      rw [Table.sum_congr (q := fun _ => false) (g := fun _ => 0) fun v hv => ?_]
      · rw [Table.sum_eq]
        simp
      · by_cases hid : v.id ∈ ids
        · simp [not_stored_of_reserved (hids v hv hid)]
        · simp [hid]
    show totalStoredBytes db = (db.versions.delete _).sum _ _
    rw [Table.sum_delete, hnone, h.total, Int.sub_zero]
  rows v hv := h.rows v (mem_deleteVersions.mp hv).1

theorem Backs.swept (h : Backs db key n)
    (hids : ∀ v ∈ db.versions, v.id ∈ ids → v.state = .reserved) :
    Backs (deleteVersions ids db) key n := by
  obtain ⟨w, hw, hstored, hback⟩ := h
  refine ⟨w, mem_deleteVersions.mpr ⟨hw, fun hid => ?_⟩, hstored, hback⟩
  rw [not_stored_of_reserved (hids w hw hid)] at hstored
  cases hstored

end

/-! ## Step by step -/

variable {s s' : Sys} {l : Lbl} {r : Nat} {j j' : Job} {h' : Hub}

theorem ready_finished (h : j.finished = true) : Ready db volume j := by
  obtain ⟨_, _, _, _, rfl⟩ | ⟨_, _, _, rfl⟩ | ⟨_, rfl⟩ := finished_cases h <;> trivial

theorem promotedKey_finished (h : j.finished = true) : promotedKey j = none := by
  obtain ⟨_, _, _, _, rfl⟩ | ⟨_, _, _, rfl⟩ | ⟨_, rfl⟩ := finished_cases h <;> rfl

/-- Every object is a version's, but for the one request `r` has promoted. -/
theorem Inv.backed_but (h : Inv s) (hone : OneAtATime s) (hj : s.jobs[r]? = some j)
    (hf : j.finished = false) {bs : Bytes} (hread : s.hub.volume.read (.artifact key) = some bs) :
    Backs s.hub.db key bs.length ∨ promotedKey j = some key := by
  rcases h.backed key bs hread with hback | ⟨k, hk, hkey⟩
  · exact .inl hback
  · obtain ⟨q, hq⟩ := List.getElem?_of_mem hk
    by_cases hqr : q = r
    · rw [hqr, hj] at hq
      rw [Option.some.inj hq]
      exact .inr hkey
    · rw [promotedKey_finished (hone.others hj hf hqr hq)] at hkey
      cases hkey

theorem Inv.backed_all (h : Inv s) (hone : OneAtATime s) (hj : s.jobs[r]? = some j)
    (hf : j.finished = false) (hnone : promotedKey j = none) {bs : Bytes}
    (hread : s.hub.volume.read (.artifact key) = some bs) : Backs s.hub.db key bs.length := by
  rcases h.backed_but hone hj hf hread with hback | hkey
  · exact hback
  · rw [hnone] at hkey
    cases hkey

theorem inv_set (hone : OneAtATime s) (hj : s.jobs[r]? = some j)
    (hf : j.finished = false) (hbooks : Books h'.db h'.volume)
    (hbacked : ∀ key bs, h'.volume.read (.artifact key) = some bs →
      Backs h'.db key bs.length ∨ promotedKey j' = some key)
    (hready : Ready h'.db h'.volume j') : Inv ⟨h', s.jobs.set r j'⟩ where
  books := hbooks
  backed key bs hread := by
    rcases hbacked key bs hread with hback | hkey
    · exact .inl hback
    · have hlt : r < s.jobs.length := (List.getElem?_eq_some_iff.mp hj).1
      exact .inr ⟨j', List.mem_set hlt j', hkey⟩
  ready := hone.all_set hj hf (fun _ => ready_finished) hready

/-- A step that changes neither the database nor an object, by a request that
has promoted nothing. -/
theorem Inv.quiet (h : Inv s) (hone : OneAtATime s) (hj : s.jobs[r]? = some j)
    (hf : j.finished = false) (hnone : promotedKey j = none) (hdb : h'.db = s.hub.db)
    (hobj : ∀ key, h'.volume.read (.artifact key) = s.hub.volume.read (.artifact key))
    (hready : Ready s.hub.db h'.volume j') : Inv ⟨h', s.jobs.set r j'⟩ := by
  refine inv_set hone hj hf ?_ (fun key bs hread => .inl ?_) (hdb ▸ hready)
  · rw [hdb]
    refine h.books.onVolume fun key hp => ?_
    obtain ⟨bs, hread⟩ := Fs.present_iff.mp hp
    exact Fs.present_iff.mpr ⟨bs, (hobj key).trans hread⟩
  · rw [hobj] at hread
    rw [hdb]
    exact h.backed_all hone hj hf hnone hread

/-- The rename: the object is new, and no version has its key. -/
theorem Inv.replaced (h : Inv s) (hone : OneAtATime s) (hintact : Intact s) {user id : Uuid}
    {chunks : List Bytes} {blob : StoredBlob}
    (hj : s.jobs[r]? = some (.content user id chunks (.replacing v blob key)))
    (hr : s.hub.volume.rename (.staging id) (.artifact key) = some volume) :
    Inv ⟨{ s.hub with volume := volume },
      s.jobs.set r (.content user id chunks (.writing v blob key))⟩ := by
  obtain ⟨hv, hfree⟩ := h.ready _ (List.mem_of_getElem? hj)
  obtain ⟨-, hblob⟩ := hintact.kept r _ hj
  obtain ⟨i, hi, -, -⟩ := Fs.rename_spec hr
  have hsrc : s.hub.volume.read (.staging id) = some (s.hub.volume.data i) :=
    Fs.read_eq_some.mpr ⟨i, hi, rfl⟩
  have hread := Fs.read_rename hr hsrc
  have hsize : blob.sizeBytes = (s.hub.volume.data i).length := by rw [hblob i hi]; rfl
  have hother : ∀ key', key' ≠ key →
      volume.read (.artifact key') = s.hub.volume.read (.artifact key') := by
    intro key' hne
    rw [hread, if_neg (by simpa using hne), if_neg (by simp)]
  refine inv_set hone hj rfl (h.books.onVolume fun key' hp => ?_) (fun key' bs hkey' => ?_)
    ⟨hv, _, by rw [hread, if_pos rfl], .inr ⟨hsize, hfree⟩⟩
  · by_cases hkey : key' = key
    · rw [hkey]
      exact Fs.present_iff.mpr ⟨_, by rw [hread, if_pos rfl]⟩
    · obtain ⟨bs, hbs⟩ := Fs.present_iff.mp hp
      exact Fs.present_iff.mpr ⟨bs, (hother key' hkey).trans hbs⟩
  · by_cases hkey : key' = key
    · exact .inr (by rw [hkey]; rfl)
    · rw [hother key' hkey] at hkey'
      exact .inl (h.backed_all hone hj rfl rfl hkey')

/-- The commit: the row of the object that was promoted. -/
theorem Inv.charged (h : Inv s) (hone : OneAtATime s) (hrows : Rows s) {user id : Uuid}
    {chunks : List Bytes} {blob : StoredBlob}
    (hj : s.jobs[r]? = some (.content user id chunks (.writing v blob key)))
    (hst : storeUploaded s.hub.now s.hub.fresh user v key blob s.hub.db = .ok db) :
    Inv ⟨{ s.hub with db := db, fresh := s.hub.fresh + 1 },
      s.jobs.set r (.content user id chunks (.done none))⟩ := by
  obtain ⟨hv, bs, hread, hown⟩ := h.ready _ (List.mem_of_getElem? hj)
  have hk := hrows.knows r _ hj v rfl
  have hres := (hk.upload _ _ _ _ rfl).2
  have hsize := (hk.blob blob rfl).1
  have hup := storedUpload hst
  refine inv_set hone hj rfl (h.books.charged hup hv hres hsize (Fs.present_iff.mpr ⟨bs, hread⟩))
    (fun key' bs' hkey' => .inl ?_) trivial
  rcases h.backed_but hone hj rfl hkey' with hback | hpromoted
  · exact hback.charged hup hv hres
  · cases hpromoted
    have hkey' : s.hub.volume.read (.artifact key) = some bs' := hkey'
    rw [hread] at hkey'
    cases hkey'
    rcases hown with hback | ⟨hlen, -⟩
    · exact hback.charged hup hv hres
    · rw [← hlen]
      exact backs_charged hup hv hsize

/-- The commit goes through: the row is there, and the entry's id is new. -/
theorem Inv.commits (h : Inv s) (hrows : Rows s) {user id : Uuid} {chunks : List Bytes}
    {blob : StoredBlob} (hj : s.jobs[r]? = some (.content user id chunks (.writing v blob key)))
    {e : Raised} : storeUploaded s.hub.now s.hub.fresh user v key blob s.hub.db ≠ .error e := by
  intro he
  obtain ⟨hv, -⟩ := h.ready _ (List.mem_of_getElem? hj)
  obtain ⟨db, hok⟩ := storeUploaded_isOk s.hub.now user key blob ⟨v, hv, rfl⟩
    fun e he => Nat.ne_of_lt (hrows.entries e he).1
  rw [he] at hok
  cases hok

theorem promotedKey_of_not {user id : Uuid} {chunks : List Bytes} {pc : ContentPc}
    (h : ∀ v blob key, pc ≠ .writing v blob key) : promotedKey (.content user id chunks pc) = none := by
  cases pc with
  | writing v blob key => exact absurd rfl (h v blob key)
  | _ => rfl

theorem Inv.contentStep (h : Inv s) (hser : SerialInv s) {user id : Uuid} {chunks : List Bytes}
    {pc pc' : ContentPc} (hj : s.jobs[r]? = some (.content user id chunks pc))
    (hf : (Job.content user id chunks pc).finished = false)
    (hs : ContentStep s.hub user id chunks pc h' pc') :
    Inv ⟨h', s.jobs.set r (.content user id chunks pc')⟩ := by
  have hone := hser.one
  have hready := h.ready _ (List.mem_of_getElem? hj)
  have hkept := hser.intact.kept r _ hj
  cases hs with
  | quit hw =>
    have hno : ∀ v blob key, pc ≠ .writing v blob key := by
      intro v blob key hpc
      rw [hpc] at hj
      exact h.commits hser.rows hj (hw v blob key hpc)
    exact h.quiet hone hj hf (promotedKey_of_not hno) rfl (fun _ => rfl) trivial
  | admitted hv => exact h.quiet hone hj hf rfl rfl (fun _ => rfl) (reservedSlot_ok hv).1
  | opened =>
    refine h.quiet hone hj hf rfl rfl (fun key => ?_) hready
    rw [Fs.read_openTrunc, if_neg (by simp)]
  | chunk hc =>
    refine h.quiet hone hj hf rfl rfl (fun key => ?_) hready
    refine Fs.read_writeAt_of_ne hkept.1 fun hl => ?_
    cases hkept.2.2.1 _ hl
  | capped => exact h.quiet hone hj hf rfl rfl (fun _ => rfl) trivial
  | ended => exact h.quiet hone hj hf rfl rfl (fun _ => rfl) hready
  | dropped hno =>
    refine h.quiet hone hj hf (promotedKey_of_not hno) rfl (fun key => ?_) trivial
    rw [Fs.read_unlink, if_neg (by simp)]
  | verified => exact h.quiet hone hj hf rfl rfl (fun _ => rfl) hready
  | mismatch => exact h.quiet hone hj hf rfl rfl (fun _ => rfl) trivial
  | found hkey hp =>
    obtain ⟨bs, hread⟩ := Fs.present_iff.mp hp
    exact h.quiet hone hj hf rfl rfl (fun _ => rfl)
      ⟨hready, bs, hread, h.backed_all hone hj hf rfl hread⟩
  | absent hkey hp =>
    refine h.quiet hone hj hf rfl rfl (fun _ => rfl) ⟨hready, fun w hw he => ?_⟩
    rcases h.books.rows w hw with ⟨-, hempty⟩ | ⟨-, -, hpresent⟩
    · exact objectKey_ne_empty hkey (he.symm.trans hempty)
    · rw [he, hp] at hpresent
      cases hpresent
  | reused =>
    rename_i v blob key
    have hsame : ∀ key, (s.hub.volume.unlink (.staging id)).read (.artifact key) =
        s.hub.volume.read (.artifact key) := by
      intro key
      rw [Fs.read_unlink, if_neg (by simp)]
    obtain ⟨hv, bs, hread, hback⟩ := hready
    exact h.quiet hone hj hf rfl rfl hsame ⟨hv, bs, (hsame key).trans hread, .inl hback⟩
  | replaced hr => exact h.replaced hone hser.intact hj hr
  | charged hst => exact h.charged hone hser.rows hj hst

theorem Inv.jobStep (h : Inv s) (hser : SerialInv s) (hj : s.jobs[r]? = some j)
    (hf : j.finished = false) (hs : JobStep config s.hub j h' j') : Inv ⟨h', s.jobs.set r j'⟩ := by
  have hone := hser.one
  have hready := h.ready _ (List.mem_of_getElem? hj)
  cases hs with
  | content hc => exact h.contentStep hser hj hf hc
  | commitQuit => exact h.quiet hone hj hf rfl rfl (fun _ => rfl) trivial
  | committing => exact h.quiet hone hj hf rfl rfl (fun _ => rfl) trivial
  | committed hp =>
    rename_i user id v db
    obtain ⟨⟨a, ha, hid⟩, rfl⟩ := updateVersion_ok hp
    have hk := hser.rows.knows r _ hj v rfl
    have hleft : a.state ≠ .reserved := by
      refine (hk.row a ha hid).left ?_
      rw [hk.uploaded _ _ _ rfl]
      decide
    have hstored : a.state.stored = true := by
      rcases h.books.rows a ha with ⟨hres, -⟩ | ⟨hstored, -⟩
      · exact absurd hres hleft
      · exact hstored
    rw [← hid]
    exact inv_set hone hj hf (h.books.published ha hstored)
      (fun key bs hread => .inl (h.backed_all hone hj hf rfl hread).published) trivial
  | selected =>
    refine h.quiet hone hj hf rfl rfl (fun _ => rfl) fun v hv hid => ?_
    obtain ⟨w, hw, he⟩ := List.mem_map.mp hid
    obtain ⟨hwmem, hres, -⟩ := mem_expired.mp hw
    rw [version_eq hv hwmem he.symm]
    exact hres
  | discarded =>
    refine h.quiet hone hj hf rfl rfl (fun key => ?_) hready
    rw [Fs.read_unlink, if_neg (by simp)]
  | swept =>
    exact inv_set hone hj hf (h.books.swept hready)
      (fun key bs hread => .inl ((h.backed_all hone hj hf rfl hread).swept hready)) trivial

/-- A request that fails leaves an object that is some version's. -/
theorem Inv.failed (h : Inv s) (hone : OneAtATime s) (hj : s.jobs[r]? = some j) (hf : j.finished = false)
    (hc : keepsObjects s (.fail r) = true) : Inv ⟨s.hub, s.jobs.set r j.failed⟩ := by
  refine inv_set hone hj hf h.books (fun key bs hread => .inl ?_) (ready_finished (finished_failed j))
  rcases h.backed_but hone hj hf hread with hback | hkey
  · exact hback
  · simp only [keepsObjects, hj, Option.bind_some, hkey, Option.all_some, decide_eq_true_eq] at hc
    obtain ⟨w, hw, hwkey⟩ := hc
    have hready := h.ready _ (List.mem_of_getElem? hj)
    unfold promotedKey at hkey
    split at hkey
    · cases hkey
      obtain ⟨-, bs', hbs', hback | ⟨-, hfree⟩⟩ := hready
      · rw [hread] at hbs'
        cases hbs'
        exact hback
      · exact absurd hwkey (hfree w hw)
    · cases hkey

/-- Between requests. -/
theorem Inv.idle (h : Inv s) (hx : s.jobs.all Job.finished = true) {bs : Bytes}
    (hread : s.hub.volume.read (.artifact key) = some bs) : Backs s.hub.db key bs.length := by
  rcases h.backed key bs hread with hback | ⟨j, hj, hkey⟩
  · exact hback
  · rw [promotedKey_finished (List.all_eq_true.mp hx j hj)] at hkey
    cases hkey

theorem inv_step (h : Inv s) (hser : SerialInv s) (hx : serial s l = true)
    (hc : keepsObjects s l = true) (hs : step config s l = some s') : Inv s' := by
  cases step_trans hs with
  | tick => exact ⟨h.books, h.backed, h.ready⟩
  | granted hu hg =>
    obtain ⟨_, ha⟩ := hg.added
    have hidle : s.jobs.all Job.finished = true := hx
    exact ⟨h.books.granted ha rfl rfl, fun key bs hread => .inl ((h.idle hidle hread).granted ha),
      fun j hj => ready_finished (List.all_eq_true.mp hidle j hj)⟩
  | refused => exact ⟨h.books, h.backed, h.ready⟩
  | spawned hr =>
    have hidle := serial_of_request hr hx
    refine ⟨h.books, fun key bs hread => .inl (h.idle hidle hread), fun k hk => ?_⟩
    rcases List.mem_append.mp hk with hk | hk
    · exact h.ready k hk
    · rw [List.mem_singleton.mp hk]
      cases l <;> cases hr <;> trivial
  | stepped hj hf hjs => exact h.jobStep hser hj hf hjs
  | failed hj hf => exact h.failed hser.one hj hf hc

theorem inv_start (users : Table User) (now : Time) : Inv (start users now) where
  books := ⟨rfl, fun v hv => absurd hv (Table.not_mem_empty v)⟩
  backed key bs h := by simp [start, Fs.read, Fs.lookup, Fs.empty, Table.find?, Table.empty] at h
  ready j h := by simp [start] at h

theorem inv_inductive (config : Settings) :
    ((oneByOne config).restrict fun s l => keepsObjects s l = true).Inductive
      fun s => SerialInv s ∧ Inv s := by
  refine LTS.Inductive.and ((serialInv_inductive config).restrict _) ?_ ?_
  · intro s hs
    obtain ⟨users, now, rfl⟩ := hs
    exact inv_start users now
  · exact fun s l s' hser h hs => inv_step h hser hs.2.1 hs.1 hs.2.2

/-! ## Between requests -/

theorem isObject_iff {d : Dirent Path} : isObject d = true ↔ ∃ key, d.path = .artifact key := by
  unfold isObject
  cases d.path <;> simp

/-- Each object has a stored version of its own size, and no two share one. -/
theorem Inv.charges (h : Inv s) (hx : s.jobs.all Job.finished = true) :
    objectBytes s.hub.volume ≤ totalStoredBytes s.hub.db := by
  rw [h.books.total]
  refine Table.sum_le_of_cover (k := Dirent.path) (l := fun v => .artifact v.objectKey)
    (fun d hd hobj => ?_) (fun d hd d' hd' _ _ he => ?_) fun v hv hstored => ?_
  · obtain ⟨key, hkey⟩ := isObject_iff.mp hobj
    have hlookup : s.hub.volume.lookup (.artifact key) = some d.ino := by
      rw [← hkey]
      exact Fs.lookup_eq_some.mpr hd
    obtain ⟨v, hv, hstored, hvkey, hsize⟩ := h.idle hx (Fs.read_eq_some.mpr ⟨_, hlookup, rfl⟩)
    exact ⟨v, hv, hstored, by rw [hvkey, hkey], hsize⟩
  · exact s.hub.volume.dir.eq_of_clash hd hd' (.inl he)
  · rcases h.books.rows v hv with ⟨hres, -⟩ | ⟨-, hsize, -⟩
    · rw [not_stored_of_reserved hres] at hstored
      cases hstored
    · exact hsize

theorem noOrphans_of_keepsObjects (config : Settings) (s : Sys)
    (h : ((oneByOne config).restrict fun s l => keepsObjects s l = true).Reachable s)
    (hx : s.jobs.all Job.finished = true) : NoOrphans s.hub.db s.hub.volume := by
  obtain ⟨-, hinv⟩ := (inv_inductive config).reachable s h
  refine ⟨fun key hp => ?_, hinv.charges hx⟩
  obtain ⟨bs, hread⟩ := Fs.present_iff.mp hp
  obtain ⟨v, hv, -, hkey, -⟩ := hinv.idle hx hread
  exact ⟨v, hv, hkey⟩

/-! ## Traces -/

def abc : List Bytes := [[97, 98, 99]]

/-- Upload `id` by request `r`, up to its commit. -/
def transfer (r : Nat) (id : Uuid) : List Lbl := .content alice.id id abc :: List.replicate 7 (.step r)

/-- The same bytes under two versions; the second transfer fails before its commit. -/
def sharedBytes : List Lbl :=
  reserving [97, 98, 99] "1.0" :: transfer 0 1 ++ [.step 0, reserving [97, 98, 99] "2.0"] ++
    transfer 1 4 ++ [.fail 1]

theorem noOrphans_after_failure : ∃ s : Sys, objectBytes s.hub.volume = 3 ∧
    NoOrphans s.hub.db s.hub.volume := by
  obtain ⟨s, hs, hp⟩ := reachable_of_trace {} (fun s l => serial s l = true ∧ keepsObjects s l = true)
    sharedBytes (fun s => s.jobs.all Job.finished && decide (objectBytes s.hub.volume = 3))
    (by decide +kernel)
  obtain ⟨hidle, hbytes⟩ := Bool.and_eq_true_iff.mp hp
  exact ⟨s, of_decide_eq_true hbytes, noOrphans_of_keepsObjects {} s hs.nest hidle⟩

/-- The transfer fails before its commit, and the janitor sweeps its reservation. -/
def abandoned : List Lbl :=
  reserving [97, 98, 99] "1.0" :: transfer 0 1 ++ [.fail 0, .tick 900000000, .sweep] ++
    List.replicate 3 (.step 1)

theorem not_noOrphans : ¬ ∀ s, (oneByOne {}).Reachable s → s.jobs.all Job.finished = true →
    NoOrphans s.hub.db s.hub.volume := by
  intro h
  obtain ⟨s, hs, hp⟩ := reachable_of_trace {} (fun s l => serial s l = true) abandoned
    (fun s => s.jobs.all Job.finished &&
      decide (s.hub.db.versions.rows = [] ∧ s.hub.db.entries.rows = [] ∧ objectBytes s.hub.volume = 3))
    (by decide +kernel)
  obtain ⟨hidle, hleft⟩ := Bool.and_eq_true_iff.mp hp
  obtain ⟨-, hentries, hbytes⟩ := of_decide_eq_true hleft
  have hcharged := (h s hs hidle).charged
  have hnone : totalStoredBytes s.hub.db = 0 := by
    unfold totalStoredBytes Table.sum Table.select
    rw [hentries]
    rfl
  rw [hbytes, hnone] at hcharged
  exact absurd hcharged (by decide)

end SpikeHub.Bugs.Orphans
