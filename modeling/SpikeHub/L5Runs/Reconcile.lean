import Mathlib.Data.Set.Function
import SpikeHub.L5Runs.Serial

/-!
# The ledger reconciles with the stores

In serial runs, with failures at any await point, the four stores agree in
every committed state (`Reconciled`): an account's ledger sum is the size of
its stored versions; a stored version has one `COMMIT` entry, for its owner
and its size, and an object of that size under its key; a reserved one has no
entry and no key.

`Ready` is what the request in flight has established so far: the row it
read is still in the table, what it received is the body's prefix, the blob
it verified is the body's, the object its commit will name is there. Objects
are bodies of the run (`Sound`), and no two bodies of the run have one
sha256: an object found under a key is the body that was just received.
-/
namespace SpikeHub.L5.Reconcile

open SpikeHub.Core SpikeHub.L1 SpikeHub.L2 SpikeHub.L3 SpikeHub.L4.Uploads SpikeHub.L5.Interleave

/-- A stored version's entry and object. -/
structure StoredVersion (db : Db) (volume : Volume) (v : ModelVersion) : Prop where
  one : commits db v.id = 1
  entry : ∃ e ∈ db.entries, isCommitOf v.id e = true ∧ db.ownedBy e.userId v = true ∧
    e.deltaBytes = v.sizeBytes
  key : objectKey v.sha256 = .ok v.objectKey
  object : ∃ bs, volume.read (.artifact v.objectKey) = some bs ∧ (bs.length : Int) = v.sizeBytes

structure Reconciled (db : Db) (volume : Volume) : Prop where
  sum : ∀ u, storedBytes db u = storedSizes db u
  stored : ∀ v ∈ db.versions, v.state.stored = true → StoredVersion db volume v
  reserved : ∀ v ∈ db.versions, v.state = .reserved →
    (∀ e ∈ db.entries, e.modelVersionId ≠ some v.id) ∧ v.objectKey = ""

/-- Every object is a body of the run. -/
def Sound (bodies : Set Bytes) (volume : Volume) : Prop :=
  ∀ key bs, volume.read (.artifact key) = some bs → bs ∈ bodies

/-- What the request in flight has established. -/
def Ready (db : Db) (volume : Volume) : Job → Prop
  | .content _ _ _ (.opening v) => v ∈ db.versions
  | .content _ _ chunks (.streaming v _ got rest) =>
    v ∈ db.versions ∧ got ++ rest.flatten = chunks.flatten
  | .content _ id chunks (.measured v blob) | .content _ id chunks (.promoting v blob)
  | .content _ id chunks (.replacing v blob _) =>
    v ∈ db.versions ∧ blob = measure chunks.flatten ∧
      ∀ bs, volume.read (.staging id) = some bs → bs = chunks.flatten
  | .content _ _ chunks (.reusing v blob key) | .content _ _ chunks (.writing v blob key) =>
    v ∈ db.versions ∧ blob = measure chunks.flatten ∧ objectKey blob.sha256 = .ok key ∧
      volume.read (.artifact key) = some chunks.flatten
  | .commit _ _ (.writing v) => v ∈ db.versions
  | .sweep (.discarding _ ids) => ∀ v ∈ db.versions, v.id ∈ ids → v.state = .reserved
  | _ => True

structure Inv (bodies : Set Bytes) (s : Sys) : Prop where
  reconciled : Reconciled s.hub.db s.hub.volume
  sound : Sound bodies s.hub.volume
  sent : ∀ user id chunks pc, .content user id chunks pc ∈ s.jobs → chunks.flatten ∈ bodies
  ready : ∀ j ∈ s.jobs, Ready s.hub.db s.hub.volume j

/-- The bodies of the content requests of a run. -/
def bodies (ls : List Lbl) : Set Bytes :=
  { b | ∃ user upload chunks, .content user upload chunks ∈ ls ∧ chunks.flatten = b }

variable {config : Settings} {db db' : Db} {volume volume' : Volume} {v w : ModelVersion}

/-! ## The four effects on the stores -/

/-- The ledger and the models a stored version depends on are there. -/
theorem StoredVersion.mono (h : StoredVersion db volume v) (hv : v ∈ db.versions)
    (he : db'.entries = db.entries) (hm : ∀ m ∈ db.models, m ∈ db'.models) :
    StoredVersion db' volume v := by
  obtain ⟨hone, ⟨e, hmem, hcom, hown, hd⟩, hk, hobj⟩ := h
  refine ⟨?_, ⟨e, he ▸ hmem, hcom, ?_, hd⟩, hk, hobj⟩
  · unfold commits; rw [he]; exact hone
  · rw [ownedBy_grow hm hv rfl]; exact hown

/-- The volume changed, the objects did not. -/
theorem Reconciled.onVolume (h : Reconciled db volume)
    (hkeep : ∀ key bs, volume.read (.artifact key) = some bs →
      volume'.read (.artifact key) = some bs) : Reconciled db volume' where
  sum := h.sum
  stored v hv hs := by
    obtain ⟨hone, hentry, hkey, bs, hread, hlen⟩ := h.stored v hv hs
    exact ⟨hone, hentry, hkey, bs, hkeep _ _ hread, hlen⟩
  reserved := h.reserved

theorem Reconciled.granted {u : Uuid} (h : Reconciled db volume)
    (ha : AddedReservation u v db db') (hstate : v.state = .reserved) (hkey : v.objectKey = "")
    (hnew : ∀ e ∈ db.entries, e.modelVersionId ≠ some v.id) : Reconciled db' volume where
  sum u' := by
    have hadd := ha.ownedSum (q := fun v => v.state.stored) (u := u')
    rw [hstate] at hadd
    rw [ha.storedBytes, h.sum u']
    unfold storedSizes
    rw [hadd]
    simp [VersionState.stored]
  stored w hw hs := by
    rcases ha.mem.mp hw with hw | rfl
    · exact (h.stored w hw hs).mono hw ha.entries ha.models
    · rw [hstate] at hs; cases hs
  reserved w hw hs := by
    rw [ha.entries]
    rcases ha.mem.mp hw with hw | rfl
    · exact h.reserved w hw hs
    · exact ⟨hnew, hkey⟩

theorem commits_eq_zero {id : Uuid} (h : ∀ e ∈ db.entries, e.modelVersionId ≠ some id) :
    commits db id = 0 := by
  unfold commits
  rw [Table.count_eq_zero]
  intro e he
  simp [isCommitOf, h e he]

theorem Reconciled.charged {now : Time} {entryId user : Uuid} {key : String} {blob : StoredBlob}
    {bs : Bytes} (h : Reconciled db volume)
    (hup : StoredUpload now entryId user v key blob db db')
    (hv : v ∈ db.versions) (hres : v.state = .reserved) (hown : db.ownedBy user v = true)
    (hsize : (blob.sizeBytes : Int) = v.sizeBytes) (hkey : objectKey v.sha256 = .ok key)
    (hread : volume.read (.artifact key) = some bs) (hlen : (bs.length : Int) = v.sizeBytes) :
    Reconciled db' volume where
  sum u := by
    have hsum := hup.ownedSum (q := fun v => v.state.stored) (u := u) hv rfl
    have hiff : db.ownedBy u v = true ↔ u = user :=
      ⟨fun hu => owner_unique hu hown, fun hu => hu ▸ hown⟩
    rw [hup.storedBytes, h.sum u]
    unfold storedSizes
    rw [hsum, hres, hsize]
    by_cases hu : u = user
    · simp [hu, hown, VersionState.stored, uploadedAs]
    · have hno : db.ownedBy u v = false := Bool.eq_false_iff.mpr fun ho => hu (hiff.mp ho)
      simp [hu, hno]
  stored w hw hs := by
    rcases hup.version_cases hv hw with rfl | ⟨ha, hid⟩
    · refine ⟨?_, ⟨_, hup.mem_entries.mpr (.inr rfl), ?_, ?_, hsize⟩, hkey, bs, hread, hlen⟩
      · show commits db' v.id = 1
        rw [hup.commits, if_pos rfl, commits_eq_zero (h.reserved v hv hres).1]
      · simp [uploadedAs]
      · rw [hup.ownedBy]; exact hown
    · obtain ⟨hone, ⟨e, he, hcom, ho, hd⟩, hk, hobj⟩ := h.stored w ha hs
      refine ⟨?_, ⟨e, hup.mem_entries.mpr (.inl he), hcom, ?_, hd⟩, hk, hobj⟩
      · rw [hup.commits, if_neg (Ne.symm hid), hone]
      · rw [hup.ownedBy]; exact ho
  reserved w hw hs := by
    rcases hup.version_cases hv hw with rfl | ⟨ha, hid⟩
    · cases hs
    · obtain ⟨hnone, hk⟩ := h.reserved w ha hs
      refine ⟨fun e he => ?_, hk⟩
      rcases hup.mem_entries.mp he with he | rfl
      · exact hnone e he
      · simp only [chargeEntry, ne_eq, Option.some.injEq]
        exact Ne.symm hid

theorem Reconciled.published {now : Time} (h : Reconciled db volume)
    (hst : storePublished now config v.id db = .ok db') (hv : v ∈ db.versions)
    (hup : v.state = .uploaded) : Reconciled db' volume := by
  obtain ⟨-, rfl⟩ := updateVersion_ok hst
  refine ⟨fun u => ?_, fun w hw hs => ?_, fun w hw hs => ?_⟩
  · have hsum := @ownedSum_setVersion_of_eq db u v (fun v => v.state.stored) (movedOn now config)
      (movedOn_keys now config) hv (by rw [movedOn_stored, hup]; rfl) movedOn_sizeBytes
    show storedBytes db u = _
    rw [h.sum u]
    exact hsum.symm
  · rcases setVersion_cases hv hw with rfl | ⟨ha, -⟩
    · obtain ⟨hone, hentry, hk, hobj⟩ := h.stored v hv (by rw [hup]; rfl)
      refine ⟨?_, ?_, ?_, ?_⟩
      · rw [movedOn_id]; exact hone
      · simp only [movedOn_id, movedOn_sizeBytes, ownedBy_setVersion,
          ownedBy_changed (movedOn_keys now config)]
        exact hentry
      · rw [movedOn_sha256, movedOn_objectKey]; exact hk
      · rw [movedOn_objectKey, movedOn_sizeBytes]; exact hobj
    · exact (h.stored w ha hs).mono ha rfl fun _ hm => hm
  · rcases setVersion_cases hv hw with rfl | ⟨ha, -⟩
    · exact absurd hs movedOn_state_ne
    · exact h.reserved w ha hs

theorem Reconciled.swept {ids : List Uuid} (h : Reconciled db volume)
    (hids : ∀ v ∈ db.versions, v.id ∈ ids → v.state = .reserved) :
    Reconciled (deleteVersions ids db) volume where
  sum u := by
    have hsum := @ownedSum_delete_of_not db u (fun v => v.state.stored) ids fun v hv hid => by
      rw [hids v hv hid]; rfl
    show storedBytes db u = _
    rw [h.sum u]
    exact hsum.symm
  stored w hw hs := by
    have hold := (mem_deleteVersions.mp hw).1
    exact (h.stored w hold hs).mono hold rfl fun _ hm => hm
  reserved w hw hs := h.reserved w (mem_deleteVersions.mp hw).1 hs

/-! ## Step by step -/

variable {bs : Set Bytes} {s s' : Sys} {l : Lbl} {r : Nat} {j j' : Job} {h' : Hub}

theorem ready_finished (h : j.finished = true) : Ready db volume j := by
  obtain ⟨_, _, _, _, rfl⟩ | ⟨_, _, _, rfl⟩ | ⟨_, rfl⟩ := finished_cases h <;> trivial

theorem Inv.set (h : Inv bs s) (hone : OneAtATime s) (hj : s.jobs[r]? = some j)
    (hf : j.finished = false) (hrec : Reconciled h'.db h'.volume) (hsound : Sound bs h'.volume)
    (hsent : ∀ user id chunks pc, j' = .content user id chunks pc → chunks.flatten ∈ bs)
    (hready : Ready h'.db h'.volume j') : Inv bs ⟨h', s.jobs.set r j'⟩ where
  reconciled := hrec
  sound := hsound
  sent user id chunks pc hm := by
    rcases List.mem_or_eq_of_mem_set hm with hm | he
    · exact h.sent user id chunks pc hm
    · exact hsent user id chunks pc he.symm
  ready := hone.all_set hj hf (fun _ => ready_finished) hready

/-- A step that changes neither the database nor an object. -/
theorem Inv.quiet (h : Inv bs s) (hone : OneAtATime s) (hj : s.jobs[r]? = some j)
    (hf : j.finished = false) (hdb : h'.db = s.hub.db)
    (hobj : ∀ key, h'.volume.read (.artifact key) = s.hub.volume.read (.artifact key))
    (hsent : ∀ user id chunks pc, j' = .content user id chunks pc → chunks.flatten ∈ bs)
    (hready : Ready s.hub.db h'.volume j') : Inv bs ⟨h', s.jobs.set r j'⟩ := by
  refine h.set hone hj hf ?_ ?_ hsent (hdb ▸ hready)
  · rw [hdb]
    exact h.reconciled.onVolume fun key b hb => (hobj key).trans hb
  · intro key b hb
    rw [hobj] at hb
    exact h.sound key b hb

/-- The object found under the key of a blob is the body the blob measures. -/
theorem object_of_key (hsha : Set.InjOn sha256 bs) (hintact : Intact s) (h : Sound bs s.hub.volume)
    {body b : Bytes} {key : String} (hbody : body ∈ bs) (hkey : objectKey (sha256 body) = .ok key)
    (hb : s.hub.volume.read (.artifact key) = some b) : b = body :=
  hsha (h key b hb) hbody (hintact.contentAddressed _ _ _ hkey hb)

theorem Inv.contentStep (hsha : Set.InjOn sha256 bs) (hser : SerialInv s) (h : Inv bs s)
    {user id : Uuid} {chunks : List Bytes} {pc pc' : ContentPc}
    (hj : s.jobs[r]? = some (.content user id chunks pc))
    (hf : (Job.content user id chunks pc).finished = false)
    (hs : ContentStep s.hub user id chunks pc h' pc') :
    Inv bs ⟨h', s.jobs.set r (.content user id chunks pc')⟩ := by
  have hone := hser.one
  have hbody : chunks.flatten ∈ bs := h.sent _ _ _ _ (List.mem_of_getElem? hj)
  have hsent : ∀ user' id' chunks' pc'', Job.content user id chunks pc' =
      .content user' id' chunks' pc'' → chunks'.flatten ∈ bs := by
    intro _ _ _ _ he
    cases he
    exact hbody
  have hready := h.ready _ (List.mem_of_getElem? hj)
  have hkept := hser.intact.kept r _ hj
  cases hs with
  | quit => exact h.quiet hone hj hf rfl (fun _ => rfl) hsent trivial
  | admitted hv => exact h.quiet hone hj hf rfl (fun _ => rfl) hsent (reservedSlot_ok hv).1
  | opened =>
    refine h.quiet hone hj hf rfl (fun key => ?_) hsent ⟨hready, rfl⟩
    rw [Fs.read_openTrunc, if_neg (by simp)]
  | chunk hc =>
    obtain ⟨hv, hgot⟩ := hready
    refine h.quiet hone hj hf rfl (fun key => ?_) hsent ⟨hv, ?_⟩
    · refine Fs.read_writeAt_of_ne hkept.1 fun hl => ?_
      cases hkept.2.2.1 _ hl
    · rw [List.append_assoc, ← List.flatten_cons]; exact hgot
  | capped => exact h.quiet hone hj hf rfl (fun _ => rfl) hsent trivial
  | ended =>
    obtain ⟨hv, hgot⟩ := hready
    obtain ⟨-, hdata, -, honly⟩ := hkept
    rw [List.flatten_nil, List.append_nil] at hgot
    refine h.quiet hone hj hf rfl (fun _ => rfl) hsent ⟨hv, by rw [hgot], fun b hb => ?_⟩
    obtain ⟨i, hi, hbi⟩ := Fs.read_eq_some.mp hb
    rw [← hbi, honly i hi, hdata, hgot]
  | dropped =>
    refine h.quiet hone hj hf rfl (fun key => ?_) hsent trivial
    rw [Fs.read_unlink, if_neg (by simp)]
  | verified hm => exact h.quiet hone hj hf rfl (fun _ => rfl) hsent hready
  | mismatch => exact h.quiet hone hj hf rfl (fun _ => rfl) hsent trivial
  | found hkey hp =>
    obtain ⟨hv, hblob, -⟩ := hready
    obtain ⟨b, hb⟩ := Fs.present_iff.mp hp
    refine h.quiet hone hj hf rfl (fun _ => rfl) hsent ⟨hv, hblob, hkey, ?_⟩
    rw [hblob] at hkey
    rw [hb, object_of_key hsha hser.intact h.sound hbody hkey hb]
  | absent hkey hp => exact h.quiet hone hj hf rfl (fun _ => rfl) hsent hready
  | reused =>
    have hsame : ∀ key, (s.hub.volume.unlink (.staging id)).read (.artifact key) =
        s.hub.volume.read (.artifact key) := by
      intro key
      rw [Fs.read_unlink, if_neg (by simp)]
    obtain ⟨hv, hblob, hkey, hread⟩ := hready
    exact h.quiet hone hj hf rfl hsame hsent ⟨hv, hblob, hkey, (hsame _).trans hread⟩
  | replaced hr =>
    obtain ⟨hv, hblob, hstaged⟩ := hready
    obtain ⟨hkey, -⟩ := hkept
    obtain ⟨i, hi, -, -⟩ := Fs.rename_spec hr
    have hsrc : s.hub.volume.read (.staging id) = some chunks.flatten := by
      have hb := Fs.read_eq_some.mpr ⟨i, hi, rfl⟩
      rw [hb, hstaged _ hb]
    have hread := Fs.read_rename hr hsrc
    have hkey' := hkey
    rw [hblob] at hkey'
    refine h.set hone hj hf ?_ ?_ hsent ⟨hv, hblob, hkey, by rw [hread, if_pos rfl]⟩
    · refine h.reconciled.onVolume fun key' b hb => ?_
      rw [hread]
      split
      · rename_i he
        cases he
        rw [object_of_key hsha hser.intact h.sound hbody hkey' hb]
      · rw [if_neg (by simp)]; exact hb
    · intro key' b hb
      rw [hread] at hb
      split at hb
      · rw [← Option.some.inj hb]; exact hbody
      · rw [if_neg (by simp)] at hb
        exact h.sound key' b hb
  | charged hst =>
    obtain ⟨hv, hblob, hkey, hread⟩ := hready
    have hk := hser.rows.knows r _ hj _ rfl
    obtain ⟨hsize, hdigest⟩ := hk.blob _ rfl
    refine h.set hone hj hf ?_ h.sound hsent trivial
    refine h.reconciled.charged (storedUpload hst) hv (hk.upload _ _ _ _ rfl).2 (hk.owner _ rfl)
      hsize (hdigest ▸ hkey) hread ?_
    rw [← hsize, hblob]
    rfl

theorem Inv.jobStep (hsha : Set.InjOn sha256 bs) (hser : SerialInv s) (h : Inv bs s)
    (hj : s.jobs[r]? = some j) (hf : j.finished = false) (hs : JobStep config s.hub j h' j') :
    Inv bs ⟨h', s.jobs.set r j'⟩ := by
  have hone := hser.one
  have hready := h.ready _ (List.mem_of_getElem? hj)
  cases hs with
  | content hc => exact h.contentStep hsha hser hj hf hc
  | commitQuit =>
    exact h.quiet hone hj hf rfl (fun _ => rfl) (fun _ _ _ _ he => nomatch he) trivial
  | committing hv hu =>
    exact h.quiet hone hj hf rfl (fun _ => rfl) (fun _ _ _ _ he => nomatch he)
      (ownedVersion_ok hv).1
  | committed hp =>
    have hk := hser.rows.knows r _ hj _ rfl
    exact h.set hone hj hf (h.reconciled.published hp hready (hk.uploaded _ _ _ rfl)) h.sound
      (fun _ _ _ _ he => nomatch he) trivial
  | selected =>
    refine h.quiet hone hj hf rfl (fun _ => rfl) (fun _ _ _ _ he => nomatch he) ?_
    intro v hv hid
    obtain ⟨x, hx, hxid⟩ := List.mem_map.mp hid
    obtain ⟨hxm, hxs, -⟩ := mem_expired.mp hx
    rw [version_eq hv hxm hxid.symm]
    exact hxs
  | discarded =>
    refine h.quiet hone hj hf rfl (fun key => ?_) (fun _ _ _ _ he => nomatch he) hready
    rw [Fs.read_unlink, if_neg (by simp)]
  | swept =>
    exact h.set hone hj hf (h.reconciled.swept hready) h.sound (fun _ _ _ _ he => nomatch he)
      trivial

theorem inv_step (hsha : Set.InjOn sha256 bs) (hser : SerialInv s) (h : Inv bs s)
    (hx : serial s l = true) (hsend : ∀ b ∈ bodies [l], b ∈ bs)
    (hs : step config s l = some s') : Inv bs s' := by
  cases step_trans hs with
  | tick => exact ⟨h.reconciled, h.sound, h.sent, h.ready⟩
  | refused => exact ⟨h.reconciled, h.sound, h.sent, h.ready⟩
  | granted hu hg =>
    obtain ⟨modelId, ha⟩ := hg.added
    refine ⟨h.reconciled.granted ha rfl rfl fun e he hid => ?_, h.sound, h.sent, fun j hj => ?_⟩
    · have hlt := (hser.rows.entries e he).2 _ hid
      exact absurd hlt (Nat.not_lt.mpr (Nat.le_succ _))
    · exact ready_finished (List.all_eq_true.mp hx j hj)
  | spawned hr =>
    have hnone : s.jobs.all Job.finished = true := serial_of_request hr hx
    refine ⟨h.reconciled, h.sound, fun user id chunks pc hm => ?_, fun j hj => ?_⟩
    · rcases List.mem_append.mp hm with hm | hm
      · exact h.sent user id chunks pc hm
      · have he := List.mem_singleton.mp hm
        subst he
        cases l <;> cases hr
        exact hsend _ ⟨user, id, chunks, List.mem_singleton.mpr rfl, rfl⟩
    · rcases List.mem_append.mp hj with hj | hj
      · exact ready_finished (List.all_eq_true.mp hnone j hj)
      · rw [List.mem_singleton.mp hj]
        cases l <;> cases hr <;> trivial
  | stepped hj hf hjs => exact h.jobStep hsha hser hj hf hjs
  | failed hj hf =>
    rename_i r j
    refine h.quiet hser.one hj hf rfl (fun _ => rfl) (fun user id chunks pc he => ?_)
      (ready_finished (finished_failed j))
    cases j <;> cases he
    exact h.sent _ _ _ _ (List.mem_of_getElem? hj)

theorem inv_start (users : Table User) (now : Time) : Inv bs (start users now) where
  reconciled := {
    sum := fun _ => rfl
    stored := fun v hv => absurd hv (Table.not_mem_empty v)
    reserved := fun v hv => absurd hv (Table.not_mem_empty v) }
  sound key b hb := by simp [start, Fs.read, Fs.lookup, Fs.empty, Table.find?, Table.empty] at hb
  sent user id chunks pc h := by simp [start] at h
  ready j h := by simp [start] at h

/-- Serial runs whose bodies are in `bs`. -/
theorem inv_inductive (config : Settings) (hsha : Set.InjOn sha256 bs) :
    ((oneByOne config).restrict fun _ l => ∀ b ∈ bodies [l], b ∈ bs).Inductive
      fun s => SerialInv s ∧ Inv bs s := by
  refine LTS.Inductive.and ((serialInv_inductive config).restrict _) ?_ ?_
  · intro s hs
    obtain ⟨users, now, rfl⟩ := hs
    exact inv_start users now
  · exact fun s l s' hser h hs => inv_step hsha hser h hs.2.1 hs.1 hs.2.2

/-- **The four stores agree** in every committed state of a run that executes
requests one at a time, each of which may be refused or fail anywhere, when
no two bodies of the run have one sha256. -/
theorem reconciled_of_serial (config : Settings) (users : Table User) (now : Time) (ls : List Lbl)
    (s : Sys) (hrun : (oneByOne config).Run (start users now) ls s)
    (hsha : Set.InjOn sha256 (bodies ls)) : Reconciled s.hub.db s.hub.volume := by
  have hlabels : ∀ l ∈ ls, ∀ b ∈ bodies [l], b ∈ bodies ls := by
    intro l hl b hb
    obtain ⟨user, upload, chunks, hm, he⟩ := hb
    exact ⟨user, upload, chunks, by rw [List.mem_singleton.mp hm]; exact hl, he⟩
  have hreach : ((oneByOne config).restrict fun _ l => ∀ b ∈ bodies [l], b ∈ bodies ls).Reachable s :=
    ⟨_, _, ⟨users, now, rfl⟩, hrun.labels hlabels⟩
  exact ((inv_inductive config hsha).reachable s hreach).2.reconciled

/-- A failed transfer and a complete one, a second version of the same bytes
that reuses the object, and its publication. -/
def twoVersions : List Lbl :=
  [reserving [97, 98, 99] "1.0", .content alice.id 1 [[97, 98, 99]], .step 0, .step 0, .step 0,
    .fail 0, .content alice.id 1 [[97, 98, 99]], .step 1, .step 1, .step 1, .step 1, .step 1,
    .step 1, .step 1, .step 1, reserving [97, 98, 99] "1.1", .content alice.id 4 [[97, 98, 99]],
    .step 2, .step 2, .step 2, .step 2, .step 2, .step 2, .step 2, .step 2, .commit alice.id 4,
    .step 3, .step 3]

theorem reconciled_after_two : ∃ s : Sys, storedBytes s.hub.db alice.id = 6 ∧
    Reconciled s.hub.db s.hub.volume := by
  have hex : (LTS.exec (step {}) (fun s l => serial s l = true) (start oneAccount 0)
      twoVersions).any (fun s => storedBytes s.hub.db alice.id = 6) = true := by decide +kernel
  obtain ⟨s, hs, hp⟩ := (Option.any_eq_true _ _).mp hex
  refine ⟨s, by simpa using hp, ?_⟩
  refine reconciled_of_serial {} oneAccount 0 twoVersions s (LTS.run_of_exec hs) ?_
  have hone : ∀ b ∈ bodies twoVersions, b = [97, 98, 99] := by
    intro b hb
    obtain ⟨user, upload, chunks, hm, rfl⟩ := hb
    simp only [twoVersions, reserving, List.mem_cons, reduceCtorEq, Lbl.content.injEq,
      List.not_mem_nil, false_or, or_false] at hm
    rcases hm with ⟨-, -, rfl⟩ | ⟨-, -, rfl⟩ | ⟨-, -, rfl⟩ <;> rfl
  intro b hb b' hb' _
  rw [hone b hb, hone b' hb']

end SpikeHub.L5.Reconcile
