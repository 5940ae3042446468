import SpikeHub.L5Runs.Alone
import SpikeHub.L5Runs.Expiry
import SpikeHub.L5Runs.Serial

/-!
# What is left in staging

In serial runs, with failures at any await point, a staged file is named by a
row that is still `RESERVED` (`Named`), so the janitor finds it. `Clears` is what
the request in flight has established for the effect it is about to have on the
rows: the file is gone before the row leaves `RESERVED` or is deleted, and the
row is there before the file is.

A sweep once every reservation has expired then leaves nothing in staging and
nothing for a second one to do (`nothing_leaks`).
-/
namespace SpikeHub.L5.Staging

open SpikeHub.Core SpikeHub.L1 SpikeHub.L2 SpikeHub.L4.Uploads SpikeHub.L5.Interleave
open SpikeHub.L5.Alone (sweep_alone raisedBy)
open SpikeHub.L5.Expiry (Timed timed_interleave)

/-- Every staged file is named by the id of a row still reserved. -/
def Named (db : Db) (volume : Volume) : Prop :=
  ∀ u bs, volume.read (.staging u) = some bs → ∃ v ∈ db.versions, v.id = u ∧ v.state = .reserved

/-- What the request in flight has established of the rows and their staged files. -/
def Clears (db : Db) (volume : Volume) : Job → Prop
  | .content _ _ _ (.opening v) | .commit _ _ (.writing v) => v ∈ db.versions
  | .content _ _ _ (.writing v _ _) => volume.read (.staging v.id) = none
  | .sweep (.discarding rest ids) =>
    ∀ id ∈ ids, (∃ v ∈ rest, v.id = id) ∨ volume.read (.staging id) = none
  | _ => True

structure Inv (s : Sys) : Prop where
  named : Named s.hub.db s.hub.volume
  clears : ∀ j ∈ s.jobs, Clears s.hub.db s.hub.volume j

variable {config : Settings} {s s' : Sys} {l : Lbl} {h h' : Hub} {j j' : Job} {r : Nat} {db db' : Db}
  {volume volume' : Volume} {user id : Uuid} {chunks : List Bytes} {pc pc' : ContentPc}
  {v : ModelVersion}

/-! ## The effects -/

/-- Staged files at most go. -/
theorem Named.fewer (h : Named db volume)
    (hfewer : ∀ u bs, volume'.read (.staging u) = some bs → ∃ bs', volume.read (.staging u) = some bs') :
    Named db volume' := by
  intro u bs hread
  obtain ⟨bs', hold⟩ := hfewer u bs hread
  exact h u bs' hold

theorem Named.unlink (h : Named db volume) (p : Path) : Named db (volume.unlink p) := by
  refine h.fewer fun u bs hread => ⟨bs, ?_⟩
  rw [Fs.read_unlink] at hread
  split at hread
  · cases hread
  · exact hread

/-- A reserved row whose file is there stays reserved. -/
theorem Named.rows (h : Named db volume)
    (hstay : ∀ v ∈ db.versions, v.state = .reserved → volume.read (.staging v.id) ≠ none →
      ∃ w ∈ db'.versions, w.id = v.id ∧ w.state = .reserved) : Named db' volume := by
  intro u bs hread
  obtain ⟨v, hv, rfl, hstate⟩ := h u bs hread
  refine hstay v hv hstate ?_
  rw [hread]
  exact Option.some_ne_none bs

/-- A row changed in place, which has no staged file. -/
theorem Named.setVersion {f : ModelVersion → ModelVersion} (h : Named db volume) (hf : KeepsKeys f)
    (hgone : ∀ w ∈ db.versions, w.id = id → w.state = .reserved → volume.read (.staging w.id) = none) :
    Named (setVersion db id f hf) volume := by
  refine h.rows fun w hw hstate hread => ⟨w, mem_setVersion.mpr ⟨w, hw, ?_⟩, rfl, hstate⟩
  rw [if_neg]
  exact fun hid => hread (hgone w hw hid hstate)

theorem read_writeAt {i : Nat} {off : Nat} {chunk bs : Bytes} {p : Path}
    (hread : (volume.writeAt i off chunk).read p = some bs) : ∃ bs', volume.read p = some bs' := by
  obtain ⟨k, hk, -⟩ := Fs.read_eq_some.mp hread
  exact ⟨_, Fs.read_eq_some.mpr ⟨k, hk, rfl⟩⟩

/-- A rename into the artifacts takes the staged file away. -/
theorem read_renamed {key : String} (hr : volume.rename (.staging id) (.artifact key) = some volume')
    (u : Uuid) : volume'.read (.staging u) = if u = id then none else volume.read (.staging u) := by
  obtain ⟨i, hi, -⟩ := Fs.rename_spec hr
  rw [Fs.read_rename hr (Fs.read_eq_some.mpr ⟨i, hi, rfl⟩)]
  rw [if_neg (by simp)]
  simp only [Path.staging.injEq]

theorem clears_finished (hf : j.finished = true) : Clears db volume j := by
  obtain ⟨_, _, _, _, rfl⟩ | ⟨_, _, _, rfl⟩ | ⟨_, rfl⟩ := finished_cases hf
  · trivial
  · trivial
  · trivial

/-! ## One step -/

theorem content_step (hn : Named h.db h.volume) (hc : Clears h.db h.volume (.content user id chunks pc))
    (hown : ∀ v, (Job.content user id chunks pc).version = some v → v.id = id ∧ v.state = .reserved)
    (hs : ContentStep h user id chunks pc h' pc') :
    Named h'.db h'.volume ∧ Clears h'.db h'.volume (.content user id chunks pc') := by
  cases hs with
  | quit => exact ⟨hn, trivial⟩
  | admitted hslot => exact ⟨hn, (reservedSlot_ok hslot).1⟩
  | @opened v =>
    obtain ⟨hid, hstate⟩ := hown v rfl
    refine ⟨fun u bs hread => ?_, trivial⟩
    rw [Fs.read_openTrunc] at hread
    by_cases hu : u = id
    · exact ⟨v, hc, hid.trans hu.symm, hstate⟩
    · rw [if_neg (by simpa using hu)] at hread
      exact hn u bs hread
  | chunk => exact ⟨hn.fewer fun _ _ => read_writeAt, trivial⟩
  | capped => exact ⟨hn, trivial⟩
  | ended => exact ⟨hn, trivial⟩
  | dropped => exact ⟨hn.unlink _, trivial⟩
  | verified => exact ⟨hn, trivial⟩
  | mismatch => exact ⟨hn, trivial⟩
  | found => exact ⟨hn, trivial⟩
  | absent => exact ⟨hn, trivial⟩
  | @reused v blob key =>
    refine ⟨hn.unlink _, ?_⟩
    show (h.volume.unlink (.staging id)).read (.staging v.id) = none
    rw [Fs.read_unlink, (hown v rfl).1, if_pos rfl]
  | @replaced v blob key volume hr =>
    refine ⟨hn.fewer fun u bs hread => ⟨bs, ?_⟩, ?_⟩
    · rw [read_renamed hr] at hread
      split at hread
      · cases hread
      · exact hread
    · show volume.read (.staging v.id) = none
      rw [read_renamed hr, if_pos (hown v rfl).1]
  | @charged v blob key db hst =>
    obtain ⟨-, he, rfl⟩ := storeUploaded_ok hst
    refine ⟨hn.setVersion (uploadedAs_keys key) fun w _ hw _ => ?_, trivial⟩
    rw [hw]
    exact hc

/-- The sweep discards before it deletes. -/
theorem sweep_discard {rest : List ModelVersion} {ids : List Uuid}
    (hc : Clears db volume (.sweep (.discarding (v :: rest) ids))) :
    Clears db (volume.unlink (.staging v.id)) (.sweep (.discarding rest ids)) := by
  intro i hi
  rcases hc i hi with ⟨w, hw, rfl⟩ | hnone
  · rcases List.mem_cons.mp hw with rfl | hw
    · exact .inr (by rw [Fs.read_unlink, if_pos rfl])
    · exact .inl ⟨w, hw, rfl⟩
  · refine .inr ?_
    rw [Fs.read_unlink]
    split
    · rfl
    · exact hnone

theorem job_step (hrows : Rows s) (hi : Inv s) (hj : s.jobs[r]? = some j)
    (hs : JobStep config s.hub j h' j') : Named h'.db h'.volume ∧ Clears h'.db h'.volume j' := by
  have hc := hi.clears j (List.mem_of_getElem? hj)
  have hk := hrows.knows r j hj
  cases hs with
  | content hcs => exact content_step hi.named hc (fun v hv => (hk v hv).upload _ _ _ _ rfl) hcs
  | commitQuit => exact ⟨hi.named, trivial⟩
  | committing hv => exact ⟨hi.named, (ownedVersion_ok hv).1⟩
  | @committed user upload v db hp =>
    obtain ⟨-, rfl⟩ := updateVersion_ok hp
    refine ⟨hi.named.setVersion (movedOn_keys _ _) fun w hw hid hstate => ?_, trivial⟩
    -- the row it publishes has been received
    have huploaded := (hk v rfl).uploaded _ _ _ rfl
    rw [version_eq hw hc hid, huploaded] at hstate
    cases hstate
  | selected =>
    refine ⟨hi.named, fun i hmem => ?_⟩
    obtain ⟨v, hv, rfl⟩ := List.mem_map.mp hmem
    exact .inl ⟨v, hv, rfl⟩
  | discarded => exact ⟨hi.named.unlink _, sweep_discard hc⟩
  | @swept ids =>
    refine ⟨hi.named.rows fun w hw hstate hread => ?_, trivial⟩
    refine ⟨w, mem_deleteVersions.mpr ⟨hw, fun hmem => ?_⟩, rfl, hstate⟩
    rcases hc w.id hmem with ⟨_, hnone, -⟩ | hnone
    · cases hnone
    · exact hread hnone

theorem inv_step (hserial : SerialInv s) (hi : Inv s) (hx : serial s l = true)
    (hs : step config s l = some s') : Inv s' := by
  cases step_trans hs with
  | tick => exact ⟨hi.named, hi.clears⟩
  | granted hu hg =>
    obtain ⟨modelId, ha⟩ := hg.added
    refine ⟨hi.named.rows fun w hw hstate _ => ⟨w, ha.mem.mpr (.inl hw), rfl, hstate⟩, fun k hk => ?_⟩
    exact clears_finished (List.all_eq_true.mp hx k hk)
  | refused => exact ⟨hi.named, hi.clears⟩
  | spawned hr =>
    refine ⟨hi.named, fun k hk => ?_⟩
    rcases List.mem_append.mp hk with hk | hk
    · exact hi.clears k hk
    · obtain rfl := List.mem_singleton.mp hk
      cases l <;> cases hr <;> trivial
  | stepped hj hf hjs =>
    obtain ⟨hnamed, hclears⟩ := job_step hserial.rows hi hj hjs
    exact ⟨hnamed, hserial.one.all_set hj hf (fun _ => clears_finished) hclears⟩
  | failed hj hf =>
    refine ⟨hi.named, hserial.one.all_set hj hf (fun _ => clears_finished) ?_⟩
    exact clears_finished (finished_failed _)

theorem inv_inductive (config : Settings) :
    (oneByOne config).Inductive fun s => SerialInv s ∧ Inv s := by
  refine LTS.Inductive.and (serialInv_inductive config) (fun s hs => ?_) fun s l s' hserial hi hs =>
    inv_step hserial hi hs.1 hs.2
  obtain ⟨users, now, rfl⟩ := hs
  refine ⟨fun u bs hread => ?_, fun j hj => (by cases hj)⟩
  have hempty : (start users now).hub.volume.read (.staging u) = none := rfl
  rw [hempty] at hread
  cases hread

/-! ## A sweep once every reservation has expired -/

/-- The reservation has expired. -/
def Lapsed (now : Time) (v : ModelVersion) : Prop :=
  v.state = .reserved ∧ ∃ t, v.expiresAt = some t ∧ t ≤ now

/-- No reservation is out that expires later. -/
def NoneOutstanding (now : Time) (db : Db) : Prop :=
  ∀ v ∈ db.versions, v.state = .reserved → ∀ t, v.expiresAt = some t → t ≤ now

/-- What a sweep that completes comes to: nothing in staging, the expired
reservations deleted and nothing else, their number returned; and nothing is left
for a sweep after it, whenever that runs. -/
structure Reclaimed (h h' : Hub) (n : Nat) : Prop where
  staging : ∀ u, h'.volume.read (.staging u) = none
  rows : ∀ v, v ∈ h'.db.versions ↔ v ∈ h.db.versions ∧ ¬ Lapsed h.now v
  entries : h'.db.entries = h.db.entries
  models : h'.db.models = h.db.models
  number : n = (expired h.db h.now).length
  again : ∀ now, dbSession (committing (sweep now)) h'.db h'.volume = (.ok 0, h'.db, h'.volume)

theorem lapsed_iff {now : Time} (hv : v ∈ db.versions) : v ∈ expired db now ↔ Lapsed now v := by
  rw [mem_expired]
  exact ⟨fun h => h.2, fun h => ⟨hv, h⟩⟩

/-- A sweep that selects nothing. -/
theorem sweep_nothing {now : Time} (hnone : expired db now = []) :
    dbSession (committing (sweep now)) db volume = (.ok 0, db, volume) := by
  rw [dbSession_commit, sweep_exec, hnone]
  show (Except.ok 0, deleteVersions [] db, volume) = _
  rw [deleteVersions_nil]

theorem reclaimed (hn : Named h.db h.volume) (ht : Timed h.db) (hout : NoneOutstanding h.now h.db)
    (hdb : h'.db = deleteVersions ((expired h.db h.now).map ModelVersion.id) h.db)
    (hd : Discarded ((expired h.db h.now).map ModelVersion.id) h.volume h'.volume) :
    Reclaimed h h' (expired h.db h.now).length := by
  have hlapsed : ∀ v ∈ h.db.versions, v.state = .reserved → Lapsed h.now v := by
    intro v hv hstate
    obtain ⟨t, he⟩ := Option.isSome_iff_exists.mp (ht v hv)
    exact ⟨hstate, t, he, hout v hv hstate t he⟩
  have hids : ∀ v ∈ h.db.versions,
      v.id ∈ (expired h.db h.now).map ModelVersion.id ↔ Lapsed h.now v := by
    intro v hv
    rw [← lapsed_iff hv, List.mem_map]
    refine ⟨fun ⟨w, hw, hid⟩ => ?_, fun hmem => ⟨v, hmem, rfl⟩⟩
    rwa [version_eq hv (mem_expired.mp hw).1 hid.symm]
  have hrows : ∀ v, v ∈ h'.db.versions ↔ v ∈ h.db.versions ∧ ¬ Lapsed h.now v := by
    intro v
    rw [hdb, mem_deleteVersions]
    exact and_congr_right fun hv => not_congr (hids v hv)
  refine ⟨fun u => ?_, hrows, by rw [hdb]; rfl, by rw [hdb]; rfl, rfl, fun now => sweep_nothing ?_⟩
  · -- the row that names the file has expired
    rw [hd.2]
    split
    · rfl
    · rename_i hkept
      by_contra hread
      obtain ⟨bs, hbs⟩ := Option.ne_none_iff_exists'.mp hread
      obtain ⟨v, hv, rfl, hstate⟩ := hn u bs hbs
      exact hkept ((hids v hv).mpr (hlapsed v hv hstate))
  · rw [List.eq_nil_iff_forall_not_mem]
    intro v hmem
    obtain ⟨hv, hstate, -⟩ := mem_expired.mp hmem
    obtain ⟨hold, hnot⟩ := (hrows v).mp hv
    exact hnot (hlapsed v hold hstate)

/-- **Nothing leaks in staging**, and a sweep at `now`, in a session of its own or
as the steps of the request, reclaims what is there. -/
theorem nothing_leaks (config : Settings) (s : Sys) (hr : (oneByOne config).Reachable s) :
    Named s.hub.db s.hub.volume ∧
      ∀ now, NoneOutstanding now s.hub.db → ∃ h' n,
        dbSession (committing (sweep now)) s.hub.db s.hub.volume = (.ok n, h'.db, h'.volume) ∧
          LTS.Steps (fun a => sweepStep a.1 a.2) ({ s.hub with now := now }, .selecting) (h', .done none) ∧
          Reclaimed { s.hub with now := now } h' n := by
  have hnamed := ((inv_inductive config).reachable s hr).2.named
  have htimed := (timed_interleave config).reachable s hr.of_restrict
  refine ⟨hnamed, fun now hout => ?_⟩
  obtain ⟨h', r, db, hsteps, -, hx, hdb⟩ := sweep_alone { s.hub with now := now }
  have hexec := sweep_exec now s.hub.db s.hub.volume
  rw [hx] at hexec
  rw [Prod.mk.injEq, Prod.mk.injEq] at hexec
  obtain ⟨rfl, rfl, hvolume⟩ := hexec
  have hdiscarded := discarded_foldl (expired s.hub.db now) s.hub.volume
  rw [← hvolume] at hdiscarded
  refine ⟨h', _, ?_, hsteps, reclaimed hnamed htimed hout hdb hdiscarded⟩
  rw [dbSession_commit, hx, hdb]
  rfl

/-! ## A transfer that was cut off -/

/-- Alice reserves `mnist` 1.0, sends a byte of it and goes away for a day. -/
def cutOff : List Lbl :=
  [reserving [97, 98, 99] "1.0", .content alice.id 1 [[97], [98, 99]], .step 0, .step 0, .step 0, .fail 0,
    .tick 86400000000]

/-- Her byte is in staging, and her reservation has expired. -/
def leftover (s : Sys) : Bool :=
  (s.hub.volume.read (.staging 1)).isSome &&
    s.hub.db.versions.rows.all fun v => v.expiresAt.all fun t => t ≤ s.hub.now

theorem reclaimed_leftover : ∃ s, (oneByOne {}).Reachable s ∧ s.hub.volume.read (.staging 1) ≠ none ∧
    Named s.hub.db s.hub.volume ∧ ∃ h' n, Reclaimed s.hub h' n := by
  obtain ⟨s, hr, hleft⟩ := reachable_of_trace {} (fun s l => serial s l = true) cutOff leftover
    (by decide +kernel)
  unfold leftover at hleft
  rw [Bool.and_eq_true] at hleft
  obtain ⟨hnamed, hsweep⟩ := nothing_leaks {} s hr
  have hout : NoneOutstanding s.hub.now s.hub.db := by
    intro v hv _ t ht
    have hall := List.all_eq_true.mp hleft.2 v hv
    rw [ht] at hall
    exact of_decide_eq_true hall
  obtain ⟨h', n, -, -, hreclaimed⟩ := hsweep s.hub.now hout
  exact ⟨s, hr, Option.isSome_iff_ne_none.mp hleft.1, hnamed, h', n, hreclaimed⟩

end SpikeHub.L5.Staging
