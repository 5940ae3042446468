import SpikeHub.L5Runs.Rows

/-!
# A sweep deletes an upload that was received meanwhile

Behaviour (hub_api/uploads/janitor.py:18-36): the sweep selects the expired
`RESERVED` rows, discards their staged files one by one, and deletes the rows
by primary key, whatever their state is by then. A content request checks the
expiry before its stream, so it may still store and charge the upload after
the reservation expired and the sweep selected it.

What the code says: the janitor reclaims "what abandoned uploads left behind"
(janitor.py:1), and "versions are immutable" (model_version.py:29).

Counterexample: a content request stands before its commit when the
reservation expires; a sweep selects the row; the request commits (`UPLOADED`
and charged); the sweep deletes the row. The ledger entry stays.

When it does hold: in every run in which no content request commits a row
that a sweep in progress has selected (`notSelected`), a row that has left
`RESERVED` is never deleted, and every `COMMIT` entry has its version.
-/
namespace SpikeHub.Bugs.SweepRace

open SpikeHub.Core SpikeHub.L1 SpikeHub.L2 SpikeHub.L4.Uploads SpikeHub.L5.Interleave

/-- The rows a sweep in progress is going to delete. -/
def selected : Job → List Uuid
  | .sweep (.discarding _ ids) => ids
  | _ => []

/-- The upload whose row a content request's next step commits. -/
def commits : Job → Option Uuid
  | .content _ _ _ (.writing v _ _) => some v.id
  | _ => none

/-- A content request commits only rows no sweep in progress has selected. -/
def notSelected (s : Sys) : Lbl → Bool
  | .step r => ((s.jobs[r]?).bind commits).all fun id => s.jobs.all fun k => id ∉ selected k
  | _ => true

/-- Every `COMMIT` entry has its version. -/
def NoOrphanCharge (db : Db) : Prop :=
  ∀ e ∈ db.entries, e.reason = .commit → ∃ v ∈ db.versions, e.modelVersionId = some v.id

/-- `v` has left `RESERVED` and is still there. -/
def Received (db : Db) (id : Uuid) : Prop := ∃ v ∈ db.versions, v.id = id ∧ v.state ≠ .reserved

structure Inv (s : Sys) : Prop where
  /-- rows a sweep selected are still reserved -/
  selected : ∀ j ∈ s.jobs, ∀ id ∈ selected j, ∀ w ∈ s.hub.db.versions, w.id = id →
    w.state = .reserved
  charged : ∀ e ∈ s.hub.db.entries, e.reason = .commit →
    ∃ id, e.modelVersionId = some id ∧ Received s.hub.db id

variable {config : Settings} {s s' : Sys} {l : Lbl} {db : Db} {id : Uuid} {v : ModelVersion}

/-! ## Rows that have left `RESERVED` stay -/

theorem received_set {f : ModelVersion → ModelVersion} (hf : KeepsKeys f) {id' : Uuid}
    (hleft : ∀ v, v.state ≠ .reserved → (f v).state ≠ .reserved) (h : Received db id) :
    Received (setVersion db id' f hf) id := by
  obtain ⟨v, hv, hid, hst⟩ := h
  refine ⟨_, mem_setVersion.mpr ⟨v, hv, rfl⟩, ?_, ?_⟩
  · split
    · rw [hf.id]; exact hid
    · exact hid
  · split
    · exact hleft v hst
    · exact hst

/-- One step keeps every received row. -/
theorem received_step (h : Inv s) (hs : step config s l = some s')
    (hr : Received s.hub.db id) : Received s'.hub.db id := by
  cases effect_of_step hs with
  | none he => rw [he]; exact hr
  | granted ha =>
    obtain ⟨v, hv, hid, hst⟩ := hr
    exact ⟨v, ha.mem.mpr (.inl hv), hid, hst⟩
  | charged he hj hst =>
    obtain ⟨v, hv, hid, hleft⟩ := hr
    refine ⟨_, (storedUpload hst).mem_versions.mpr ⟨v, hv, rfl⟩, ?_, ?_⟩
    · split <;> exact hid
    · split
      · simp [uploadedAs]
      · exact hleft
  | published he hj hst =>
    obtain ⟨-, hdb⟩ := updateVersion_ok hst
    rw [hdb]
    exact received_set (movedOn_keys _ _) (fun v _ => movedOn_state_ne) hr
  | swept he hj hdb =>
    rw [hdb]
    obtain ⟨v, hv, hid, hst⟩ := hr
    -- the sweep deletes what it selected, and that is still reserved
    refine ⟨v, mem_deleteVersions.mpr ⟨hv, fun hin => ?_⟩, hid, hst⟩
    exact hst (h.selected _ (List.mem_of_getElem? hj) _ hin v hv rfl)

/-! ## What sweeps have selected stays reserved -/

theorem notSelected_writing {r : Nat} {user upload : Uuid} {chunks : List Bytes}
    {blob : StoredBlob} {key : String} (hc : notSelected s (.step r) = true)
    (hj : s.jobs[r]? = some (.content user upload chunks (.writing v blob key))) :
    ∀ k ∈ s.jobs, v.id ∉ selected k := by
  intro k hk
  simp only [notSelected, hj, Option.bind_some, commits, Option.all_some, List.all_eq_true,
    decide_eq_true_eq] at hc
  exact hc k hk

/-- The rows of a selection that was made before the step are still reserved. -/
theorem reserved_step (hrows : Rows s) (h : Inv s) (hc : notSelected s l = true)
    (hs : step config s l = some s') {j : Job} (hj : j ∈ s.jobs) (hid : id ∈ selected j) :
    ∀ w ∈ s'.hub.db.versions, w.id = id → w.state = .reserved := by
  intro w hw hwid
  have hold := h.selected j hj id hid
  cases effect_of_step hs with
  | none he => rw [he] at hw; exact hold w hw hwid
  | granted ha =>
    rcases ha.mem.mp hw with hw | hw
    · exact hold w hw hwid
    · rw [hw]; rfl
  | charged he hj' hst =>
    subst he
    rcases (storedUpload hst).version_changed hw with ⟨b, hb, heq, rfl⟩ | ⟨hw, -⟩
    · have hne := notSelected_writing hc hj' j hj
      have hvid : _ = id := heq.symm.trans hwid
      exact absurd hid (hvid ▸ hne)
    · exact hold w hw hwid
  | published he hj' hst =>
    obtain ⟨⟨a, ha, haid⟩, hdb⟩ := updateVersion_ok hst
    rw [hdb] at hw
    rcases setVersion_changed hw with ⟨b, hb, heq, rfl⟩ | ⟨hw, -⟩
    · -- the published row had left `RESERVED`, so no sweep has selected it
      have hk := hrows.knows _ _ hj' _ rfl
      have hleft := (hk.row b hb heq).left (by rw [hk.uploaded _ _ _ rfl]; simp)
      rw [movedOn_id] at hwid
      exact absurd (hold b hb hwid) hleft
    · exact hold w hw hwid
  | swept he hj' hdb =>
    rw [hdb] at hw
    exact hold w (mem_deleteVersions.mp hw).1 hwid

/-- A step selects only what the request had selected before, or what is
reserved now. -/
theorem selected_step (hs : step config s l = some s') {j : Job} (hj : j ∈ s'.jobs)
    (hid : id ∈ selected j) :
    (∃ k ∈ s.jobs, id ∈ selected k) ∨
      (s'.hub.db = s.hub.db ∧ ∀ w ∈ s.hub.db.versions, w.id = id → w.state = .reserved) := by
  have hset : ∀ {r : Nat} {j' : Job}, (id ∈ selected j' → ∃ k ∈ s.jobs, id ∈ selected k) →
      j ∈ s.jobs.set r j' → ∃ k ∈ s.jobs, id ∈ selected k := by
    intro r j' hj' hm
    rcases List.mem_or_eq_of_mem_set hm with hm | he
    · exact ⟨j, hm, hid⟩
    · exact hj' (he ▸ hid)
  cases step_trans hs with
  | tick => exact .inl ⟨j, hj, hid⟩
  | granted hu hg => exact .inl ⟨j, hj, hid⟩
  | refused => exact .inl ⟨j, hj, hid⟩
  | spawned hr =>
    rcases List.mem_append.mp hj with hj | hj
    · exact .inl ⟨j, hj, hid⟩
    · rw [List.mem_singleton.mp hj] at hid
      cases l <;> cases hr <;> exact absurd hid List.not_mem_nil
  | failed hj' hf =>
    refine .inl (hset (fun h => ?_) hj)
    rename_i r j'
    cases j' <;> exact absurd h List.not_mem_nil
  | stepped hj' hf hjs =>
    cases hjs with
    | content => exact .inl (hset (fun h => absurd h List.not_mem_nil) hj)
    | commitQuit => exact .inl (hset (fun h => absurd h List.not_mem_nil) hj)
    | committing => exact .inl (hset (fun h => absurd h List.not_mem_nil) hj)
    | committed => exact .inl (hset (fun h => absurd h List.not_mem_nil) hj)
    | selected =>
      rcases List.mem_or_eq_of_mem_set hj with hj | he
      · exact .inl ⟨j, hj, hid⟩
      · right
        refine ⟨rfl, fun w hw hwid => ?_⟩
        rw [he] at hid
        obtain ⟨x, hx, hxid⟩ := List.mem_map.mp hid
        obtain ⟨hxm, hxs, -⟩ := mem_expired.mp hx
        rw [version_eq hw hxm (hwid.trans hxid.symm)]
        exact hxs
    | discarded =>
      refine .inl (hset (fun h => ?_) hj)
      exact ⟨_, List.mem_of_getElem? hj', h⟩
    | swept => exact .inl (hset (fun h => absurd h List.not_mem_nil) hj)

theorem inv_step (hrows : Rows s) (h : Inv s) (hc : notSelected s l = true)
    (hs : step config s l = some s') : Inv s' := by
  refine ⟨fun j hj id hid => ?_, fun e he hcom => ?_⟩
  · rcases selected_step hs hj hid with ⟨k, hk, hidk⟩ | ⟨hdb, hres⟩
    · exact reserved_step hrows h hc hs hk hidk
    · rw [hdb]; exact hres
  · have hold : e ∈ s.hub.db.entries →
        ∃ id, e.modelVersionId = some id ∧ Received s'.hub.db id := by
      intro he
      obtain ⟨id, hid, hr⟩ := h.charged e he hcom
      exact ⟨id, hid, received_step h hs hr⟩
    cases effect_of_step hs with
    | none hdb => exact hold (hdb ▸ he)
    | granted ha => exact hold (ha.entries ▸ he)
    | published hl hj hst =>
      obtain ⟨-, hdb⟩ := updateVersion_ok hst
      rw [hdb] at he
      exact hold he
    | swept hl hj hdb => rw [hdb] at he; exact hold he
    | charged hl hj hst =>
      have hup := storedUpload hst
      rcases hup.mem_entries.mp he with he | he
      · exact hold he
      · obtain ⟨a, ha, haid⟩ := hup.row
        refine ⟨_, by rw [he]; rfl, _, hup.mem_versions.mpr ⟨a, ha, rfl⟩, ?_, ?_⟩
        · rw [if_pos haid]; exact haid
        · rw [if_pos haid]; simp [uploadedAs]

theorem inv_inductive (config : Settings) :
    ((lts config).restrict fun s l => notSelected s l = true).Inductive
      fun s => Rows s ∧ Inv s := by
  refine LTS.Inductive.and ((rows_inductive config).restrict _) ?_ ?_
  · intro s hs
    obtain ⟨users, now, rfl⟩ := hs
    refine ⟨by simp [start], fun e he => ?_⟩
    exact absurd he (Table.not_mem_empty e)
  · exact fun s l s' hrows h hs => inv_step hrows h hs.1 hs.2

/-- What one step keeps, the rest of the run keeps. -/
theorem received_run {ls : List Lbl} (h : Rows s ∧ Inv s)
    (hrun : ((lts config).restrict fun s l => notSelected s l = true).Run s ls s')
    (hr : Received s.hub.db id) : Received s'.hub.db id := by
  induction hrun with
  | nil => exact hr
  | cons hs _ ih =>
    have hnext := (inv_inductive config).step _ _ _ h hs
    exact ih hnext (received_step h.2 hs.2 hr)

theorem received_kept (config : Settings) (s s' : Sys) (ls : List Lbl)
    (h : ((lts config).restrict fun s l => notSelected s l = true).Reachable s)
    (hrun : ((lts config).restrict fun s l => notSelected s l = true).Run s ls s') :
    (∀ v ∈ s.hub.db.versions, v.state ≠ .reserved →
      ∃ v' ∈ s'.hub.db.versions, v'.id = v.id ∧ v'.state ≠ .reserved) ∧
    NoOrphanCharge s'.hub.db := by
  have hinv := (inv_inductive config).reachable s h
  have hinv' := (inv_inductive config).reachable s' (h.run hrun)
  refine ⟨fun v hv hst => received_run hinv hrun ⟨v, hv, rfl, hst⟩, fun e he hcom => ?_⟩
  obtain ⟨id, hid, w, hw, hwid, -⟩ := hinv'.2.charged e he hcom
  exact ⟨w, hw, by rw [hid, hwid]⟩

/-! ## Traces -/

/-- A transfer up to its commit, the clock past the expiry, a sweep that selects. -/
def race : List Lbl :=
  [reserving [97, 98, 99] "1.0", .content alice.id 1 [[97, 98, 99]], .step 0, .step 0, .step 0,
    .step 0, .step 0, .step 0, .step 0, .tick 900000000, .sweep]

theorem received_after_sweep :
    ∃ s s' : Sys, (∃ v ∈ s.hub.db.versions, v.state ≠ .reserved) ∧
      (∀ v ∈ s.hub.db.versions, v.state ≠ .reserved →
        ∃ v' ∈ s'.hub.db.versions, v'.id = v.id ∧ v'.state ≠ .reserved) ∧
      NoOrphanCharge s'.hub.db := by
  -- the transfer commits before the sweep selects
  obtain ⟨s, hs, hp⟩ := reachable_of_trace {} (fun s l => notSelected s l = true)
    (race ++ [.step 0]) (fun s => s.hub.db.versions.rows.any (fun v => v.state ≠ .reserved) &&
      (LTS.exec (step {}) (fun s l => notSelected s l = true) s [.step 1, .step 1]).isSome)
    (by decide +kernel)
  obtain ⟨hp, hrun⟩ := (Bool.and_eq_true _ _).mp hp
  obtain ⟨s', hrun⟩ := Option.isSome_iff_exists.mp hrun
  refine ⟨s, s', by simpa [Table.mem_rows] using hp, ?_⟩
  exact received_kept {} s s' [.step 1, .step 1] hs (LTS.run_of_exec hrun)

/-- The sweep selects, the transfer commits, the sweep deletes. -/
theorem not_received_kept :
    ¬ ∀ s s' ls, (lts {}).Reachable s → (lts {}).Run s ls s' →
      (∀ v ∈ s.hub.db.versions, v.state ≠ .reserved →
        ∃ v' ∈ s'.hub.db.versions, v'.id = v.id ∧ v'.state ≠ .reserved) ∧
      NoOrphanCharge s'.hub.db := by
  intro h
  obtain ⟨s, hs, hp⟩ := reachable_of_trace {} (fun _ _ => True)
    (race ++ [.step 1, .step 0, .step 1, .step 1])
    (fun s => s.hub.db.versions.rows = [] &&
      s.hub.db.entries.rows.any fun e => e.reason = .commit) (by decide +kernel)
  simp only [Bool.and_eq_true, decide_eq_true_eq, List.any_eq_true] at hp
  obtain ⟨hnone, e, he, hcom⟩ := hp
  obtain ⟨v, hv, -⟩ := (h s s [] hs.of_restrict (.nil s)).2 e he hcom
  rw [← Table.mem_rows, hnone] at hv
  exact absurd hv List.not_mem_nil

end SpikeHub.Bugs.SweepRace
