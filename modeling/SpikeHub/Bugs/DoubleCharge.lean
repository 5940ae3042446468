import SpikeHub.L5Runs.Rows

/-!
# One reservation charged twice

Behaviour (hub_api/uploads/receive.py:33-90): the slot check reads the row
once, before the stream; the update that ends the request is by primary key,
without a condition on the state, and there is no row lock and no unique
constraint on `quota_entries.model_version_id`. Two requests that both passed
the check each append a `COMMIT` entry.

What the code says: `_reserved_slot` refuses an upload that is not awaiting
bytes (receive.py:44-47), and the ledger "records only bytes that are actually
stored" and can be "reconciled" with the stored artifacts
(quota_entry.py:21-35).

Counterexample: two requests for one upload pass the slot check; the first
runs to its commit, then the second opens the staging file, streams the same
bytes, finds the object present and commits: two entries.

When it does hold: in every run in which a content request writes its row
only while that row is still `RESERVED` in the committed state
(`stillReserved`), each version has at most one `COMMIT` entry, and one
exactly when it has left `RESERVED`; and the first write that does not meet
this breaks it.
-/
namespace SpikeHub.Bugs.DoubleCharge

open SpikeHub.Core SpikeHub.L1 SpikeHub.L2 SpikeHub.L4.Uploads SpikeHub.L5.Interleave

/-- Requests only: no janitor run. -/
def requests (config : Settings) : LTS Sys Lbl := (lts config).restrict fun _ l => l ≠ .sweep

/-- The upload whose row the request's next step writes. -/
def writes : Job → Option Uuid
  | .content _ _ _ (.writing v _ _) => some v.id
  | _ => none

/-- A content request writes a row that is still reserved. -/
def stillReserved (s : Sys) : Lbl → Bool
  | .step r => ((s.jobs[r]?).bind writes).all fun id =>
      s.hub.db.versions.rows.all fun w => w.id ≠ id || w.state = .reserved
  | _ => true

/-- At most one `COMMIT` entry each, and one exactly when the version has left `RESERVED`. -/
def ChargedOnce (db : Db) : Prop :=
  ∀ id, commits db id ≤ 1 ∧
    (commits db id = 1 ↔ ∃ v ∈ db.versions, v.id = id ∧ v.state ≠ .reserved)

/-- The same, row by row. -/
structure RowsCharged (db : Db) : Prop where
  reserved : ∀ v ∈ db.versions, v.state = .reserved → commits db v.id = 0
  left : ∀ v ∈ db.versions, v.state ≠ .reserved → commits db v.id = 1
  absent : ∀ id, (∀ v ∈ db.versions, v.id ≠ id) → commits db id = 0

variable {db db' : Db} {v : ModelVersion}

theorem RowsCharged.chargedOnce (h : RowsCharged db) : ChargedOnce db := by
  intro id
  by_cases hrow : ∃ v ∈ db.versions, v.id = id
  · obtain ⟨v, hv, rfl⟩ := hrow
    by_cases hs : v.state = .reserved
    · rw [h.reserved v hv hs]
      refine ⟨Nat.zero_le _, by simp, ?_⟩
      rintro ⟨w, hw, hid, hne⟩
      exact absurd hs (version_eq hv hw hid.symm ▸ hne)
    · rw [h.left v hv hs]
      exact ⟨Nat.le_refl _, fun _ => ⟨v, hv, rfl, hs⟩, fun _ => rfl⟩
  · rw [h.absent id fun v hv hid => hrow ⟨v, hv, hid⟩]
    exact ⟨Nat.zero_le _, by simp, fun ⟨v, hv, hid, _⟩ => absurd ⟨v, hv, hid⟩ hrow⟩

theorem RowsCharged.granted {u : Uuid} (h : RowsCharged db) (ha : AddedReservation u v db db')
    (hv : v.state = .reserved) (hnew : ∀ w ∈ db.versions, w.id ≠ v.id) : RowsCharged db' := by
  have hc : ∀ id, commits db' id = commits db id := fun id => by unfold commits; rw [ha.entries]
  refine ⟨fun w hw hs => ?_, fun w hw hs => ?_, fun id hid => ?_⟩
  · rw [hc]
    rcases ha.mem.mp hw with hw | rfl
    · exact h.reserved w hw hs
    · exact h.absent _ hnew
  · rw [hc]
    rcases ha.mem.mp hw with hw | rfl
    · exact h.left w hw hs
    · exact absurd hv hs
  · rw [hc]
    exact h.absent id fun w hw => hid w (ha.mem.mpr (.inl hw))

/-- Charging a row that is still reserved: its first entry. -/
theorem RowsCharged.charged {now : Time} {entryId userId : Uuid} {key : String} {blob : StoredBlob}
    (h : RowsCharged db) (hs : StoredUpload now entryId userId v key blob db db')
    (hres : ∀ w ∈ db.versions, w.id = v.id → w.state = .reserved) : RowsCharged db' := by
  obtain ⟨a, ha, haid⟩ := hs.row
  refine ⟨fun w hw hst => ?_, fun w hw hst => ?_, fun id hid => ?_⟩
  · rcases hs.version_changed hw with ⟨b, hb, hid, rfl⟩ | ⟨hold, hne⟩
    · cases hst
    · rw [hs.commits, if_neg (Ne.symm hne)]
      exact h.reserved w hold hst
  · rcases hs.version_changed hw with ⟨b, hb, hid, rfl⟩ | ⟨hold, hne⟩
    · show commits db' b.id = 1
      rw [hs.commits, if_pos hid.symm, h.reserved b hb (hres b hb hid)]
    · rw [hs.commits, if_neg (Ne.symm hne)]
      exact h.left w hold hst
  · have hne : v.id ≠ id := by
      rintro rfl
      exact hid _ (hs.mem_versions.mpr ⟨a, ha, rfl⟩) (by rw [if_pos haid]; exact haid)
    rw [hs.commits, if_neg hne]
    refine h.absent id fun b hb hbid => ?_
    have hbne : b.id ≠ v.id := fun he => hne (he ▸ hbid)
    exact hid b (hs.mem_versions.mpr ⟨b, hb, if_neg hbne⟩) hbid

/-- Publishing a row that has left `RESERVED`. -/
theorem RowsCharged.published {now : Time} {config : Settings} {id : Uuid} (h : RowsCharged db)
    (hs : storePublished now config id db = .ok db')
    (hleft : ∀ w ∈ db.versions, w.id = id → w.state ≠ .reserved) : RowsCharged db' := by
  obtain ⟨-, rfl⟩ := updateVersion_ok hs
  refine ⟨fun w hw hst => ?_, fun w hw hst => ?_, fun id' hid => ?_⟩
  · rcases setVersion_changed hw with ⟨b, hb, hbid, rfl⟩ | ⟨hold, -⟩
    · exact absurd hst movedOn_state_ne
    · exact h.reserved w hold hst
  · rcases setVersion_changed hw with ⟨b, hb, hbid, rfl⟩ | ⟨hold, -⟩
    · rw [movedOn_id]
      exact h.left b hb (hleft b hb hbid)
    · exact h.left w hold hst
  · refine h.absent id' fun b hb hbid => ?_
    refine hid _ (mem_setVersion.mpr ⟨b, hb, rfl⟩) ?_
    split
    · rw [movedOn_id]; exact hbid
    · exact hbid

/-! ## Runs -/

structure Inv (s : Sys) : Prop where
  noSweep : ∀ pc, .sweep pc ∉ s.jobs
  charged : RowsCharged s.hub.db

variable {config : Settings} {s s' : Sys} {l : Lbl}

theorem noSweep_step (h : ∀ pc, .sweep pc ∉ s.jobs) (hl : l ≠ .sweep)
    (hs : step config s l = some s') : ∀ pc, .sweep pc ∉ s'.jobs := by
  have hset : ∀ {r : Nat} {j : Job}, (∀ pc, j ≠ .sweep pc) →
      ∀ pc, .sweep pc ∉ s.jobs.set r j := by
    intro r j hj pc hm
    rcases List.mem_or_eq_of_mem_set hm with hm | he
    · exact h pc hm
    · exact hj pc he.symm
  cases step_trans hs with
  | tick => exact h
  | granted hu hg => exact h
  | refused => exact h
  | spawned hr =>
    intro pc hm
    rcases List.mem_append.mp hm with hm | hm
    · exact h pc hm
    · cases l <;> cases hr
      · cases List.mem_singleton.mp hm
      · cases List.mem_singleton.mp hm
      · exact hl rfl
  | stepped hj hf hjs =>
    have hjob := h
    cases hjs with
    | content => exact hset (fun _ he => by cases he)
    | commitQuit => exact hset (fun _ he => by cases he)
    | committing => exact hset (fun _ he => by cases he)
    | committed => exact hset (fun _ he => by cases he)
    | selected => exact absurd (List.mem_of_getElem? hj) (h _)
    | discarded => exact absurd (List.mem_of_getElem? hj) (h _)
    | swept => exact absurd (List.mem_of_getElem? hj) (h _)
  | failed hj hf =>
    rename_i r j
    cases j with
    | content => exact hset (fun _ he => by cases he)
    | commit => exact hset (fun _ he => by cases he)
    | sweep pc => exact absurd (List.mem_of_getElem? hj) (h _)

theorem stillReserved_writing {r : Nat} {user id : Uuid} {chunks : List Bytes} {blob : StoredBlob}
    {key : String} (hj : s.jobs[r]? = some (.content user id chunks (.writing v blob key))) :
    stillReserved s (.step r) = true ↔
      ∀ w ∈ s.hub.db.versions, w.id = v.id → w.state = .reserved := by
  simp only [stillReserved, hj, Option.bind_some, writes, Option.all_some, List.all_eq_true,
    Bool.or_eq_true, decide_eq_true_eq]
  exact ⟨fun h w hw hid => (h w hw).resolve_left (not_not.mpr hid),
    fun h w hw => (em (w.id = v.id)).elim (fun he => .inr (h w hw he)) .inl⟩

theorem inv_step (hrows : Rows s) (h : Inv s) (hl : l ≠ .sweep) (hc : stillReserved s l = true)
    (hs : step config s l = some s') : Inv s' := by
  refine ⟨noSweep_step h.noSweep hl hs, ?_⟩
  cases effect_of_step hs with
  | none he => rw [he]; exact h.charged
  | granted ha =>
    refine h.charged.granted ha rfl fun w hw hid => ?_
    exact absurd (hrows.versions w hw) (by rw [hid]; exact Nat.not_lt.mpr (Nat.le_succ _))
  | charged he hj hst =>
    subst he
    exact h.charged.charged (storedUpload hst) ((stillReserved_writing hj).mp hc)
  | published he hj hst =>
    have hk := hrows.knows _ _ hj _ rfl
    refine h.charged.published hst fun w hw hid => (hk.row w hw hid).left ?_
    rw [hk.uploaded _ _ _ rfl]
    simp
  | swept he hj => exact absurd (List.mem_of_getElem? hj) (h.noSweep _)

theorem inv_inductive (config : Settings) :
    ((requests config).restrict fun s l => stillReserved s l = true).Inductive
      fun s => Rows s ∧ Inv s := by
  refine LTS.Inductive.and (((rows_inductive config).restrict _).restrict _) ?_ ?_
  · rintro s ⟨users, now, rfl⟩
    refine ⟨by simp [start], ?_⟩
    exact ⟨fun v hv => absurd hv (Table.not_mem_empty v),
      fun v hv => absurd hv (Table.not_mem_empty v), fun _ _ => rfl⟩
  · exact fun s l s' hrows h hs => inv_step hrows h hs.2.1 hs.1 hs.2.2

/-- A write to a row that has left `RESERVED` appends its second entry. -/
theorem double_charge (hrows : Rows s) (h : ChargedOnce s.hub.db) {r : Nat}
    (hs : step config s (.step r) = some s') (hc : stillReserved s (.step r) = false) :
    ¬ ChargedOnce s'.hub.db := by
  simp only [step] at hs
  split at hs
  · cases hs
  rename_i j hj
  obtain ⟨⟨h', j'⟩, hstep, rfl⟩ := Option.map_eq_some_iff.mp hs
  -- the condition can only fail at a write
  have hw : ∃ id, writes j = some id := by
    cases hw : writes j with
    | some id => exact ⟨id, rfl⟩
    | none => simp [stillReserved, hj, hw] at hc
  obtain ⟨id, hw⟩ := hw
  unfold writes at hw
  split at hw
  · rename_i user upload chunks v blob key
    have hnot : ¬ ∀ w ∈ s.hub.db.versions, w.id = v.id → w.state = .reserved := fun ha =>
      absurd ((stillReserved_writing hj).mpr ha) (by simp [hc])
    push Not at hnot
    obtain ⟨w, hwm, hwid, hwst⟩ := hnot
    obtain ⟨db', hdb⟩ : ∃ db', storeUploaded s.hub.now s.hub.fresh user v key blob s.hub.db =
        .ok db' :=
      storeUploaded_isOk _ user key blob ⟨w, hwm, hwid⟩ fun e he => Nat.ne_of_lt (hrows.entries e he).1
    simp only [jobStep, contentStep, hdb, Option.map_some, Option.some.injEq, Prod.mk.injEq]
      at hstep
    obtain ⟨rfl, -⟩ := hstep
    have h1 : commits s.hub.db v.id = 1 := ((h v.id).2).mpr ⟨w, hwm, hwid, hwst⟩
    have h2 := (storedUpload hdb).commits v.id
    rw [if_pos rfl, h1] at h2
    intro hno
    have := (hno v.id).1
    dsimp only at this
    omega
  · cases hw

/-- Every run of requests whose writes find their row reserved charges once;
the first write that does not, charges twice. -/
theorem chargedOnce_of_stillReserved (config : Settings) (s : Sys)
    (h : ((requests config).restrict fun s l => stillReserved s l = true).Reachable s) :
    ChargedOnce s.hub.db ∧
      ∀ l s', (requests config).step s l s' → stillReserved s l = false →
        ¬ ChargedOnce s'.hub.db := by
  obtain ⟨hrows, hinv⟩ := (inv_inductive config).reachable s h
  refine ⟨hinv.charged.chargedOnce, fun l s' hstep hc => ?_⟩
  cases l with
  | step r => exact double_charge hrows hinv.charged.chargedOnce hstep.2 hc
  | _ => cases hc

/-- Two requests pass the slot check, then one runs to its commit. -/
def first : List Lbl :=
  [reserving [97, 98, 99] "1.0", .content alice.id 1 [[97, 98, 99]],
    .content alice.id 1 [[97, 98, 99]], .step 0, .step 1, .step 0, .step 0, .step 0, .step 0,
    .step 0, .step 0, .step 0]

/-- Then the other one does. -/
def second : List Lbl :=
  [.step 1, .step 1, .step 1, .step 1, .step 1, .step 1, .step 1]

theorem charged_after_first : ∃ s : Sys, commits s.hub.db 1 = 1 ∧ ChargedOnce s.hub.db := by
  obtain ⟨s, hs, hp⟩ := reachable_of_trace {}
    (fun s l => l ≠ .sweep ∧ stillReserved s l = true) first
    (fun s => commits s.hub.db 1 = 1) (by decide +kernel)
  exact ⟨s, by simpa using hp, (chargedOnce_of_stillReserved {} s hs.nest).1⟩

theorem not_chargedOnce : ¬ ∀ s, (requests {}).Reachable s → ChargedOnce s.hub.db := by
  intro h
  obtain ⟨s, hs, hp⟩ := reachable_of_trace {} (fun _ l => l ≠ .sweep) (first ++ second)
    (fun s => commits s.hub.db 1 = 2) (by decide +kernel)
  have h1 := (h s hs 1).1
  simp only [decide_eq_true_eq] at hp
  omega

end SpikeHub.Bugs.DoubleCharge
