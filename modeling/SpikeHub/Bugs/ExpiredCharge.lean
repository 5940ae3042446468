import SpikeHub.L5Runs.Rows

/-!
# A reservation that expired during its transfer is charged

Behaviour (hub_api/uploads/receive.py:33-90): the expiry is tested once, in
the slot check, and the stream after it may take any time. `pending_bytes`
drops the reservation at its `expires_at`, so its bytes may be granted to
another reservation of the account; the transfer then commits and adds them
to `used_bytes` all the same.

What the code says: a reservation's bytes stop counting "the moment it
expires" (quota_entry.py:31-35), "an expired reservation cannot be used or
charged" is a test's name (tests/test_upload_flow.py:255), and
`_reserved_slot` refuses an expired one.

Counterexample: a transfer stands before its commit when the clock passes the
reservation's `expires_at`; its commit appends the entry.

When it does hold: in every run in which the clock does not reach the
`expires_at` of a reservation while a transfer past its slot check may still
charge it (`beforeExpiry`), every charge is made before the expiry, and a
charge of a version that is still reserved moves exactly its size from
`pending_bytes` to `used_bytes`.
-/
namespace SpikeHub.Bugs.ExpiredCharge

open SpikeHub.Core SpikeHub.L1 SpikeHub.L2 SpikeHub.L3 SpikeHub.L4.Uploads SpikeHub.L5.Interleave

/-- The row a content request past its slot check may still charge. -/
def mayCharge : Job → Option ModelVersion
  | .content _ _ _ (.opening v) | .content _ _ _ (.streaming v ..) | .content _ _ _ (.measured v _)
  | .content _ _ _ (.promoting v _) | .content _ _ _ (.reusing v ..)
  | .content _ _ _ (.replacing v ..) | .content _ _ _ (.writing v ..) => some v
  | _ => none

/-- The clock stays before the expiry of every reservation being received. -/
def beforeExpiry (s : Sys) : Lbl → Bool
  | .tick d => s.jobs.all fun j => (mayCharge j).all fun v => v.expiresAt.all fun t =>
      s.hub.now + d < t
  | _ => true

/-- The `COMMIT` entries the step appends are of versions that have not expired. -/
def ChargesLive (s s' : Sys) : Prop :=
  ∀ e ∈ s'.hub.db.entries, e ∉ s.hub.db.entries → e.reason = .commit →
    ∃ v ∈ s.hub.db.versions, e.modelVersionId = some v.id ∧
      ∀ t, v.expiresAt = some t → e.createdAt < t

/-- A charge of a version that is still reserved moves its size from the
owner's pending bytes to the used ones. -/
def MovesBytes (s s' : Sys) : Prop :=
  ∀ e ∈ s'.hub.db.entries, e ∉ s.hub.db.entries → e.reason = .commit →
    ∀ v ∈ s.hub.db.versions, e.modelVersionId = some v.id → v.state = .reserved →
      ∀ u, s.hub.db.ownedBy u v = true →
        pendingBytes s'.hub.db s'.hub.now u = pendingBytes s.hub.db s.hub.now u - v.sizeBytes ∧
        storedBytes s'.hub.db u = storedBytes s.hub.db u + v.sizeBytes

structure Inv (s : Sys) : Prop where
  expires : ∀ v ∈ s.hub.db.versions, ∃ t, v.expiresAt = some t
  before : ∀ j ∈ s.jobs, ∀ v, mayCharge j = some v → ∀ t, v.expiresAt = some t → s.hub.now < t

variable {config : Settings} {s s' : Sys} {l : Lbl} {v : ModelVersion} {db db' : Db}

/-! ## The invariant -/

theorem expires_step (h : ∀ v ∈ s.hub.db.versions, ∃ t, v.expiresAt = some t)
    (hs : step config s l = some s') : ∀ v ∈ s'.hub.db.versions, ∃ t, v.expiresAt = some t := by
  intro w hw
  cases effect_of_step hs with
  | none he => exact h w (he ▸ hw)
  | granted ha =>
    rcases ha.mem.mp hw with hw | hw
    · exact h w hw
    · rw [hw]; exact ⟨_, rfl⟩
  | charged he hj hst =>
    rcases (storedUpload hst).version_changed hw with ⟨b, hb, -, rfl⟩ | ⟨hold, -⟩
    · exact h b hb
    · exact h w hold
  | published he hj hst =>
    obtain ⟨-, hdb⟩ := updateVersion_ok hst
    rw [hdb] at hw
    rcases setVersion_changed hw with ⟨b, hb, -, rfl⟩ | ⟨hold, -⟩
    · rw [movedOn_expiresAt]; exact h b hb
    · exact h w hold
  | swept he hj hdb => rw [hdb] at hw; exact h w (mem_deleteVersions.mp hw).1

/-- A content request's row is the one it had, or one its slot check found live. -/
theorem mayCharge_step {h h' : Hub} {user id : Uuid} {chunks : List Bytes} {pc pc' : ContentPc}
    (hs : ContentStep h user id chunks pc h' pc')
    (hv : mayCharge (.content user id chunks pc') = some v) :
    mayCharge (.content user id chunks pc) = some v ∨
      (h'.now = h.now ∧ ∀ t, v.expiresAt = some t → h.now < t) := by
  cases hs with
  | admitted hslot =>
    cases hv
    exact .inr ⟨rfl, (reservedSlot_ok hslot).2.2.2.2⟩
  | quit => cases hv
  | capped => cases hv
  | dropped => cases hv
  | mismatch => cases hv
  | charged => cases hv
  | opened => exact .inl hv
  | chunk => exact .inl hv
  | ended => exact .inl hv
  | verified => exact .inl hv
  | found => exact .inl hv
  | absent => exact .inl hv
  | reused => exact .inl hv
  | replaced => exact .inl hv

theorem now_contentStep {h h' : Hub} {user id : Uuid} {chunks : List Bytes} {pc pc' : ContentPc}
    (hs : ContentStep h user id chunks pc h' pc') : h'.now = h.now := by
  cases hs <;> rfl

theorem before_step (h : Inv s) (hc : beforeExpiry s l = true) (hs : step config s l = some s') :
    ∀ j ∈ s'.jobs, ∀ v, mayCharge j = some v → ∀ t, v.expiresAt = some t → s'.hub.now < t := by
  have hset : ∀ {r : Nat} {j' : Job}, mayCharge j' = none → ∀ j ∈ s.jobs.set r j', ∀ v,
      mayCharge j = some v → ∀ t, v.expiresAt = some t → s.hub.now < t := by
    intro r j' hj' j hj v hv
    rcases List.mem_or_eq_of_mem_set hj with hj | he
    · exact h.before j hj v hv
    · rw [he, hj'] at hv; cases hv
  cases step_trans hs with
  | tick =>
    intro j hj v hv t ht
    simp only [beforeExpiry, List.all_eq_true] at hc
    have hjob := hc j hj
    simpa only [hv, ht, Option.all_some, decide_eq_true_eq] using hjob
  | granted hu hg => exact h.before
  | refused => exact h.before
  | spawned hr =>
    intro j hj v hv
    rcases List.mem_append.mp hj with hj | hj
    · exact h.before j hj v hv
    · rw [List.mem_singleton.mp hj] at hv
      cases l <;> cases hr <;> cases hv
  | failed hj hf =>
    refine hset ?_
    rename_i r j
    cases j <;> rfl
  | stepped hj hf hjs =>
    cases hjs with
    | commitQuit => exact hset rfl
    | committing => exact hset rfl
    | committed => exact hset rfl
    | selected => exact hset rfl
    | discarded => exact hset rfl
    | swept => exact hset rfl
    | content hcs =>
      intro k hk v hv t ht
      have hnow := now_contentStep hcs
      dsimp only
      rw [hnow]
      rcases List.mem_or_eq_of_mem_set hk with hk | he
      · exact h.before k hk v hv t ht
      · rw [he] at hv
        rcases mayCharge_step hcs hv with hv | ⟨-, hlt⟩
        · exact h.before _ (List.mem_of_getElem? hj) v hv t ht
        · exact hlt t ht

theorem inv_inductive (config : Settings) :
    ((lts config).restrict fun s l => beforeExpiry s l = true).Inductive
      fun s => Rows s ∧ Inv s := by
  refine LTS.Inductive.and ((rows_inductive config).restrict _) ?_ ?_
  · intro s hs
    obtain ⟨users, now, rfl⟩ := hs
    exact ⟨fun v hv => absurd hv (Table.not_mem_empty v), by simp [start]⟩
  · exact fun s l s' _ h hs => ⟨expires_step h.expires hs.2, before_step h hs.1 hs.2⟩

/-! ## What a charge does -/

/-- The step that appended the entry is a content request's last one. -/
theorem charge_of_new_entry (hs : step config s l = some s') {e : QuotaEntry}
    (he : e ∈ s'.hub.db.entries) (hnew : e ∉ s.hub.db.entries) :
    ∃ (r : Nat) (user id : Uuid) (chunks : List Bytes) (v : ModelVersion) (blob : StoredBlob)
      (key : String), s.jobs[r]? = some (.content user id chunks (.writing v blob key)) ∧
      StoredUpload s.hub.now s.hub.fresh user v key blob s.hub.db s'.hub.db ∧
      e = chargeEntry s.hub.now s.hub.fresh user v blob ∧ s'.hub.now = s.hub.now := by
  cases step_trans hs with
  | tick => exact absurd he hnew
  | granted hu hg =>
    obtain ⟨_, ha⟩ := hg.added
    exact absurd (ha.entries ▸ he) hnew
  | refused => exact absurd he hnew
  | spawned hr => exact absurd he hnew
  | failed hj hf => exact absurd he hnew
  | stepped hj hf hjs =>
    cases hjs with
    | commitQuit => exact absurd he hnew
    | committing => exact absurd he hnew
    | committed hp =>
      obtain ⟨-, rfl⟩ := updateVersion_ok hp
      exact absurd he hnew
    | selected => exact absurd he hnew
    | discarded => exact absurd he hnew
    | swept => exact absurd he hnew
    | content hcs =>
      cases hcs with
      | charged hst =>
        have hup := storedUpload hst
        rcases hup.mem_entries.mp he with he | he
        · exact absurd he hnew
        · exact ⟨_, _, _, _, _, _, _, hj, hup, he, rfl⟩
      | _ => exact absurd he hnew

theorem chargesLive_of_beforeExpiry (config : Settings) (s s' : Sys) (l : Lbl)
    (h : ((lts config).restrict fun s l => beforeExpiry s l = true).Reachable s)
    (hs : (lts config).step s l s') : ChargesLive s s' ∧ MovesBytes s s' := by
  obtain ⟨hrows, hinv⟩ := (inv_inductive config).reachable s h
  refine ⟨fun e he hnew _ => ?_, fun e he hnew _ a ha haid hres u hu => ?_⟩
  · obtain ⟨r, user, id, chunks, v, blob, key, hj, hup, rfl, -⟩ := charge_of_new_entry hs he hnew
    obtain ⟨a, ha, haid⟩ := hup.row
    refine ⟨a, ha, by rw [haid]; rfl, fun t ht => ?_⟩
    have hrow := (hrows.knows r _ hj v rfl).row a ha haid
    rw [hrow.expiresAt] at ht
    exact hinv.before _ (List.mem_of_getElem? hj) v rfl t ht
  · obtain ⟨r, user, id, chunks, v, blob, key, hj, hup, rfl, hnow⟩ := charge_of_new_entry hs he hnew
    have hid : a.id = v.id := (Option.some.inj haid).symm
    have hk := hrows.knows r _ hj v rfl
    have hrow := hk.row a ha hid
    -- the row is counted in `pending_bytes` until this very step
    have hlive : live s.hub.now a = true := by
      obtain ⟨t, ht⟩ := hinv.expires a ha
      have hlt := hinv.before _ (List.mem_of_getElem? hj) v rfl t (hrow.expiresAt ▸ ht)
      simp [live, hres, ht, hlt]
    have hdone : live s.hub.now (uploadedAs key a) = false := by simp [live, uploadedAs]
    have hsize : (blob.sizeBytes : Int) = a.sizeBytes := by
      rw [(hk.blob blob rfl).1, hrow.sizeBytes]
    have howner : u = user := by
      have hv := hk.owner user rfl
      unfold Db.ownedBy at hv
      rw [← hrow.modelId] at hv
      exact owner_unique hu hv
    constructor
    · rw [hnow, pendingBytes_eq, pendingBytes_eq, hup.ownedSum ha hid, hu, hlive, hdone]
      simp
    · rw [hup.storedBytes, if_pos howner, hsize]

/-! ## Traces -/

/-- A transfer up to its commit. -/
def transfer : List Lbl :=
  [reserving [97, 98, 99] "1.0", .content alice.id 1 [[97, 98, 99]], .step 0, .step 0, .step 0,
    .step 0, .step 0, .step 0, .step 0]

theorem charged_in_time : ∃ s s' : Sys, (lts {}).step s (.step 0) s' ∧
    s.hub.db.entries.rows = [] ∧ s'.hub.db.entries.rows ≠ [] ∧
    ChargesLive s s' ∧ MovesBytes s s' := by
  obtain ⟨s, hs, hp⟩ := reachable_of_trace {} (fun s l => beforeExpiry s l = true) transfer
    (fun s => s.hub.db.entries.rows = [] &&
      (step {} s (.step 0)).any fun s' => s'.hub.db.entries.rows ≠ []) (by decide +kernel)
  simp only [Bool.and_eq_true, decide_eq_true_eq, Option.any_eq_true] at hp
  obtain ⟨hnone, s', hs', hsome⟩ := hp
  exact ⟨s, s', hs', hnone, hsome, chargesLive_of_beforeExpiry {} s s' (.step 0) hs hs'⟩

/-- The reservation lives 900 seconds; the transfer's commit comes after them. -/
theorem not_chargesLive :
    ¬ ∀ s s' l, (lts {}).Reachable s → (lts {}).step s l s' → ChargesLive s s' ∧ MovesBytes s s' := by
  intro h
  obtain ⟨s, hs, hp⟩ := reachable_of_trace {} (fun _ _ => True) (transfer ++ [.tick 900000000])
    (fun s => (step {} s (.step 0)).any fun s' => s'.hub.db.entries.rows.any fun e =>
      e ∉ s.hub.db.entries.rows ∧ e.reason = .commit ∧ s.hub.db.versions.rows.all fun v =>
        v.expiresAt.any fun t => t ≤ e.createdAt) (by decide +kernel)
  simp only [Option.any_eq_true, List.any_eq_true, decide_eq_true_eq, List.all_eq_true] at hp
  obtain ⟨s', hs', e, he, hnew, hcom, hexp⟩ := hp
  obtain ⟨v, hv, -, hlive⟩ := (h s s' (.step 0) hs.of_restrict hs').1 e he hnew hcom
  obtain ⟨t, ht, hle⟩ := hexp v hv
  exact absurd hle (Int.not_le.mpr (hlive t ht))

end SpikeHub.Bugs.ExpiredCharge
