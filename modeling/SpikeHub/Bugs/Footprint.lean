import SpikeHub.L5Runs.Calls

/-!
# The host's limits do not count what is reserved

Behaviour (hub_api/quota/footprint.py:35-60, called by `reserve`): the cap is
checked against the ledger and the floor against the volume as it is now.
Neither counts the reservations that are outstanding, of this account or of
others, and `receive` checks neither: several reservations each of which fits
alone are all received.

What the code says: the cap is "the share of the volume this service may ever
claim" (footprint.py:7, config.py:7), and the floor is there so that a mistaken
cap "still cannot produce a full filesystem" (footprint.py:9-11). The account's
own allowance does count what is reserved (`pending_bytes`).

Counterexample: a cap of 10 bytes, a floor of 5 on a volume of 14; two
reservations of 6 bytes, then both uploads, one call after the other.

When it does hold: the cap, in every run in which a request that fits beside
what is stored also fits beside what is reserved (`roomUnderCap`); the floor,
in every run in which a request that fits the free space also fits what the
outstanding uploads will leave of it (`roomAboveFloor`).
-/
namespace SpikeHub.Bugs.Footprint

open SpikeHub.Core SpikeHub.L1 SpikeHub.L2 SpikeHub.L3 SpikeHub.L4.Uploads SpikeHub.L5.Calls
open SpikeHub.L5.Interleave (Hub alice oneAccount intentFor)

/-- Bytes of every account's live reservations. -/
def promised (db : Db) (now : Time) : Int := db.versions.sum (live now) ModelVersion.sizeBytes

/-- What the upload of a reservation may still add to its staged file. -/
def missing (fs : Volume) (v : ModelVersion) : Int := v.sizeBytes - fs.size (.staging v.id)

/-- Bytes the uploads of the live reservations may still add to the volume. -/
def awaited (db : Db) (now : Time) (fs : Volume) : Int := db.versions.sum (live now) (missing fs)

def UnderCap (host : Host) (h : Hub) : Prop :=
  totalStoredBytes h.db ≤ host.config.footprintCapBytes

def AboveFloor (host : Host) (h : Hub) : Prop :=
  host.config.volumeFreeFloorBytes ≤ host.free h.volume

def roomUnderCap (host : Host) (h : Hub) : Call → Bool
  | .reserve _ intent _ =>
    totalStoredBytes h.db + intent.request.sizeBytes ≤ host.config.footprintCapBytes →
      totalStoredBytes h.db + promised h.db h.now + intent.request.sizeBytes ≤ host.config.footprintCapBytes
  | _ => true

def roomAboveFloor (host : Host) (h : Hub) : Call → Bool
  | .reserve _ intent _ =>
    host.config.volumeFreeFloorBytes ≤ host.free h.volume - intent.request.sizeBytes →
      host.config.volumeFreeFloorBytes ≤
        host.free h.volume - awaited h.db h.now h.volume - intent.request.sizeBytes
  | _ => true

variable {host : Host} {h h' : Hub} {c : Call} {v w : ModelVersion}

/-! ## Live rows -/

theorem not_live_of_expired {db : Db} {now : Time} (hv : v ∈ expired db now) : live now v = false := by
  obtain ⟨-, -, t, ht, hle⟩ := mem_expired.mp hv
  refine Bool.eq_false_iff.mpr fun hl => ?_
  obtain ⟨-, t', ht', hlt⟩ := live_iff.mp hl
  rw [ht] at ht'
  cases ht'
  exact absurd hlt (Int.not_lt.mpr hle)

theorem live_of_slot {user id : Uuid} (t : Tidy h) (hslot : reservedSlot h.db h.now id user = .ok v) :
    live h.now v = true := by
  obtain ⟨hv, -, -, hres, hlt⟩ := reservedSlot_ok hslot
  obtain ⟨e, he⟩ := t.expires v hv
  exact live_iff.mpr ⟨hres, e, he, hlt e he⟩

theorem missing_nonneg (t : Tidy h) (hv : v ∈ h.db.versions) (hl : live h.now v = true) :
    0 ≤ missing h.volume v := by
  have := t.within v hv (live_iff.mp hl).1
  unfold missing
  omega

/-! ## What a call does to a sum over the live reservations -/

section
variable {db db' : Db} {now : Time} {f : ModelVersion → Int} {u : Uuid}

theorem sum_granted (ha : AddedReservation u v db db') (hf : 0 ≤ f v) :
    db'.versions.sum (live now) f ≤ db.versions.sum (live now) f + f v := by
  obtain ⟨hv, he⟩ := ha.versions
  rw [he, Table.sum_insert]
  split <;> omega

/-- A row that leaves `RESERVED` leaves the sum. -/
theorem sum_setVersion {g : ModelVersion → ModelVersion} {hg : KeepsKeys g} (hv : v ∈ db.versions)
    (hdone : live now (g v) = false) : (setVersion db v.id g hg).versions.sum (live now) f =
      db.versions.sum (live now) f - if live now v then f v else 0 := by
  rw [setVersion_versions, Table.sum_updateWhere hv fun b hb => ?_, hdone]
  · simp
  · rw [decide_eq_true_eq]
    exact ⟨fun he => version_eq hb hv he, fun he => he ▸ rfl⟩

theorem sum_abandon (hv : v ∈ db.versions) : (deleteVersions [v.id] db).versions.sum (live now) f =
    db.versions.sum (live now) f - if live now v then f v else 0 := by
  show (db.versions.delete _).sum _ _ = _
  refine Table.sum_delete_one hv fun b hb => ?_
  rw [decide_eq_true_eq, List.mem_singleton]
  exact ⟨fun he => version_eq hb hv he, fun he => he ▸ rfl⟩

/-- Deleting rows that are not live changes nothing. -/
theorem sum_sweep :
    (deleteVersions ((expired db now).map ModelVersion.id) db).versions.sum (live now) f =
      db.versions.sum (live now) f := by
  have hnone : db.versions.sum (fun v => live now v &&
      decide (v.id ∈ (expired db now).map ModelVersion.id)) f = 0 := by
    rw [Table.sum_congr (q := fun _ => false) (g := fun _ => 0) fun v hv => ?_]
    · rw [Table.sum_eq]; simp
    · by_cases hid : v.id ∈ (expired db now).map ModelVersion.id
      · obtain ⟨x, hx, hxid⟩ := List.mem_map.mp hid
        have hvx : v = x := version_eq hv (mem_expired.mp hx).1 hxid.symm
        simp [hvx, not_live_of_expired hx]
      · simp [hid]
  show (db.versions.delete _).sum _ _ = _
  rw [Table.sum_delete, hnone, Int.sub_zero]

theorem total_eq (h : db'.entries = db.entries) : totalStoredBytes db' = totalStoredBytes db := by
  unfold totalStoredBytes; rw [h]

end

/-! ## The cap -/

/-- Stored and promised bytes together grow only where `reserve` grants more. -/
theorem promised_step (t : Tidy h) (hs : step host h c = some h') :
    totalStoredBytes h'.db + promised h'.db h'.now ≤ totalStoredBytes h.db + promised h.db h.now ∨
      ∃ user intent keep, c = .reserve user intent keep ∧
        totalStoredBytes h.db + intent.request.sizeBytes ≤ host.config.footprintCapBytes ∧
        totalStoredBytes h'.db + promised h'.db h'.now ≤
          totalStoredBytes h.db + promised h.db h.now + intent.request.sizeBytes := by
  unfold promised
  cases t.outcome hs with
  | tick =>
    rename_i d
    have hle : h.db.versions.sum (live (h.now + d)) ModelVersion.sizeBytes ≤
        h.db.versions.sum (live h.now) ModelVersion.sizeBytes :=
      sum_tick (q := fun _ => true) d fun v hv _ _ => Int.le_of_lt (t.sizes v hv)
    exact .inl (Int.add_le_add_left hle _)
  | granted hu hg =>
    rename_i user intent keep u db
    obtain ⟨modelId, ha⟩ := hg.added
    have hle : db.versions.sum (live h.now) ModelVersion.sizeBytes ≤
        h.db.versions.sum (live h.now) ModelVersion.sizeBytes + intent.request.sizeBytes :=
      sum_granted ha (Int.le_of_lt intent.positive)
    have htotal : totalStoredBytes db = totalStoredBytes h.db := total_eq ha.entries
    refine .inr ⟨user, intent, keep, rfl, hg.footprint, ?_⟩
    simp only [after_db, after_now]
    omega
  | quiet hm =>
    refine .inl ?_
    simp only [after_db, after_now]
    rw [hm.versions, total_eq hm.entries]
  | received hslot hlen hrw hp hst =>
    rename_i user upload body keep v key mid fs db
    have hup := storedUpload hst
    have hsum : db.versions.sum (live h.now) ModelVersion.sizeBytes =
        h.db.versions.sum (live h.now) ModelVersion.sizeBytes - v.sizeBytes := by
      rw [hup.versions, sum_setVersion (reservedSlot_ok hslot).1 (not_live_of_state (by simp)),
        if_pos (live_of_slot t hslot)]
    have htotal : totalStoredBytes db = totalStoredBytes h.db + body.bytes.length :=
      hup.totalStoredBytes
    refine .inl ?_
    simp only [after_db, after_now]
    omega
  | interrupted hslot hrw hb => exact .inl (Int.le_refl _)
  | abandoned hslot hmis hkeep hrw =>
    rename_i user upload body keep v fs
    obtain ⟨hv, -⟩ := reservedSlot_ok hslot
    have hsum : (deleteVersions [v.id] h.db).versions.sum (live h.now) ModelVersion.sizeBytes =
        h.db.versions.sum (live h.now) ModelVersion.sizeBytes - v.sizeBytes := by
      rw [sum_abandon hv, if_pos (live_of_slot t hslot)]
    have hsize := t.sizes v hv
    refine .inl (Int.add_le_add_left ?_ _)
    simp only [after_db, after_now]
    omega
  | published hv hu =>
    rename_i user upload keep v
    have hbefore : live h.now v = false := not_live_of_state (by simp [hu])
    refine .inl (Int.add_le_add_left (Int.le_of_eq ?_) _)
    simp only [after_db, after_now]
    rw [sum_setVersion hv (not_live_of_state movedOn_state_ne), hbefore]
    simp
  | swept hd => exact .inl (Int.add_le_add_left (Int.le_of_eq sum_sweep) _)

/-! ## The floor -/

/-- A staged file changes what is missing for its own reservation only. -/
theorem awaited_staged {fs fs' : Volume} {db : Db} (now : Time) (hv : v ∈ db.versions)
    (hother : ∀ u, u ≠ v.id → fs'.size (.staging u) = fs.size (.staging u)) :
    awaited db now fs' = awaited db now fs +
      if live now v then fs.size (.staging v.id) - fs'.size (.staging v.id) else 0 := by
  unfold awaited
  rw [Table.sum_measure_one (f := missing fs) hv fun w hw hne => ?_]
  · unfold missing
    split <;> omega
  · have hid : w.id ≠ v.id := fun he => hne (version_eq hw hv he)
    unfold missing
    rw [hother w.id hid]

theorem size_staging {fs fs' : Volume} {o : Option Bytes} {id : Uuid}
    (hrw : fs.Rewrites (.staging id) o fs') :
    ∀ u, u ≠ id → fs'.size (.staging u) = fs.size (.staging u) :=
  fun _ hu => hrw.size_other fun he => hu (Path.staging.inj he)

/-- Discarding what expired takes nothing from the live reservations. -/
theorem awaited_swept {fs fs' : Volume} {db : Db} {now : Time}
    (hd : Discarded ((expired db now).map ModelVersion.id) fs fs') :
    awaited (deleteVersions ((expired db now).map ModelVersion.id) db) now fs' =
      awaited db now fs := by
  unfold awaited
  rw [sum_sweep]
  refine Table.sum_congr fun v hv => ?_
  cases hl : live now v with
  | false => simp
  | true =>
    have hid : v.id ∉ (expired db now).map ModelVersion.id := by
      intro hm
      obtain ⟨x, hx, hxid⟩ := List.mem_map.mp hm
      rw [version_eq hv (mem_expired.mp hx).1 hxid.symm, not_live_of_expired hx] at hl
      cases hl
    have hread := hd.2 v.id
    rw [if_neg hid] at hread
    unfold missing Fs.size
    rw [hread]

/-- Bytes on the volume and bytes still awaited together grow only where
`reserve` grants more. -/
theorem awaited_step (t : Tidy h) (hs : step host h c = some h') :
    h'.volume.usage + awaited h'.db h'.now h'.volume ≤
        h.volume.usage + awaited h.db h.now h.volume ∨
      ∃ user intent keep, c = .reserve user intent keep ∧
        host.config.volumeFreeFloorBytes ≤ host.free h.volume - intent.request.sizeBytes ∧
        h'.volume.usage + awaited h'.db h'.now h'.volume ≤
          h.volume.usage + awaited h.db h.now h.volume + intent.request.sizeBytes := by
  cases t.outcome hs with
  | tick =>
    rename_i d
    have hle : awaited h.db (h.now + d) h.volume ≤ awaited h.db h.now h.volume :=
      sum_tick (q := fun _ => true) d fun v hv _ hl => missing_nonneg t hv hl
    exact .inl (Int.add_le_add_left hle _)
  | granted hu hg =>
    rename_i user intent keep u db
    obtain ⟨modelId, ha⟩ := hg.added
    have hnone : h.volume.size (.staging (h.fresh + 1)) = 0 :=
      Fs.size_eq_zero (t.staged _ (Nat.le_succ _))
    have hmissing : missing h.volume (newVersion h.now (h.fresh + 1) modelId intent.request
        host.config) = intent.request.sizeBytes := by
      show intent.request.sizeBytes - h.volume.size (.staging (h.fresh + 1)) = _
      rw [hnone, Int.sub_zero]
    have hle : awaited db h.now h.volume ≤ awaited h.db h.now h.volume + intent.request.sizeBytes := by
      refine hmissing ▸ sum_granted ha ?_
      rw [hmissing]
      exact Int.le_of_lt intent.positive
    refine .inr ⟨user, intent, keep, rfl, hg.freeSpace, ?_⟩
    simp only [after_db, after_now, after_volume]
    omega
  | quiet hm =>
    refine .inl (Int.le_of_eq ?_)
    simp only [after_db, after_now, after_volume]
    unfold awaited
    rw [hm.versions]
  | received hslot hlen hrw hp hst =>
    rename_i user upload body keep v key mid fs db
    obtain ⟨hv, rfl, -⟩ := reservedSlot_ok hslot
    have hlive := live_of_slot t hslot
    have hup := storedUpload hst
    have hgone : fs.size (.staging v.id) = 0 :=
      Fs.size_eq_zero (by rw [hp.read_staging, if_pos rfl])
    have hothers : ∀ u, u ≠ v.id → fs.size (.staging u) = h.volume.size (.staging u) := by
      intro u hu
      rw [← size_staging hrw u hu]
      unfold Fs.size
      rw [hp.read_staging, if_neg hu]
    have hrow : awaited db h.now fs = awaited h.db h.now fs - v.sizeBytes := by
      unfold awaited
      rw [hup.versions, sum_setVersion hv (not_live_of_state (by simp)), if_pos hlive]
      unfold missing
      omega
    have hfile := awaited_staged h.now hv hothers
    rw [if_pos hlive] at hfile
    have hmid := hrw.usage
    rw [Fs.size_eq hrw.at] at hmid
    have husage := hp.usage hrw.at
    refine .inl ?_
    simp only [after_db, after_now, after_volume]
    omega
  | interrupted hslot hrw hb =>
    obtain ⟨hv, rfl, -⟩ := reservedSlot_ok hslot
    have hfile := awaited_staged h.now hv (size_staging hrw)
    rw [if_pos (live_of_slot t hslot)] at hfile
    have husage := hrw.usage
    refine .inl ?_
    simp only [after_db, after_now, after_volume]
    omega
  | abandoned hslot hmis hkeep hrw =>
    rename_i user upload body keep v fs
    obtain ⟨hv, rfl, -⟩ := reservedSlot_ok hslot
    have hlive := live_of_slot t hslot
    have hgone := Fs.size_eq_zero hrw.at
    have hrow : awaited (deleteVersions [v.id] h.db) h.now fs =
        awaited h.db h.now fs - v.sizeBytes := by
      unfold awaited
      rw [sum_abandon hv, if_pos hlive]
      unfold missing
      omega
    have hfile := awaited_staged h.now hv (size_staging hrw)
    rw [if_pos hlive] at hfile
    have husage := hrw.usage
    have hsize := t.sizes v hv
    refine .inl ?_
    simp only [after_db, after_now, after_volume]
    omega
  | published hv hu =>
    rename_i user upload keep v
    have hbefore : live h.now v = false := not_live_of_state (by simp [hu])
    refine .inl (Int.add_le_add_left (Int.le_of_eq ?_) _)
    simp only [after_db, after_now, after_volume]
    unfold awaited
    rw [sum_setVersion hv (not_live_of_state movedOn_state_ne), hbefore]
    simp
  | swept hd =>
    have husage := hd.1
    have hsum := awaited_swept hd
    refine .inl ?_
    simp only [after_db, after_now, after_volume]
    omega

/-! ## Runs -/

theorem sum_empty {α : Type} [Record α] {t : Table α} {q : α → Bool} {f : α → Int}
    (ht : ∀ a, a ∉ t) : t.sum q f = 0 := by
  rw [Table.sum_eq, List.eq_nil_iff_forall_not_mem.mpr ht]
  rfl

theorem cap_inductive (hcap : 0 ≤ host.config.footprintCapBytes) :
    ((lts host).restrict fun h c => roomUnderCap host h c = true).Inductive fun h => Tidy h ∧
      totalStoredBytes h.db + promised h.db h.now ≤ host.config.footprintCapBytes := by
  refine LTS.Inductive.and ((tidy_inductive host).restrict _) ?_ ?_
  · intro h h₀
    have htotal : totalStoredBytes h.db = 0 := sum_empty h₀.1.entries
    have hpromised : promised h.db h.now = 0 := sum_empty h₀.1.versions
    omega
  · intro h c h' t hinv hs
    rcases promised_step t hs.2 with hle | ⟨user, intent, keep, rfl, hfits, hle⟩
    · omega
    · have hroom := hs.1
      simp only [roomUnderCap, decide_eq_true_eq] at hroom
      have := hroom hfits
      omega

theorem floor_inductive (host : Host) :
    ((lts host).restrict fun h c => roomAboveFloor host h c = true).Inductive fun h => Tidy h ∧
      host.config.volumeFreeFloorBytes ≤ host.free h.volume - awaited h.db h.now h.volume := by
  refine LTS.Inductive.and ((tidy_inductive host).restrict _) ?_ ?_
  · intro h h₀
    have hawaited : awaited h.db h.now h.volume = 0 := sum_empty h₀.1.versions
    have hfloor := h₀.2
    omega
  · intro h c h' t hinv hs
    unfold Host.free at hinv ⊢
    rcases awaited_step t hs.2 with hle | ⟨user, intent, keep, rfl, hfits, hle⟩
    · omega
    · have hroom := hs.1
      simp only [roomAboveFloor, decide_eq_true_eq] at hroom
      have := hroom hfits
      unfold Host.free at this
      omega

theorem protected_of_room (host : Host) (hcap : 0 ≤ host.config.footprintCapBytes) :
    (∀ h, ((lts host).restrict fun h c => roomUnderCap host h c = true).Reachable h →
      UnderCap host h) ∧
    (∀ h, ((lts host).restrict fun h c => roomAboveFloor host h c = true).Reachable h →
      AboveFloor host h) := by
  constructor
  · intro h hr
    obtain ⟨t, hinv⟩ := (cap_inductive hcap).reachable h hr
    have hpos : 0 ≤ promised h.db h.now :=
      Table.sum_nonneg fun v hv _ => Int.le_of_lt (t.sizes v hv)
    unfold UnderCap
    omega
  · intro h hr
    obtain ⟨t, hinv⟩ := (floor_inductive host).reachable h hr
    have hpos : 0 ≤ awaited h.db h.now h.volume :=
      Table.sum_nonneg fun v hv hl => missing_nonneg t hv hl
    unfold AboveFloor
    omega

/-! ## Traces -/

/-- 14 bytes, of which 10 are the hub's to claim and 5 are to stay free. -/
def tight : Host := ⟨{ footprintCapBytes := 10, volumeFreeFloorBytes := 5 }, 14⟩

def six (b : UInt8) : Bytes := List.replicate 6 b

theorem protected_after_upload : ∃ h, totalStoredBytes h.db = 6 ∧ UnderCap tight h ∧
    AboveFloor tight h := by
  obtain ⟨h, hr, hp⟩ := reachable_of_trace tight
    (fun h c => roomUnderCap tight h c = true ∧ roomAboveFloor tight h c = true)
    [reserving "1.0" (six 97) (by decide), uploading 1 (six 97)]
    (fun h => totalStoredBytes h.db = 6) (by decide) (by decide +kernel)
  have hsafe := protected_of_room tight (by decide)
  exact ⟨h, by simpa using hp, hsafe.1 h (hr.mono fun _ _ hc => hc.1),
    hsafe.2 h (hr.mono fun _ _ hc => hc.2)⟩

/-- Two uploads that fit one by one, reserved before either is received. -/
theorem not_protected : ∃ h h' : Hub, (lts tight).Reachable h ∧ UnderCap tight h ∧
    AboveFloor tight h ∧ (lts tight).step h (uploading 3 (six 98)) h' ∧
    ¬ UnderCap tight h' ∧ ¬ AboveFloor tight h' := by
  obtain ⟨h, hr, hp⟩ := reachable_of_trace tight (fun _ _ => True)
    [reserving "1.0" (six 97) (by decide), reserving "1.1" (six 98) (by decide),
      uploading 1 (six 97)]
    (fun h => totalStoredBytes h.db ≤ 10 ∧ 5 ≤ tight.free h.volume ∧
      (step tight h (uploading 3 (six 98))).any fun h' =>
        10 < totalStoredBytes h'.db ∧ tight.free h'.volume < 5) (by decide) (by decide +kernel)
  simp only [decide_eq_true_eq, Option.any_eq_true] at hp
  obtain ⟨hcap, hfloor, h', hs, hcap', hfloor'⟩ := hp
  exact ⟨h, h', hr.of_restrict, hcap, hfloor, hs, Int.not_le.mpr hcap', Int.not_le.mpr hfloor'⟩

end SpikeHub.Bugs.Footprint
