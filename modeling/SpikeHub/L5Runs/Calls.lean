import SpikeHub.L5Runs.Interleave

/-!
# Calls, one at a time

The same service with no call overlapping another: `reserve`, `receive`,
`publish` and `sweep` as `L4Uploads` has them, each a whole step, with the
clock moving in between. A call either ends its request, whose route commits
what returned and rolls back what raised, or shares its session with the calls
after it, and then what it did before raising stays (`keep`).

The volume belongs to this service alone: what is free on it is what its own
files leave of the disk.

`Outcome` is what a call can do, and `outcome_of_step` the inversion the
invariants over runs of calls are proved from.
-/
namespace SpikeHub.L5.Calls

open SpikeHub.Core SpikeHub.L1 SpikeHub.L2 SpikeHub.L3 SpikeHub.L4.Uploads
open SpikeHub.L5.Interleave (Hub)

structure Host where
  config : Settings
  /-- bytes of the volume -/
  disk : Int

/-- mirrors hub_api/storage/volume.py:112-115 -/
def Host.free (host : Host) (fs : Volume) : Int := host.disk - fs.usage

inductive Call
  | tick (d : Nat)
  | reserve (user : Uuid) (intent : UploadIntent) (keep : Bool)
  | receive (user upload : Uuid) (body : Body) (keep : Bool)
  | publish (user upload : Uuid) (keep : Bool)
  | sweep

/-- The database and the volume after a call. -/
def settle {α : Type} (keep : Bool) (h : Hub) (m : Work Db Volume Raised α) : Db × Volume :=
  if keep then (m.exec h.db h.volume).2 else (dbSession (committing m) h.db h.volume).2

def after (h : Hub) (s : Db × Volume) (ids : Nat) : Hub :=
  { h with db := s.1, volume := s.2, fresh := h.fresh + ids }

def step (host : Host) (h : Hub) : Call → Option Hub
  | .tick d => some { h with now := h.now + d }
  | .reserve user intent keep =>
    (h.db.user? user).map fun u =>
      after h (settle keep h
        (reserve h.now host.free ⟨h.fresh, h.fresh + 1⟩ u intent.request host.config)) 2
  | .receive user upload body keep =>
    some (after h (settle keep h (receive h.now h.fresh upload user body)) 1)
  | .publish user upload keep =>
    match ownedVersion h.db upload user with
    | .ok version => some (after h (settle keep h (publish h.now version host.config)) 0)
    | .error _ => some h
  | .sweep => some (after h (settle false h (sweep h.now)) 0)

/-- Nothing in the ledger, no version row, no staged file; the volume may hold
anything else. -/
structure Empty (h : Hub) : Prop where
  entries : ∀ e, e ∉ h.db.entries
  versions : ∀ v, v ∉ h.db.versions
  staging : ∀ u, h.volume.read (.staging u) = none

def lts (host : Host) : LTS Hub Call :=
  LTS.ofFn (fun h => Empty h ∧ host.config.volumeFreeFloorBytes ≤ host.free h.volume) (step host)

/-! ## What a call can do -/

inductive Outcome (host : Host) (h : Hub) : Call → Hub → Prop
  | tick {d : Nat} : Outcome host h (.tick d) { h with now := h.now + d }
  | granted {user : Uuid} {intent : UploadIntent} {keep : Bool} {u : User} {db : Db} :
      h.db.user? user = some u →
      Granted h.now (host.free h.volume) ⟨h.fresh, h.fresh + 1⟩ u intent.request host.config
        h.db db →
      Outcome host h (.reserve user intent keep) (after h (db, h.volume) 2)
  | quiet {c : Call} {db : Db} {ids : Nat} :
      OnlyModels h.db db → Outcome host h c (after h (db, h.volume) ids)
  | received {user upload : Uuid} {body : Body} {keep : Bool} {v : ModelVersion} {key : String}
      {mid fs : Volume} {db : Db} :
      reservedSlot h.db h.now upload user = .ok v →
      (body.bytes.length : Int) = v.sizeBytes →
      h.volume.Rewrites (.staging upload) (some body.bytes) mid →
      Promoted upload key body.bytes mid fs →
      storeUploaded h.now h.fresh user v key (measure body.bytes) h.db = .ok db →
      Outcome host h (.receive user upload body keep) (after h (db, fs) 1)
  | interrupted {user upload : Uuid} {body : Body} {keep : Bool} {v : ModelVersion}
      {o : Option Bytes} {fs : Volume} :
      reservedSlot h.db h.now upload user = .ok v →
      h.volume.Rewrites (.staging upload) o fs →
      (∀ bs, o = some bs → (bs.length : Int) ≤ v.sizeBytes) →
      Outcome host h (.receive user upload body keep) (after h (h.db, fs) 1)
  | abandoned {user upload : Uuid} {body : Body} {keep : Bool} {v : ModelVersion} {fs : Volume} :
      reservedSlot h.db h.now upload user = .ok v → Mismatch v body → keep = true →
      h.volume.Rewrites (.staging upload) none fs →
      Outcome host h (.receive user upload body keep)
        (after h (deleteVersions [v.id] h.db, fs) 1)
  | published {user upload : Uuid} {keep : Bool} {v : ModelVersion} :
      v ∈ h.db.versions → v.state = .uploaded →
      Outcome host h (.publish user upload keep) (after h
        (setVersion h.db v.id (movedOn h.now host.config) (movedOn_keys h.now host.config),
          h.volume) 0)
  | swept {fs : Volume} :
      Discarded ((expired h.db h.now).map ModelVersion.id) h.volume fs →
      Outcome host h .sweep
        (after h (deleteVersions ((expired h.db h.now).map ModelVersion.id) h.db, fs) 0)

section
variable {α : Type} {m : Work Db Volume Raised α} {h : Hub} {keep : Bool} {db : Db} {fs : Volume}

theorem settle_ok {a : α} (hx : m.exec h.db h.volume = (.ok a, db, fs)) :
    settle keep h m = (db, fs) := by
  unfold settle
  cases keep with
  | true => rw [if_pos rfl, hx]
  | false => rw [if_neg (by simp), dbSession_commit, hx]

theorem settle_error {e : Raised} (hx : m.exec h.db h.volume = (.error e, db, fs)) :
    settle keep h m = (if keep then db else h.db, fs) := by
  unfold settle
  cases keep with
  | true => rw [if_pos rfl, hx, if_pos rfl]
  | false => rw [if_neg (by simp), dbSession_commit, hx, if_neg (by simp)]

/-- What the work of a call does to the database, its session does, or nothing. -/
theorem settle_changes {R : Db → Db → Prop} (hrefl : ∀ d, R d d)
    (hm : R h.db (m.exec h.db h.volume).2.1) : R h.db (settle keep h m).1 := by
  rcases hx : m.exec h.db h.volume with ⟨res, db, fs⟩
  rw [hx] at hm
  cases res with
  | ok a =>
    rw [settle_ok hx]
    exact hm
  | error e =>
    rw [settle_error hx]
    show R h.db (if keep then db else h.db)
    split
    · exact hm
    · exact hrefl h.db

end

@[simp] theorem after_db {h : Hub} {s : Db × Volume} {ids : Nat} : (after h s ids).db = s.1 := rfl
@[simp] theorem after_volume {h : Hub} {s : Db × Volume} {ids : Nat} :
    (after h s ids).volume = s.2 := rfl
@[simp] theorem after_now {h : Hub} {s : Db × Volume} {ids : Nat} : (after h s ids).now = h.now := rfl

theorem after_self (h : Hub) : after h (h.db, h.volume) 0 = h := rfl

variable {host : Host} {h h' : Hub} {c : Call}

/-- The reserve of a call. -/
abbrev asked (host : Host) (h : Hub) (u : User) (intent : UploadIntent) : HubWork Reservation :=
  reserve h.now host.free ⟨h.fresh, h.fresh + 1⟩ u intent.request host.config

/-- A reserve is granted, and adds its row, or refused, and reserves nothing. -/
theorem reserve_settled (host : Host) (h : Hub) (u : User) (intent : UploadIntent) (keep : Bool) :
    ∃ db, settle keep h (asked host h u intent) = (db, h.volume) ∧
      if ((asked host h u intent).exec h.db h.volume).1.isOk then
        Granted h.now (host.free h.volume) ⟨h.fresh, h.fresh + 1⟩ u intent.request host.config h.db db
      else OnlyModels h.db db := by
  rcases hx : (asked host h u intent).exec h.db h.volume with ⟨r, db, fs⟩
  cases r with
  | ok slot =>
    obtain ⟨rfl, -, hg⟩ := reserve_ok hx
    exact ⟨db, settle_ok hx, hg⟩
  | error e =>
    have hw : fs = h.volume := (congrArg (fun x => x.2.2) hx).symm.trans (reserve_world _ _)
    have hd : OnlyModels h.db db := by
      have := reserve_raises _ _ e (congrArg Prod.fst hx)
      rwa [hx] at this
    refine ⟨if keep then db else h.db, hw ▸ settle_error hx, ?_⟩
    show OnlyModels h.db _
    split
    · exact hd
    · exact .refl h.db

theorem reserve_outcome {user : Uuid} {intent : UploadIntent} {keep : Bool} {u : User}
    (hu : h.db.user? user = some u) :
    Outcome host h (.reserve user intent keep)
      (after h (settle keep h (asked host h u intent)) 2) := by
  obtain ⟨db, hset, hr⟩ := reserve_settled host h u intent keep
  rw [hset]
  split at hr
  · exact .granted hu hr
  · exact .quiet hr

theorem receive_outcome {user upload : Uuid} {body : Body} {keep : Bool}
    (hsize : ∀ v ∈ h.db.versions, 0 ≤ v.sizeBytes) (hid : ∀ e ∈ h.db.entries, e.id ≠ h.fresh) :
    Outcome host h (.receive user upload body keep)
      (after h (settle keep h (receive h.now h.fresh upload user body)) 1) := by
  obtain ⟨r, db, fs, hx, hr⟩ := receive_spec h.now upload user body h.volume hsize hid
  cases hr with
  | refused =>
    rw [settle_error hx, ite_self]
    exact .quiet (.refl h.db)
  | interrupted hslot hrw hb =>
    rw [settle_error hx, ite_self]
    exact .interrupted hslot hrw hb
  | abandoned hslot hmis hrw =>
    rw [settle_error hx]
    split
    · rename_i hkeep
      exact .abandoned hslot hmis hkeep hrw
    · exact .interrupted hslot hrw fun bs h => (by cases h)
  | stored hslot hlen hrw hp hst =>
    rw [settle_ok hx]
    exact .received hslot hlen hrw hp hst

theorem publish_outcome {user upload : Uuid} {keep : Bool} {v : ModelVersion}
    (hv : v ∈ h.db.versions) :
    Outcome host h (.publish user upload keep)
      (after h (settle keep h (publish h.now v host.config)) 0) := by
  have hx := publish_exec h.now host.config v h.db h.volume
  cases hc : checkUploaded v with
  | error e =>
    rw [hc] at hx
    rw [settle_error hx, ite_self]
    exact .quiet (.refl h.db)
  | ok _ =>
    cases hst : storePublished h.now host.config v.id h.db with
    | error e =>
      rw [hc, hst] at hx
      rw [settle_error hx, ite_self]
      exact .quiet (.refl h.db)
    | ok db =>
      rw [hc, hst] at hx
      obtain ⟨-, rfl⟩ := updateVersion_ok hst
      rw [settle_ok hx]
      exact .published hv (checkUploaded_ok.mp hc)

theorem outcome_of_step (hsize : ∀ v ∈ h.db.versions, 0 ≤ v.sizeBytes)
    (hid : ∀ e ∈ h.db.entries, e.id ≠ h.fresh) (hs : step host h c = some h') :
    Outcome host h c h' := by
  cases c with
  | tick d => cases hs; exact .tick
  | reserve user intent keep =>
    obtain ⟨u, hu, rfl⟩ := Option.map_eq_some_iff.mp hs
    exact reserve_outcome hu
  | receive user upload body keep => cases hs; exact receive_outcome hsize hid
  | publish user upload keep =>
    simp only [step] at hs
    split at hs
    · rename_i version hv
      cases hs
      exact publish_outcome (ownedVersion_ok hv).1
    · cases hs
      exact after_self h ▸ .quiet (.refl h.db)
  | sweep =>
    cases hs
    obtain ⟨n, fs, hx, hd⟩ := sweep_spec h.now h.db h.volume
    rw [settle_ok hx]
    exact .swept hd

/-! ## Every reservation holds what it asked for -/

/-- What every run of calls keeps: sizes are positive, every row has an expiry,
ids are used up in order, and a reservation's staged file is within its size. -/
structure Tidy (h : Hub) : Prop where
  sizes : ∀ v ∈ h.db.versions, 0 < v.sizeBytes
  expires : ∀ v ∈ h.db.versions, ∃ t, v.expiresAt = some t
  ids : ∀ v ∈ h.db.versions, v.id < h.fresh
  entries : ∀ e ∈ h.db.entries, e.id < h.fresh
  staged : ∀ u, h.fresh ≤ u → h.volume.read (.staging u) = none
  within : ∀ v ∈ h.db.versions, v.state = .reserved → h.volume.size (.staging v.id) ≤ v.sizeBytes

theorem Tidy.outcome (t : Tidy h) (hs : step host h c = some h') : Outcome host h c h' :=
  outcome_of_step (fun v hv => Int.le_of_lt (t.sizes v hv))
    (fun e he => Nat.ne_of_lt (t.entries e he)) hs

/-- A staged file rewritten within its reservation, no row changed but perhaps
deleted. -/
theorem Tidy.staging {v : ModelVersion} {o : Option Bytes} {fs : Volume} {db : Db} (t : Tidy h)
    (hv : v ∈ h.db.versions) (hrw : h.volume.Rewrites (.staging v.id) o fs)
    (hb : ∀ bs, o = some bs → (bs.length : Int) ≤ v.sizeBytes)
    (hrows : ∀ w ∈ db.versions, w ∈ h.db.versions) (hentries : db.entries = h.db.entries) :
    Tidy (after h (db, fs) 1) where
  sizes w hw := t.sizes w (hrows w hw)
  expires w hw := t.expires w (hrows w hw)
  ids w hw := Nat.lt_succ_of_lt (t.ids w (hrows w hw))
  entries e he := Nat.lt_succ_of_lt (t.entries e (hentries ▸ he))
  staged u hu := by
    have hlt : v.id < u := Nat.lt_of_lt_of_le (t.ids v hv) (Nat.le_of_succ_le hu)
    have hne : Path.staging u ≠ .staging v.id := by
      intro he; cases he; exact Nat.lt_irrefl _ hlt
    exact (hrw.other hne).trans (t.staged u (Nat.le_of_succ_le hu))
  within w hw hres := by
    by_cases hid : w.id = v.id
    · have hsize := t.sizes v hv
      rw [version_eq (hrows w hw) hv hid]
      cases o with
      | none => exact (Fs.size_eq_zero hrw.at).symm ▸ Int.le_of_lt hsize
      | some bs => exact (Fs.size_eq hrw.at).symm ▸ hb bs rfl
    · have hne : Path.staging w.id ≠ .staging v.id := fun he => hid (Path.staging.inj he)
      exact (hrw.size_other hne).symm ▸ t.within w (hrows w hw) hres

/-- Rows changed in place, the volume's staged files untouched or gone. -/
theorem Tidy.rows {db : Db} {fs : Volume} {ids : Nat} (t : Tidy h)
    (hrows : ∀ w ∈ db.versions, ∃ v ∈ h.db.versions, w.id = v.id ∧ w.sizeBytes = v.sizeBytes ∧
      w.expiresAt = v.expiresAt ∧ (w.state = .reserved → v.state = .reserved))
    (hentries : ∀ e ∈ db.entries, e.id < h.fresh + ids)
    (hstaged : ∀ u, fs.read (.staging u) = h.volume.read (.staging u) ∨
      fs.read (.staging u) = none) : Tidy (after h (db, fs) ids) where
  sizes w hw := by
    obtain ⟨v, hv, -, hsize, -⟩ := hrows w hw
    exact hsize ▸ t.sizes v hv
  expires w hw := by
    obtain ⟨v, hv, -, -, hexp, -⟩ := hrows w hw
    exact hexp ▸ t.expires v hv
  ids w hw := by
    obtain ⟨v, hv, hid, -⟩ := hrows w hw
    exact hid ▸ Nat.lt_add_right ids (t.ids v hv)
  entries := hentries
  staged u hu := by
    have hold := t.staged u (Nat.le_trans (Nat.le_add_right _ _) hu)
    rcases hstaged u with he | he
    · exact he.trans hold
    · exact he
  within w hw hres := by
    obtain ⟨v, hv, hid, hsize, -, hstate⟩ := hrows w hw
    have hwithin := t.within v hv (hstate hres)
    show fs.size (.staging w.id) ≤ w.sizeBytes
    rw [hid, hsize]
    rcases hstaged v.id with he | he
    · unfold Fs.size at hwithin ⊢; rw [he]; exact hwithin
    · rw [Fs.size_eq_zero he]; exact Int.le_of_lt (t.sizes v hv)

theorem tidy_step (t : Tidy h) (hs : step host h c = some h') : Tidy h' := by
  cases t.outcome hs with
  | tick => exact ⟨t.sizes, t.expires, t.ids, t.entries, t.staged, t.within⟩
  | granted hu hg =>
    rename_i user intent keep u db
    obtain ⟨modelId, ha⟩ := hg.added
    refine ⟨fun w hw => ?_, fun w hw => ?_, fun w hw => ?_, fun e he => ?_, fun u hu => ?_,
      fun w hw hres => ?_⟩
    · rcases ha.mem.mp hw with hw | hw
      · exact t.sizes w hw
      · rw [hw]; exact intent.positive
    · rcases ha.mem.mp hw with hw | hw
      · exact t.expires w hw
      · rw [hw]; exact ⟨_, rfl⟩
    · rcases ha.mem.mp hw with hw | hw
      · exact Nat.lt_add_right 2 (t.ids w hw)
      · rw [hw]; exact Nat.lt_succ_self _
    · exact Nat.lt_add_right 2 (t.entries e (ha.entries ▸ he))
    · exact t.staged u (Nat.le_trans (Nat.le_add_right _ _) hu)
    · rcases ha.mem.mp hw with hw | hw
      · exact t.within w hw hres
      · have hnone : h.volume.read (.staging (h.fresh + 1)) = none := t.staged _ (Nat.le_succ _)
        rw [hw]
        exact (Fs.size_eq_zero hnone).symm ▸ Int.le_of_lt intent.positive
  | quiet hm =>
    refine t.rows (fun w hw => ⟨w, hm.versions ▸ hw, rfl, rfl, rfl, id⟩) (fun e he => ?_)
      fun _ => .inl rfl
    exact Nat.lt_add_right _ (t.entries e (hm.entries ▸ he))
  | received hslot hlen hrw hp hst =>
    obtain ⟨hv, rfl, -⟩ := reservedSlot_ok hslot
    have hup := storedUpload hst
    refine t.rows (fun w hw => ?_) (fun e he => ?_) fun u => ?_
    · obtain ⟨b, hb, rfl⟩ := hup.mem_versions.mp hw
      refine ⟨b, hb, ?_⟩
      split
      · exact ⟨rfl, rfl, rfl, fun h => nomatch h⟩
      · exact ⟨rfl, rfl, rfl, id⟩
    · rcases hup.mem_entries.mp he with he | he
      · exact Nat.lt_succ_of_lt (t.entries e he)
      · rw [he]; exact Nat.lt_succ_self _
    · rw [hp.read_staging]
      split
      · exact .inr rfl
      · rename_i hne
        exact .inl (hrw.other fun he => hne (Path.staging.inj he))
  | interrupted hslot hrw hb =>
    obtain ⟨hv, rfl, -⟩ := reservedSlot_ok hslot
    exact t.staging hv hrw hb (fun _ h => h) rfl
  | abandoned hslot _ _ hrw =>
    obtain ⟨hv, rfl, -⟩ := reservedSlot_ok hslot
    exact t.staging hv hrw (fun bs h => by cases h) (fun _ h => (mem_deleteVersions.mp h).1) rfl
  | published hv hu =>
    refine t.rows (fun w hw => ?_) (fun e he => t.entries e he) fun _ => .inl rfl
    obtain ⟨b, hb, rfl⟩ := mem_setVersion.mp hw
    refine ⟨b, hb, ?_⟩
    split
    · exact ⟨movedOn_id, movedOn_sizeBytes, movedOn_expiresAt, fun h => absurd h movedOn_state_ne⟩
    · exact ⟨rfl, rfl, rfl, id⟩
  | swept hd =>
    refine t.rows (fun w hw => ⟨w, (mem_deleteVersions.mp hw).1, rfl, rfl, rfl, id⟩)
      (fun e he => t.entries e he) fun u => ?_
    rw [hd.2]
    split
    · exact .inr rfl
    · exact .inl rfl

theorem tidy_inductive (host : Host) : (lts host).Inductive Tidy where
  init _ h₀ := {
    sizes := fun v hv => absurd hv (h₀.1.versions v)
    expires := fun v hv => absurd hv (h₀.1.versions v)
    ids := fun v hv => absurd hv (h₀.1.versions v)
    entries := fun e he => absurd he (h₀.1.entries e)
    staged := fun u _ => h₀.1.staging u
    within := fun v hv => absurd hv (h₀.1.versions v) }
  step _ _ _ := tidy_step

/-! ## A volume of a given size -/

open SpikeHub.L5.Interleave (alice oneAccount intentFor length_pos)

/-- One account and an empty volume. -/
def start : Hub := ⟨0, .ofUsers oneAccount, .empty Path, 0⟩

theorem empty_start : Empty start where
  entries := Table.not_mem_empty
  versions := Table.not_mem_empty
  staging _ := rfl

/-- A reservation of `bs`, and its upload in one chunk. -/
def reserving (version : String) (bs : Bytes) (hbs : 0 < bs.length) : Call :=
  .reserve alice.id ⟨intentFor bs version, length_pos bs hbs⟩ false

def uploading (upload : Uuid) (bs : Bytes) : Call := .receive alice.id upload ⟨[bs], false⟩ false

theorem reachable_of_trace (host : Host) (C : Hub → Call → Prop) [∀ h c, Decidable (C h c)]
    (cs : List Call) (p : Hub → Bool)
    (hfloor : host.config.volumeFreeFloorBytes ≤ host.free start.volume)
    (hx : (LTS.exec (step host) C start cs).any p = true) :
    ∃ h, ((lts host).restrict C).Reachable h ∧ p h = true := by
  exact LTS.reachable_of_exec ⟨empty_start, hfloor⟩ hx

end SpikeHub.L5.Calls
