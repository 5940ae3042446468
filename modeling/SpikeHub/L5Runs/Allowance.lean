import SpikeHub.L4Uploads.Ledger
import SpikeHub.L5Runs.Calls

/-!
# Where an allowance goes

With calls run one at a time, what each does to the position of every account
(`position`) at the time it runs: a reserve that is granted holds its bytes, a
transfer that is taken moves the same bytes from held to used, and nothing
else takes from what is available (`conserved`).

A reservation holds its bytes until it expires. With a lifetime that is not
positive it is expired from the start and holds nothing (`not_exact`), so what
a grant takes is stated with that lifetime.
-/
namespace SpikeHub.L5.Allowance

open SpikeHub.Core SpikeHub.L1 SpikeHub.L2 SpikeHub.L3 SpikeHub.L4.Uploads SpikeHub.L5.Calls
open SpikeHub.L5.Interleave (Hub alice intentFor length_pos)

/-- The account's position now. -/
def position (h : Hub) (a : User) : Usage := usageFor h.db h.now a.id a.storageLimit

/-- The account a call is made for. -/
def account : Call → Option Uuid
  | .reserve user .. | .receive user .. | .publish user .. => some user
  | .tick _ | .sweep => none

/-- How the reserve ends. -/
def reserves (host : Host) (h : Hub) (u : User) (intent : UploadIntent) : Except Raised Reservation :=
  ((asked host h u intent).exec h.db h.volume).1

/-- How the transfer ends. -/
def receives (h : Hub) (user upload : Uuid) (body : Body) : Except Raised ModelVersion :=
  ((receive h.now h.fresh upload user body).exec h.db h.volume).1

/-- The bytes a new reservation holds when it is made. -/
def held (config : Settings) (n : Int) : Int := if 0 < config.reservationTtlSeconds then n else 0

/-- What a call does to the positions of the accounts. -/
def Moved (host : Host) (h h' : Hub) : Call → Prop
  | .tick _ => ∀ a, (position h a).availableBytes ≤ (position h' a).availableBytes
  | .reserve user intent _ => ∀ u, h.db.user? user = some u →
    match reserves host h u intent with
    | .ok _ => (position h' u).availableBytes =
        (position h u).availableBytes - held host.config intent.request.sizeBytes
    | .error _ => ∀ a, position h' a = position h a
  | .receive user upload body _ =>
    match receives h user upload body with
    | .ok v => ∀ a, a.id = user →
        (position h' a).usedBytes = (position h a).usedBytes + v.sizeBytes ∧
        (position h' a).reservedBytes = (position h a).reservedBytes - v.sizeBytes ∧
        (position h' a).availableBytes = (position h a).availableBytes
    | .error _ => ∀ a, (position h a).availableBytes ≤ (position h' a).availableBytes
  | .publish .. | .sweep => ∀ a, position h' a = position h a

/-- The call is a reserve for the account, and is granted. -/
def GrantedTo (host : Host) (h : Hub) (c : Call) (a : User) : Prop :=
  ∃ intent keep u slot, c = .reserve a.id intent keep ∧ h.db.user? a.id = some u ∧
    reserves host h u intent = .ok slot

structure Conserved (host : Host) (h : Hub) (c : Call) (h' : Hub) : Prop where
  moved : Moved host h h' c
  others : (∀ d, c ≠ .tick d) → ∀ a, account c ≠ some a.id → position h' a = position h a
  falls : ∀ a, (position h' a).availableBytes < (position h a).availableBytes → GrantedTo host h c a

variable {host : Host} {h h' : Hub} {c : Call} {db : Db} {fs : Volume} {ids : Nat} {a u : User}
  {v : ModelVersion} {user : Uuid}

/-! ## What each effect does -/

theorem position_after (hused : storedBytes db a.id = storedBytes h.db a.id)
    (hheld : pendingBytes db h.now a.id = pendingBytes h.db h.now a.id) :
    position (after h (db, fs) ids) a = position h a := by
  unfold position usageFor
  rw [after_db, after_now, hused, hheld]

theorem later_iff (now : Time) (n : Int) : now < now + seconds n ↔ 0 < n := by
  have hscale : 0 < n * 1000000 ↔ 0 < n := by omega
  exact (lt_add_iff_pos_right now).trans hscale

theorem live_newVersion {now : Time} {id modelId : Uuid} {request : UploadRequest} {config : Settings} :
    live now (newVersion now id modelId request config) = true ↔ 0 < config.reservationTtlSeconds := by
  rw [live_iff, ← later_iff now]
  constructor
  · intro hl
    obtain ⟨-, t, ht, hlt⟩ := hl
    cases ht
    exact hlt
  · exact fun hlt => ⟨rfl, _, rfl, hlt⟩

theorem granted_pending {n : Int} {newIds : NewIds} {request : UploadRequest} {config : Settings}
    (hg : Granted h.now n newIds u request config h.db db) :
    pendingBytes db h.now a.id = pendingBytes h.db h.now a.id +
      if a.id = u.id then held config request.sizeBytes else 0 := by
  obtain ⟨modelId, hadd⟩ := hg.added
  rw [pendingBytes_eq, pendingBytes_eq, hadd.ownedSum, ite_and]
  simp only [live_newVersion]
  rfl

theorem granted_stored {n : Int} {newIds : NewIds} {request : UploadRequest} {config : Settings}
    (hg : Granted h.now n newIds u request config h.db db) :
    storedBytes db a.id = storedBytes h.db a.id := by
  obtain ⟨modelId, hadd⟩ := hg.added
  exact hadd.storedBytes

theorem only_position (hm : OnlyModels h.db db) : position (after h (db, fs) ids) a = position h a :=
  position_after hm.storedBytes hm.ownedSum

/-- The slot of a transfer is live while it is being checked. -/
theorem live_slot {upload : Uuid} (t : Tidy h) (hslot : reservedSlot h.db h.now upload user = .ok v) :
    v ∈ h.db.versions ∧ h.db.ownedBy user v = true ∧ live h.now v = true := by
  obtain ⟨hv, -, howned, hstate, hexp⟩ := reservedSlot_ok hslot
  obtain ⟨x, hx⟩ := t.expires v hv
  exact ⟨hv, howned, live_iff.mpr ⟨hstate, x, hx, hexp x hx⟩⟩

theorem stored_position {upload entryId : Uuid} {key : String} {blob : StoredBlob} (t : Tidy h)
    (hslot : reservedSlot h.db h.now upload user = .ok v) (hsize : (blob.sizeBytes : Int) = v.sizeBytes)
    (hst : storeUploaded h.now entryId user v key blob h.db = .ok db) :
    storedBytes db a.id = storedBytes h.db a.id + (if a.id = user then v.sizeBytes else 0) ∧
      pendingBytes db h.now a.id = pendingBytes h.db h.now a.id -
        if a.id = user then v.sizeBytes else 0 := by
  obtain ⟨hv, howned, hlive⟩ := live_slot t hslot
  have hup := storedUpload hst
  have hdone : live h.now (uploadedAs key v) = false := not_live_of_state (by simp)
  constructor
  · rw [hup.storedBytes, hsize]
  · rw [pendingBytes_eq, pendingBytes_eq, hup.ownedSum hv rfl, hlive, hdone]
    by_cases hu : a.id = user
    · rw [hu, howned]
      simp
    · have hno : h.db.ownedBy a.id v = false :=
        Bool.eq_false_iff.mpr fun ho => hu (owner_unique ho howned)
      simp [hu, hno]

/-- A slot that is given up is not held any more. -/
theorem abandoned_position {upload : Uuid} (t : Tidy h)
    (hslot : reservedSlot h.db h.now upload user = .ok v) :
    pendingBytes (deleteVersions [v.id] h.db) h.now a.id = pendingBytes h.db h.now a.id -
      if a.id = user then v.sizeBytes else 0 := by
  obtain ⟨hv, howned, hlive⟩ := live_slot t hslot
  show (h.db.versions.delete _).sum (fun w => h.db.ownedBy a.id w && live h.now w) _ = _
  rw [Table.sum_delete_one hv fun w hw => ?_, hlive]
  · by_cases hu : a.id = user
    · rw [hu, howned]
      simp [pendingBytes]
    · have hno : h.db.ownedBy a.id v = false :=
        Bool.eq_false_iff.mpr fun ho => hu (owner_unique ho howned)
      simp [hu, hno, pendingBytes]
  · simp only [List.mem_singleton, decide_eq_true_eq]
    exact ⟨fun hid => version_eq hw hv hid, fun he => he ▸ rfl⟩

theorem moved_position (hv : v ∈ h.db.versions) (hstate : v.state = .uploaded) :
    position (after h (setVersion h.db v.id (movedOn h.now host.config)
      (movedOn_keys h.now host.config), fs) ids) a = position h a := by
  refine position_after rfl (ownedSum_setVersion_of_eq hv ?_ movedOn_sizeBytes)
  rw [not_live_of_state movedOn_state_ne, not_live_of_state (by rw [hstate]; decide)]

theorem swept_position :
    position (after h (deleteVersions ((expired h.db h.now).map ModelVersion.id) h.db, fs) ids) a =
      position h a := by
  refine position_after rfl (ownedSum_delete_of_not fun v hv hid => ?_)
  obtain ⟨w, hw, he⟩ := List.mem_map.mp hid
  obtain ⟨hwmem, -, t, ht, hle⟩ := mem_expired.mp hw
  rw [version_eq hwmem hv he] at ht
  refine Bool.eq_false_iff.mpr fun hl => ?_
  obtain ⟨-, x, hx, hlt⟩ := live_iff.mp hl
  rw [ht] at hx
  cases hx
  exact absurd hle (Int.not_le.mpr hlt)

/-! ## Call by call -/

theorem granted_available {n : Int} {newIds : NewIds} {intent : UploadIntent}
    (hg : Granted h.now n newIds u intent.request host.config h.db db) :
    (position (after h (db, fs) ids) u).availableBytes =
      (position h u).availableBytes - held host.config intent.request.sizeBytes := by
  have hfits := (canFit_iff intent.positive).mp hg.allowance
  have hpos := intent.positive
  unfold position usageFor Usage.availableBytes
  rw [after_db, after_now, granted_stored hg, granted_pending hg, if_pos rfl]
  dsimp only [usageFor] at hfits ⊢
  unfold held
  split <;> omega

/-- How a transfer ends, and what it leaves of the database. -/
theorem receive_settled (t : Tidy h) (user upload : Uuid) (body : Body) (keep : Bool) :
    ∃ db fs, settle keep h (receive h.now h.fresh upload user body) = (db, fs) ∧
      ((∃ v key blob, receives h user upload body = .ok (uploadedAs key v) ∧
          reservedSlot h.db h.now upload user = .ok v ∧ (blob.sizeBytes : Int) = v.sizeBytes ∧
          storeUploaded h.now h.fresh user v key blob h.db = .ok db) ∨
        ∃ e, receives h user upload body = .error e ∧
          (db = h.db ∨ ∃ v, reservedSlot h.db h.now upload user = .ok v ∧
            db = deleteVersions [v.id] h.db)) := by
  obtain ⟨r, db, fs, hx, hr⟩ := receive_spec h.now upload user body h.volume
    (fun v hv => Int.le_of_lt (t.sizes v hv)) fun e he => Nat.ne_of_lt (t.entries e he)
  unfold receives
  rw [hx]
  cases hr with
  | refused => exact ⟨h.db, h.volume, by rw [settle_error hx, ite_self], .inr ⟨_, rfl, .inl rfl⟩⟩
  | interrupted => exact ⟨h.db, fs, by rw [settle_error hx, ite_self], .inr ⟨_, rfl, .inl rfl⟩⟩
  | abandoned hslot =>
    refine ⟨_, fs, settle_error hx, .inr ⟨_, rfl, ?_⟩⟩
    split
    · exact .inr ⟨_, hslot, rfl⟩
    · exact .inl rfl
  | stored hslot hlen _ _ hst => exact ⟨db, fs, settle_ok hx, .inl ⟨_, _, _, rfl, hslot, hlen, hst⟩⟩

theorem publish_position {upload : Uuid} {keep : Bool} (t : Tidy h)
    (hs : step host h (.publish user upload keep) = some h') : position h' a = position h a := by
  cases t.outcome hs with
  | quiet hm => exact only_position hm
  | published hv hstate => exact moved_position hv hstate

theorem sweep_position (t : Tidy h) (hs : step host h .sweep = some h') :
    position h' a = position h a := by
  cases t.outcome hs with
  | quiet hm => exact only_position hm
  | swept => exact swept_position

/-- A call by which nothing falls. -/
theorem conserved_of (hmoved : Moved host h h' c)
    (hothers : (∀ d, c ≠ .tick d) → ∀ a, account c ≠ some a.id → position h' a = position h a)
    (hkept : ∀ a, (position h a).availableBytes ≤ (position h' a).availableBytes) :
    Conserved host h c h' :=
  ⟨hmoved, hothers, fun a hlt => absurd (hkept a) (Int.not_le.mpr hlt)⟩

/-- A call that moves nothing. -/
theorem conserved_same (hmoved : Moved host h h' c) (hsame : ∀ a, position h' a = position h a) :
    Conserved host h c h' :=
  conserved_of hmoved (fun _ a _ => hsame a) fun a => by rw [hsame a]

theorem conserved_granted {intent : UploadIntent} {keep : Bool} {slot : Reservation}
    (hu : h.db.user? user = some u) (hok : reserves host h u intent = .ok slot)
    (hg : Granted h.now (host.free h.volume) ⟨h.fresh, h.fresh + 1⟩ u intent.request host.config h.db db) :
    Conserved host h (.reserve user intent keep) (after h (db, fs) ids) := by
  have hid : u.id = user := (user?_eq_some.mp hu).2
  have hothers : ∀ a, a.id ≠ user → position (after h (db, fs) ids) a = position h a := by
    intro a hne
    refine position_after (granted_stored hg) ?_
    rw [granted_pending hg, if_neg (hid ▸ hne), Int.add_zero]
  refine ⟨fun u' hu' => ?_, fun _ a hacc => hothers a fun he => hacc (congrArg some he.symm),
    fun a hlt => ?_⟩
  · obtain rfl := Option.some.inj (hu.symm.trans hu')
    rw [hok]
    exact granted_available hg
  · by_cases he : a.id = user
    · exact ⟨intent, keep, u, slot, by rw [he], by rw [he]; exact hu, hok⟩
    · rw [hothers a he] at hlt
      exact absurd hlt (Int.lt_irrefl _)

theorem conserved_received {upload : Uuid} {body : Body} {keep : Bool} {key : String} {blob : StoredBlob}
    (t : Tidy h) (hok : receives h user upload body = .ok (uploadedAs key v))
    (hslot : reservedSlot h.db h.now upload user = .ok v) (hsize : (blob.sizeBytes : Int) = v.sizeBytes)
    (hst : storeUploaded h.now h.fresh user v key blob h.db = .ok db) :
    Conserved host h (.receive user upload body keep) (after h (db, fs) ids) := by
  have hothers : ∀ a, a.id ≠ user → position (after h (db, fs) ids) a = position h a := by
    intro a hne
    obtain ⟨hused, hheld⟩ := stored_position (a := a) t hslot hsize hst
    rw [if_neg hne, Int.add_zero] at hused
    rw [if_neg hne, Int.sub_zero] at hheld
    exact position_after hused hheld
  have hown : ∀ a, a.id = user →
      (position (after h (db, fs) ids) a).usedBytes = (position h a).usedBytes + v.sizeBytes ∧
      (position (after h (db, fs) ids) a).reservedBytes = (position h a).reservedBytes - v.sizeBytes ∧
      (position (after h (db, fs) ids) a).availableBytes = (position h a).availableBytes := by
    intro a he
    obtain ⟨hused, hheld⟩ := stored_position (a := a) t hslot hsize hst
    rw [if_pos he] at hused hheld
    refine ⟨hused, hheld, ?_⟩
    unfold position usageFor Usage.availableBytes
    rw [after_db, after_now, hused, hheld]
    dsimp only
    omega
  refine conserved_of ?_ (fun _ a hacc => hothers a fun he => hacc (congrArg some he.symm)) fun a => ?_
  · dsimp only [Moved]
    rw [hok]
    exact hown
  · by_cases he : a.id = user
    · rw [(hown a he).2.2]
    · rw [hothers a he]

theorem conserved_abandoned {upload : Uuid} {body : Body} {keep : Bool} {e : Raised} (t : Tidy h)
    (herr : receives h user upload body = .error e)
    (hslot : reservedSlot h.db h.now upload user = .ok v) :
    Conserved host h (.receive user upload body keep) (after h (deleteVersions [v.id] h.db, fs) ids) := by
  have hothers : ∀ a, a.id ≠ user →
      position (after h (deleteVersions [v.id] h.db, fs) ids) a = position h a := by
    intro a hne
    refine position_after rfl ?_
    rw [abandoned_position t hslot, if_neg hne, Int.sub_zero]
  have hgrows : ∀ a, (position h a).availableBytes ≤
      (position (after h (deleteVersions [v.id] h.db, fs) ids) a).availableBytes := by
    intro a
    refine availableBytes_anti rfl (Int.le_refl _) ?_
    have hsize := t.sizes v (live_slot t hslot).1
    show pendingBytes (deleteVersions [v.id] h.db) h.now a.id ≤ pendingBytes h.db h.now a.id
    rw [abandoned_position t hslot]
    split <;> omega
  refine conserved_of ?_ (fun _ a hacc => hothers a fun he => hacc (congrArg some he.symm)) hgrows
  dsimp only [Moved]
  rw [herr]
  exact hgrows

theorem conserved_tick (t : Tidy h) (d : Nat) : Conserved host h (.tick d) { h with now := h.now + d } := by
  have hgrows : ∀ a, (position h a).availableBytes ≤
      (position { h with now := h.now + d } a).availableBytes := fun a =>
    availableBytes_anti rfl (Int.le_refl _) (pendingBytes_tick d a.id t.sizes)
  exact conserved_of hgrows (fun hno => absurd rfl (hno d)) hgrows

theorem conserved_reserve {intent : UploadIntent} {keep : Bool} (hu : h.db.user? user = some u) :
    Conserved host h (.reserve user intent keep) (after h (settle keep h (asked host h u intent)) 2) := by
  obtain ⟨db, hset, hr⟩ := reserve_settled host h u intent keep
  rw [hset]
  cases hres : reserves host h u intent with
  | ok slot =>
    unfold reserves at hres
    rw [hres] at hr
    exact conserved_granted hu hres hr
  | error e =>
    have hm : OnlyModels h.db db := by
      unfold reserves at hres
      rwa [hres] at hr
    refine conserved_same (fun u' hu' => ?_) fun a => only_position hm
    obtain rfl := Option.some.inj (hu.symm.trans hu')
    rw [hres]
    exact fun a => only_position hm

theorem conserved_receive {upload : Uuid} {body : Body} {keep : Bool} (t : Tidy h) :
    Conserved host h (.receive user upload body keep)
      (after h (settle keep h (receive h.now h.fresh upload user body)) 1) := by
  obtain ⟨db, fs, hset, hends⟩ := receive_settled t user upload body keep
  rw [hset]
  rcases hends with ⟨v, key, blob, hok, hslot, hsize, hst⟩ | ⟨e, herr, rfl | ⟨v, hslot, rfl⟩⟩
  · exact conserved_received t hok hslot hsize hst
  · have hsame : ∀ a, position (after h (h.db, fs) 1) a = position h a := fun a => position_after rfl rfl
    refine conserved_same ?_ hsame
    dsimp only [Moved]
    rw [herr]
    exact fun a => by rw [hsame a]
  · exact conserved_abandoned t herr hslot

/-- Every call, in a state whose rows are in order. -/
theorem conserved_step (t : Tidy h) (hs : step host h c = some h') : Conserved host h c h' := by
  cases c with
  | tick d =>
    cases hs
    exact conserved_tick t d
  | reserve user intent keep =>
    obtain ⟨u, hu, rfl⟩ := Option.map_eq_some_iff.mp hs
    exact conserved_reserve hu
  | receive user upload body keep =>
    cases hs
    exact conserved_receive t
  | publish user upload keep =>
    have hsame : ∀ a, position h' a = position h a := fun a => publish_position t hs
    exact conserved_same hsame hsame
  | sweep =>
    have hsame : ∀ a, position h' a = position h a := fun a => sweep_position t hs
    exact conserved_same hsame hsame

/-- **Conservation of the allowance**, for every call in every reachable state. -/
theorem conserved (host : Host) (h h' : Hub) (c : Call) (hr : (lts host).Reachable h)
    (hs : step host h c = some h') : Conserved host h c h' :=
  conserved_step ((tidy_inductive host).reachable h hr) hs

/-! ## Traces -/

theorem abc_positive : 0 < (intentFor [97, 98, 99] "1.0").sizeBytes := length_pos _ (by decide)

def abcIntent : UploadIntent := ⟨intentFor [97, 98, 99] "1.0", abc_positive⟩

def abc : Call := .reserve alice.id abcIntent false

/-- A disk with room to spare. -/
def roomy (config : Settings) : Host := ⟨config, 1024 * GIB⟩

theorem start_reachable (config : Settings) (hfloor : config.volumeFreeFloorBytes ≤ 1024 * GIB) :
    (lts (roomy config)).Reachable start :=
  ⟨start, [], ⟨empty_start, hfloor⟩, .nil start⟩

theorem conserved_abc : ∃ h', step (roomy {}) start abc = some h' ∧
    Conserved (roomy {}) start abc h' := by
  have hgoes : (step (roomy {}) start abc).isSome = true := by decide +kernel
  obtain ⟨h', hs⟩ := Option.isSome_iff_exists.mp hgoes
  exact ⟨h', hs, conserved (roomy {}) start h' abc (start_reachable {} (by decide)) hs⟩

/-- Reservations that expire as they are made. -/
def shortLived : Host := roomy { reservationTtlSeconds := 0 }

/-- A granted reserve that takes nothing from what is available. -/
theorem not_exact : ¬ ∀ (host : Host) (h h' : Hub) (user : Uuid) (intent : UploadIntent) (keep : Bool)
    (u : User) (slot : Reservation), (lts host).Reachable h →
      step host h (.reserve user intent keep) = some h' → h.db.user? user = some u →
      reserves host h u intent = .ok slot →
      (position h' u).availableBytes = (position h u).availableBytes - intent.request.sizeBytes := by
  intro hexact
  have hgranted : (reserves shortLived start alice abcIntent).isOk = true := by decide +kernel
  have hgoes : (step shortLived start abc).any (fun h' =>
      (position h' alice).availableBytes = (position start alice).availableBytes) = true := by
    decide +kernel
  obtain ⟨h', hs, hsame⟩ := (Option.any_eq_true _ _).mp hgoes
  rw [decide_eq_true_eq] at hsame
  cases hres : reserves shortLived start alice abcIntent with
  | error e => rw [hres] at hgranted; cases hgranted
  | ok slot =>
    have hreach : (lts shortLived).Reachable start := start_reachable _ (by decide)
    have htaken := hexact shortLived start h' alice.id abcIntent false alice slot hreach hs (by decide) hres
    have hbytes : abcIntent.request.sizeBytes = 3 := rfl
    rw [hsame, hbytes] at htaken
    omega

end SpikeHub.L5.Allowance
