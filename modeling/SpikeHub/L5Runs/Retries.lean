import SpikeHub.L5Runs.Calls
import SpikeHub.L5Runs.Catalogue

/-!
# Transfers that are cut off and tried again

A live reservation, any number of content requests for it that the client cuts
off or that send more than was reserved, in any mixture and with any time
between them, and then one whose bytes are what was declared.

A failed attempt leaves at most something under the staging name of its upload
(`unharmed_run`): a part of what it sent when it was cut off, nothing when it
overflowed. The next attempt truncates that name when it opens it, so what it
comes to is what it would have come to alone (`interrupted_harmless`), whether
or not the object was stored before.
-/
namespace SpikeHub.L5.Retries

open SpikeHub.Core SpikeHub.L1 SpikeHub.L2 SpikeHub.L4.Uploads
open SpikeHub.L5.Calls
open SpikeHub.L5.Catalogue (abcIntent)
open SpikeHub.L5.Interleave (Hub alice)

/-- The client goes away after some chunk, or sends more than was reserved. -/
def CutOff (v : ModelVersion) (body : Body) : Prop := body.cut = true ∨ v.sizeBytes < body.bytes.length

/-- The whole body arrives, and is what was declared. -/
def Declared (v : ModelVersion) (body : Body) : Prop :=
  body.cut = false ∧ checkMeasured v (measure body.bytes) = .ok ()

/-- A reservation that awaits its bytes, of a positive size as the request's
schema asks, where the ids of the ledger's entries were drawn. -/
structure Live (h : Hub) (user upload : Uuid) (v : ModelVersion) : Prop where
  slot : reservedSlot h.db h.now upload user = .ok v
  size : 0 < v.sizeBytes
  ids : ∀ e ∈ h.db.entries, e.id < h.fresh

/-- An attempt at the upload that fails, or time passing. -/
def Interrupts (user upload : Uuid) (v : ModelVersion) : Call → Prop
  | .tick _ => True
  | .receive u i body _ => u = user ∧ i = upload ∧ CutOff v body
  | _ => False

/-- The version awaits its bytes, nothing was charged, and the artifacts and the
staged files of other uploads are what they were. -/
structure Unharmed (h h' : Hub) (upload : Uuid) (v : ModelVersion) : Prop where
  reserved : v ∈ h'.db.versions ∧ v.state = .reserved
  db : h'.db = h.db
  artifacts : ∀ key, h'.volume.read (.artifact key) = h.volume.read (.artifact key)
  staged : ∀ u, u ≠ upload → h'.volume.read (.staging u) = h.volume.read (.staging u)

/-- The entry, whatever its id and its time. -/
def undated (e : QuotaEntry) : QuotaEntry := { e with id := 0, createdAt := 0 }

/-- The same rows, but for the ids and the times of ledger entries, and the same files. -/
structure SameEnd (h h' : Hub) : Prop where
  rows : h'.db = h.db.withEntries h'.db.entries
  entries : h'.db.entries.rows.map undated = h.db.entries.rows.map undated
  files : ∀ p, h'.volume.read p = h.volume.read p

variable {host : Host} {h h' : Hub} {c : Call} {cs : List Call} {user upload : Uuid} {v : ModelVersion}
  {body : Body} {keep : Bool} {now now' : Time} {db db₁ db₂ : Db} {fs fs' : Volume}

/-! ## A failed attempt -/

theorem receive_interrupted (entryId : Uuid) (fs : Volume) (hslot : reservedSlot db now upload user = .ok v)
    (hsize : 0 ≤ v.sizeBytes) (hcut : CutOff v body) :
    ∃ e fs' o, (receive now entryId upload user body).exec db fs = (.error e, db, fs') ∧
      fs.Rewrites (.staging upload) o fs' := by
  obtain ⟨r, fs', o, hx, hrw, hbound, hall⟩ := stage_spec db fs upload body hsize
  cases r with
  | ok blob =>
    obtain ⟨ho, -, hwhole⟩ := hall blob rfl
    have hlen := hbound _ ho
    rcases hcut with hcut | hover
    · rw [hwhole] at hcut
      cases hcut
    · exact absurd hlen (Int.not_le.mpr hover)
  | error e =>
    refine ⟨e, fs', o, ?_, hrw⟩
    unfold receive
    rw [Work.exec_bind, Work.exec_check, hslot]
    exact Work.exec_bind_error hx

/-- The slot is found, or it expired and nothing is. -/
theorem slot_later (hslot : reservedSlot db now upload user = .ok v) (now' : Time) :
    reservedSlot db now' upload user = .ok v ∨ ∃ e, reservedSlot db now' upload user = .error e := by
  obtain ⟨hv, hid, -⟩ := reservedSlot_ok hslot
  cases hlater : reservedSlot db now' upload user with
  | error e => exact .inr ⟨e, rfl⟩
  | ok w =>
    obtain ⟨hw, hid', -⟩ := reservedSlot_ok hlater
    exact .inl (congrArg Except.ok (version_eq hw hv (hid'.trans hid.symm)))

theorem slot_unexpired (hslot : reservedSlot db now upload user = .ok v) (now' : Time)
    (hlive : ∀ t, v.expiresAt = some t → now' < t) : reservedSlot db now' upload user = .ok v := by
  obtain ⟨hv, hid, howned, hstate, -⟩ := reservedSlot_ok hslot
  exact reservedSlot_eq hv hid howned hstate hlive

/-- The rows stay, and all names but the upload's staged file read what they read. -/
structure Stays (h h' : Hub) (upload : Uuid) : Prop where
  db : h'.db = h.db
  fresh : h.fresh ≤ h'.fresh
  files : ∀ p, p ≠ .staging upload → h'.volume.read p = h.volume.read p

theorem Stays.refl (h : Hub) (upload : Uuid) : Stays h h upload := ⟨rfl, Nat.le_refl _, fun _ _ => rfl⟩

theorem Stays.trans {h'' : Hub} (h₁ : Stays h h' upload) (h₂ : Stays h' h'' upload) : Stays h h'' upload where
  db := h₂.db.trans h₁.db
  fresh := Nat.le_trans h₁.fresh h₂.fresh
  files p hp := (h₂.files p hp).trans (h₁.files p hp)

theorem stays_step (hslot : reservedSlot h.db now upload user = .ok v) (hsize : 0 ≤ v.sizeBytes)
    (hc : Interrupts user upload v c) (hs : step host h c = some h') : Stays h h' upload := by
  cases c with
  | tick =>
    cases hs
    exact ⟨rfl, Nat.le_refl _, fun _ _ => rfl⟩
  | receive u i body keep =>
    obtain ⟨rfl, rfl, hcut⟩ := hc
    cases hs
    rcases slot_later hslot h.now with hlive | ⟨e, hexpired⟩
    · obtain ⟨e, fs', o, hx, hrw⟩ := receive_interrupted h.fresh h.volume hlive hsize hcut
      rw [settle_error hx, ite_self]
      exact ⟨rfl, Nat.le_succ _, fun p hp => hrw.other hp⟩
    · have hx : (receive h.now h.fresh i u body).exec h.db h.volume = (.error e, h.db, h.volume) := by
        unfold receive
        rw [Work.exec_bind, Work.exec_check, hexpired]
      rw [settle_error hx, ite_self]
      exact ⟨rfl, Nat.le_succ _, fun _ _ => rfl⟩
  | reserve => exact absurd hc id
  | publish => exact absurd hc id
  | sweep => exact absurd hc id

theorem stays_run (hslot : reservedSlot h.db now upload user = .ok v) (hsize : 0 ≤ v.sizeBytes)
    (hr : (lts host).Run h cs h') (hcs : ∀ c ∈ cs, Interrupts user upload v c) : Stays h h' upload := by
  refine (hr.labels hcs).keeps (P := fun s => Stays h s upload) ?_ (.refl h upload)
  intro s c s' hstays ⟨hc, hs⟩
  have hslot' : reservedSlot s.db now upload user = .ok v := by
    rw [hstays.db]
    exact hslot
  exact hstays.trans (stays_step hslot' hsize hc hs)

theorem unharmed_run (hlive : Live h user upload v) (hr : (lts host).Run h cs h')
    (hcs : ∀ c ∈ cs, Interrupts user upload v c) : Unharmed h h' upload v := by
  have hstays := stays_run hlive.slot (Int.le_of_lt hlive.size) hr hcs
  obtain ⟨hv, -, -, hstate, -⟩ := reservedSlot_ok hlive.slot
  refine ⟨⟨?_, hstate⟩, hstays.db, fun key => hstays.files _ (by simp), fun u hu => hstays.files _ ?_⟩
  · rw [hstays.db]
    exact hv
  · exact fun he => hu (Path.staging.inj he)

/-! ## The attempt after them -/

/-- What an upload stores, whenever and under whatever id. -/
theorem stored_alike {e₁ e₂ : Uuid} {key : String} {blob : StoredBlob}
    (h₁ : storeUploaded now e₁ user v key blob db = .ok db₁)
    (h₂ : storeUploaded now' e₂ user v key blob db = .ok db₂) :
    db₂ = db₁.withEntries db₂.entries ∧
      db₂.entries.rows.map undated = db₁.entries.rows.map undated := by
  obtain ⟨-, hnew₁, rfl⟩ := storeUploaded_ok h₁
  obtain ⟨-, hnew₂, rfl⟩ := storeUploaded_ok h₂
  refine ⟨rfl, ?_⟩
  show (db.entries.rows ++ [_]).map undated = (db.entries.rows ++ [_]).map undated
  rw [List.map_append, List.map_append]
  rfl

/-- **Interrupted transfers are harmless.** -/
theorem interrupted_harmless (host : Host) {h h' : Hub} {user upload : Uuid} {v : ModelVersion}
    {cs : List Call} (hlive : Live h user upload v) (hr : (lts host).Run h cs h')
    (hcs : ∀ c ∈ cs, Interrupts user upload v c) :
    Unharmed h h' upload v ∧
      ∀ (body : Body) (keep keep' : Bool) (now : Time) (fresh : Uuid), Declared v body →
        (∀ t, v.expiresAt = some t → h'.now < t ∧ now < t) → h.fresh ≤ fresh →
        ∃ done alone, step host h' (.receive user upload body keep) = some done ∧
          step host { h with now := now, fresh := fresh } (.receive user upload body keep') = some alone ∧
          SameEnd alone done ∧ ∃ key, uploadedAs key v ∈ done.db.versions := by
  have hstays := stays_run hlive.slot (Int.le_of_lt hlive.size) hr hcs
  refine ⟨unharmed_run hlive hr hcs, fun body keep keep' now fresh hbody hunexpired hfresh => ?_⟩
  obtain ⟨hcut, hmeasured⟩ := hbody
  have hslot := slot_unexpired hlive.slot h'.now fun t ht => (hunexpired t ht).1
  have hslot' := slot_unexpired hlive.slot now fun t ht => (hunexpired t ht).2
  have hids : ∀ e ∈ h.db.entries, e.id ≠ h'.fresh := fun e he =>
    Nat.ne_of_lt (Nat.lt_of_lt_of_le (hlive.ids e he) hstays.fresh)
  have hids' : ∀ e ∈ h.db.entries, e.id ≠ fresh := fun e he =>
    Nat.ne_of_lt (Nat.lt_of_lt_of_le (hlive.ids e he) hfresh)
  obtain ⟨key, db₁, fs₁, hkey, hx₁, hstore₁, hreads₁⟩ :=
    receive_taken h'.volume hslot hcut hmeasured hids
  obtain ⟨key', db₂, fs₂, hkey', hx₂, hstore₂, hreads₂⟩ :=
    receive_taken h.volume hslot' hcut hmeasured hids'
  rw [hkey] at hkey'
  cases hkey'
  rw [← hstays.db] at hx₁
  refine ⟨_, _, rfl, rfl, ?_, key, ?_⟩
  · rw [settle_ok hx₁, settle_ok (h := ⟨now, h.db, h.volume, fresh⟩) hx₂]
    obtain ⟨hrows, hentries⟩ := stored_alike hstore₂ hstore₁
    refine ⟨hrows, hentries, fun p => ?_⟩
    show fs₁.read p = fs₂.read p
    rw [hreads₁, hreads₂]
    by_cases hstaging : p = .staging upload
    · subst hstaging
      rw [if_neg (by simp), if_pos rfl, if_neg (by simp), if_pos rfl]
    · rw [hstays.files p hstaging]
  · rw [settle_ok hx₁]
    obtain ⟨hv, -⟩ := reservedSlot_ok hlive.slot
    obtain ⟨-, hnew, rfl⟩ := storeUploaded_ok hstore₁
    show uploadedAs key v ∈ (setVersion h.db v.id (uploadedAs key) (uploadedAs_keys key)).versions
    exact mem_setVersion.mpr ⟨v, hv, if_pos rfl⟩

/-- Every reservation of a run of calls whose slot is found is live. -/
theorem live_of_reachable (hr : (lts host).Reachable h) (hslot : reservedSlot h.db h.now upload user = .ok v) :
    Live h user upload v := by
  have htidy := (tidy_inductive host).reachable h hr
  exact ⟨hslot, htidy.sizes v (reservedSlot_ok hslot).1, htidy.entries⟩

/-! ## A transfer cut off, one too large, and the bytes -/

def terabyte : Host := ⟨{}, 1024 * GIB⟩

/-- Alice has reserved `mnist` 1.0 for the bytes `abc`, and is given the upload 1. -/
def reserved : Hub := after start (settle false start (asked terabyte start alice abcIntent)) 2

def slot : ModelVersion := newVersion 0 1 0 abcIntent.request terabyte.config

def half : Body := ⟨[[97]], true⟩

def four : Body := ⟨[[97, 98], [99, 100]], false⟩

def whole : Body := ⟨[[97], [98, 99]], false⟩

def cutOff : Hub := after reserved (settle false reserved (receive reserved.now reserved.fresh 1 alice.id half)) 1

def aSecondLater : Hub := { cutOff with now := cutOff.now + 1000000 }

def overflowed : Hub :=
  after aSecondLater (settle false aSecondLater (receive aSecondLater.now aSecondLater.fresh 1 alice.id four)) 1

theorem live_reserved : Live reserved alice.id 1 slot where
  slot := by decide +kernel
  size := by decide
  ids := by
    have hnone : reserved.db.entries.rows = [] := by decide +kernel
    intro e he
    rw [← Table.mem_rows, hnone] at he
    cases he

theorem run_overflowed : (lts terabyte).Run reserved
    [.receive alice.id 1 half false, .tick 1000000, .receive alice.id 1 four false] overflowed :=
  .cons rfl (.cons rfl (.cons rfl (.nil _)))

theorem declared_whole : Declared slot whole := ⟨rfl, by decide +kernel⟩

theorem harmless_overflowed : Unharmed reserved overflowed 1 slot ∧
    ∃ done alone, step terabyte overflowed (.receive alice.id 1 whole false) = some done ∧
      step terabyte { reserved with now := 5, fresh := 50 } (.receive alice.id 1 whole true) = some alone ∧
      SameEnd alone done ∧ ∃ key, uploadedAs key slot ∈ done.db.versions := by
  have hcs : ∀ c ∈ [Call.receive alice.id 1 half false, .tick 1000000, .receive alice.id 1 four false],
      Interrupts alice.id 1 slot c := by
    intro c hc
    rcases List.mem_cons.mp hc with rfl | hc
    · exact ⟨rfl, rfl, .inl rfl⟩
    rcases List.mem_pair.mp hc with rfl | rfl
    · trivial
    · exact ⟨rfl, rfl, .inr (by decide)⟩
  obtain ⟨hunharmed, hsame⟩ := interrupted_harmless terabyte live_reserved run_overflowed hcs
  have hexpires : slot.expiresAt = some 900000000 := by decide
  refine ⟨hunharmed, hsame whole false true 5 50 declared_whole (fun t ht => ?_) (by decide)⟩
  rw [hexpires, Option.some.injEq] at ht
  rw [← ht]
  exact ⟨by decide, by decide⟩

end SpikeHub.L5.Retries
