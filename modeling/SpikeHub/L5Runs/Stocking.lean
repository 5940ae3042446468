import SpikeHub.L4Uploads.Admission
import SpikeHub.L5Runs.Service

/-!
# Any number of versions

The three requests of an upload go through when nothing speaks against them:
a reservation that passes every gate, a transfer of what was declared, and the
commit of what was received. A run made of such uploads publishes one version
of a model after the other (`stocked`), so a reachable state can have as many
as the limits of its deployment let it.
-/
namespace SpikeHub.L5.Stocking

open SpikeHub.Core SpikeHub.Core.Gates SpikeHub.L1 SpikeHub.L2 SpikeHub.L3 SpikeHub.L4.Auth
open SpikeHub.L4.Catalog SpikeHub.L4.Uploads SpikeHub.L4.Routes SpikeHub.L5.Service
open SpikeHub.L5.Interleave (Hub intentFor length_pos)
open SpikeHub.L5.Requests (Call serve trial plain asAlice)

/-! ## Requests that go through -/

section
variable {dep : Deployment} {now : Time} {r : Rand} {req : Presented} {user : User} {db db₁ : Db}
  {fs : Volume} {v : ModelVersion}

theorem create_goes {intent : UploadIntent}
    (hx : (writeUser dep.platform now dep.config req).exec db fs = (.ok user, db₁, fs))
    (hfresh : NewIds.Fresh ⟨r.base, r.base + 1⟩ db₁)
    (hgates : ∀ g ∈ gates now (dep.free fs) ⟨r.base, r.base + 1⟩ user intent.request dep.config db₁,
      g.2 = true) :
    ∃ slot db', dbSession (create dep now r req intent) db fs = (.ok (.slot slot), db', fs) ∧
      SameAuth db₁ db' ∧
      Granted now (dep.free fs) ⟨r.base, r.base + 1⟩ user intent.request dep.config db₁ db' := by
  have hdecision : decision
      ((reserve now dep.free ⟨r.base, r.base + 1⟩ user intent.request dep.config).exec db₁ fs).1 =
        verdict .granted (gates now (dep.free fs) ⟨r.base, r.base + 1⟩ user intent.request dep.config db₁) :=
    reserve_decision hfresh
  rw [verdict_passed hgates] at hdecision
  have hauth : KeepsAuth (reserve now dep.free ⟨r.base, r.base + 1⟩ user intent.request dep.config) :=
    reserve_keepsAuth
  have hsame := hauth db₁ fs
  rcases hres : (reserve now dep.free ⟨r.base, r.base + 1⟩ user intent.request dep.config).exec db₁ fs
    with ⟨res, db', fs'⟩
  rw [hres] at hdecision hsame
  cases res with
  | error e => cases e <;> cases hdecision
  | ok slot =>
    obtain ⟨rfl, -, hgranted⟩ := reserve_ok hres
    refine ⟨slot, db', ?_, hsame, hgranted⟩
    unfold create
    rw [dbSession_commit, Work.exec_bind_ok hx, Work.exec_bind_ok hres]
    rfl

theorem content_goes {uploadId : Uuid} {body : Body}
    (hx : (writeUser dep.platform now dep.config req).exec db fs = (.ok user, db₁, fs))
    (hslot : reservedSlot db₁ now uploadId user.id = .ok v) (hcut : body.cut = false)
    (hm : checkMeasured v (measure body.bytes) = .ok ()) (hid : ∀ e ∈ db₁.entries, e.id ≠ r.base) :
    ∃ key db' fs', dbSession (content dep now r req uploadId true body) db fs =
        (.ok (.version (uploadedAs key v)), db', fs') ∧
      storeUploaded now r.base user.id v key (measure body.bytes) db₁ = .ok db' := by
  obtain ⟨key, db', fs', hreceive, hstore⟩ := receive_whole fs hslot hcut hm hid
  refine ⟨key, db', fs', ?_, hstore⟩
  have hlength : (Work.orRaise (checkDeclaredLength true) : HubWork Unit).exec db₁ fs = (.ok (), db₁, fs) :=
    rfl
  unfold content
  rw [dbSession_commit, Work.exec_bind_ok hx, Work.exec_bind_ok hlength, Work.exec_bind_ok hreceive]
  rfl

theorem commit_goes
    (hx : (writeUser dep.platform now dep.config req).exec db fs = (.ok user, db₁, fs))
    (hv : v ∈ db₁.versions) (howned : db₁.ownedBy user.id v = true) (hstate : v.state = .uploaded) :
    dbSession (commit dep now req v.id) db fs = (.ok (.version (movedOn now dep.config v)),
      setVersion db₁ v.id (movedOn now dep.config) (movedOn_keys now dep.config), fs) := by
  unfold commit
  rw [dbSession_commit, Work.exec_bind_ok hx, Work.exec_bind, Work.exec_check,
    ownedVersion_eq hv rfl howned]
  dsimp only
  rw [Work.exec_bind_ok (publish_uploaded hv hstate fs)]
  rfl

end

/-! ## One upload after the other -/

/-- Limits out of the way. -/
def generous : Settings where
  publishingGate := .open
  requireVerification := false
  maxVersionsPerModel := 10000
  maxUploadsPerDay := 10000

def spacious : Deployment := { trial with config := generous }

/-- Alice's account, as `aliceProfile` makes it. -/
def publisher : User where
  id := 1
  handle := "alice"
  email := "alice@example.org"
  emailVerified := true
  canPublish := true
  storageLimit := GIB

/-- The session of her cookie, which the clock does not end. -/
def SignedIn (db : Db) : Prop :=
  ∃ s ∈ db.sessions, s.tokenHash = plain.hashToken "sfh_s_first" ∧ s.userId = publisher.id ∧
    Sessions.live 0 spacious.config s = true

def abc : Bytes := [97, 98, 99]

/-- The version named `n`, of three bytes. -/
def nth (n : Nat) : UploadIntent := ⟨intentFor abc (toString n), length_pos abc (by decide)⟩

/-- Her account and session, the models hers, `3 * k` bytes charged, every id drawn before `b`. -/
structure Kept (k : Nat) (b : Uuid) (db : Db) : Prop where
  account : publisher ∈ db.users
  session : SignedIn db
  models : ∀ m ∈ db.models, m.id < b ∧ m.ownerId = publisher.id ∧ m.slug = "mnist" ∧
    m.state = .active ∧ m.visibility = .public
  entries : ∀ e ∈ db.entries, e.id < b
  stored : storedBytes db publisher.id = 3 * k
  total : totalStoredBytes db = 3 * k

/-- Published, under a name before `n`. -/
def Placed (n : Nat) (b : Uuid) (v : ModelVersion) : Prop :=
  v.id < b ∧ v.state = .published ∧ ∃ i, i < n ∧ v.version = toString i

/-- `n` versions, all published. -/
structure Shelf (n : Nat) (b : Uuid) (db : Db) : Prop extends Kept n b db where
  versions : ∀ v ∈ db.versions, Placed n b v
  count : db.versions.rows.length = n

/-- The upload of one more, on its way as `v`. -/
structure Underway (n k : Nat) (b : Uuid) (v : ModelVersion) (db : Db) : Prop extends Kept k b db where
  mem : v ∈ db.versions
  owned : db.ownedBy publisher.id v = true
  name : v.version = toString n
  drawn : v.id < b
  others : ∀ w ∈ db.versions, w.id ≠ v.id → Placed n b w
  count : db.versions.rows.length = n + 1

variable {n k : Nat} {b b' : Uuid} {db db₁ db' : Db} {fs : Volume} {h : Hub} {v : ModelVersion}

theorem SignedIn.touched (hs : SignedIn db) (id : Uuid) : SignedIn (Sessions.touchSession 0 id db) := by
  obtain ⟨s, hmem, hhash, howner, hlive⟩ := hs
  refine ⟨_, Sessions.mem_touchSession.mpr ⟨s, hmem, rfl⟩, ?_⟩
  split
  · refine ⟨hhash, howner, ?_⟩
    simp only [Sessions.live, Bool.and_eq_true, decide_eq_true_eq] at hlive ⊢
    exact ⟨hlive.1, (by decide : (0 : Time) < 0 + seconds (7 * 24 * 3600))⟩
  · exact ⟨hhash, howner, hlive⟩

theorem SignedIn.sameAuth (hs : SignedIn db) (hsame : SameAuth db db') : SignedIn db' := by
  unfold SignedIn
  rw [hsame.sessions]
  exact hs

/-- Her requests are hers. -/
theorem SignedIn.writeUser (hs : SignedIn db) (haccount : publisher ∈ db.users) (body : Request) (fs : Volume) :
    ∃ id, (writeUser spacious.platform 0 spacious.config (asAlice body).req).exec db fs =
      (.ok publisher, Sessions.touchSession 0 id db, fs) := by
  obtain ⟨s, hmem, hhash, howner, hlive⟩ := hs
  exact ⟨s.id, writeUser_exec rfl rfl (by decide)
    ((Sessions.signedIn_eq hmem hhash (user?_eq_some.mpr ⟨haccount, howner.symm⟩) rfl).trans
      (if_pos hlive))⟩

theorem Kept.touched (hk : Kept k b db) (id : Uuid) : Kept k b (Sessions.touchSession 0 id db) :=
  ⟨hk.account, hk.session.touched id, hk.models, hk.entries, hk.stored, hk.total⟩

theorem Kept.later (hk : Kept k b db) (hb : b ≤ b') : Kept k b' db :=
  ⟨hk.account, hk.session, fun m hm => ⟨Nat.lt_of_lt_of_le (hk.models m hm).1 hb, (hk.models m hm).2⟩,
    fun e he => Nat.lt_of_lt_of_le (hk.entries e he) hb, hk.stored, hk.total⟩

theorem Placed.later (hp : Placed n b v) (hb : b ≤ b') : Placed n b' v :=
  ⟨Nat.lt_of_lt_of_le hp.1 hb, hp.2⟩

theorem Placed.more (hp : Placed n b v) : Placed (n + 1) b v := by
  obtain ⟨hid, hstate, i, hi, hname⟩ := hp
  exact ⟨hid, hstate, i, Nat.lt_succ_of_lt hi, hname⟩

theorem Shelf.touched (hs : Shelf n b db) (id : Uuid) : Shelf n b (Sessions.touchSession 0 id db) :=
  ⟨hs.toKept.touched id, hs.versions, hs.count⟩

theorem Underway.touched (hu : Underway n k b v db) (id : Uuid) :
    Underway n k b v (Sessions.touchSession 0 id db) :=
  ⟨hu.toKept.touched id, hu.mem, hu.owned, hu.name, hu.drawn, hu.others, hu.count⟩

/-- The next version passes every gate. -/
theorem Shelf.gates (hs : Shelf n b db) (hn : n < 10000) (fs : Volume) :
    ∀ g ∈ gates 0 (spacious.free fs) ⟨b, b + 1⟩ publisher (nth n).request spacious.config db,
      g.2 = true := by
  have hstarted : startedSince db publisher.id (0 - day) ≤ n := hs.count ▸ Table.count_le _ _
  have hheld : ∀ id, versionCount db id ≤ n := fun id => hs.count ▸ Table.count_le _ _
  have hpending : pendingBytes db 0 publisher.id = 0 := by
    refine ownedSum_eq_zero fun v hv _ => not_live_of_state ?_
    rw [(hs.versions v hv).2.1]
    decide
  have hmodels : namedModel db publisher.id "mnist" = none → modelCount db publisher.id = 0 := by
    intro hnone
    refine Table.count_eq_zero.mpr fun m hm => ?_
    obtain ⟨-, howner, hslug, -⟩ := hs.models m hm
    have hno := Table.find?_none hnone hm
    simp [howner, hslug] at hno
  have hnames : ∀ v ∈ db.versions, v.version ≠ toString n := by
    intro v hv he
    obtain ⟨-, -, i, hi, hname⟩ := hs.versions v hv
    exact absurd (PyStr.toString_inj (hname.symm.trans he)) (Nat.ne_of_lt hi)
  have hfits : (usageFor db 0 publisher.id publisher.storageLimit).canFit (nth n).request.sizeBytes = true := by
    rw [canFit_iff (nth n).positive]
    dsimp only [usageFor]
    rw [hs.stored, hpending]
    show (3 * n + 0 + 3 : Int) ≤ 1024 * (1024 * 1024)
    omega
  unfold L4.Uploads.gates
  dsimp only
  simp only [List.mem_cons, List.not_mem_nil, or_false, forall_eq_or_imp, forall_eq]
  have hsize : (3 : Int) ≤ 256 * MIB := by decide
  have hfree : 5 * GIB ≤ 1024 * GIB - (3 : Int) := by decide
  refine ⟨rfl, ?_, decide_eq_true hsize, ?_, hfits, ?_, decide_eq_true hfree, ?_, ?_, ?_⟩
  · exact isSha256_of_hex (sha256_length abc) (sha256_hex abc)
  · rw [decide_eq_true_eq]
    show (startedSince db publisher.id (0 - day) : Int) < 10000
    omega
  · rw [decide_eq_true_eq, hs.total]
    show (3 * n + 3 : Int) ≤ 10 * (1024 * (1024 * 1024))
    omega
  · show ((namedModel db publisher.id "mnist").isSome || decide ((modelCount db publisher.id : Int) < 50)) = true
    cases hnamed : namedModel db publisher.id "mnist" with
    | some m => rfl
    | none => rw [hmodels hnamed]; rfl
  · rw [decide_eq_true_eq]
    have hle := hheld (targetModel db b publisher (nth n).request)
    show (versionCount db (targetModel db b publisher (nth n).request) : Int) < 10000
    omega
  · rw [decide_eq_true_eq]
    exact fun v hv _ => hnames v hv

/-- A granted reservation of the next version is an upload under way. -/
theorem Shelf.reserved {m : Int} (hs : Shelf n b db)
    (hsame : SameAuth db db') (hg : Granted 0 m ⟨b, b + 1⟩ publisher (nth n).request generous db db') :
    ∃ modelId, Underway n n (b + 6) (newVersion 0 (b + 1) modelId (nth n).request generous) db' := by
  obtain ⟨modelId, hadd⟩ := hg.added
  obtain ⟨hnew, hversions⟩ := hadd.versions
  have hlater : b ≤ b + 6 := Nat.le_add_right b 6
  refine ⟨modelId, ⟨?_, ?_, ?_, ?_, ?_, ?_⟩, ?_, hadd.owner, rfl, ?_, ?_, ?_⟩
  · exact hadd.users ▸ hs.account
  · exact hs.session.sameAuth hsame
  · intro w hw
    rcases hg.models hw with hold | rfl
    · exact (hs.toKept.later hlater).models w hold
    · exact ⟨Nat.lt_add_of_pos_right (by decide), rfl, rfl, rfl, rfl⟩
  · intro e he
    rw [hadd.entries] at he
    exact Nat.lt_of_lt_of_le (hs.entries e he) hlater
  · rw [hadd.storedBytes, hs.stored]
  · unfold totalStoredBytes
    rw [hadd.entries]
    exact hs.total
  · exact hadd.mem.mpr (.inr rfl)
  · exact Nat.add_lt_add_left (by decide) b
  · intro w hw hne
    rcases hadd.mem.mp hw with hold | rfl
    · exact (hs.versions w hold).later hlater
    · exact absurd rfl hne
  · rw [hversions]
    show (db.versions.rows ++ [_]).length = n + 1
    rw [List.length_append, hs.count]
    rfl

/-- The row under way is changed in place. -/
theorem Underway.set {f : ModelVersion → ModelVersion} (hf : KeepsKeys f) (hu : Underway n k b v db) :
    Underway n k b (f v) (setVersion db v.id f hf) := by
  refine ⟨⟨hu.account, hu.session, hu.models, hu.entries, hu.stored, hu.total⟩, ?_, ?_, ?_, ?_, ?_, ?_⟩
  · exact mem_setVersion.mpr ⟨v, hu.mem, if_pos rfl⟩
  · rw [ownedBy_setVersion, ownedBy_changed hf]
    exact hu.owned
  · rw [hf.version, hu.name]
  · rw [hf.id]
    exact hu.drawn
  · intro w hw hne
    rcases setVersion_cases hu.mem hw with rfl | ⟨hold, hid⟩
    · exact absurd rfl hne
    · exact hu.others w hold hid
  · show (db.versions.rows.map _).length = n + 1
    rw [List.length_map]
    exact hu.count

/-- The transfer of the three bytes: the row changed, and the bytes charged. -/
theorem Underway.charged {key : String} (hu : Underway n k b v db)
    (hst : storeUploaded 0 b publisher.id v key (measure abc) db = .ok db') :
    Underway n (k + 1) (b + 6) (uploadedAs key v) db' := by
  have hup := storedUpload hst
  obtain ⟨-, hnew, rfl⟩ := storeUploaded_ok hst
  have hset := hu.set (uploadedAs_keys key)
  have hlater : b ≤ b + 6 := Nat.le_add_right b 6
  have hkept := hset.toKept.later hlater
  refine ⟨⟨hkept.account, hkept.session, hkept.models, ?_, ?_, ?_⟩, hset.mem, hset.owned, hset.name,
    Nat.lt_of_lt_of_le hset.drawn hlater, fun w hw hne => (hset.others w hw hne).later hlater, hset.count⟩
  · intro e he
    rcases hup.mem_entries.mp he with hold | rfl
    · exact Nat.lt_of_lt_of_le (hu.entries e hold) hlater
    · exact Nat.lt_add_of_pos_right (by decide)
  · rw [hup.storedBytes, hu.stored, if_pos rfl]
    show (3 * k + 3 : Int) = 3 * (k + 1 : Nat)
    omega
  · rw [hup.totalStoredBytes, hu.total]
    show (3 * k + 3 : Int) = 3 * (k + 1 : Nat)
    omega

/-- Published, it is one more on the shelf. -/
theorem Underway.placed (hu : Underway n (n + 1) b v db) (hstate : v.state = .published) :
    Shelf (n + 1) b db := by
  refine ⟨hu.toKept, fun w hw => ?_, hu.count⟩
  by_cases hid : w.id = v.id
  · rw [version_eq hw hu.mem hid]
    exact ⟨hu.drawn, hstate, n, Nat.lt_succ_self n, hu.name⟩
  · exact (hu.others w hw hid).more

/-! ## The run -/

/-- Reachable, at time 0, with `n` versions on the shelf. -/
structure Stocked (n : Nat) (h : Hub) : Prop where
  reachable : (lts spacious).Reachable h
  now : h.now = 0
  shelf : Shelf n h.fresh h.db

/-- Reachable, at time 0, with `v` under way. -/
structure Loading (n k : Nat) (v : ModelVersion) (h : Hub) : Prop where
  reachable : (lts spacious).Reachable h
  now : h.now = 0
  underway : Underway n k h.fresh v h.db

theorem reachable_serve {c : Call} {res : Except Raised Reply} {fs' : Volume}
    (hr : (lts spacious).Reachable h)
    (hx : dbSession (route spacious h.now ⟨h.fresh, c.secret⟩ c.req c.body) h.db h.volume =
      (res, db', fs')) : (lts spacious).Reachable ⟨h.now, db', fs', h.fresh + 6⟩ := by
  have hserve : (serve spacious c h).2 = ⟨h.now, db', fs', h.fresh + 6⟩ := by
    unfold serve
    rw [hx]
    rfl
  exact hr.step (l := .service (.call c)) hserve.symm

theorem Stocked.reserve (hs : Stocked n h) (hn : n < 10000) :
    ∃ v h', Loading n n v h' ∧ v.state = .reserved ∧ v.expiresAt = some (seconds 900) ∧
      v.sizeBytes = 3 ∧ v.sha256 = sha256 abc := by
  obtain ⟨now, db, fs, b⟩ := h
  obtain rfl : now = 0 := hs.now
  obtain ⟨id, hx⟩ := hs.shelf.session.writeUser hs.shelf.account (.create (nth n)) fs
  have hshelf := hs.shelf.touched id
  have hfresh : NewIds.Fresh ⟨b, b + 1⟩ (Sessions.touchSession 0 id db) :=
    ⟨fun m hm => Nat.ne_of_lt (hshelf.models m hm).1,
      fun v hv => Nat.ne_of_lt (Nat.lt_succ_of_lt (hshelf.versions v hv).1)⟩
  obtain ⟨slot, db', hcreate, hsame, hgranted⟩ :=
    create_goes (r := ⟨b, (asAlice (.create (nth n))).secret⟩) hx hfresh (hshelf.gates hn fs)
  obtain ⟨modelId, hunder⟩ := hshelf.reserved hsame hgranted
  exact ⟨_, _, ⟨reachable_serve (c := asAlice (.create (nth n))) hs.reachable hcreate, rfl, hunder⟩,
    rfl, rfl, rfl, rfl⟩

theorem Loading.receive (hl : Loading n k v h) (hstate : v.state = .reserved)
    (hexp : v.expiresAt = some (seconds 900)) (hsize : v.sizeBytes = 3) (hsha : v.sha256 = sha256 abc) :
    ∃ key h', Loading n (k + 1) (uploadedAs key v) h' := by
  obtain ⟨now, db, fs, b⟩ := h
  obtain rfl : now = 0 := hl.now
  let sent : Body := ⟨[abc], false⟩
  let body : Request := .content v.id true sent
  obtain ⟨id, hx⟩ := hl.underway.session.writeUser hl.underway.account body fs
  have hunder := hl.underway.touched id
  have hslot : reservedSlot (Sessions.touchSession 0 id db) 0 v.id publisher.id = .ok v := by
    refine reservedSlot_eq hunder.mem rfl hunder.owned hstate fun t ht => ?_
    obtain rfl := Option.some.inj (hexp.symm.trans ht)
    decide
  have hm : checkMeasured v (measure sent.bytes) = .ok () := checkMeasured_eq (by rw [hsize]; rfl) hsha.symm
  obtain ⟨key, db', fs', hcontent, hstore⟩ :=
    content_goes (r := ⟨b, (asAlice body).secret⟩) hx hslot rfl hm
      fun e he => Nat.ne_of_lt (hunder.entries e he)
  exact ⟨key, _, reachable_serve (c := asAlice body) hl.reachable hcontent, rfl, hunder.charged hstore⟩

theorem Loading.commit (hl : Loading n (n + 1) v h) (hstate : v.state = .uploaded) :
    ∃ h', Stocked (n + 1) h' := by
  obtain ⟨now, db, fs, b⟩ := h
  obtain rfl : now = 0 := hl.now
  obtain ⟨id, hx⟩ := hl.underway.session.writeUser hl.underway.account (.commit v.id) fs
  have hunder := hl.underway.touched id
  have hcommit := commit_goes hx hunder.mem hunder.owned hstate
  have hshelf := (hunder.set (movedOn_keys 0 generous)).placed rfl
  have hlater : b ≤ b + 6 := Nat.le_add_right b 6
  exact ⟨_, reachable_serve (c := asAlice (.commit v.id)) hl.reachable hcommit, rfl,
    hshelf.toKept.later hlater, fun w hw => (hshelf.versions w hw).later hlater, hshelf.count⟩

/-- She has signed up. -/
def opening : Hub :=
  step spacious blank (.service (.call ⟨{}, .oauthCallback aliceProfile "", fun _ => "first"⟩))

theorem stocked_none : Stocked 0 opening := by
  have haccount : publisher ∈ opening.db.users.rows := by decide +kernel
  have hsession : ∃ s ∈ opening.db.sessions, s.tokenHash = plain.hashToken "sfh_s_first" ∧
      s.userId = publisher.id ∧ Sessions.live 0 spacious.config s = true := by decide +kernel
  have hempty : opening.db.models.rows = [] ∧ opening.db.versions.rows = [] ∧
      opening.db.entries.rows = [] := by decide +kernel
  obtain ⟨hmodels, hversions, hentries⟩ := hempty
  have hkept : Kept 0 opening.fresh opening.db := by
    refine ⟨haccount, hsession, fun m hm => ?_, fun e he => ?_, ?_, ?_⟩
    · rw [← Table.mem_rows, hmodels] at hm
      cases hm
    · rw [← Table.mem_rows, hentries] at he
      cases he
    · simp [storedBytes, Table.sum_eq, hentries]
    · simp [totalStoredBytes, Table.sum_eq, hentries]
  refine ⟨⟨blank, [_], rfl, .cons rfl (.nil _)⟩, rfl, hkept, fun v hv => ?_, by rw [hversions]; rfl⟩
  rw [← Table.mem_rows, hversions] at hv
  cases hv

/-- All that is on the shelf is public. -/
theorem Stocked.length_public (hs : Stocked n h) : (publicVersions h.db).length = n := by
  have hall : publicVersions h.db = h.db.versions.rows := by
    refine List.filter_eq_self.mpr fun v hv => ?_
    obtain ⟨-, hstate, -⟩ := hs.shelf.versions v hv
    obtain ⟨m, hm, hid⟩ := h.db.modelKey v hv
    obtain ⟨-, -, -, hactive, hpublic⟩ := hs.shelf.models m hm
    exact (Table.mem_select.mp (mem_publicVersions.mpr ⟨hv, hstate, m, hm, hid, hactive, hpublic⟩)).2
  rw [hall, hs.shelf.count]

/-- **Any number of versions**, up to the limit, is reached. -/
theorem stocked (n : Nat) (hn : n ≤ 10000) : ∃ h, Stocked n h := by
  induction n with
  | zero => exact ⟨opening, stocked_none⟩
  | succ n ih =>
    obtain ⟨h, hs⟩ := ih (Nat.le_of_succ_le hn)
    obtain ⟨v, h₁, hloading, hstate, hexp, hsize, hsha⟩ := hs.reserve hn
    obtain ⟨key, h₂, hloaded⟩ := hloading.receive hstate hexp hsize hsha
    exact hloaded.commit rfl

end SpikeHub.L5.Stocking
