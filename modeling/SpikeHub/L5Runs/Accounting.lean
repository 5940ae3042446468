import SpikeHub.Core.Book
import SpikeHub.L5Runs.Provenance

/-!
# What an account is told of its usage

A client that keeps book of the answers it gets knows what `/v1/me` will say.
`posting` is what an answer adds to the book: a reservation holds its bytes
until it expires, a transfer charges them. After every run from an empty
database the usage that is reported is that of the account's own book
(`usage_by_answers`), whatever the other accounts, the janitor and the
operators did.
-/
namespace SpikeHub.L5.Accounting

open SpikeHub.Core SpikeHub.L1 SpikeHub.L2 SpikeHub.L3 SpikeHub.L4.Auth SpikeHub.L4.Uploads
open SpikeHub.L4.Catalog SpikeHub.L4.Routes SpikeHub.L5.Service
open SpikeHub.L5.Interleave (Hub)
open SpikeHub.L5.Requests (Call serve serve_effect caller asAlice)
open SpikeHub.L5.Catalogue (swept swept_db serve_rowEffect unverified)
open SpikeHub.L5.Policy (publishing)

abbrev Account := Book Uuid Int Time

/-- What the answer to a request of the account's adds to its book. -/
def posting (dep : Deployment) (u : Uuid) (h : Hub) (c : Call) : Option (Posting Uuid Int Time) :=
  if (caller dep h c.req).any (·.id = u) then
    match c.body, (serve dep c h).1 with
    | .create intent, .ok (.slot slot) =>
      some (.hold ⟨slot.uploadId, intent.request.sizeBytes, h.now + seconds dep.config.reservationTtlSeconds⟩)
    | .content _ _ _, .ok (.version v) => some (.charge v.id v.sizeBytes)
    | _, _ => none
  else none

def posted (dep : Deployment) (u : Uuid) (h : Hub) (b : Account) : Lbl → Account
  | .service (.call c) => (posting dep u h c).elim b b.post
  | _ => b

/-- The account's book after the steps. -/
def bookAfter (dep : Deployment) (u : Uuid) : Hub → List Lbl → Account → Account
  | _, [], b => b
  | h, l :: ls, b => bookAfter dep u (step dep h l) ls (posted dep u h b l)

/-- The book says what the tables do, from now on. -/
structure Balanced (u : Uuid) (h : Hub) (b : Account) : Prop where
  used : storedBytes h.db u = b.used
  held : ∀ t, h.now ≤ t → ∀ q : Uuid → Bool,
    ownedSum h.db (fun v => q v.id && live t v) u = b.held q t

variable {dep : Deployment} {h h' h₀ : Hub} {l : Lbl} {ls : List Lbl} {c : Call} {db db' : Db} {u : Uuid}
  {b : Account} {user : User} {usage : Usage} {req : Presented} {secret : Nat → String} {q : ModelVersion → Bool}

/-! ## Who asked -/

theorem caller_writer {db₁ : Db} (hw : Writer dep h.now c.req h.db h.volume user db₁) :
    caller dep h c.req = some user := by
  obtain ⟨granted, hx, -⟩ := hw
  unfold caller
  rw [hx]

theorem sameRows_ownedSum (hsame : SameRows db db') : ownedSum db' q u = ownedSum db q u := by
  unfold ownedSum Db.ownedBy
  rw [hsame.models, hsame.versions]

theorem sameRows_storedBytes (hsame : SameRows db db') : storedBytes db' u = storedBytes db u := by
  unfold storedBytes
  rw [hsame.entries]

/-! ## Step by step -/

/-- Sums that are the same from now on. -/
theorem Balanced.kept (hb : Balanced u h b) (hnow : h.now ≤ h'.now)
    (hused : storedBytes h'.db u = storedBytes h.db u)
    (hheld : ∀ t, h'.now ≤ t → ∀ q : Uuid → Bool,
      ownedSum h'.db (fun v => q v.id && live t v) u = ownedSum h.db (fun v => q v.id && live t v) u) :
    Balanced u h' b where
  used := hused.trans hb.used
  held t ht q := (hheld t ht q).trans (hb.held t (Int.le_trans hnow ht) q)

theorem balanced_same (hb : Balanced u h b) (hnow : h.now ≤ h'.now) (hsame : SameRows h.db h'.db) :
    Balanced u h' b :=
  hb.kept hnow (sameRows_storedBytes hsame) fun _ _ _ => sameRows_ownedSum hsame

/-- A row that holds nothing, before and after. -/
theorem balanced_setVersion (hb : Balanced u h b) (hnow : h.now ≤ h'.now) (hsame : SameRows h.db db)
    {v : ModelVersion} {f : ModelVersion → ModelVersion} (hf : KeepsKeys f) (hv : v ∈ db.versions)
    (hbefore : v.state ≠ .reserved) (hafter : (f v).state ≠ .reserved) (hsize : (f v).sizeBytes = v.sizeBytes)
    (hdb : h'.db = setVersion db v.id f hf) : Balanced u h' b := by
  refine hb.kept hnow ?_ fun t _ q => ?_
  · rw [hdb, ← sameRows_storedBytes hsame]
    rfl
  · have hlive : (q (f v).id && live t (f v)) = (q v.id && live t v) := by
      rw [not_live_of_state hbefore, not_live_of_state hafter, Bool.and_false, Bool.and_false]
    rw [hdb, ownedSum_setVersion_of_eq (q := fun v => q v.id && live t v) hv hlive hsize]
    exact sameRows_ownedSum hsame

theorem live_reservation {t now : Time} {id modelId : Uuid} {request : UploadRequest} {config : Settings} :
    live t (newVersion now id modelId request config) = true ↔
      t < now + seconds config.reservationTtlSeconds := by
  rw [live_iff]
  constructor
  · rintro ⟨-, x, hx, hlt⟩
    cases hx
    exact hlt
  · exact fun hlt => ⟨rfl, _, rfl, hlt⟩

/-- A reservation that is granted, to the account or to another. -/
theorem balanced_granted (hb : Balanced u h b) {n : Int} {ids : NewIds} {request : UploadRequest}
    {config : Settings} {db₁ : Db} (hsame : SameRows h.db db₁)
    (hg : Granted h.now n ids user request config db₁ h'.db) (hnow : h'.now = h.now) :
    Balanced u h' (if user.id = u then
      b.post (.hold ⟨ids.version, request.sizeBytes, h.now + seconds config.reservationTtlSeconds⟩) else b) := by
  obtain ⟨modelId, hadd⟩ := hg.added
  have hused : storedBytes h'.db u = b.used := by
    rw [hadd.storedBytes, sameRows_storedBytes hsame, hb.used]
  have hheld : ∀ t, h.now ≤ t → ∀ q : Uuid → Bool, ownedSum h'.db (fun v => q v.id && live t v) u =
      b.held q t + if u = user.id ∧ (q ids.version && live t (newVersion h.now ids.version modelId request config)) =
        true then request.sizeBytes else 0 := by
    intro t ht q
    rw [hadd.ownedSum, sameRows_ownedSum hsame, hb.held t ht q]
    rfl
  by_cases hmine : user.id = u
  · rw [if_pos hmine]
    refine ⟨hused, fun t ht q => ?_⟩
    rw [hheld t (hnow ▸ ht) q, Book.held_hold]
    simp only [hmine, true_and, Bool.and_eq_true, live_reservation]
  · rw [if_neg hmine]
    refine ⟨hused, fun t ht q => ?_⟩
    rw [hheld t (hnow ▸ ht) q, if_neg fun hboth => hmine hboth.1.symm, add_zero]

/-- A transfer that is taken, of the account's or another's. -/
theorem balanced_taken (hb : Balanced u h b) {v : ModelVersion} {entryId : Uuid} {key : String} {blob : StoredBlob}
    {db₁ : Db} (hsame : SameRows h.db db₁) (hv : v ∈ db₁.versions) (howned : db₁.ownedBy user.id v = true)
    (hsize : (blob.sizeBytes : Int) = v.sizeBytes)
    (hst : storeUploaded h.now entryId user.id v key blob db₁ = .ok h'.db) (hnow : h'.now = h.now) :
    Balanced u h' (if user.id = u then b.post (.charge v.id v.sizeBytes) else b) := by
  have hstored := storedUpload hst
  have hused : storedBytes h'.db u = b.used + if u = user.id then v.sizeBytes else 0 := by
    rw [hstored.storedBytes, sameRows_storedBytes hsame, hb.used, hsize]
  by_cases hmine : user.id = u
  · rw [if_pos hmine]
    rw [if_pos hmine.symm] at hused
    refine ⟨hused, fun t ht q => ?_⟩
    -- the row is not live any more, so the sum may leave its key out
    have hgone : ownedSum h'.db (fun w => q w.id && live t w) u =
        ownedSum h'.db (fun w => (q w.id && w.id ≠ v.id) && live t w) u := by
      unfold ownedSum
      refine Table.sum_congr fun w hw => ?_
      rcases hstored.version_cases hv hw with rfl | ⟨-, hother⟩
      · have hleft : live t (uploadedAs key v) = false := not_live_of_state (by simp)
        simp [hleft]
      · simp [hother]
    have hmoved := hstored.ownedSum (q := fun w => (q w.id && w.id ≠ v.id) && live t w) (u := u) hv rfl
    rw [hgone, hmoved, sameRows_ownedSum hsame, hb.held t (hnow ▸ ht) fun k => q k && k ≠ v.id, Book.held_charge]
    simp [(uploadedAs_keys key).id]
  · have hnot : db₁.ownedBy u v = false :=
      Bool.eq_false_iff.mpr fun ho => hmine (owner_unique howned ho)
    rw [if_neg hmine]
    rw [if_neg (Ne.symm hmine), add_zero] at hused
    refine ⟨hused, fun t ht q => ?_⟩
    rw [hstored.ownedSum hv rfl, hnot, sameRows_ownedSum hsame, hb.held t (hnow ▸ ht) q]
    simp

theorem posting_error {e : Raised} (hres : (serve dep c h).1 = .error e) : posting dep u h c = none := by
  unfold posting
  rw [hres]
  split
  · cases c.body <;> rfl
  · rfl

/-- The requests whose answers are posted. -/
def posts : Request → Bool
  | .create _ | .content _ _ _ => true
  | _ => false

theorem posting_other (hbody : posts c.body = false) : posting dep u h c = none := by
  unfold posting
  split
  · split
    · rename_i hcreate _
      rw [hcreate] at hbody
      cases hbody
    · rename_i hcontent _
      rw [hcontent] at hbody
      cases hbody
    · rfl
  · rfl

theorem posting_create {intent : UploadIntent} {slot : Reservation} (hcaller : caller dep h c.req = some user)
    (hmine : user.id = u) (hbody : c.body = .create intent) (hres : (serve dep c h).1 = .ok (.slot slot)) :
    posting dep u h c = some (.hold ⟨slot.uploadId, intent.request.sizeBytes,
      h.now + seconds dep.config.reservationTtlSeconds⟩) := by
  unfold posting
  rw [hcaller, hbody, hres]
  exact if_pos (decide_eq_true hmine)

theorem posting_content {upload : Uuid} {declared : Bool} {chunks : Body} {v : ModelVersion}
    (hcaller : caller dep h c.req = some user) (hmine : user.id = u)
    (hbody : c.body = .content upload declared chunks) (hres : (serve dep c h).1 = .ok (.version v)) :
    posting dep u h c = some (.charge v.id v.sizeBytes) := by
  unfold posting
  rw [hcaller, hbody, hres]
  exact if_pos (decide_eq_true hmine)

theorem posted_none (hnone : posting dep u h c = none) : posted dep u h b (.service (.call c)) = b := by
  unfold posted
  dsimp only
  rw [hnone]
  rfl

/-- What the answer to an account's request adds to a book. -/
theorem posted_caller {entry : Posting Uuid Int Time} (hcaller : caller dep h c.req = some user)
    (hentry : user.id = u → posting dep u h c = some entry) :
    posted dep u h b (.service (.call c)) = if user.id = u then b.post entry else b := by
  by_cases hmine : user.id = u
  · unfold posted
    dsimp only
    rw [hentry hmine, if_pos hmine]
    rfl
  · rw [if_neg hmine]
    refine posted_none ?_
    unfold posting
    rw [hcaller, if_neg (by simpa using hmine)]

theorem serve_route (dep : Deployment) (c : Call) (h : Hub) :
    dbSession (route dep h.now ⟨h.fresh, c.secret⟩ c.req c.body) h.db h.volume =
      ((serve dep c h).1, (serve dep c h).2.db, (serve dep c h).2.volume) := rfl

theorem balanced_serve (hb : Balanced u h b) (dep : Deployment) (c : Call) :
    Balanced u (serve dep c h).2 (posted dep u h b (.service (.call c))) := by
  have hnow : h.now ≤ (serve dep c h).2.now := Int.le_refl _
  obtain ⟨req, body, secret⟩ := c
  cases hres : (serve dep ⟨req, body, secret⟩ h).1 with
  | error e =>
    have hrow := serve_rowEffect dep ⟨req, body, secret⟩ h
    rw [posted_none (posting_error hres)]
    refine balanced_same hb hnow ?_
    rw [hres] at hrow
    generalize (serve dep ⟨req, body, secret⟩ h).2.db = db' at hrow
    cases hrow with
    | same hsame => exact hsame
  | ok reply =>
    cases body with
    | create intent =>
      have hx := serve_route dep ⟨req, .create intent, secret⟩ h
      rw [hres] at hx
      obtain ⟨-, user, db₁, slot, hwriter, rfl, hid, hgranted⟩ := create_ok hx
      have hcaller := caller_writer (c := ⟨req, .create intent, secret⟩) hwriter
      rw [posted_caller hcaller fun hmine => posting_create hcaller hmine rfl hres, hid]
      exact balanced_granted hb hwriter.sameRows hgranted rfl
    | content upload declared chunks =>
      have hx := serve_route dep ⟨req, .content upload declared chunks, secret⟩ h
      rw [hres] at hx
      obtain ⟨user, db₁, v, key, hwriter, htook, rfl⟩ := content_ok hx
      obtain ⟨hv, rfl, howned, -⟩ := reservedSlot_ok htook.slot
      have hcaller := caller_writer (c := ⟨req, .content v.id declared chunks, secret⟩) hwriter
      have hentry : user.id = u → posting dep u h ⟨req, .content v.id declared chunks, secret⟩ =
          some (.charge v.id v.sizeBytes) := fun hmine =>
        posting_content (v := uploadedAs key v) hcaller hmine rfl hres
      rw [posted_caller hcaller hentry]
      exact balanced_taken hb hwriter.sameRows hv howned (checkMeasured_ok htook.measured).1 htook.stored rfl
    | commit upload =>
      have hx := serve_route dep ⟨req, .commit upload, secret⟩ h
      rw [hres] at hx
      obtain ⟨-, user, db₁, v, hwriter, hown, hstate, -, hdb⟩ := commit_ok hx
      rw [posted_none (posting_other rfl)]
      refine balanced_setVersion hb hnow hwriter.sameRows (movedOn_keys _ _) (ownedVersion_ok hown).1 ?_
        movedOn_state_ne movedOn_sizeBytes hdb
      rw [hstate]
      decide
    | download handle slug version =>
      have hrow := serve_rowEffect dep ⟨req, .download handle slug version, secret⟩ h
      rw [posted_none (posting_other rfl)]
      rw [hres] at hrow
      generalize hdb : (serve dep ⟨req, .download handle slug version, secret⟩ h).2.db = db' at hrow
      cases hrow with
      | same hsame => exact balanced_same hb hnow (hdb ▸ hsame)
      | counted hone =>
        obtain ⟨hjoined, -, -, hstate⟩ := mem_visibleRows.mp (oneVersion_eq_some.mp hone).1
        rename_i row
        have hleft : row.version.state ≠ .reserved := by
          rw [hstate]
          decide
        exact balanced_setVersion hb hnow (.refl _) (countedFrom_keys _) (mem_joined.mp hjoined).2.1 hleft hleft
          rfl hdb
    | _ =>
      rw [posted_none (posting_other rfl)]
      exact balanced_same hb hnow (sameRows_of_effect (serve_effect dep _ h) rfl nofun)

/-- What the janitor deletes holds nothing any more. -/
theorem balanced_swept (hb : Balanced u h b) : Balanced u (swept h) b := by
  refine hb.kept (Int.le_refl _) ?_ fun t ht q => ?_
  · rw [swept_db]
    rfl
  · rw [swept_db]
    refine ownedSum_delete_of_not fun v hv hid => ?_
    obtain ⟨w, hw, he⟩ := List.mem_map.mp hid
    obtain ⟨hwmem, -, x, hx, hle⟩ := mem_expired.mp hw
    rw [version_eq hwmem hv he] at hx
    have hlapsed : live t v = false := by
      refine Bool.eq_false_iff.mpr fun hl => ?_
      obtain ⟨-, y, hy, hlt⟩ := live_iff.mp hl
      rw [hx] at hy
      cases hy
      have hpast : x ≤ t := Int.le_trans hle ht
      exact absurd hlt (Int.not_lt.mpr hpast)
    rw [hlapsed, Bool.and_false]

theorem ownedBy_setModel {id : Uuid} {state : ModelState} {visibility : Visibility} {v : ModelVersion} :
    (setModel id state visibility db).ownedBy u v = db.ownedBy u v := by
  have hkeys : ∀ m : HubModel, (if decide (m.id = id) then moderatedAs state visibility m else m).id = m.id ∧
      (if decide (m.id = id) then moderatedAs state visibility m else m).ownerId = m.ownerId := by
    intro m
    split
    · exact ⟨rfl, rfl⟩
    · exact ⟨rfl, rfl⟩
  rw [Bool.eq_iff_iff, ownedBy_iff, ownedBy_iff]
  constructor
  · rintro ⟨m, hm, hid, howner⟩
    obtain ⟨a, ha, rfl⟩ := mem_setModel.mp hm
    exact ⟨a, ha, (hkeys a).1.symm.trans hid, (hkeys a).2.symm.trans howner⟩
  · rintro ⟨m, hm, hid, howner⟩
    exact ⟨_, mem_setModel.mpr ⟨m, hm, rfl⟩, (hkeys m).1.trans hid, (hkeys m).2.trans howner⟩

theorem balanced_moderate (hb : Balanced u h b) (id : Uuid) (state : ModelState) (visibility : Visibility) :
    Balanced u { h with db := setModel id state visibility h.db } b := by
  refine hb.kept (Int.le_refl _) rfl fun t _ q => ?_
  unfold ownedSum
  refine Table.sum_congr fun v _ => ?_
  rw [ownedBy_setModel]

theorem balanced_step (hb : Balanced u h b) (hs : (lts dep).step h l h') :
    Balanced u h' (posted dep u h b l) := by
  cases hs
  cases l with
  | account id standing => exact balanced_same hb (Int.le_refl _) ⟨rfl, rfl, rfl⟩
  | moderate id state visibility => exact balanced_moderate hb id state visibility
  | service l =>
    cases l with
    | tick d => exact balanced_same hb (Int.le_add_of_nonneg_right (Int.natCast_nonneg d)) (.refl _)
    | call c => exact balanced_serve hb dep c
    | sweep => exact balanced_swept hb

theorem balanced_run (hr : (lts dep).Run h ls h') (hb : Balanced u h b) :
    Balanced u h' (bookAfter dep u h ls b) := by
  induction hr generalizing b with
  | nil => exact hb
  | cons hs _ ih =>
    have hstep := balanced_step hb hs
    cases hs
    exact ih hstep

theorem balanced_start (hstart : Start h) : Balanced u h .empty := by
  unfold Start at hstart
  refine ⟨by rw [hstart]; rfl, fun t _ q => ?_⟩
  rw [hstart]
  rfl

/-! ## What is reported -/

theorem me_ok (hme : (serve dep ⟨req, .me, secret⟩ h).1 = .ok (.account user usage)) :
    usage = usageFor h.db h.now user.id user.storageLimit := by
  have hx : (dbSession (me dep h.now req) h.db h.volume).1 = .ok (.account user usage) := hme
  unfold me at hx
  rw [dbSession_session] at hx
  generalize hexec : Work.exec _ h.db h.volume = out at hx
  obtain ⟨res, db', fs'⟩ := out
  obtain rfl : res = .ok (.account user usage) := hx
  obtain ⟨⟨found, granted⟩, db₁, fs₁, hcaller, hrest⟩ := Work.exec_bind_eq_ok hexec
  have hsame := (currentUser_ok hcaller).2.sameRows
  cases hrest
  unfold usageFor
  dsimp only
  rw [sameRows_storedBytes hsame, pendingBytes_eq, pendingBytes_eq, sameRows_ownedSum hsame]

/-- **Usage by answers**: what `/v1/me` reports is what the account's own book
says, of the answers it got. -/
theorem usage_by_answers (dep : Deployment) (h₀ h : Hub) (ls : List Lbl) (hstart : Start h₀)
    (hrun : (lts dep).Run h₀ ls h) (req : Presented) (secret : Nat → String) (user : User) (usage : Usage)
    (hme : (serve dep ⟨req, .me, secret⟩ h).1 = .ok (.account user usage)) :
    usage = ⟨(bookAfter dep user.id h₀ ls .empty).used, (bookAfter dep user.id h₀ ls .empty).reserved h.now,
      user.storageLimit⟩ := by
  have hb : Balanced user.id h (bookAfter dep user.id h₀ ls .empty) := balanced_run hrun (balanced_start hstart)
  have hheld := hb.held h.now (Int.le_refl _) fun _ => true
  simp only [Bool.true_and] at hheld
  rw [me_ok hme]
  unfold usageFor Book.reserved
  rw [hb.used, pendingBytes_eq, hheld]

/-! ## A trace -/

/-- Alice asks after her reservation. -/
def asked : Hub := after unverified blank (publishing.take 2)

/-- The usage a reply tells. -/
def reported : Except Raised Reply → Option Usage
  | .ok (.account _ usage) => some usage
  | _ => none

theorem asked_usage : ∃ user usage, (serve unverified (asAlice .me) asked).1 = .ok (.account user usage) ∧
    usage.reservedBytes = 3 ∧
    usage = ⟨(bookAfter unverified user.id blank (publishing.take 2) .empty).used,
      (bookAfter unverified user.id blank (publishing.take 2) .empty).reserved asked.now, user.storageLimit⟩ := by
  obtain ⟨usage, husage, hreserved⟩ : ∃ usage, reported (serve unverified (asAlice .me) asked).1 = some usage ∧
      usage.reservedBytes = 3 := Option.map_eq_some_iff.mp (by decide +kernel)
  unfold reported at husage
  split at husage
  · rename_i user found hme
    cases husage
    exact ⟨user, usage, hme, hreserved, usage_by_answers unverified blank asked (publishing.take 2)
      rfl (run_after _ _ _) _ _ user usage hme⟩
  · cases husage

end SpikeHub.L5.Accounting
