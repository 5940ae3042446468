import SpikeHub.L5Runs.Catalogue

/-!
# The service from an empty database

The runs of `Catalogue` from the first request on: accounts, credentials and
uploads are all there because some request made them. What no route does, and
the columns are there for, an operator does: suspending an account or letting
it publish (`account`), hiding a model or taking it down (`moderate`).

`Sound` is what such a run has at any time, beyond the constraints of the
tables: models have accounts, handles have no character but the allowed ones,
and a chain of tokens is one account's.
-/
namespace SpikeHub.L5.Service

open SpikeHub.Core SpikeHub.L1 SpikeHub.L2 SpikeHub.L4.Auth SpikeHub.L4.Catalog SpikeHub.L4.Uploads
open SpikeHub.L4.Routes
open SpikeHub.L5.Catalogue (swept swept_db serve_rowEffect)
open SpikeHub.L5.Interleave (Hub)
open SpikeHub.L5.Requests (Call serve serve_renewed)
open SpikeHub.L5.Catalogue (unverified)

/-- The columns of an account that say what it may do. -/
structure Standing where
  state : UserState
  canPublish : Bool
  storageLimit : Int

inductive Lbl
  | service (l : Catalogue.Lbl)
  | account (id : Uuid) (standing : Standing)
  | moderate (id : Uuid) (state : ModelState) (visibility : Visibility)

def standingAs (s : Standing) (u : User) : User :=
  { u with state := s.state, canPublish := s.canPublish, storageLimit := s.storageLimit }

/-- `UPDATE users SET … WHERE id` -/
def setStanding (id : Uuid) (s : Standing) (db : Db) : Db :=
  { db with users := db.users.updateWhere (fun u => u.id = id) (standingAs s) fun _ _ h => h }

def moderatedAs (state : ModelState) (visibility : Visibility) (m : HubModel) : HubModel :=
  { m with state := state, visibility := visibility }

/-- `UPDATE models SET … WHERE id` -/
def setModel (id : Uuid) (state : ModelState) (visibility : Visibility) (db : Db) : Db :=
  { db with
    models := db.models.updateWhere (fun m => m.id = id) (moderatedAs state visibility) fun _ _ h => h
    modelKey := by
      intro v hv
      obtain ⟨m, hm, hid⟩ := db.modelKey v hv
      refine ⟨_, Table.mem_updateWhere.mpr ⟨m, hm, rfl⟩, ?_⟩
      split
      · exact hid
      · exact hid }

def step (dep : Deployment) (h : Hub) : Lbl → Hub
  | .service l => Catalogue.step dep h l
  | .account id standing => { h with db := setStanding id standing h.db }
  | .moderate id state visibility => { h with db := setModel id state visibility h.db }

/-- Nothing is there but the volume. -/
def Start (h : Hub) : Prop := h.db = .empty

def lts (dep : Deployment) : LTS Hub Lbl where
  init := Start
  step h l h' := h' = step dep h l

structure Sound (h : Hub) : Prop where
  /-- `hub_models.owner_id` references `users.id` -/
  owners : ∀ m ∈ h.db.models, ∃ u ∈ h.db.users, u.id = m.ownerId
  handles : ∀ u ∈ h.db.users, ∀ c ∈ u.handle.toList, Handles.disallowed c = false
  drawn : ∀ t ∈ h.db.tokens, t.chainId < h.fresh
  chains : ∀ t ∈ h.db.tokens, ∀ t' ∈ h.db.tokens, t.chainId = t'.chainId → t.userId = t'.userId

variable {dep : Deployment} {h h' : Hub} {l : Lbl} {c : Call} {db db' : Db} {fs fs' : Volume} {now : Time}
  {r : Rand} {req : Presented} {body : Request} {res : Except Raised Reply}

/-! ## Accounts -/

/-- An account that is new has the handle it was allocated. -/
def NewHandles (dep : Deployment) (db db' : Db) : Prop :=
  ∀ u ∈ db'.users, u ∈ db.users ∨ ∃ candidates, u.handle = Handles.allocate dep.platform db candidates

theorem newHandles_insert {user : User} (hu) (candidates : List String)
    (husers : db'.users = db.users.insert user hu)
    (hhandle : user.handle = Handles.allocate dep.platform db candidates) : NewHandles dep db db' := by
  intro u hmem
  rw [husers] at hmem
  rcases Table.mem_insert.mp hmem with hmem | rfl
  · exact .inl hmem
  · exact .inr ⟨candidates, hhandle⟩

theorem newHandles_same (husers : db'.users = db.users) : NewHandles dep db db' :=
  fun _ hu => .inl (husers ▸ hu)

theorem newHandles_register {email password agent : String}
    (h : dbSession (register dep now r email password agent) db fs = (res, db', fs')) :
    NewHandles dep db db' := by
  rcases committing_cases h with ⟨e, rfl, rfl⟩ | ⟨reply, rfl, hx⟩
  · exact newHandles_same rfl
  obtain ⟨user, d₁, w₁, h₁, hrest⟩ := Work.exec_bind_eq_ok hx
  obtain ⟨rfl, hu, rfl, hreg⟩ := Accounts.register_ok h₁
  obtain ⟨cookie, d₂, w₂, h₂, hrest⟩ := Work.exec_bind_eq_ok hrest
  obtain ⟨⟨_, hsession⟩, -⟩ := start_opens h₂
  cases hrest
  exact newHandles_insert hu _ (congrArg Db.users hsession) (by rw [hreg, Accounts.registered_handle])

theorem newHandles_oauthCallback {profile : OAuthProfile} {agent : String}
    (h : dbSession (oauthCallback dep now r profile agent) db fs = (res, db', fs')) :
    NewHandles dep db db' := by
  rcases committing_cases h with ⟨e, rfl, rfl⟩ | ⟨reply, rfl, hx⟩
  · exact newHandles_same rfl
  obtain ⟨user, d₁, w₁, h₁, hrest⟩ := Work.exec_bind_eq_ok hx
  obtain ⟨cookie, d₂, w₂, h₂, hrest⟩ := Work.exec_bind_eq_ok hrest
  obtain ⟨⟨_, hsession⟩, -⟩ := start_opens h₂
  cases hrest
  rcases Accounts.linkOrCreate_users h₁ with hsame | ⟨hu, husers, hhandle⟩
  · exact newHandles_same ((congrArg Db.users hsession).trans hsame)
  · exact newHandles_insert hu _ ((congrArg Db.users hsession).trans husers) hhandle

/-- Only registrations and provider sign-ins add accounts. -/
theorem sameUsers_of_effect (h : Effect dep now r req db body res db')
    (hregister : ∀ email password agent, body ≠ .register email password agent)
    (hlink : ∀ profile agent, body ≠ .oauthCallback profile agent) : db'.users = db.users := by
  cases h with
  | quiet => rfl
  | registered => exact absurd rfl (hregister _ _ _)
  | loggedIn _ hopen =>
    obtain ⟨_, rfl⟩ := hopen.row
    rfl
  | loggedOut => rfl
  | refreshed _ _ _ _ hadd =>
    obtain ⟨_, _, _, _, rfl⟩ := hadd.rows
    rfl
  | linked => exact absurd rfl (hlink _ _)
  | endedAll hcaller | minted hcaller | revokedPat hcaller => exact hcaller.sameUsers
  | uploaded _ hcaller _ hsame => exact hsame.users.trans hcaller.sameUsers
  | downloaded hsame => exact hsame.users

theorem newHandles_of_route (h : dbSession (route dep now r req body) db fs = (res, db', fs')) :
    NewHandles dep db db' := by
  have hsame : (∀ email password agent, body ≠ .register email password agent) →
      (∀ profile agent, body ≠ .oauthCallback profile agent) → NewHandles dep db db' :=
    fun hregister hlink => newHandles_same (sameUsers_of_effect (effect_of_route h) hregister hlink)
  cases body with
  | register => exact newHandles_register h
  | oauthCallback => exact newHandles_oauthCallback h
  | _ => exact hsame (fun _ _ _ he => by cases he) fun _ _ he => by cases he

theorem serve_handles (dep : Deployment) (c : Call) (h : Hub) :
    NewHandles dep h.db (serve dep c h).2.db :=
  newHandles_of_route rfl

/-! ## Chains -/

/-- A new token is of a chain that was there, or the first of one of the caller's. -/
theorem newToken_origin {t : Token} (ht : NewToken dep now r req db body t) :
    (∃ a ∈ db.tokens, a.chainId = t.chainId ∧ a.userId = t.userId) ∨
      t.chainId = r.base + 1 ∧ ∃ user granted db',
        CallerOf dep.platform now dep.config req db user granted db' ∧ t.userId = user.id := by
  cases ht with
  | minted hcaller huser _ hchain => exact .inr ⟨hchain, _, _, _, hcaller, huser⟩
  | rotated hacc _ huser _ hchain => exact .inl ⟨_, hacc.mem, hchain.symm, huser.symm⟩

theorem token_origin {t : Token} (ht : t ∈ (serve dep c h).2.db.tokens) :
    (∃ a ∈ h.db.tokens, a.chainId = t.chainId ∧ a.userId = t.userId) ∨
      t.chainId = h.fresh + 1 ∧ ∃ user granted db,
        CallerOf dep.platform h.now dep.config c.req h.db user granted db ∧ t.userId = user.id := by
  rcases (serve_renewed dep c h).carries.tokens.old t ht with ⟨a, ha, hcont⟩ | hnew
  · exact .inl ⟨a, ha, hcont.chainId.symm, hcont.userId.symm⟩
  · exact newToken_origin hnew

theorem Sound.serve_chains (hi : Sound h) : ∀ t ∈ (serve dep c h).2.db.tokens,
    ∀ t' ∈ (serve dep c h).2.db.tokens, t.chainId = t'.chainId → t.userId = t'.userId := by
  have hapart : ∀ a ∈ h.db.tokens, a.chainId ≠ h.fresh + 1 := fun a ha =>
    Nat.ne_of_lt (Nat.lt_succ_of_lt (hi.drawn a ha))
  intro t ht t' ht' hchain
  rcases token_origin ht with ⟨a, ha, hac, hau⟩ | ⟨hfirst, user, granted, db, hcaller, huser⟩
  · rcases token_origin ht' with ⟨b, hb, hbc, hbu⟩ | ⟨hfirst', -⟩
    · rw [← hau, ← hbu]
      exact hi.chains a ha b hb (by rw [hac, hbc, hchain])
    · exact absurd (hac.trans (hchain.trans hfirst')) (hapart a ha)
  · rcases token_origin ht' with ⟨b, hb, hbc, -⟩ | ⟨-, user', granted', db', hcaller', huser'⟩
    · exact absurd (hbc.trans (hchain.symm.trans hfirst)) (hapart b hb)
    · rw [huser, huser', hcaller.unique hcaller']

/-! ## Every run -/

/-- A new model is the account's whose upload it is for. -/
theorem models_of_rowEffect {m : HubModel} (h : RowEffect dep now r req db fs body res db')
    (hm : m ∈ db'.models) : m ∈ db.models ∨ ∃ u ∈ db.users, u.id = m.ownerId := by
  cases h with
  | same hsame => exact .inl (hsame.models ▸ hm)
  | reserved hcaller _ hgranted =>
    obtain ⟨-, hcaller⟩ := currentUser_ok hcaller
    rcases hgranted.models hm with hold | rfl
    · exact .inl (hcaller.sameRows.models ▸ hold)
    · exact .inr ⟨_, hcaller.account.1, rfl⟩
  | stored hsame _ hstore =>
    obtain ⟨-, _, rfl⟩ := storeUploaded_ok hstore
    exact .inl (hsame.models ▸ hm)
  | published hsame => exact .inl (hsame.models ▸ hm)
  | counted => exact .inl hm

theorem sound_start (hstart : Start h) : Sound h := by
  unfold Start at hstart
  refine ⟨fun m hm => ?_, fun u hu => ?_, fun t ht => ?_, fun t ht => ?_⟩
  · rw [hstart] at hm; cases hm
  · rw [hstart] at hu; cases hu
  · rw [hstart] at ht; cases ht
  · rw [hstart] at ht; cases ht

theorem sound_serve (hi : Sound h) (dep : Deployment) (c : Call) : Sound (serve dep c h).2 where
  owners m hm := by
    have hkept := (serve_renewed dep c h).carries.users
    rcases models_of_rowEffect (serve_rowEffect dep c h) hm with hold | ⟨u, hu, howner⟩
    · obtain ⟨u, hu, howner⟩ := hi.owners m hold
      exact ⟨u, hkept u hu, howner⟩
    · exact ⟨u, hkept u hu, howner⟩
  handles u hu := by
    rcases serve_handles dep c h u hu with hold | ⟨candidates, hhandle⟩
    · exact hi.handles u hold
    · rw [hhandle]
      exact fun _ => Handles.allocate_allowed
  drawn t ht := by
    have hwidth : h.fresh + 1 < h.fresh + Rand.width := Nat.add_lt_add_left (by decide) _
    show t.chainId < h.fresh + Rand.width
    rcases token_origin ht with ⟨a, ha, hchain, -⟩ | ⟨hfirst, -⟩
    · rw [← hchain]
      exact Nat.lt_add_right _ (hi.drawn a ha)
    · rw [hfirst]
      exact hwidth
  chains := hi.serve_chains

theorem sound_swept (hi : Sound h) : Sound (swept h) := by
  refine ⟨fun m hm => ?_, fun u hu => ?_, fun t ht => ?_, fun t ht t' ht' => ?_⟩
  · rw [swept_db] at hm ⊢; exact hi.owners m hm
  · rw [swept_db] at hu; exact hi.handles u hu
  · rw [swept_db] at ht; exact hi.drawn t ht
  · rw [swept_db] at ht ht'; exact hi.chains t ht t' ht'

theorem mem_setStanding {id : Uuid} {s : Standing} {u : User} : u ∈ (setStanding id s db).users ↔
    ∃ a ∈ db.users, (if decide (a.id = id) then standingAs s a else a) = u :=
  Table.mem_updateWhere (g := standingAs s) (h := fun _ _ h => h)

theorem mem_setModel {id : Uuid} {state : ModelState} {visibility : Visibility} {m : HubModel} :
    m ∈ (setModel id state visibility db).models ↔
      ∃ a ∈ db.models, (if decide (a.id = id) then moderatedAs state visibility a else a) = m :=
  Table.mem_updateWhere (g := moderatedAs state visibility) (h := fun _ _ h => h)

theorem sound_account (hi : Sound h) (id : Uuid) (s : Standing) :
    Sound { h with db := setStanding id s h.db } where
  owners m hm := by
    obtain ⟨u, hu, howner⟩ := hi.owners m hm
    refine ⟨_, mem_setStanding.mpr ⟨u, hu, rfl⟩, ?_⟩
    split
    · exact howner
    · exact howner
  handles u hu := by
    obtain ⟨a, ha, rfl⟩ := mem_setStanding.mp hu
    split
    · exact hi.handles a ha
    · exact hi.handles a ha
  drawn := hi.drawn
  chains := hi.chains

theorem sound_moderate (hi : Sound h) (id : Uuid) (state : ModelState) (visibility : Visibility) :
    Sound { h with db := setModel id state visibility h.db } where
  owners m hm := by
    obtain ⟨a, ha, rfl⟩ := mem_setModel.mp hm
    obtain ⟨u, hu, howner⟩ := hi.owners a ha
    refine ⟨u, hu, ?_⟩
    split
    · exact howner
    · exact howner
  handles := hi.handles
  drawn := hi.drawn
  chains := hi.chains

theorem sound_step (hi : Sound h) (hs : (lts dep).step h l h') : Sound h' := by
  cases hs
  cases l with
  | account id standing => exact sound_account hi id standing
  | moderate id state visibility => exact sound_moderate hi id state visibility
  | service l =>
    cases l with
    | tick => exact ⟨hi.owners, hi.handles, hi.drawn, hi.chains⟩
    | call c => exact sound_serve hi dep c
    | sweep => exact sound_swept hi

theorem sound_inductive (dep : Deployment) : (lts dep).Inductive Sound :=
  ⟨fun _ => sound_start, fun _ _ _ => sound_step⟩

theorem sound_reachable (hr : (lts dep).Reachable h) : Sound h := (sound_inductive dep).reachable h hr

/-- A handle has no slash. -/
theorem Sound.slash (hi : Sound h) : ∀ u ∈ h.db.users, '/' ∉ u.handle.toList := fun u hu hc =>
  absurd (hi.handles u hu _ hc) (by decide)

/-- The index, whoever asks for it. -/
theorem serve_catalogIndex (dep : Deployment) (h : Hub) (req : Presented) (secret : Nat → String) :
    (serve dep ⟨req, .catalogIndex, secret⟩ h).1 =
      .ok (.index (document ((newest h.db 1000).map (entryFor · dep.config.artifactPublicBase)))) := by
  have hrows : published dep.platform dep.sql h.db "" 1000 = newest h.db 1000 := published_newest
  rw [← hrows]
  rfl

/-! ## Traces -/

/-- An empty hub. -/
def blank : Hub where
  now := 0
  db := .empty
  volume := .empty _
  fresh := 1

/-- A provider's account of hers, the address verified. -/
def aliceProfile : OAuthProfile where
  provider := "forge"
  subject := "7"
  email := "alice@example.org"
  emailVerified := true
  username := "alice"

/-- Alice has signed in with her provider, and got the cookie `asAlice` presents. -/
def signedUp : Hub :=
  step unverified blank (.service (.call ⟨{}, .oauthCallback aliceProfile "", fun _ => "first"⟩))

theorem signedUp_reachable : (lts unverified).Reachable signedUp :=
  ⟨blank, [_], rfl, .cons rfl (.nil _)⟩

def after (dep : Deployment) (h : Hub) (ls : List Lbl) : Hub := ls.foldl (step dep) h

theorem run_after (dep : Deployment) (h : Hub) (ls : List Lbl) : (lts dep).Run h ls (after dep h ls) := by
  induction ls generalizing h with
  | nil => exact .nil h
  | cons l ls ih => exact .cons rfl (ih (step dep h l))

theorem reachable_after (ls : List Lbl) : (lts unverified).Reachable (after unverified signedUp ls) :=
  signedUp_reachable.run (run_after unverified signedUp ls)

end SpikeHub.L5.Service
