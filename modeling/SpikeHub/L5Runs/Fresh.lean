import SpikeHub.L5Runs.Service

/-!
# What every row has

A row's id is one its request drew (`Rand.draw`), so every id in the database
is below `Hub.fresh` (`fresh_reachable`), and a new row clashes with an old one
on another constraint than its primary key, if at all.
-/
namespace SpikeHub.L5.Fresh

open SpikeHub.Core SpikeHub.L1 SpikeHub.L2 SpikeHub.L4.Auth SpikeHub.L4.Uploads SpikeHub.L4.Routes
open SpikeHub.L5.Service
open SpikeHub.L5.Interleave (Hub)
open SpikeHub.L5.Requests (Call serve serve_effect)
open SpikeHub.L5.Catalogue (swept swept_db serve_rowEffect)

/-- Every id in the database is below `n`. -/
structure Below (n : Uuid) (db : Db) : Prop where
  users : ∀ u ∈ db.users, u.id < n
  identities : ∀ i ∈ db.identities, i.id < n
  sessions : ∀ s ∈ db.sessions, s.id < n
  tokens : ∀ t ∈ db.tokens, t.id < n
  models : ∀ m ∈ db.models, m.id < n
  versions : ∀ v ∈ db.versions, v.id < n
  entries : ∀ e ∈ db.entries, e.id < n

/-- Of the tables of accounts and credentials. -/
structure BelowAuth (n : Uuid) (db : Db) : Prop where
  users : ∀ u ∈ db.users, u.id < n
  identities : ∀ i ∈ db.identities, i.id < n
  sessions : ∀ s ∈ db.sessions, s.id < n
  tokens : ∀ t ∈ db.tokens, t.id < n

/-- Of the tables of what is uploaded. -/
structure BelowRows (n : Uuid) (db : Db) : Prop where
  models : ∀ m ∈ db.models, m.id < n
  versions : ∀ v ∈ db.versions, v.id < n
  entries : ∀ e ∈ db.entries, e.id < n

variable {dep : Deployment} {h h' : Hub} {l : Lbl} {c : Call} {db db' : Db} {fs : Volume} {now : Time}
  {r : Rand} {req : Presented} {body : Request} {res : Except Raised Reply} {n n' : Uuid}

theorem Below.auth (h : Below n db) : BelowAuth n db := ⟨h.users, h.identities, h.sessions, h.tokens⟩

theorem Below.rows (h : Below n db) : BelowRows n db := ⟨h.models, h.versions, h.entries⟩

theorem below_of (ha : BelowAuth n db) (hr : BelowRows n db) : Below n db :=
  ⟨ha.users, ha.identities, ha.sessions, ha.tokens, hr.models, hr.versions, hr.entries⟩

theorem Below.mono (h : Below n db) (hn : n ≤ n') : Below n' db where
  users u hu := Nat.lt_of_lt_of_le (h.users u hu) hn
  identities i hi := Nat.lt_of_lt_of_le (h.identities i hi) hn
  sessions s hs := Nat.lt_of_lt_of_le (h.sessions s hs) hn
  tokens t ht := Nat.lt_of_lt_of_le (h.tokens t ht) hn
  models m hm := Nat.lt_of_lt_of_le (h.models m hm) hn
  versions v hv := Nat.lt_of_lt_of_le (h.versions v hv) hn
  entries e he := Nat.lt_of_lt_of_le (h.entries e he) hn

/-! ## Statements -/

theorem BelowAuth.revoked (h : BelowAuth n db) (q : Token → Bool) : BelowAuth n (revokeTokens now q db) where
  users := h.users
  identities := h.identities
  sessions := h.sessions
  tokens := Table.forall_updateWhere (L4.Auth.revoked now) (fun _ _ h => h) h.tokens fun _ h => h

theorem BelowAuth.touchedToken (h : BelowAuth n db) (id : Uuid) : BelowAuth n (touchToken now id db) where
  users := h.users
  identities := h.identities
  sessions := h.sessions
  tokens := Table.forall_updateWhere (touched now) (fun _ _ h => h) h.tokens fun _ h => h

theorem BelowAuth.ended (h : BelowAuth n db) (q : Session → Bool) :
    BelowAuth n (Sessions.endSessions now q db) where
  users := h.users
  identities := h.identities
  sessions := Table.forall_updateWhere (Sessions.ended now) (fun _ _ h => h) h.sessions fun _ h => h
  tokens := h.tokens

theorem BelowAuth.touchedSession (h : BelowAuth n db) (id : Uuid) :
    BelowAuth n (Sessions.touchSession now id db) where
  users := h.users
  identities := h.identities
  sessions := Table.forall_updateWhere (Sessions.seen now) (fun _ _ h => h) h.sessions fun _ h => h
  tokens := h.tokens

theorem BelowAuth.touchedIdentity (h : BelowAuth n db) (id : Uuid) :
    BelowAuth n (Accounts.touchIdentity now id db) where
  users := h.users
  identities := Table.forall_updateWhere (Accounts.used now) (fun _ _ h => h) h.identities fun _ h => h
  sessions := h.sessions
  tokens := h.tokens

theorem BelowAuth.caller {p : Platform} {config : Settings} {user : User} {granted : List Scope}
    (h : BelowAuth n db) (hc : CallerOf p now config req db user granted db') : BelowAuth n db' := by
  cases hc with
  | bearer => exact h.touchedToken _
  | cookie => exact h.touchedSession _

theorem BelowAuth.opened {d : Draw} {user : User} {agent cookie : String} (h : BelowAuth n db)
    (hd : d.id < n) (ho : OpensSession dep now d user agent cookie db db') : BelowAuth n db' := by
  obtain ⟨hs, rfl⟩ := ho.row
  exact ⟨h.users, h.identities, Table.forall_insert hs h.sessions hd, h.tokens⟩

theorem BelowAuth.addedPair {ds : PairDraws} {user : User} {scopes : List Scope} {chain : Uuid}
    (h : BelowAuth n db) (ha : ds.access.id < n) (hr : ds.refresh.id < n)
    (hadd : AddedPair dep.platform now ds user scopes dep.config chain db db') : BelowAuth n db' := by
  obtain ⟨mid, hm, hm', rfl, rfl⟩ := hadd.rows
  refine ⟨h.users, h.identities, h.sessions, ?_⟩
  exact Table.forall_insert hm' (Table.forall_insert hm h.tokens ha) hr

theorem BelowAuth.linked {p : Platform} {ids : Accounts.LinkIds} {profile : OAuthProfile}
    {config : Settings} {user : User} (h : BelowAuth n db) (hu : ids.user < n) (hi : ids.identity < n)
    (hl : Accounts.Linked p now ids profile config db user db') : BelowAuth n db' := by
  cases hl with
  | known => exact h.touchedIdentity _
  | adopted =>
    rename_i hnew _
    exact ⟨h.users, Table.forall_insert hnew h.identities hi, h.sessions, h.tokens⟩
  | created _ _ _ hprofiled =>
    rename_i hnew hlink
    refine ⟨Table.forall_insert hnew h.users ?_, Table.forall_insert hlink h.identities hi,
      h.sessions, h.tokens⟩
    rw [hprofiled]
    exact hu

/-! ## Requests -/

/-- What a request draws. -/
theorem draw_lt (r : Rand) {i : Nat} (hi : i < 3) : (r.draw i).id < r.base + Rand.width :=
  Nat.add_lt_add_left (Nat.mul_lt_mul_of_pos_left hi (by decide)) _

theorem base_lt (r : Rand) {i : Nat} (hi : i < 6) : r.base + i < r.base + Rand.width :=
  Nat.add_lt_add_left hi _

theorem belowAuth_effect (hb : BelowAuth (r.base + Rand.width) db)
    (h : Effect dep now r req db body res db') : BelowAuth (r.base + Rand.width) db' := by
  have hbase : r.base < r.base + Rand.width := base_lt r (i := 0) (by decide)
  cases h with
  | quiet => exact hb
  | registered hreg hopen =>
    rename_i hu
    refine BelowAuth.opened ?_ (draw_lt r (by decide)) hopen
    refine ⟨Table.forall_insert hu hb.users ?_, hb.identities, hb.sessions, hb.tokens⟩
    rw [hreg]
    exact hbase
  | loggedIn _ hopen => exact hb.opened (draw_lt r (by decide)) hopen
  | loggedOut => exact hb.ended _
  | refreshed _ _ _ _ hadd =>
    exact (hb.revoked _).addedPair (draw_lt r (by decide)) (draw_lt r (by decide)) hadd
  | linked hlink hopen =>
    exact (hb.linked hbase (base_lt r (by decide)) hlink).opened (draw_lt r (by decide)) hopen
  | endedAll hcaller => exact (hb.caller hcaller).ended _
  | minted hcaller =>
    rename_i ht
    have hc := hb.caller hcaller
    exact ⟨hc.users, hc.identities, hc.sessions,
      Table.forall_insert ht hc.tokens (draw_lt r (i := 0) (by decide))⟩
  | revokedPat hcaller => exact (hb.caller hcaller).revoked _
  | uploaded _ hcaller _ hsame =>
    have hc := hb.caller hcaller
    exact ⟨hsame.users ▸ hc.users, hsame.identities ▸ hc.identities, hsame.sessions ▸ hc.sessions,
      hsame.tokens ▸ hc.tokens⟩
  | downloaded hsame =>
    exact ⟨hsame.users ▸ hb.users, hsame.identities ▸ hb.identities, hsame.sessions ▸ hb.sessions,
      hsame.tokens ▸ hb.tokens⟩

theorem BelowRows.same (h : BelowRows n db) (hsame : SameRows db db') : BelowRows n db' :=
  ⟨hsame.models ▸ h.models, hsame.versions ▸ h.versions, hsame.entries ▸ h.entries⟩

theorem BelowRows.setVersion (h : BelowRows n db) {id : Uuid} {f : ModelVersion → ModelVersion}
    (hf : KeepsKeys f) : BelowRows n (setVersion db id f hf) where
  models := h.models
  versions := Table.forall_updateWhere f hf.clash h.versions fun v hv => by rw [hf.id]; exact hv
  entries := h.entries

theorem belowRows_rowEffect (hb : BelowRows (r.base + Rand.width) db)
    (h : RowEffect dep now r req db fs body res db') : BelowRows (r.base + Rand.width) db' := by
  have hbase : r.base < r.base + Rand.width := base_lt r (i := 0) (by decide)
  cases h with
  | same hsame => exact hb.same hsame
  | reserved hcaller _ hgranted =>
    have hc := hb.same (currentUser_ok hcaller).2.sameRows
    obtain ⟨modelId, hadd⟩ := hgranted.added
    refine ⟨fun m hm => ?_, fun v hv => ?_, hadd.entries ▸ hc.entries⟩
    · rcases hgranted.models hm with hold | rfl
      · exact hc.models m hold
      · exact hbase
    · rcases hadd.mem.mp hv with hold | rfl
      · exact hc.versions v hold
      · exact base_lt r (by decide)
  | stored hsame _ hstore =>
    obtain ⟨-, he, rfl⟩ := storeUploaded_ok hstore
    have hc := hb.same hsame
    exact ⟨hc.models, (hc.setVersion (uploadedAs_keys _)).versions,
      Table.forall_insert he hc.entries hbase⟩
  | published hsame => exact (hb.same hsame).setVersion (movedOn_keys _ _)
  | counted => exact hb.setVersion (countedFrom_keys _)

theorem below_serve (hb : Below h.fresh h.db) (dep : Deployment) (c : Call) :
    Below (h.fresh + Rand.width) (serve dep c h).2.db := by
  have hmore : Below (h.fresh + Rand.width) h.db := hb.mono (Nat.le_add_right _ _)
  exact below_of (belowAuth_effect hmore.auth (serve_effect dep c h))
    (belowRows_rowEffect hmore.rows (serve_rowEffect dep c h))

/-! ## Every run -/

theorem below_swept (hb : Below n h.db) : Below n (swept h).db := by
  rw [swept_db]
  exact ⟨hb.users, hb.identities, hb.sessions, hb.tokens, hb.models,
    fun v hv => hb.versions v (mem_deleteVersions.mp hv).1, hb.entries⟩

theorem below_account (hb : Below n db) (id : Uuid) (s : Standing) : Below n (setStanding id s db) where
  users := Table.forall_updateWhere (standingAs s) (fun _ _ h => h) hb.users fun _ h => h
  identities := hb.identities
  sessions := hb.sessions
  tokens := hb.tokens
  models := hb.models
  versions := hb.versions
  entries := hb.entries

theorem below_moderate (hb : Below n db) (id : Uuid) (state : ModelState) (visibility : Visibility) :
    Below n (setModel id state visibility db) where
  users := hb.users
  identities := hb.identities
  sessions := hb.sessions
  tokens := hb.tokens
  models :=
    Table.forall_updateWhere (moderatedAs state visibility) (fun _ _ h => h) hb.models fun _ h => h
  versions := hb.versions
  entries := hb.entries

theorem below_step (hb : Below h.fresh h.db) (hs : (lts dep).step h l h') : Below h'.fresh h'.db := by
  cases hs
  cases l with
  | account id standing => exact below_account hb id standing
  | moderate id state visibility => exact below_moderate hb id state visibility
  | service l =>
    cases l with
    | tick => exact hb
    | call c => exact below_serve hb dep c
    | sweep => exact below_swept hb

theorem below_start (hstart : Start h) : Below h.fresh h.db := by
  unfold Start at hstart
  rw [hstart]
  exact ⟨nofun, nofun, nofun, nofun, nofun, nofun, nofun⟩

theorem fresh_inductive (dep : Deployment) : (lts dep).Inductive fun h => Below h.fresh h.db :=
  ⟨fun _ => below_start, fun _ _ _ => below_step⟩

theorem fresh_reachable (hr : (lts dep).Reachable h) : Below h.fresh h.db :=
  (fresh_inductive dep).reachable h hr

end SpikeHub.L5.Fresh
