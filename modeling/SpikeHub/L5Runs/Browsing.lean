import SpikeHub.L4Routes.Uses
import SpikeHub.L5Runs.Lasting

/-!
# Browser sessions, over their history

A session ends at a logout with its cookie and when its account signs out
everywhere (`Ends`), and is used by the requests it authenticates on a route
that commits (`Uses`); reading keeps no use. What a run has left of a session
is what its steps of these two kinds say: its mark (`ended_run`) and when it was
last seen (`lastSeen_run`). So whether a cookie signs in, and whom, can be read
off the requests since it was set (`cookie_authenticates_iff`).
-/
namespace SpikeHub.L5.Browsing

open SpikeHub.Core SpikeHub.L1 SpikeHub.L2 SpikeHub.L4.Auth SpikeHub.L4.Uploads SpikeHub.L4.Routes
open SpikeHub.L5.Service
open SpikeHub.L5.Interleave (Hub)
open SpikeHub.L5.Lasting (CallerOf.exec caller_eq_some signedIn_of_cookies)
open SpikeHub.L5.Requests (Call serve serve_effect caller asAlice plain)
open SpikeHub.L5.Catalogue (swept swept_db unverified)

/-- The request is by the cookie, and nothing before it. -/
def ByCookie (p : Platform) (cookie : String) (req : Presented) : Prop :=
  bearer p req = none ∧ ∃ value, req.cookie = some value ∧ value ≠ "" ∧ p.hashToken value = p.hashToken cookie

/-- The request is answered on a route that commits. -/
def Uses (dep : Deployment) (cookie : String) (s : Hub) (l : Lbl) : Prop :=
  ∃ c, l = .service (.call c) ∧ ByCookie dep.platform cookie c.req ∧ c.body.keepsUse = true ∧
    (serve dep c s).1.isOk = true

/-- A logout with the cookie, or its account signing out everywhere. -/
inductive Ends (dep : Deployment) (cookie : String) (owner : Uuid) (s : Hub) : Lbl → Prop
  | logout {c : Call} {value : String} :
      c.body = .logout → c.req.cookie = some value → value ≠ "" →
      dep.platform.hashToken value = dep.platform.hashToken cookie →
      Ends dep cookie owner s (.service (.call c))
  | everywhere {c : Call} {user : User} :
      c.body = .revokeAll → caller dep s c.req = some user → user.id = owner →
      Ends dep cookie owner s (.service (.call c))

/-- The session is in the database, and has ended if `b`. -/
def Marked (row : Session) (b : Prop) (db : Db) : Prop :=
  ∃ a ∈ db.sessions, a.id = row.id ∧ a.tokenHash = row.tokenHash ∧ a.userId = row.userId ∧
    (a.revokedAt.isSome = true ↔ b)

variable {dep : Deployment} {h h' : Hub} {l : Lbl} {ls : List Lbl} {c : Call} {db db' : Db} {fs : Volume}
  {now t t' : Time} {r : Rand} {req : Presented} {body : Request} {res : Except Raised Reply} {row : Session}
  {b b' : Prop} {user : User} {granted : List Scope} {p : Platform} {config : Settings} {cookie : String}

theorem Marked.unique (h : Marked row b db) (h' : Marked row b' db) : b ↔ b' := by
  obtain ⟨a, ha, hid, -, -, hmark⟩ := h
  obtain ⟨a', ha', hid', -, -, hmark'⟩ := h'
  rw [db.sessions.eq_of_clash ha' ha (.inl (hid'.trans hid.symm))] at hmark'
  exact hmark.symm.trans hmark'

theorem Marked.iff (h : Marked row b db) (hb : b ↔ b') : Marked row b' db := by
  obtain ⟨a, ha, hid, hhash, howner, hmark⟩ := h
  exact ⟨a, ha, hid, hhash, howner, hmark.trans hb⟩

theorem Marked.same (h : Marked row b db) (hs : db'.sessions = db.sessions) : Marked row b db' := by
  unfold Marked
  rw [hs]
  exact h

theorem Marked.opened {d : Draw} {agent cookie : String} (h : Marked row b db)
    (ho : OpensSession dep now d user agent cookie db db') : Marked row b db' := by
  obtain ⟨a, ha, hmarked⟩ := h
  obtain ⟨hs, rfl⟩ := ho.row
  exact ⟨a, Table.mem_insert_of_mem hs ha, hmarked⟩

theorem Marked.touched (h : Marked row b db) (id : Uuid) : Marked row b (Sessions.touchSession now id db) := by
  obtain ⟨a, ha, hmarked⟩ := h
  refine ⟨_, Sessions.mem_touchSession.mpr ⟨a, ha, rfl⟩, ?_⟩
  split
  · exact hmarked
  · exact hmarked

theorem Marked.caller (h : Marked row b db) (hc : CallerOf p now config req db user granted db') :
    Marked row b db' := by
  cases hc with
  | bearer => exact h.same rfl
  | cookie => exact h.touched _

/-- Sessions that end, this one among them or not. -/
theorem Marked.ended (h : Marked row b db) {q : Session → Bool} {e : Prop}
    (hq : ∀ a, a.tokenHash = row.tokenHash → a.userId = row.userId →
      (a.revokedAt.isSome = true ∨ q a = true ↔ a.revokedAt.isSome = true ∨ e)) :
    Marked row (b ∨ e) (Sessions.endSessions now q db) := by
  obtain ⟨a, ha, hid, hhash, howner, hmark⟩ := h
  refine ⟨_, Sessions.mem_endSessions.mpr ⟨a, ha, rfl⟩, ?_⟩
  rw [← hmark, ← hq a hhash howner]
  by_cases hqa : q a = true
  · rw [if_pos hqa]
    exact ⟨hid, hhash, howner, iff_of_true rfl (.inr hqa)⟩
  · rw [if_neg hqa]
    exact ⟨hid, hhash, howner, (or_iff_left hqa).symm⟩

/-! ## What a request leaves -/

/-- Only the two routes that sign out end a session. -/
theorem marked_effect (h : Effect dep now r req db body res db') (hm : Marked row b db)
    (hlogout : body ≠ .logout) (hall : body ≠ .revokeAll) : Marked row b db' := by
  cases h with
  | quiet => exact hm
  | registered _ hopen =>
    refine Marked.opened ?_ hopen
    exact hm.same rfl
  | loggedIn _ hopen => exact hm.opened hopen
  | loggedOut => exact absurd rfl hlogout
  | refreshed _ _ _ _ hadd =>
    obtain ⟨mid, _, _, -, rfl⟩ := hadd.rows
    exact hm.same rfl
  | linked hlink hopen =>
    refine Marked.opened ?_ hopen
    cases hlink with
    | known => exact hm.same rfl
    | adopted => exact hm.same rfl
    | created => exact hm.same rfl
  | endedAll => exact absurd rfl hall
  | minted hcaller => exact (hm.caller hcaller).same rfl
  | revokedPat hcaller => exact (hm.caller hcaller).same rfl
  | uploaded _ hcaller _ hsame => exact (hm.caller hcaller).same hsame.sessions
  | downloaded hsame => exact hm.same hsame.sessions

theorem logout_db (dep : Deployment) (c : Call) (h : Hub) (hbody : c.body = .logout) :
    (serve dep c h).2.db = match c.req.cookie.filter (· ≠ "") with
      | some cookie => Sessions.endSessions h.now (fun s => s.tokenHash = dep.platform.hashToken cookie) h.db
      | none => h.db := by
  unfold serve
  rw [hbody]
  show (dbSession (logout dep h.now c.req) h.db h.volume).2.1 = _
  unfold logout
  cases c.req.cookie.filter (· ≠ "") with
  | none => rfl
  | some value => rfl

theorem revokeAll_exec {db₁ : Db} (hc : CallerOf dep.platform now dep.config req db user granted db₁) :
    (dbSession (revokeAll dep now req) db fs).2.1 =
      Sessions.endSessions now (Sessions.openOf user.id) db₁ := by
  unfold revokeAll
  rw [dbSession_commit, Work.exec_bind_ok (CallerOf.exec hc)]
  rfl

theorem marked_logout (hm : Marked row b h.db) (hhash : row.tokenHash = dep.platform.hashToken cookie)
    (hbody : c.body = .logout) :
    Marked row (b ∨ Ends dep cookie row.userId h (.service (.call c))) (serve dep c h).2.db := by
  have hends : Ends dep cookie row.userId h (.service (.call c)) ↔
      ∃ value, c.req.cookie.filter (· ≠ "") = some value ∧
        dep.platform.hashToken value = dep.platform.hashToken cookie := by
    constructor
    · intro he
      cases he with
      | logout _ hcookie hne heq =>
        exact ⟨_, Option.filter_eq_some_iff.mpr ⟨hcookie, decide_eq_true hne⟩, heq⟩
      | everywhere hall => rw [hbody] at hall; cases hall
    · intro he
      obtain ⟨value, hfilter, heq⟩ := he
      obtain ⟨hcookie, hne⟩ := Option.filter_eq_some_iff.mp hfilter
      exact .logout hbody hcookie (of_decide_eq_true hne) heq
  rw [logout_db dep c h hbody, hends]
  cases hfilter : c.req.cookie.filter (· ≠ "") with
  | none => exact hm.iff (or_iff_left (by simp)).symm
  | some value =>
    refine hm.ended fun a ha _ => or_congr_right ?_
    rw [decide_eq_true_eq, ha, hhash]
    constructor
    · intro heq
      exact ⟨value, rfl, heq.symm⟩
    · intro he
      obtain ⟨value', hsame, heq⟩ := he
      cases hsame
      exact heq.symm

theorem marked_revokeAll (hm : Marked row b h.db) (hbody : c.body = .revokeAll) :
    Marked row (b ∨ Ends dep cookie row.userId h (.service (.call c))) (serve dep c h).2.db := by
  have hends : Ends dep cookie row.userId h (.service (.call c)) ↔
      ∃ user, caller dep h c.req = some user ∧ user.id = row.userId := by
    constructor
    · intro he
      cases he with
      | logout hout => rw [hbody] at hout; cases hout
      | everywhere _ hcaller howner => exact ⟨_, hcaller, howner⟩
    · intro he
      obtain ⟨user, hcaller, howner⟩ := he
      exact .everywhere hbody hcaller howner
  have hserve : (serve dep c h).2.db = (dbSession (revokeAll dep h.now c.req) h.db h.volume).2.1 := by
    unfold serve
    rw [hbody]
    rfl
  rw [hends]
  cases hcaller : caller dep h c.req with
  | some user =>
    obtain ⟨granted, db₁, hc⟩ := caller_eq_some.mp hcaller
    rw [hserve, revokeAll_exec hc]
    refine (hm.caller hc).ended fun a _ ha => ?_
    unfold Sessions.openOf
    rw [ha]
    cases a.revokedAt with
    | some x => simp
    | none => simp [eq_comm]
  | none =>
    have he := serve_effect dep c h
    rw [hbody] at he
    generalize (serve dep c h).2.db = db' at he ⊢
    generalize (serve dep c h).1 = res at he
    cases he with
    | quiet => exact hm.iff (or_iff_left (by simp)).symm
    | endedAll hc => rw [caller_eq_some.mpr ⟨_, _, hc⟩] at hcaller; cases hcaller
    | uploaded hup => cases hup

theorem marked_serve (hm : Marked row b h.db) (hhash : row.tokenHash = dep.platform.hashToken cookie)
    (c : Call) :
    Marked row (b ∨ Ends dep cookie row.userId h (.service (.call c))) (serve dep c h).2.db := by
  by_cases hlogout : c.body = .logout
  · exact marked_logout hm hhash hlogout
  by_cases hall : c.body = .revokeAll
  · exact marked_revokeAll hm hall
  · refine (marked_effect (serve_effect dep c h) hm hlogout hall).iff (or_iff_left fun he => ?_).symm
    cases he with
    | logout hbody => exact hlogout hbody
    | everywhere hbody => exact hall hbody

theorem keepsUse_iff (hhash : row.tokenHash = dep.platform.hashToken cookie) :
    keepsUse dep.platform row c.req c.body (serve dep c h).1 = true ↔
      Uses dep cookie h (.service (.call c)) := by
  have hpresents : presents dep.platform row c.req = true ↔ ByCookie dep.platform cookie c.req := by
    unfold presents ByCookie
    rw [Bool.and_eq_true, Option.isNone_iff_eq_none, Option.any_eq_true]
    refine and_congr_right fun _ => exists_congr fun value => ?_
    rw [Option.filter_eq_some_iff, decide_eq_true_eq, decide_eq_true_eq, hhash,
      eq_comm (a := dep.platform.hashToken _), and_assoc]
  unfold keepsUse
  rw [Bool.and_eq_true, Bool.and_eq_true, hpresents]
  constructor
  · intro hk
    exact ⟨c, rfl, hk.1.1, hk.1.2, hk.2⟩
  · intro hu
    obtain ⟨c', hl, hby, hkeeps, hok⟩ := hu
    cases hl
    exact ⟨⟨hby, hkeeps⟩, hok⟩

/-! ## Runs -/

theorem marked_step (hm : Marked row b h.db) (hhash : row.tokenHash = dep.platform.hashToken cookie)
    (hs : (lts dep).step h l h') : Marked row (b ∨ Ends dep cookie row.userId h l) h'.db := by
  have hquiet : (∀ c, l ≠ .service (.call c)) → (b ↔ b ∨ Ends dep cookie row.userId h l) := by
    intro hl
    refine (or_iff_left fun he => ?_).symm
    cases he with
    | logout => exact hl _ rfl
    | everywhere => exact hl _ rfl
  cases hs
  cases l with
  | account => exact (hm.same rfl).iff (hquiet nofun)
  | moderate => exact (hm.same rfl).iff (hquiet nofun)
  | service l =>
    cases l with
    | tick => exact (hm.same rfl).iff (hquiet nofun)
    | call c => exact marked_serve hm hhash c
    | sweep =>
      have hsessions : (swept h).db.sessions = h.db.sessions := by rw [swept_db]; rfl
      exact (hm.same hsessions).iff (hquiet nofun)

/-- What a run leaves of a session: it has ended when a step ended it. -/
theorem ended_run (hm : Marked row b h.db) (hhash : row.tokenHash = dep.platform.hashToken cookie)
    (hr : (lts dep).Run h ls h') :
    Marked row (b ∨ (lts dep).Sometime (Ends dep cookie row.userId) h ls h') h'.db :=
  hr.marks (K := fun b s => Marked row b s.db) (fun _ _ _ => Marked.unique)
    (fun _ _ _ _ hm hs => marked_step hm hhash hs) hm

/-- When the session was last seen, and that it is not in the future. -/
def LastSeen (row : Session) (t : Time) (h : Hub) : Prop := Seen t row h.db ∧ t ≤ h.now

theorem seen_unique (h : Seen t row db) (h' : Seen t' row db) : t = t' := by
  obtain ⟨a, ha, hseen⟩ := h
  obtain ⟨a', ha', hseen'⟩ := h'
  have hsame : a = a' := db.sessions.eq_of_clash ha ha' (.inl (hseen.id.trans hseen'.id.symm))
  rw [← hseen.lastSeenAt, ← hseen'.lastSeenAt, hsame]

/-- A use moves the time on, and nothing else does. -/
theorem lastSeen_step (hseen : LastSeen row t h) (hhash : row.tokenHash = dep.platform.hashToken cookie)
    (hs : (lts dep).step h l h') :
    (Uses dep cookie h l ∧ LastSeen row h.now h') ∨ (¬ Uses dep cookie h l ∧ LastSeen row t h') := by
  obtain ⟨hseen, hle⟩ := hseen
  have hquiet : (∀ c, l ≠ .service (.call c)) → ¬ Uses dep cookie h l := fun hl hu => by
    obtain ⟨c, hc, -⟩ := hu
    exact hl c hc
  cases hs
  cases l with
  | account => exact .inr ⟨hquiet nofun, hseen.same rfl, hle⟩
  | moderate => exact .inr ⟨hquiet nofun, hseen.same rfl, hle⟩
  | service l =>
    cases l with
    | tick d =>
      have hlater : h.now ≤ h.now + d := Int.le_add_of_nonneg_right (Int.natCast_nonneg d)
      exact .inr ⟨hquiet nofun, hseen, Int.le_trans hle hlater⟩
    | sweep =>
      have hsessions : (swept h).db.sessions = h.db.sessions := by rw [swept_db]; rfl
      exact .inr ⟨hquiet nofun, hseen.same hsessions, hle⟩
    | call c =>
      have hafter := hseen.effect (serve_effect dep c h)
      by_cases hu : Uses dep cookie h (.service (.call c))
      · rw [if_pos ((keepsUse_iff hhash).mpr hu)] at hafter
        exact .inl ⟨hu, hafter, Int.le_refl _⟩
      · rw [if_neg (mt (keepsUse_iff hhash).mp hu)] at hafter
        exact .inr ⟨hu, hafter, hle⟩

/-- Within a window of `T`: since the start, or since a use on the way. -/
theorem lastSeen_run (hseen : LastSeen row t h) (hhash : row.tokenHash = dep.platform.hashToken cookie)
    (hr : (lts dep).Run h ls h') (T window : Time) : ∃ t', LastSeen row t' h' ∧
      (T < t' + window ↔
        T < t + window ∨ (lts dep).Sometime (fun s l => Uses dep cookie s l ∧ T < s.now + window) h ls h') := by
  have hthere : ∀ s l s', (∃ t, LastSeen row t s) → (lts dep).step s l s' → ∃ t, LastSeen row t s' := by
    intro s l s' hk hs
    obtain ⟨t, hk⟩ := hk
    rcases lastSeen_step hk hhash hs with hused | hunused
    · exact ⟨_, hused.2⟩
    · exact ⟨_, hunused.2⟩
  obtain ⟨t', hend⟩ : ∃ t', LastSeen row t' h' := hr.keeps hthere ⟨t, hseen⟩
  have hwithin : ∀ {s t}, LastSeen row t s → ((∃ t, LastSeen row t s ∧ T < t + window) ↔ T < t + window) := by
    intro s t hk
    constructor
    · intro hx
      obtain ⟨t₁, hk', hlt⟩ := hx
      rwa [seen_unique hk.1 hk'.1]
    · intro hlt
      exact ⟨t, hk, hlt⟩
  have hrecords : (∃ t, LastSeen row t h' ∧ T < t + window) ↔
      (∃ t, LastSeen row t h ∧ T < t + window) ∨
        (lts dep).Sometime (fun s l => Uses dep cookie s l ∧ T < s.now + window) h ls h' :=
    hr.records (R := fun s => ∃ t, LastSeen row t s ∧ T < t + window) hthere (fun s l s' hk hs => by
      obtain ⟨t, hk⟩ := hk
      rw [hwithin hk]
      rcases lastSeen_step hk hhash hs with ⟨hu, hlast⟩ | ⟨hu, hlast⟩
      · rw [hwithin hlast]
        -- the use is the later of the two
        have hle : t + window ≤ s.now + window := Int.add_le_add_right hk.2 _
        constructor
        · intro hlt
          exact .inr ⟨hu, hlt⟩
        · intro hlt
          exact hlt.elim (fun hold => Int.lt_of_lt_of_le hold hle) fun hnew => hnew.2
      · rw [hwithin hlast]
        exact (or_iff_left fun hx => hu hx.1).symm) ⟨t, hseen⟩
  rw [hwithin hend, hwithin hseen] at hrecords
  exact ⟨t', hend, hrecords⟩

/-! ## Signing in -/

/-- Whom a cookie signs in, by the row it names. -/
theorem currentUser_cookie (hm : Marked row b db) (hseen : Seen t row db)
    (hhash : row.tokenHash = p.hashToken cookie) (hreq : ByCookie p cookie req) :
    (∃ db', (currentUser p now config req).exec db fs = (.ok (user, granted), db', fs)) ↔
      user ∈ db.users ∧ user.id = row.userId ∧ user.state = .active ∧ granted = allScopes ∧ ¬ b ∧
        now < row.expiresAt ∧ now < t + seconds config.sessionIdleTtlSeconds := by
  obtain ⟨a, ha, hsame⟩ := hseen
  obtain ⟨a', ha', hid, -, -, hmark⟩ := hm
  obtain rfl := db.sessions.eq_of_clash ha' ha (.inl (hid.trans hsame.id.symm))
  obtain ⟨hb, value, hvalue, hne, hvhash⟩ := hreq
  have hrow : a'.tokenHash = p.hashToken value := (hsame.tokenHash.trans hhash).trans hvhash.symm
  have hlive : Sessions.live now config a' = true ↔
      ¬ b ∧ now < row.expiresAt ∧ now < t + seconds config.sessionIdleTtlSeconds := by
    unfold Sessions.live
    rw [hsame.expiresAt, hsame.lastSeenAt, Bool.and_eq_true, Bool.and_eq_true, decide_eq_true_eq,
      decide_eq_true_eq, and_assoc, ← hmark, Option.isNone_iff_eq_none, Option.not_isSome_iff_eq_none]
  rw [← hlive, ← hsame.userId]
  constructor
  · intro hx
    obtain ⟨db', hx⟩ := hx
    obtain ⟨-, hcaller⟩ := currentUser_ok hx
    cases hcaller with
    | bearer hb' => rw [hb] at hb'; cases hb'
    | cookie _ hvalue' hs =>
      obtain rfl := Option.some.inj (hvalue.symm.trans hvalue')
      obtain ⟨hmem, hh, hl, huser, howner, hactive⟩ := Sessions.signedIn_some hs
      obtain rfl := db.sessions.eq_of_clash hmem ha' (.inr (hh.trans hrow.symm))
      exact ⟨huser, howner, hactive, rfl, hl⟩
  · intro hx
    obtain ⟨huser, howner, hactive, rfl, hl⟩ := hx
    have hs : Sessions.signedIn p now value config db = some (a', user) := by
      rw [Sessions.signedIn_eq ha' hrow (user?_eq_some.mpr ⟨huser, howner⟩) hactive, if_pos hl]
    exact ⟨_, CallerOf.exec (.cookie hb hvalue hs hne)⟩

/-- The account a provider sign-in found, or made. -/
theorem linked_account {ids : Accounts.LinkIds} {profile : OAuthProfile}
    (hl : Accounts.Linked p now ids profile config db user db') : user ∈ db'.users := by
  cases hl with
  | known _ hu => exact hu
  | adopted _ hadopt =>
    unfold Accounts.adoptable at hadopt
    split at hadopt
    · cases hadopt
    · exact (Accounts.byEmail_some hadopt).1
  | created _ _ _ hprofiled =>
    rename_i hu _
    exact Table.mem_insert_self hu

/-- The session a sign-in opened. -/
theorem signedIn_opens {handle : String} (hsigned : (serve dep c h).1 = .ok (.signedIn cookie handle)) :
    ∃ owner ∈ (serve dep c h).2.db.users, owner.handle = handle ∧ ∃ row, row.userId = owner.id ∧
      row.tokenHash = dep.platform.hashToken cookie ∧ row.lastSeenAt = h.now ∧
      row.expiresAt = h.now + seconds dep.config.sessionAbsoluteTtlSeconds ∧
      Marked row False (serve dep c h).2.db ∧ row ∈ (serve dep c h).2.db.sessions := by
  have he := serve_effect dep c h
  rw [hsigned] at he
  generalize c.body = body at he
  generalize (serve dep c h).2.db = db' at he ⊢
  have hopened : ∀ {d : Draw} {owner : User} {agent : String} {db₁ : Db}, owner ∈ db₁.users →
      OpensSession dep h.now d owner agent cookie db₁ db' → ∃ owner' ∈ db'.users, owner'.handle = owner.handle ∧
        ∃ row, row.userId = owner'.id ∧ row.tokenHash = dep.platform.hashToken cookie ∧ row.lastSeenAt = h.now ∧
          row.expiresAt = h.now + seconds dep.config.sessionAbsoluteTtlSeconds ∧ Marked row False db' ∧
          row ∈ db'.sessions := by
    intro d owner agent db₁ howner hopen
    obtain ⟨hnew, rfl⟩ := hopen.row
    have hmem := Table.mem_insert_self hnew
    refine ⟨owner, howner, rfl, Sessions.opened dep.platform h.now d owner dep.config agent, rfl, ?_, rfl, rfl,
      ⟨_, hmem, rfl, rfl, rfl, iff_of_false nofun id⟩, hmem⟩
    rw [hopen.cookie]
    rfl
  cases he with
  | quiet hq => cases (hq _ rfl).cookies
  | uploaded _ _ _ _ hq => cases hq.cookies
  | registered _ hopen =>
    rename_i hu _
    exact hopened (Table.mem_insert_self hu) hopen
  | loggedIn hsign hopen => exact hopened (Accounts.byEmail_some (Accounts.signIn_ok hsign).1).1 hopen
  | linked hlink hopen => exact hopened (linked_account hlink) hopen

/-- **A session, by its history**: a cookie that was set authenticates the
account it was set for, with every scope, exactly while that account is active,
no logout with it and no `revoke-all` of the account has ended it, its absolute
lifetime has not passed, and it is within the idle limit of the sign-in or of
one of its uses. -/
theorem cookie_authenticates_iff (dep : Deployment) (h h' : Hub) (ls : List Lbl) (c : Call)
    (cookie handle : String) (hsigned : (serve dep c h).1 = .ok (.signedIn cookie handle))
    (hrun : (lts dep).Run (serve dep c h).2 ls h') :
    ∃ owner ∈ (serve dep c h).2.db.users, owner.handle = handle ∧ ∀ req user granted,
      ByCookie dep.platform cookie req →
      ((∃ db', (currentUser dep.platform h'.now dep.config req).exec h'.db h'.volume =
          (.ok (user, granted), db', h'.volume)) ↔
        user ∈ h'.db.users ∧ user.id = owner.id ∧ user.state = .active ∧ granted = allScopes ∧
          ¬ (lts dep).Sometime (Ends dep cookie owner.id) (serve dep c h).2 ls h' ∧
          h'.now < h.now + seconds dep.config.sessionAbsoluteTtlSeconds ∧
          (h'.now < h.now + seconds dep.config.sessionIdleTtlSeconds ∨
            (lts dep).Sometime (fun s l => Uses dep cookie s l ∧
              h'.now < s.now + seconds dep.config.sessionIdleTtlSeconds) (serve dep c h).2 ls h')) := by
  obtain ⟨owner, howner, hhandle, row, huser, hhash, hseen, hexpires, hmarked, hrow⟩ := signedIn_opens hsigned
  refine ⟨owner, howner, hhandle, fun req user granted hreq => ?_⟩
  have hnow : LastSeen row h.now (serve dep c h).2 := ⟨hseen ▸ seen_self hrow, Int.le_refl _⟩
  have hended := (ended_run hmarked hhash hrun).iff (iff_of_eq (false_or _))
  obtain ⟨t', hlast, hwithin⟩ :=
    lastSeen_run hnow hhash hrun h'.now (seconds dep.config.sessionIdleTtlSeconds)
  rw [currentUser_cookie hended hlast.1 hhash hreq, huser, hexpires, hwithin]

/-- She signs in with her provider. -/
def arriving : Call := ⟨{}, .oauthCallback aliceProfile "", fun _ => "first"⟩

/-- She comes back after six days, and five days pass. -/
def visits : List Lbl :=
  [.service (.tick (6 * day).toNat), .service (.call (asAlice (.tokensCreate { name := "ci" }))),
    .service (.tick (5 * day).toNat)]

def visited : Hub := after unverified (serve unverified arriving blank).2 visits

/-- Eleven days on she is signed in still, as nobody else. -/
theorem visit_keeps : ∃ owner ∈ (serve unverified arriving blank).2.db.users, ∀ user ∈ visited.db.users,
    user.id = owner.id → user.state = .active → ∃ db',
      (currentUser plain visited.now unverified.config { cookie := some "sfh_s_first" }).exec visited.db
        visited.volume = (.ok (user, allScopes), db', visited.volume) := by
  have hcookies : (serve unverified arriving blank).1.toOption.map Reply.cookies = some ["sfh_s_first"] := by
    decide +kernel
  obtain ⟨handle, hsigned⟩ := signedIn_of_cookies hcookies
  have hrun : (lts unverified).Run (serve unverified arriving blank).2 visits visited := run_after _ _ _
  obtain ⟨owner, howner, -, hiff⟩ :=
    cookie_authenticates_iff unverified blank visited visits arriving _ handle hsigned hrun
  refine ⟨owner, howner, fun user hu hid hactive => ?_⟩
  refine (hiff { cookie := some "sfh_s_first" } user allScopes ⟨by decide, _, rfl, by decide, rfl⟩).mpr
    ⟨hu, hid, hactive, rfl, fun hended => ?_, by decide +kernel, .inr ?_⟩
  · cases hended with
    | here _ hq => cases hq
    | later _ hended =>
      cases hended with
      | here _ hq => cases hq with
        | logout hbody => cases hbody
        | everywhere hbody => cases hbody
      | later _ hended =>
        cases hended with
        | here _ hq => cases hq
        | later _ hended => cases hended
  · refine .later rfl (.here rfl ⟨⟨_, rfl, ⟨by decide, _, rfl, by decide, rfl⟩, rfl, ?_⟩, ?_⟩
      (.cons rfl (.nil _)))
    · decide +kernel
    · decide +kernel

end SpikeHub.L5.Browsing
