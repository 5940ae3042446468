import SpikeHub.L4Routes.Effects

/-!
# What a request leaves of a session

A request presents a session when it has no bearer credential and its cookie
is the session's. `currentUser` then touches the row in the request's own view
of the database, and only a route that commits keeps that: `seen_of_effect`
says, of every session and every request, when the committed row was last seen.
-/
namespace SpikeHub.L4.Routes

open SpikeHub.Core SpikeHub.L1 SpikeHub.L2 SpikeHub.L4.Auth SpikeHub.L4.Uploads

/-- The request is by the session's cookie. -/
def presents (p : Platform) (row : Session) (req : Presented) : Bool :=
  (bearer p req).isNone &&
    (req.cookie.filter (· ≠ "")).any fun cookie => row.tokenHash = p.hashToken cookie

/-- The same session, last seen at `t`. -/
structure SeenAt (t : Time) (a b : Session) : Prop where
  id : b.id = a.id
  tokenHash : b.tokenHash = a.tokenHash
  userId : b.userId = a.userId
  expiresAt : b.expiresAt = a.expiresAt
  lastSeenAt : b.lastSeenAt = t

theorem SeenAt.refl (a : Session) : SeenAt a.lastSeenAt a a := ⟨rfl, rfl, rfl, rfl, rfl⟩

theorem SeenAt.trans {t : Time} {a b c : Session} (h : SeenAt t a b) (h' : SeenAt b.lastSeenAt b c) :
    SeenAt t a c where
  id := h'.id.trans h.id
  tokenHash := h'.tokenHash.trans h.tokenHash
  userId := h'.userId.trans h.userId
  expiresAt := h'.expiresAt.trans h.expiresAt
  lastSeenAt := h'.lastSeenAt.trans h.lastSeenAt

/-- The session `a` is in the new database too, last seen at `t`. -/
def Seen (t : Time) (a : Session) (db : Db) : Prop := ∃ b ∈ db.sessions, SeenAt t a b

variable {p : Platform} {dep : Deployment} {now t : Time} {config : Settings} {r : Rand} {req : Presented}
  {db db₁ db' : Db} {body : Request} {res : Except Raised Reply} {user : User} {granted : List Scope}
  {a : Session}

theorem Seen.same (h : Seen t a db) (hs : db'.sessions = db.sessions) : Seen t a db' := by
  unfold Seen
  rw [hs]
  exact h

theorem seen_self (ha : a ∈ db.sessions) : Seen a.lastSeenAt a db := ⟨a, ha, .refl a⟩

theorem Seen.ended (h : Seen t a db) (q : Session → Bool) :
    Seen t a (Sessions.endSessions now q db) := by
  obtain ⟨b, hb, hseen⟩ := h
  refine ⟨_, Sessions.mem_endSessions.mpr ⟨b, hb, rfl⟩, hseen.trans ?_⟩
  split
  · exact ⟨rfl, rfl, rfl, rfl, rfl⟩
  · exact .refl b

theorem Seen.opened {d : Draw} {agent cookie : String} (h : Seen t a db)
    (ho : OpensSession dep now d user agent cookie db db') : Seen t a db' := by
  obtain ⟨b, hb, hseen⟩ := h
  obtain ⟨hs, rfl⟩ := ho.row
  exact ⟨b, Table.mem_insert_of_mem hs hb, hseen⟩

/-- Authenticating touches the session that is presented, and no other. -/
theorem seen_caller (h : CallerOf p now config req db user granted db') (ha : a ∈ db.sessions) :
    Seen (if presents p a req then now else a.lastSeenAt) a db' := by
  cases h with
  | bearer hb =>
    have hno : presents p a req = false := by simp [presents, hb]
    rw [hno]
    exact seen_self ha
  | cookie hb hcookie hs hne =>
    rename_i cookie row
    obtain ⟨hrow, hhash, -⟩ := Sessions.signedIn_some hs
    have hpresents : presents p a req = decide (a.tokenHash = p.hashToken cookie) := by
      simp [presents, hb, hcookie, hne]
    have hsame : a.tokenHash = p.hashToken cookie ↔ a.id = row.id := by
      constructor
      · intro he
        rw [db.sessions.eq_of_clash ha hrow (.inr (he.trans hhash.symm))]
      · intro he
        rw [db.sessions.eq_of_clash ha hrow (.inl he), hhash]
    refine ⟨_, Sessions.mem_touchSession.mpr ⟨a, ha, rfl⟩, ?_⟩
    rw [hpresents]
    by_cases hid : a.id = row.id
    · rw [if_pos hid, decide_eq_true (hsame.mpr hid)]
      exact ⟨rfl, rfl, rfl, rfl, rfl⟩
    · rw [if_neg hid, decide_eq_false (mt hsame.mp hid)]
      exact .refl a

/-- A route that needs an account and commits has kept the use when it returned. -/
def keepsUse (p : Platform) (a : Session) (req : Presented) (body : Request)
    (res : Except Raised Reply) : Bool :=
  presents p a req && body.keepsUse && res.isOk

theorem keepsUse_other (h : body.keepsUse = false) : keepsUse p a req body res = false := by
  simp [keepsUse, h]

theorem keepsUse_error {e : Raised} : keepsUse p a req body (.error e) = false := by
  simp [keepsUse, Except.isOk, Except.toBool]

theorem keepsUse_ok {reply : Reply} (h : body.keepsUse = true) :
    keepsUse p a req body (.ok reply) = presents p a req := by
  simp [keepsUse, h, Except.isOk, Except.toBool]

theorem keepsUse_of_uploads (h : body.uploads = true) : body.keepsUse = true := by
  cases body with
  | create => rfl
  | content => rfl
  | commit => rfl
  | _ => cases h

theorem seen_of_effect (h : Effect dep now r req db body res db') (ha : a ∈ db.sessions) :
    Seen (if keepsUse dep.platform a req body res then now else a.lastSeenAt) a db' := by
  have hself := seen_self ha
  cases h with
  | quiet _ hraised =>
    have hno : keepsUse dep.platform a req body res = false := by
      by_cases hk : body.keepsUse = true
      · obtain ⟨e, rfl⟩ := hraised hk
        exact keepsUse_error
      · exact keepsUse_other (Bool.eq_false_iff.mpr hk)
    rw [hno]
    exact hself
  | registered _ hopen =>
    rw [keepsUse_other rfl]
    refine Seen.opened ?_ hopen
    exact hself.same rfl
  | loggedIn _ hopen =>
    rw [keepsUse_other rfl]
    exact hself.opened hopen
  | loggedOut =>
    rw [keepsUse_other rfl]
    exact hself.ended _
  | refreshed _ _ _ _ hadd =>
    rw [keepsUse_other rfl]
    obtain ⟨mid, h, h', -, rfl⟩ := hadd.rows
    exact hself.same rfl
  | linked hlink hopen =>
    rw [keepsUse_other rfl]
    refine Seen.opened ?_ hopen
    cases hlink with
    | known => exact hself.same rfl
    | adopted => exact hself.same rfl
    | created => exact hself.same rfl
  | endedAll hcaller =>
    rw [keepsUse_ok rfl]
    exact (seen_caller hcaller ha).ended _
  | minted hcaller =>
    rw [keepsUse_ok rfl]
    exact (seen_caller hcaller ha).same rfl
  | revokedPat hcaller =>
    rw [keepsUse_ok rfl]
    exact (seen_caller hcaller ha).same rfl
  | uploaded hbody hcaller _ hsame =>
    rw [keepsUse_ok (keepsUse_of_uploads hbody)]
    exact (seen_caller hcaller ha).same hsame.sessions
  | downloaded hsame =>
    rw [keepsUse_other rfl]
    exact hself.same hsame.sessions

theorem SeenAt.presents {row : Session} (h : SeenAt t row a) : presents p a req = presents p row req := by
  unfold Routes.presents
  rw [h.tokenHash]

/-- The same, of a session that was last seen at `t`. -/
theorem Seen.effect {row : Session} (hseen : Seen t row db) (h : Effect dep now r req db body res db') :
    Seen (if keepsUse dep.platform row req body res then now else t) row db' := by
  obtain ⟨a, ha, hrow⟩ := hseen
  have hsame : keepsUse dep.platform a req body res = keepsUse dep.platform row req body res := by
    unfold keepsUse
    rw [hrow.presents]
  obtain ⟨b, hb, hafter⟩ := seen_of_effect h ha
  rw [hsame, hrow.lastSeenAt] at hafter
  refine ⟨b, hb, ⟨hafter.id.trans hrow.id, hafter.tokenHash.trans hrow.tokenHash,
    hafter.userId.trans hrow.userId, hafter.expiresAt.trans hrow.expiresAt, hafter.lastSeenAt⟩⟩

/-! ## Authenticated by a session -/

/-- With a session's cookie, the caller is whom the session signs in. -/
theorem currentUser_presents {fs : Volume} (hp : presents p a req = true) (ha : a ∈ db.sessions)
    (hu : db.user? a.userId = some user) (hactive : user.state = .active) :
    ((currentUser p now config req).exec db fs).1 =
      if Sessions.live now config a then .ok (user, allScopes) else .error anonymous := by
  unfold presents at hp
  obtain ⟨hb, hc⟩ := Bool.and_eq_true_iff.mp hp
  obtain ⟨cookie, hcookie, hhash⟩ := (Option.any_eq_true _ _).mp hc
  rw [decide_eq_true_eq] at hhash
  unfold currentUser
  rw [Option.isNone_iff_eq_none.mp hb, hcookie]
  dsimp only
  unfold Sessions.resolve
  rw [Work.exec_bind, Work.query_bind, Sessions.signedIn_eq ha hhash hu hactive]
  cases Sessions.live now config a with
  | true => rfl
  | false => rfl

end SpikeHub.L4.Routes
