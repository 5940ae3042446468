import SpikeHub.L4Auth.Credentials

/-!
# Web sessions

Model of hub_api/auth/sessions.py: a browser session is a row named by the
hash of an opaque cookie value, live until it is revoked, expires, or has been
idle for too long.
-/
namespace SpikeHub.L4.Auth

open SpikeHub.Core SpikeHub.L1 SpikeHub.L2

namespace Sessions

def addSession (s : Session) (db : Db) : Except Raised Db :=
  match db.sessions.insert? s with
  | some sessions => .ok { db with sessions := sessions }
  | none => .error .integrityError

/-- The row `start` adds; `last_seen_at` defaults to the time of the insert. -/
def opened (p : Platform) (now : Time) (d : Draw) (user : User) (config : Settings)
    (userAgent : String) : Session where
  id := d.id
  tokenHash := p.hashToken (newToken "sfh_s_" d)
  userId := user.id
  lastSeenAt := now
  expiresAt := now + seconds config.sessionAbsoluteTtlSeconds
  userAgent := String.ofList (userAgent.toList.take 255)

/-- mirrors hub_api/auth/sessions.py:24-44 -/
def start (p : Platform) (now : Time) (d : Draw) (user : User) (config : Settings)
    (userAgent : String) : AuthWork String := do
  .statement (addSession (opened p now d user config userAgent))
  return newToken "sfh_s_" d

/-- mirrors hub_api/auth/sessions.py:68-74 -/
def live (now : Time) (config : Settings) (row : Session) : Bool :=
  row.revokedAt.isNone && decide (now < row.expiresAt) &&
    decide (now < row.lastSeenAt + seconds config.sessionIdleTtlSeconds)

def sessionOf (p : Platform) (db : Db) (cookie : String) : Option Session :=
  db.sessions.find? fun s => s.tokenHash = p.hashToken cookie

def seen (now : Time) (s : Session) : Session := { s with lastSeenAt := now }

def ended (now : Time) (s : Session) : Session := { s with revokedAt := some now }

/-- `UPDATE sessions SET … WHERE q`, leaving the keys alone. -/
def touchSession (now : Time) (id : Uuid) (db : Db) : Db :=
  { db with sessions := db.sessions.updateWhere (fun s => s.id = id) (seen now) fun _ _ h => h }

def endSessions (now : Time) (q : Session → Bool) (db : Db) : Db :=
  { db with sessions := db.sessions.updateWhere q (ended now) fun _ _ h => h }

/-- The live session a cookie names, with its active account. -/
def signedIn (p : Platform) (now : Time) (cookie : String) (config : Settings) (db : Db) :
    Option (Session × User) :=
  match sessionOf p db cookie with
  | none => none
  | some row =>
    if live now config row then
      match db.user? row.userId with
      | some user => if user.state = .active then some (row, user) else none
      | none => none
    else none

/-- mirrors hub_api/auth/sessions.py:47-65 -/
def resolve (p : Platform) (now : Time) (cookie : String) (config : Settings) :
    AuthWork (Option User) := do
  match ← .query (signedIn p now cookie config) with
  | none => return none
  | some (row, user) =>
    .write (touchSession now row.id)
    return some user

/-- mirrors hub_api/auth/sessions.py:77-84 -/
def revoke (p : Platform) (now : Time) (cookie : String) : AuthWork Unit :=
  .write (endSessions now fun s => s.tokenHash = p.hashToken cookie)

/-- The sessions `revoke_all` ends. -/
def openOf (userId : Uuid) (s : Session) : Bool := s.userId = userId && s.revokedAt.isNone

/-- mirrors hub_api/auth/sessions.py:87-99 -/
def revokeAll (now : Time) (userId : Uuid) : AuthWork Nat := do
  let rows ← .query fun db => db.sessions.select (openOf userId)
  .write (endSessions now (openOf userId))
  return rows.length

/-! ## What the calls did -/

variable {p : Platform} {now : Time} {config : Settings} {db db' : Db} {fs fs' : Volume}
  {cookie : String} {user : User}

theorem mem_touchSession {id : Uuid} {s : Session} : s ∈ (touchSession now id db).sessions ↔
    ∃ a ∈ db.sessions, (if a.id = id then seen now a else a) = s := by
  have hmem : s ∈ (touchSession now id db).sessions ↔
      ∃ a ∈ db.sessions, (if decide (a.id = id) then seen now a else a) = s :=
    Table.mem_updateWhere (g := seen now) (h := fun _ _ h => h)
  simpa only [decide_eq_true_eq] using hmem

theorem mem_endSessions {q : Session → Bool} {s : Session} : s ∈ (endSessions now q db).sessions ↔
    ∃ a ∈ db.sessions, (if q a then ended now a else a) = s :=
  Table.mem_updateWhere (g := ended now) (h := fun _ _ h => h)

theorem start_ok {d : Draw} {agent : String}
    (h : (start p now d user config agent).exec db fs = (.ok cookie, db', fs')) :
    fs' = fs ∧ cookie = newToken "sfh_s_" d ∧
      ∃ hs, db' = { db with sessions := db.sessions.insert (opened p now d user config agent) hs } := by
  unfold start at h
  obtain ⟨_, d₁, w₁, h₁, h⟩ := Work.exec_bind_eq_ok h
  cases h
  rw [Work.exec_statement] at h₁
  unfold addSession at h₁
  split at h₁
  · rename_i d ha
    cases h₁
    split at ha
    · rename_i sessions hi
      cases ha
      obtain ⟨hs, rfl⟩ := Table.insert?_eq_some hi
      exact ⟨rfl, rfl, hs, rfl⟩
    · cases ha
  · cases h₁

theorem signedIn_some {row : Session} (h : signedIn p now cookie config db = some (row, user)) :
    row ∈ db.sessions ∧ row.tokenHash = p.hashToken cookie ∧ live now config row = true ∧
      user ∈ db.users ∧ user.id = row.userId ∧ user.state = .active := by
  unfold signedIn at h
  split at h
  · cases h
  · rename_i found hf
    split at h
    · rename_i hl
      split at h
      · rename_i owner hu
        split at h
        · rename_i ha
          cases h
          obtain ⟨hm, hp⟩ := Table.find?_some hf
          obtain ⟨hum, huid⟩ := user?_eq_some.mp hu
          exact ⟨hm, by simpa using hp, hl, hum, huid, ha⟩
        · cases h
      · cases h
    · cases h

theorem resolve_ok (h : (resolve p now cookie config).exec db fs = (.ok (some user), db', fs')) :
    fs' = fs ∧ ∃ row, signedIn p now cookie config db = some (row, user) ∧
      db' = touchSession now row.id db := by
  unfold resolve at h
  obtain ⟨found, d₁, w₁, h₁, h⟩ := Work.exec_bind_eq_ok h
  cases h₁
  dsimp only at h
  cases hs : signedIn p now cookie config db with
  | none => rw [hs] at h; cases h
  | some found =>
    obtain ⟨row, owner⟩ := found
    rw [hs] at h
    cases h
    exact ⟨rfl, row, rfl, rfl⟩

/-- The cookie of a session of an active account signs it in while it is live. -/
theorem signedIn_eq {row : Session} (hrow : row ∈ db.sessions)
    (hhash : row.tokenHash = p.hashToken cookie) (huser : db.user? row.userId = some user)
    (hactive : user.state = .active) :
    signedIn p now cookie config db = if live now config row then some (row, user) else none := by
  have hfound : sessionOf p db cookie = some row :=
    Table.find?_eq hrow (by simp [hhash]) fun s _ hs => .inr (by simpa [hhash] using hs)
  unfold signedIn
  rw [hfound]
  dsimp only
  rw [huser]
  dsimp only
  rw [if_pos hactive]

theorem resolve_exec {row : Session} (h : signedIn p now cookie config db = some (row, user)) :
    (resolve p now cookie config).exec db fs = (.ok (some user), touchSession now row.id db, fs) := by
  unfold resolve
  rw [Work.query_bind, h]
  rfl

theorem revokeAll_ok {userId : Uuid} {n : Nat}
    (h : (revokeAll now userId).exec db fs = (.ok n, db', fs')) :
    fs' = fs ∧ db' = endSessions now (openOf userId) db := by
  cases h
  exact ⟨rfl, rfl⟩

end Sessions
end SpikeHub.L4.Auth
