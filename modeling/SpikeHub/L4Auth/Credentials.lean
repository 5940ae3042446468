import SpikeHub.L4Auth.Platform
import SpikeHub.L2Storage.Volume

/-!
# Bearer credentials

Model of hub_api/auth/credentials.py: access tokens, refresh tokens and
personal access tokens, stored by their hash. `resolve` is how a request is
authenticated by one, `rotate` how a refresh token is exchanged.

`rotate` revokes the whole chain of a token that was exchanged before, and
raises: what becomes of the revocation is up to the session it runs in.
-/
namespace SpikeHub.L4.Auth

open SpikeHub.Core SpikeHub.L1 SpikeHub.L2

abbrev AuthWork := Work Db Volume Raised

/-- `ALL_SCOPES` -/
def allScopes : List Scope := [.read, .write]

/-- `_PREFIXES` -/
def startOf : TokenKind → String
  | .access => "sfh_at_"
  | .refresh => "sfh_rt_"
  | .pat => "sfh_pat_"

/-- mirrors hub_api/auth/credentials.py:37-44 -/
structure IssuedPair where
  accessToken : String
  refreshToken : String
  expiresIn : Int
  scopes : List Scope
deriving DecidableEq, Repr

/-- mirrors hub_api/auth/credentials.py:47-53 -/
def ttlFor (config : Settings) : TokenKind → Option Int
  | .access => some config.accessTokenTtlSeconds
  | .refresh => some config.refreshTokenTtlSeconds
  | .pat => none

/-- A lifetime of 0 is falsy, as no lifetime is.
mirrors hub_api/auth/credentials.py:87-89 -/
def expiry (now : Time) : Option Int → Option Time
  | some ttl => if ttl = 0 then none else some (now + seconds ttl)
  | none => none

/-- mirrors hub_api/auth/credentials.py:56-64 -/
structure Mint where
  userId : Uuid
  kind : TokenKind
  scopes : List Scope
  chainId : Option Uuid := none
  name : String := ""

/-- The row `_mint` adds. -/
def Mint.row (p : Platform) (now : Time) (d : Draw) (config : Settings) (spec : Mint) : Token where
  id := d.id
  tokenHash := p.hashToken (newToken (startOf spec.kind) d)
  userId := spec.userId
  kind := spec.kind
  name := spec.name
  scopes := spec.scopes
  chainId := spec.chainId.getD d.chain
  expiresAt := expiry now (ttlFor config spec.kind)

def addToken (t : Token) (db : Db) : Except Raised Db :=
  match db.tokens.insert? t with
  | some tokens => .ok { db with tokens := tokens }
  | none => .error .integrityError

/-- mirrors hub_api/auth/credentials.py:67-84 -/
def mint (p : Platform) (now : Time) (d : Draw) (spec : Mint) (config : Settings) :
    AuthWork String := do
  .statement (addToken (spec.row p now d config))
  return newToken (startOf spec.kind) d

/-- What the two rows of a pair draw. -/
structure PairDraws where
  access : Draw
  refresh : Draw
  chain : Uuid

/-- mirrors hub_api/auth/credentials.py:92-112 -/
def issuePair (p : Platform) (now : Time) (ds : PairDraws) (user : User) (scopes : List Scope)
    (config : Settings) (chainId : Option Uuid := none) : AuthWork IssuedPair := do
  let chain := chainId.getD ds.chain
  let access ← mint p now ds.access ⟨user.id, .access, scopes, some chain, ""⟩ config
  let refresh ← mint p now ds.refresh ⟨user.id, .refresh, scopes, some chain, ""⟩ config
  return ⟨access, refresh, config.accessTokenTtlSeconds, scopes⟩

/-- mirrors hub_api/auth/credentials.py:115-125 -/
def issuePat (p : Platform) (now : Time) (d : Draw) (user : User) (scopes : List Scope)
    (name : String) (config : Settings) : AuthWork String :=
  mint p now d ⟨user.id, .pat, scopes, none, name⟩ config

/-- `SELECT … WHERE token_hash` -/
def tokenOf (p : Platform) (db : Db) (presented : String) : Option Token :=
  db.tokens.find? fun t => t.tokenHash = p.hashToken presented

/-- mirrors hub_api/auth/credentials.py:144-149 -/
def checkLive (now : Time) (row : Token) : Check :=
  if row.revokedAt.isSome then refuse .unauthorized "this credential has been revoked"
  else if row.expiresAt.any fun t => t ≤ now then
    refuse .unauthorized "this credential has expired"
  else .ok ()

/-- mirrors hub_api/auth/credentials.py:192-199 -/
def activeOwner (db : Db) (row : Token) : Except Raised User :=
  match db.user? row.userId with
  | none => refuse .unauthorized "the account for this credential is not active"
  | some user =>
    if user.state = .active then .ok user
    else refuse .unauthorized "the account for this credential is not active"

/-- The row a bearer credential names, unless it is a refresh token. -/
def usable (p : Platform) (presented : String) (db : Db) : Except Raised Token :=
  match tokenOf p db presented with
  | none => refuse .unauthorized "the credential presented is not usable"
  | some row =>
    if row.kind = .refresh then refuse .unauthorized "the credential presented is not usable"
    else .ok row

def touched (now : Time) (t : Token) : Token := { t with lastUsedAt := some now }

def revoked (now : Time) (t : Token) : Token := { t with revokedAt := some now }

/-- `UPDATE tokens SET last_used_at WHERE id` -/
def touchToken (now : Time) (id : Uuid) (db : Db) : Db :=
  { db with tokens := db.tokens.updateWhere (fun t => t.id = id) (touched now) fun _ _ h => h }

/-- `UPDATE tokens SET revoked_at WHERE q` -/
def revokeTokens (now : Time) (q : Token → Bool) (db : Db) : Db :=
  { db with tokens := db.tokens.updateWhere q (revoked now) fun _ _ h => h }

/-- mirrors hub_api/auth/credentials.py:128-141 -/
def resolve (p : Platform) (now : Time) (presented : String) : AuthWork (User × Token) := do
  let row ← .check (usable p presented)
  .orRaise (checkLive now row)
  let user ← .check (activeOwner · row)
  .write (touchToken now row.id)
  return (user, touched now row)

/-- The tokens `_break_chain` revokes. -/
def inChain (chainId : Uuid) (t : Token) : Bool := t.chainId = chainId && t.revokedAt.isNone

/-- mirrors hub_api/auth/credentials.py:202-213 -/
def breakChain (now : Time) (chainId : Uuid) : AuthWork Unit :=
  .write (revokeTokens now (inChain chainId))

def replayed : Raised := .hub {
  cls := .unauthorized
  detail := "this refresh token was already exchanged; the session has been " ++
    "ended because a replayed refresh token means it may be in " ++ "someone else's hands" }

/-- mirrors hub_api/auth/credentials.py:173-189 -/
def checkNotReplayed (now : Time) (row : Token) : AuthWork Unit := do
  if row.revokedAt.isSome then
    breakChain now row.chainId
    throw replayed

/-- The refresh token's row. -/
def exchangeable (p : Platform) (presented : String) (db : Db) : Except Raised Token :=
  match db.tokens.find? fun t => t.tokenHash = p.hashToken presented ∧ t.kind = .refresh with
  | some row => .ok row
  | none => refuse .unauthorized "no such refresh token"

/-- What `rotate` checks: the refresh token's row, and its account. -/
def usableRefresh (p : Platform) (now : Time) (presented : String) : AuthWork (Token × User) := do
  let row ← .check (exchangeable p presented)
  checkNotReplayed now row
  .orRaise (checkLive now row)
  let user ← .check (activeOwner · row)
  return (row, user)

/-- What `rotate` writes. -/
def exchange (p : Platform) (now : Time) (ds : PairDraws) (found : Token × User) (config : Settings) :
    AuthWork IssuedPair := do
  .write (revokeTokens now fun t => t.id = found.1.id)
  issuePair p now ds found.2 found.1.scopes config (some found.1.chainId)

/-- mirrors hub_api/auth/credentials.py:152-170 -/
def rotate (p : Platform) (now : Time) (ds : PairDraws) (presented : String) (config : Settings) :
    AuthWork IssuedPair := do
  let row ← .check (exchangeable p presented)
  checkNotReplayed now row
  .orRaise (checkLive now row)
  let user ← .check (activeOwner · row)
  .write (revokeTokens now fun t => t.id = row.id)
  issuePair p now ds user row.scopes config (some row.chainId)

/-! ## What the calls did -/

section
variable {p : Platform} {now : Time} {config : Settings} {db db' : Db} {fs fs' : Volume}
  {presented : String} {row : Token} {user : User}

theorem mem_touchToken {id : Uuid} {t : Token} : t ∈ (touchToken now id db).tokens ↔
    ∃ a ∈ db.tokens, (if a.id = id then touched now a else a) = t := by
  have hmem : t ∈ (touchToken now id db).tokens ↔
      ∃ a ∈ db.tokens, (if decide (a.id = id) then touched now a else a) = t :=
    Table.mem_updateWhere (g := touched now) (h := fun _ _ h => h)
  simpa only [decide_eq_true_eq] using hmem

theorem mem_revokeTokens {q : Token → Bool} {t : Token} : t ∈ (revokeTokens now q db).tokens ↔
    ∃ a ∈ db.tokens, (if q a then revoked now a else a) = t :=
  Table.mem_updateWhere (g := revoked now) (h := fun _ _ h => h)

theorem addToken_ok {t : Token} (h : addToken t db = .ok db') :
    ∃ ht, db' = { db with tokens := db.tokens.insert t ht } := by
  unfold addToken at h
  split at h
  · rename_i tokens hi
    obtain ⟨ht, rfl⟩ := Table.insert?_eq_some hi
    exact ⟨ht, (Except.ok.inj h).symm⟩
  · cases h

theorem mint_ok {d : Draw} {spec : Mint} {plaintext : String}
    (h : (mint p now d spec config).exec db fs = (.ok plaintext, db', fs')) :
    fs' = fs ∧ plaintext = newToken (startOf spec.kind) d ∧
      ∃ ht, db' = { db with tokens := db.tokens.insert (spec.row p now d config) ht } := by
  unfold mint at h
  obtain ⟨_, d₁, w₁, h₁, h⟩ := Work.exec_bind_eq_ok h
  cases h
  rw [Work.exec_statement] at h₁
  split at h₁
  · rename_i d ha
    cases h₁
    exact ⟨rfl, rfl, addToken_ok ha⟩
  · cases h₁

theorem usable_ok (h : usable p presented db = .ok row) :
    row ∈ db.tokens ∧ row.tokenHash = p.hashToken presented ∧ row.kind ≠ .refresh := by
  unfold usable refuse at h
  split at h
  · cases h
  · rename_i found hf
    split at h
    · cases h
    · rename_i hk
      cases h
      obtain ⟨hm, hp⟩ := Table.find?_some hf
      exact ⟨hm, by simpa using hp, hk⟩

theorem usable_eq (hrow : row ∈ db.tokens) (hhash : row.tokenHash = p.hashToken presented)
    (hkind : row.kind ≠ .refresh) : usable p presented db = .ok row := by
  have hfind : tokenOf p db presented = some row :=
    Table.find?_eq hrow (by simp [hhash]) fun t _ ht => .inr (by simpa [hhash] using ht)
  unfold usable
  rw [hfind]
  exact if_neg hkind

theorem exchangeable_ok (h : exchangeable p presented db = .ok row) :
    row ∈ db.tokens ∧ row.tokenHash = p.hashToken presented ∧ row.kind = .refresh := by
  unfold exchangeable refuse at h
  split at h
  · rename_i found hf
    cases h
    obtain ⟨hm, hp⟩ := Table.find?_some hf
    simp only [decide_eq_true_eq] at hp
    exact ⟨hm, hp⟩
  · cases h

/-- The row is the only one its hash names. -/
theorem exchangeable_eq (hrow : row ∈ db.tokens) (hhash : row.tokenHash = p.hashToken presented)
    (hkind : row.kind = .refresh) : exchangeable p presented db = .ok row := by
  unfold exchangeable
  rw [Table.find?_eq hrow (by simp [hhash, hkind]) fun t _ ht => .inr ?_]
  simp only [decide_eq_true_eq] at ht
  rw [ht.1, hhash]

theorem checkLive_ok : checkLive now row = .ok () ↔
    row.revokedAt = none ∧ ∀ t, row.expiresAt = some t → now < t := by
  unfold checkLive refuse
  cases row.revokedAt with
  | some r => simp
  | none =>
    cases row.expiresAt with
    | none => simp
    | some x => by_cases hx : x ≤ now <;> simp [hx, Int.not_lt.mpr, Int.not_le.mp]

theorem activeOwner_ok : activeOwner db row = .ok user ↔
    user ∈ db.users ∧ user.id = row.userId ∧ user.state = .active := by
  rw [← and_assoc, ← user?_eq_some]
  unfold activeOwner refuse
  cases db.user? row.userId with
  | none => simp
  | some found =>
    dsimp only
    by_cases ha : found.state = .active
    · rw [if_pos ha, Except.ok.injEq, Option.some.injEq]
      exact ⟨fun he => ⟨he, he ▸ ha⟩, fun he => he.1⟩
    · rw [if_neg ha, Option.some.injEq]
      exact ⟨fun he => (nomatch he), fun he => absurd (he.1 ▸ he.2) ha⟩

/-- The token a request was authenticated by. -/
structure Accepted (p : Platform) (now : Time) (presented : String) (db : Db) (user : User)
    (row : Token) : Prop where
  mem : row ∈ db.tokens
  hash : row.tokenHash = p.hashToken presented
  unrevoked : row.revokedAt = none
  unexpired : ∀ t, row.expiresAt = some t → now < t
  account : user ∈ db.users
  owner : user.id = row.userId
  active : user.state = .active

/-- A hash names one row: it is the one that was accepted. -/
theorem Accepted.eq_of_hash {t : Token} (h : Accepted p now presented db user row) (ht : t ∈ db.tokens)
    (hhash : t.tokenHash = p.hashToken presented) : t = row :=
  db.tokens.eq_of_clash ht h.mem (.inr (hhash.trans h.hash.symm))

/-- The use of a token does not end it. -/
theorem Accepted.touchToken (h : Accepted p now presented db user row) (id : Uuid) :
    ∃ row', Accepted p now presented (touchToken now id db) user row' := by
  refine ⟨_, mem_touchToken.mpr ⟨row, h.mem, rfl⟩, ?_, ?_, ?_, h.account, ?_, h.active⟩
  all_goals split
  · exact h.hash
  · exact h.hash
  · exact h.unrevoked
  · exact h.unrevoked
  · exact h.unexpired
  · exact h.unexpired
  · exact h.owner
  · exact h.owner

theorem resolve_ok {t : Token}
    (h : (resolve p now presented).exec db fs = (.ok (user, t), db', fs')) :
    fs' = fs ∧ ∃ row, Accepted p now presented db user row ∧ row.kind ≠ .refresh ∧
      t = touched now row ∧ db' = touchToken now row.id db := by
  unfold resolve at h
  obtain ⟨row, hu, h⟩ := Work.check_bind_eq_ok h
  obtain ⟨_, hl, h⟩ := Work.orRaise_bind_eq_ok h
  obtain ⟨user, ha, h⟩ := Work.check_bind_eq_ok h
  cases h
  obtain ⟨hm, hh, hk⟩ := usable_ok hu
  obtain ⟨hr, hx⟩ := checkLive_ok.mp hl
  obtain ⟨hu, ho, hs⟩ := activeOwner_ok.mp ha
  exact ⟨rfl, row, ⟨hm, hh, hr, hx, hu, ho, hs⟩, hk, rfl, rfl⟩

/-- One of the two rows of a pair. -/
def pairRow (p : Platform) (now : Time) (d : Draw) (config : Settings) (userId : Uuid)
    (kind : TokenKind) (scopes : List Scope) (chain : Uuid) : Token :=
  Mint.row p now d config ⟨userId, kind, scopes, some chain, ""⟩

/-- The rows of a pair, in the order they are added. -/
structure AddedPair (p : Platform) (now : Time) (ds : PairDraws) (user : User) (scopes : List Scope)
    (config : Settings) (chain : Uuid) (db db' : Db) : Prop where
  rows : ∃ mid h h',
    mid = db.tokens.insert (pairRow p now ds.access config user.id .access scopes chain) h ∧
    db' = { db with
      tokens := mid.insert (pairRow p now ds.refresh config user.id .refresh scopes chain) h' }

theorem AddedPair.mem {ds : PairDraws} {scopes : List Scope} {chain : Uuid} {t : Token}
    (h : AddedPair p now ds user scopes config chain db db') : t ∈ db'.tokens ↔ t ∈ db.tokens ∨
      t = pairRow p now ds.access config user.id .access scopes chain ∨
      t = pairRow p now ds.refresh config user.id .refresh scopes chain := by
  obtain ⟨mid, hm, hm', hmid, rfl⟩ := h.rows
  rw [Table.mem_insert, hmid, Table.mem_insert, or_assoc]

theorem issuePair_ok {ds : PairDraws} {scopes : List Scope} {chainId : Option Uuid} {pair : IssuedPair}
    (h : (issuePair p now ds user scopes config chainId).exec db fs = (.ok pair, db', fs')) :
    fs' = fs ∧ pair.accessToken = newToken (startOf .access) ds.access ∧
      pair.refreshToken = newToken (startOf .refresh) ds.refresh ∧ pair.scopes = scopes ∧
      AddedPair p now ds user scopes config (chainId.getD ds.chain) db db' := by
  unfold issuePair at h
  obtain ⟨access, d₁, w₁, h₁, h⟩ := Work.exec_bind_eq_ok h
  obtain ⟨rfl, ha, hm, rfl⟩ := mint_ok h₁
  obtain ⟨refresh, d₂, w₂, h₂, h⟩ := Work.exec_bind_eq_ok h
  obtain ⟨rfl, hr, hm', rfl⟩ := mint_ok h₂
  cases h
  exact ⟨rfl, ha, hr, rfl, _, hm, hm', rfl, rfl⟩

theorem checkNotReplayed_exec : (checkNotReplayed now row).exec db fs =
    if row.revokedAt.isSome then (.error replayed, revokeTokens now (inChain row.chainId) db, fs)
    else (.ok (), db, fs) := by
  unfold checkNotReplayed breakChain
  cases row.revokedAt <;> rfl

/-- A live bearer credential of an active account is accepted. -/
theorem resolve_exec (h : Accepted p now presented db user row) (hkind : row.kind ≠ .refresh) :
    (resolve p now presented).exec db fs =
      (.ok (user, touched now row), touchToken now row.id db, fs) := by
  unfold resolve
  rw [Work.exec_bind, Work.exec_check, usable_eq h.mem h.hash hkind]
  dsimp only
  rw [Work.exec_bind, Work.exec_orRaise, checkLive_ok.mpr ⟨h.unrevoked, h.unexpired⟩]
  dsimp only
  rw [Work.exec_bind, Work.exec_check, activeOwner_ok.mpr ⟨h.account, h.owner, h.active⟩]
  rfl

/-! ### `rotate`, its checks and its writes -/

theorem rotate_eq {ds : PairDraws} : rotate p now ds presented config =
    usableRefresh p now presented >>= fun found => exchange p now ds found config := by
  simp only [rotate, usableRefresh, exchange, bind_assoc, pure_bind]

theorem usableRefresh_ok
    (h : (usableRefresh p now presented).exec db fs = (.ok (row, user), db', fs')) :
    db' = db ∧ fs' = fs ∧ Accepted p now presented db user row ∧ row.kind = .refresh := by
  unfold usableRefresh at h
  obtain ⟨found, he, h⟩ := Work.check_bind_eq_ok h
  obtain ⟨_, d₁, w₁, h₁, h⟩ := Work.exec_bind_eq_ok h
  obtain ⟨hm, hh, hk⟩ := exchangeable_ok he
  rw [checkNotReplayed_exec] at h₁
  split at h₁
  · cases h₁
  cases h₁
  obtain ⟨_, hl, h⟩ := Work.orRaise_bind_eq_ok h
  obtain ⟨owner, ha, h⟩ := Work.check_bind_eq_ok h
  cases h
  obtain ⟨hr, hx⟩ := checkLive_ok.mp hl
  obtain ⟨hu, ho, hs⟩ := activeOwner_ok.mp ha
  exact ⟨rfl, rfl, ⟨hm, hh, hr, hx, hu, ho, hs⟩, hk⟩

theorem usableRefresh_exec (h : Accepted p now presented db user row) (hkind : row.kind = .refresh) :
    (usableRefresh p now presented).exec db fs = (.ok (row, user), db, fs) := by
  unfold usableRefresh
  rw [Work.exec_bind, Work.exec_check, exchangeable_eq h.mem h.hash hkind]
  dsimp only
  rw [Work.exec_bind, checkNotReplayed_exec, h.unrevoked]
  dsimp only [Option.isSome_none]
  rw [if_neg Bool.false_ne_true]
  dsimp only
  rw [Work.exec_bind, Work.exec_orRaise, checkLive_ok.mpr ⟨h.unrevoked, h.unexpired⟩]
  dsimp only
  rw [Work.exec_bind, Work.exec_check, activeOwner_ok.mpr ⟨h.account, h.owner, h.active⟩]
  rfl

theorem exchange_ok {ds : PairDraws} {pair : IssuedPair}
    (h : (exchange p now ds (row, user) config).exec db fs = (.ok pair, db', fs')) :
    fs' = fs ∧ pair.accessToken = newToken (startOf .access) ds.access ∧
      pair.refreshToken = newToken (startOf .refresh) ds.refresh ∧
      AddedPair p now ds user row.scopes config row.chainId
        (revokeTokens now (fun t => t.id = row.id) db) db' := by
  unfold exchange at h
  rw [Work.write_bind] at h
  obtain ⟨hfs, hat, hrt, -, hadd⟩ := issuePair_ok h
  exact ⟨hfs, hat, hrt, hadd⟩

theorem rotate_ok {ds : PairDraws} {pair : IssuedPair}
    (h : (rotate p now ds presented config).exec db fs = (.ok pair, db', fs')) :
    fs' = fs ∧ pair.accessToken = newToken (startOf .access) ds.access ∧
      pair.refreshToken = newToken (startOf .refresh) ds.refresh ∧
      ∃ user row, Accepted p now presented db user row ∧ row.kind = .refresh ∧
        AddedPair p now ds user row.scopes config row.chainId
          (revokeTokens now (fun t => t.id = row.id) db) db' := by
  rw [rotate_eq] at h
  obtain ⟨⟨row, user⟩, d₁, w₁, h₁, hrest⟩ := Work.exec_bind_eq_ok h
  obtain ⟨rfl, rfl, hacc, hk⟩ := usableRefresh_ok h₁
  obtain ⟨hfs, hat, hrt, hadd⟩ := exchange_ok hrest
  exact ⟨hfs, hat, hrt, user, row, hacc, hk, hadd⟩

/-- A replay raises, with the chain revoked in the session it ran in. -/
theorem rotate_replayed {ds : PairDraws} (hrow : row ∈ db.tokens)
    (hhash : row.tokenHash = p.hashToken presented) (hkind : row.kind = .refresh)
    (hrevoked : row.revokedAt.isSome = true) :
    (rotate p now ds presented config).exec db fs =
      (.error replayed, revokeTokens now (inChain row.chainId) db, fs) := by
  unfold rotate
  rw [Work.exec_bind, Work.exec_check, exchangeable_eq hrow hhash hkind]
  dsimp only
  rw [Work.exec_bind, checkNotReplayed_exec, if_pos hrevoked]

end
end SpikeHub.L4.Auth
