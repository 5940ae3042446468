import SpikeHub.L4Auth.Accounts
import SpikeHub.L4Catalog.Index
import SpikeHub.L4Routes.Caller
import SpikeHub.L4Uploads.Ledger

/-!
# The routes

Model of hub_api/routes: what each endpoint does with its session, and what it
commits. A route that ends in `session.commit()` is `committing`; one that only
reads runs in the session and leaves the rest to be rolled back.

`Reply` is what a caller gets; `Reply.bearers` and `Reply.cookies` are the
credentials in it.
-/
namespace SpikeHub.L4.Routes

open SpikeHub.Core SpikeHub.L1 SpikeHub.L2 SpikeHub.L3 SpikeHub.L4.Auth SpikeHub.L4.Uploads
open SpikeHub.L4.Catalog

abbrev HubRoute := Route Db Volume Raised

inductive Reply
  | signedIn (cookie handle : String)
  | signedOut
  | pair (issued : IssuedPair)
  | revoked (count : Nat)
  | tokens (rows : List Token)
  | minted (token name : String) (scopes : List Scope)
  | account (user : User) (usage : Usage)
  | slot (slot : Reservation)
  | version (v : ModelVersion)
  | index (doc : Document)
  | models (rows : List Summary)
  | model (page : Page)
  | redirect (url : String)
  | done

/-- The tokens a reply hands out. -/
def Reply.bearers : Reply → List String
  | .pair issued => [issued.accessToken, issued.refreshToken]
  | .minted token _ _ => [token]
  | _ => []

/-- The session cookie a reply sets. -/
def Reply.cookies : Reply → List String
  | .signedIn cookie _ => [cookie]
  | _ => []

/-- A reply without credentials. -/
structure Reply.Quiet (reply : Reply) : Prop where
  bearers : reply.bearers = []
  cookies : reply.cookies = []

/-- mirrors hub_api/schemas/auth.py:24-46 -/
structure TokenBody where
  name : String := ""
  scopes : List Scope := [.read]
deriving DecidableEq, Repr

/-- `sorted(set(scopes))`, of scopes that exist. -/
def TokenBody.knownScopes (body : TokenBody) : List Scope := allScopes.filter (· ∈ body.scopes)

/-- The parameters of a listing that were let through.
mirrors hub_api/routes/models.py:46-47 -/
structure Listing where
  q : String := ""
  limit : Nat := 50
  short : q.length ≤ 120
  bounded : 1 ≤ limit ∧ limit ≤ 200

/-- What a request asks for. -/
inductive Request
  | register (email password userAgent : String)
  | login (email password userAgent : String)
  | logout
  | refresh (refreshToken : String)
  | oauthCallback (profile : OAuthProfile) (userAgent : String)
  | revokeAll
  | tokensIndex
  | tokensCreate (body : TokenBody)
  | tokensRevoke (tokenId : Uuid)
  | me
  | create (intent : UploadIntent)
  | content (uploadId : Uuid) (declaresLength : Bool) (body : Body)
  | commit (uploadId : Uuid)
  | catalogIndex
  | listModels (listing : Listing)
  | showModel (handle slug : String)
  | download (handle slug version : String)

/-- What one request draws: ids from `base` on, and random parts. -/
structure Rand where
  base : Uuid
  secret : Nat → String

/-- Ids a request uses up at most. -/
def Rand.width : Nat := 6

def Rand.draw (r : Rand) (i : Nat) : Draw := ⟨r.base + 2 * i, r.secret i, r.base + 2 * i + 1⟩

/-- The deployment: its settings, what it takes from outside, its volume. -/
structure Deployment where
  platform : Platform
  config : Settings
  free : Volume → Int
  sql : Dialect

variable (dep : Deployment) (now : Time) (r : Rand) (req : Presented)

/-- mirrors hub_api/routes/auth.py:39-56 -/
def register (email password userAgent : String) : HubRoute Reply := committing do
  let user ← Accounts.register dep.platform r.base (r.secret 0) email password dep.config
  let cookie ← Sessions.start dep.platform now (r.draw 1) user dep.config userAgent
  return .signedIn cookie user.handle

/-- mirrors hub_api/routes/auth.py:59-76 -/
def login (email password userAgent : String) : HubRoute Reply := committing do
  let user ← .check (Accounts.signIn dep.platform email password)
  let cookie ← Sessions.start dep.platform now (r.draw 0) user dep.config userAgent
  return .signedIn cookie user.handle

/-- mirrors hub_api/routes/auth.py:79-92 -/
def logout : HubRoute Reply := do
  match req.cookie.filter (· ≠ "") with
  | some cookie =>
    Route.session (Sessions.revoke dep.platform now cookie)
    Route.commit
  | none => pure ()
  return .signedOut

/-- mirrors hub_api/routes/auth.py:95-110 -/
def refresh (refreshToken : String) : HubRoute Reply := committing do
  let issued ← rotate dep.platform now ⟨r.draw 0, r.draw 1, r.base + 4⟩ refreshToken dep.config
  return .pair issued

/-- The provider's answer is `profile`.
mirrors hub_api/routes/auth.py:123-141 -/
def oauthCallback (profile : OAuthProfile) (userAgent : String) : HubRoute Reply := committing do
  let user ← Accounts.linkOrCreate dep.platform now ⟨r.base, r.base + 1⟩ profile dep.config
  let cookie ← Sessions.start dep.platform now (r.draw 1) user dep.config userAgent
  return .signedIn cookie user.handle

/-- mirrors hub_api/routes/auth.py:157-164 -/
def revokeAll : HubRoute Reply := committing do
  let (user, _) ← currentUser dep.platform now dep.config req
  let count ← Sessions.revokeAll now user.id
  return .revoked count

/-- The personal access tokens an account sees. -/
def listed (userId : Uuid) (t : Token) : Bool :=
  t.userId = userId && t.kind = .pat && t.revokedAt.isNone

/-- mirrors hub_api/routes/tokens.py:19-29 -/
def tokensIndex : HubRoute Reply := Route.session do
  let (user, _) ← currentUser dep.platform now dep.config req
  let rows ← .query fun db => db.tokens.select (listed user.id)
  return .tokens rows

/-- mirrors hub_api/routes/tokens.py:45-62 -/
def tokensCreate (body : TokenBody) : HubRoute Reply := committing do
  let (user, _) ← currentUser dep.platform now dep.config req
  let plaintext ←
    issuePat dep.platform now (r.draw 0) user body.knownScopes body.name dep.config
  return .minted plaintext body.name body.knownScopes

/-- The account's own personal access token. -/
def ownPat (userId tokenId : Uuid) (db : Db) : Except Raised Token :=
  match db.tokens.find? fun t => t.id = tokenId ∧ t.userId = userId ∧ t.kind = .pat with
  | some row => .ok row
  | none => refuse .notFound "no such token for this account"

/-- mirrors hub_api/routes/tokens.py:65-81 -/
def tokensRevoke (tokenId : Uuid) : HubRoute Reply := committing do
  let (user, _) ← currentUser dep.platform now dep.config req
  let row ← .check (ownPat user.id tokenId)
  .write (revokeTokens now fun t => t.id = row.id)
  return .done

/-- mirrors hub_api/routes/me.py:14-29 -/
def me : HubRoute Reply := Route.session do
  let (user, _) ← currentUser dep.platform now dep.config req
  let usage ← .query fun db => usageFor db now user.id user.storageLimit
  return .account user usage

/-- mirrors hub_api/routes/uploads.py:30-48 -/
def create (intent : UploadIntent) : HubRoute Reply := committing do
  let user ← writeUser dep.platform now dep.config req
  let slot ← reserve now dep.free ⟨r.base, r.base + 1⟩ user intent.request dep.config
  return .slot slot

/-- mirrors hub_api/routes/uploads.py:73-84 -/
def checkDeclaredLength (declaresLength : Bool) : Check :=
  refuseIf (¬ declaresLength) <|
    refuse .conflict ("send Content-Length: the upload is checked against the size " ++
      "the reservation declared")

/-- mirrors hub_api/routes/uploads.py:51-70 -/
def content (uploadId : Uuid) (declaresLength : Bool) (body : Body) : HubRoute Reply := committing do
  let user ← writeUser dep.platform now dep.config req
  .orRaise (checkDeclaredLength declaresLength)
  let version ← receive now r.base uploadId user.id body
  return .version version

/-- mirrors hub_api/routes/uploads.py:87-106 -/
def commit (uploadId : Uuid) : HubRoute Reply := committing do
  let user ← writeUser dep.platform now dep.config req
  let version ← .check (ownedVersion · uploadId user.id)
  let published ← publish now version dep.config
  return .version published

/-- mirrors hub_api/routes/models.py:22-39 -/
def catalogIndex : HubRoute Reply := Route.session do
  let rows ← .query fun db => published dep.platform dep.sql db "" 1000
  return .index (document (rows.map (entryFor · dep.config.artifactPublicBase)))

/-- mirrors hub_api/routes/models.py:42-56 -/
def listModels (listing : Listing) : HubRoute Reply := Route.session do
  let rows ← .query fun db => published dep.platform dep.sql db listing.q listing.limit
  return .models (rows.map summarise)

/-- `if row is None: raise NotFoundError(detail)` -/
def orNotFound (detail : String) : Option PublishedRow → Except Raised PublishedRow
  | some row => .ok row
  | none => refuse .notFound detail

/-- mirrors hub_api/routes/models.py:82-96 -/
def showModel (handle slug : String) : HubRoute Reply := Route.session do
  let row ← .check fun db =>
    orNotFound s!"no published model @{handle}/{slug}" (latestVersion db handle slug)
  return .model (page row)

/-- One more than was read. -/
def countedFrom (n : Nat) (v : ModelVersion) : ModelVersion := { v with downloadCount := n + 1 }

theorem countedFrom_keys (n : Nat) : KeepsKeys (countedFrom n) :=
  ⟨fun _ => rfl, fun _ => rfl, fun _ => rfl⟩

/-- mirrors hub_api/routes/models.py:99-126 -/
def download (handle slug version : String) : HubRoute Reply := committing do
  let row ← .check fun db =>
    orNotFound s!"no published version {pyRepr version} of @{handle}/{slug}"
      (oneVersion db handle slug version)
  let found := row.version
  .statement (updateVersion found.id (countedFrom found.downloadCount) (countedFrom_keys _))
  return .redirect (artifactUrl dep.config.artifactPublicBase found)

/-- The route a request reaches. -/
def route : Request → HubRoute Reply
  | .register email password userAgent => register dep now r email password userAgent
  | .login email password userAgent => login dep now r email password userAgent
  | .logout => logout dep now req
  | .refresh refreshToken => refresh dep now r refreshToken
  | .oauthCallback profile userAgent => oauthCallback dep now r profile userAgent
  | .revokeAll => revokeAll dep now req
  | .tokensIndex => tokensIndex dep now req
  | .tokensCreate body => tokensCreate dep now r req body
  | .tokensRevoke tokenId => tokensRevoke dep now req tokenId
  | .me => me dep now req
  | .create intent => create dep now r req intent
  | .content uploadId declaresLength body => content dep now r req uploadId declaresLength body
  | .commit uploadId => commit dep now req uploadId
  | .catalogIndex => catalogIndex dep
  | .listModels listing => listModels dep listing
  | .showModel handle slug => showModel handle slug
  | .download handle slug version => download dep handle slug version

end SpikeHub.L4.Routes
