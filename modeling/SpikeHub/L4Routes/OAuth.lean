import SpikeHub.L4Routes.Routes

/-!
# Signing in with a provider

Model of hub_api/oauth_state.py, of hub_api/auth/providers.py and of the two
provider routes in hub_api/routes/auth.py, up to the profile `oauthCallback`
starts from. The token signer, the provider clients and the PKCE generator are
`capsize_auth`'s: `OAuthLibrary` takes them as they come, and `Signer.Lawful`
says what the service relies on from the signer. What a provider's client makes
of a code and a verifier is the provider's, so a callback brings it along.
-/
namespace SpikeHub.L4.Routes

open SpikeHub.Core SpikeHub.L1 SpikeHub.L4.Auth

/-- What leaves one of these routes: `RuntimeError`, and `OAuth2Error`, beside
what the others raise. -/
inductive Fault
  | raised (e : Raised)
  | runtimeError (message : String)
  | oauth2Error (text : String)
deriving DecidableEq, Repr

/-- What a claim of a token can be, as far as the service looks. -/
inductive Claim
  | str (s : String)
  | other
deriving DecidableEq, Repr

/-- `claims.get` -/
abbrev Claims := String → Option Claim

/-- `capsize_auth.tokens.TokenSigner`, of `STATE` tokens. -/
structure Signer where
  /-- `issue(STATE, subject=…, pkce=…)`, at a time -/
  issue : Time → String → String → String
  /-- `decode(…, STATE)`, at a time -/
  decode : Time → String → Option Claims
  /-- when a token of that time expires -/
  expiry : Time → Time

/-- A token is read back as it was written until it expires, after its
lifetime at the latest, and never after. -/
structure Signer.Lawful (signer : Signer) (ttl : Time) : Prop where
  bounded : ∀ t, signer.expiry t ≤ t + ttl
  reads : ∀ t now sub pkce, now < signer.expiry t → ∃ claims,
    signer.decode now (signer.issue t sub pkce) = some claims ∧
      claims "sub" = some (.str sub) ∧ claims "pkce" = some (.str pkce)
  expired : ∀ t now sub pkce, signer.expiry t ≤ now →
    signer.decode now (signer.issue t sub pkce) = none

/-- `capsize_auth.oauth2.generate()` -/
structure Pkce where
  verifier : String
  challenge : String

/-- A provider's client, the part that asks nobody. -/
structure Client where
  authorizeUrl : String → String → String

/-- `ProviderRegistry.client` -/
abbrev Registered := String → Except Fault Client

/-- What is `capsize_auth`'s. -/
structure OAuthLibrary where
  tokenSigner : String → Int → String → Signer
  registry : String → Registered
  registerPreset : Registered → String → String → String → Except Fault Registered

/-- The settings of hub_api/config.py that only these routes read. -/
structure OAuthSettings where
  baseUrl : String := "https://hub.spikeforge.net"
  authorizationCodeTtlSeconds : Int := 300
  tokenSecret : String := ""
  oauthProviders : List (String × List String) := []

/-- The deployment, with what signing in with a provider takes. -/
structure Door where
  dep : Deployment
  settings : OAuthSettings
  library : OAuthLibrary

namespace OAuth

variable (door : Door) (now : Time)

/-- The signer, whatever the secret. -/
def tokens : Signer :=
  door.library.tokenSigner door.settings.tokenSecret door.settings.authorizationCodeTtlSeconds door.settings.baseUrl

def secretUnset : Fault :=
  .runtimeError ("SPIKEFORGE_HUB_TOKEN_SECRET is unset. There is deliberately no " ++
    "development fallback: a fallback secret that reaches " ++
    "production is indistinguishable from having none. Generate one " ++
    "with: python -c \"import secrets; print(secrets.token_hex(32))\"")

/-- mirrors hub_api/oauth_state.py:21-36 -/
def signer : Except Fault Signer :=
  if door.settings.tokenSecret = "" then .error secretUnset else .ok (tokens door)

/-- mirrors hub_api/oauth_state.py:39-41 -/
def writeState (provider verifier : String) : Except Fault String := do
  let signer ← signer door
  return signer.issue now provider verifier

/-- `raise UnauthorizedError(detail)` -/
def unauthorized {α : Type} (detail : String) : Except Fault α :=
  .error (.raised (.hub ⟨.unauthorized, detail, []⟩))

def unverifiable : String := "the sign-in attempt expired or could not be verified; start again"

def elsewhere : String := "this sign-in attempt was for another provider"

/-- mirrors hub_api/oauth_state.py:44-59 -/
def readState (state provider : String) : Except Fault String := do
  let signer ← signer door
  match signer.decode now state with
  | none => unauthorized unverifiable
  | some claims =>
    if claims "sub" ≠ some (.str provider) then unauthorized elsewhere
    else match claims "pkce" with
      | some (.str verifier) => return verifier
      | _ => unauthorized "the sign-in attempt carried no PKCE verifier"

/-- mirrors hub_api/config.py:107-110 -/
def redirectTemplate (settings : OAuthSettings) : String :=
  PyStr.rstrip (· = '/') settings.baseUrl ++ "/oauth/\x7bprovider\x7d/callback"

/-- mirrors hub_api/auth/providers.py:21-26 -/
def addPreset (library : OAuthLibrary) (registry : Registered) (entry : String × List String) :
    Except Fault Registered :=
  match entry.2 with
  | [clientId, clientSecret] => library.registerPreset registry entry.1 clientId clientSecret
  | _ => .error (.raised (.valueError
      s!"oauth_providers[{pyRepr entry.1}] must be [client_id, client_secret]"))

/-- mirrors hub_api/auth/providers.py:15-27 -/
def providers : Except Fault Registered :=
  door.settings.oauthProviders.foldlM (addPreset door.library)
    (door.library.registry (redirectTemplate door.settings))

/-- `providers().client(provider)` -/
def client (provider : String) : Except Fault Client := do
  let registry ← providers door
  registry provider

/-- mirrors hub_api/routes/auth.py:113-120 -/
def oauthStart (provider : String) (pkce : Pkce) : Except Fault String := do
  let client ← client door provider
  let state ← writeState door now provider pkce.verifier
  return client.authorizeUrl state pkce.challenge

/-- The state a start sends the browser off with. -/
def begun (provider : String) (pkce : Pkce) : Option String :=
  match oauthStart door now provider pkce with
  | .ok _ => some ((tokens door).issue now provider pkce.verifier)
  | .error _ => none

/-- `except OAuth2Error as error: raise UnauthorizedError(…)` -/
def orUnauthorized (provider : String) : Except Fault OAuthProfile → Except Fault OAuthProfile
  | .error (.oauth2Error text) => unauthorized s!"{provider} sign-in failed: {text}"
  | answer => answer

/-- A callback, and what the provider's client makes of a code and a verifier. -/
structure Callback where
  provider : String
  code : String
  state : String
  userAgent : String := ""
  complete : String → String → Except Fault OAuthProfile
  req : Presented := {}
  secret : Nat → String

/-- mirrors hub_api/routes/auth.py:144-154 -/
def profileFrom (cb : Callback) : Except Fault OAuthProfile := do
  let verifier ← readState door now cb.state cb.provider
  orUnauthorized cb.provider do
    let _ ← client door cb.provider
    cb.complete cb.code verifier

variable {door now} {provider verifier state : String} {pkce : Pkce}

theorem signer_ok {sg : Signer} : signer door = .ok sg ↔ door.settings.tokenSecret ≠ "" ∧ sg = tokens door := by
  unfold signer
  by_cases hsecret : door.settings.tokenSecret = ""
  · rw [if_pos hsecret]
    exact iff_of_false nofun fun h => h.1 hsecret
  · rw [if_neg hsecret, Except.ok.injEq]
    exact ⟨fun h => ⟨hsecret, h.symm⟩, fun h => h.2.symm⟩

theorem writeState_ok : writeState door now provider verifier = .ok state ↔
    door.settings.tokenSecret ≠ "" ∧ state = (tokens door).issue now provider verifier := by
  unfold writeState
  cases hs : signer door with
  | error e =>
    refine iff_of_false nofun fun h => ?_
    rw [signer_ok.mpr ⟨h.1, rfl⟩] at hs
    cases hs
  | ok sg =>
    obtain ⟨hsecret, rfl⟩ := signer_ok.mp hs
    constructor
    · intro h
      cases h
      exact ⟨hsecret, rfl⟩
    · intro h
      rw [h.2]
      rfl

/-- A state is read when it verifies, names the provider and carries a verifier. -/
theorem readState_ok : readState door now state provider = .ok verifier ↔
    door.settings.tokenSecret ≠ "" ∧ ∃ claims, (tokens door).decode now state = some claims ∧
      claims "sub" = some (.str provider) ∧ claims "pkce" = some (.str verifier) := by
  unfold readState
  cases hs : signer door with
  | error e =>
    refine iff_of_false nofun fun h => ?_
    rw [signer_ok.mpr ⟨h.1, rfl⟩] at hs
    cases hs
  | ok sg =>
    obtain ⟨hsecret, rfl⟩ := signer_ok.mp hs
    simp only [bind, Except.bind, and_iff_right hsecret]
    cases hclaims : (tokens door).decode now state with
    | none => exact iff_of_false nofun fun h => by obtain ⟨_, h, -⟩ := h; cases h
    | some claims =>
      simp only [Option.some.injEq, exists_eq_left']
      by_cases hsub : claims "sub" = some (.str provider)
      · rw [if_neg (not_not.mpr hsub), and_iff_right hsub]
        split
        · rename_i found hfound
          rw [hfound, Option.some.injEq, Claim.str.injEq]
          exact ⟨fun h => Except.ok.inj h, fun h => congrArg Except.ok h⟩
        · rename_i hnone
          exact iff_of_false nofun fun h => hnone verifier h
      · rw [if_pos hsub]
        exact iff_of_false nofun fun h => hsub h.1

theorem begun_some (h : begun door now provider pkce = some state) :
    door.settings.tokenSecret ≠ "" ∧ (∃ c, client door provider = .ok c) ∧
      state = (tokens door).issue now provider pkce.verifier := by
  unfold begun oauthStart at h
  cases hc : client door provider with
  | error e => rw [hc] at h; cases h
  | ok c =>
    cases hw : writeState door now provider pkce.verifier with
    | error e => rw [hc] at h; simp only [bind, Except.bind, hw] at h; cases h
    | ok written =>
      rw [hc] at h
      simp only [bind, Except.bind, hw, pure, Except.pure, Option.some.injEq] at h
      exact ⟨(writeState_ok.mp hw).1, ⟨c, rfl⟩, h.symm⟩

/-- A callback that comes back with a state its provider was sent off with, in
time, is up to the provider. -/
theorem profileFrom_begun {t : Time} {ttl : Time} {cb : Callback} (hlaw : (tokens door).Lawful ttl)
    (h : begun door t cb.provider pkce = some cb.state) (hin : now < (tokens door).expiry t) :
    profileFrom door now cb = orUnauthorized cb.provider (cb.complete cb.code pkce.verifier) := by
  obtain ⟨hsecret, ⟨c, hclient⟩, hstate⟩ := begun_some h
  have hread : readState door now cb.state cb.provider = .ok pkce.verifier := by
    rw [readState_ok, hstate]
    exact ⟨hsecret, hlaw.reads t now _ _ hin⟩
  unfold profileFrom
  rw [hread, hclient]
  rfl

/-! ## How they end -/

variable {cb : Callback} {e : Fault}

/-- What a provider's client says, once it is there. -/
def completed (door : Door) (cb : Callback) (verifier : String) : Except Fault OAuthProfile := do
  let _ ← client door cb.provider
  cb.complete cb.code verifier

theorem signer_unset (h : door.settings.tokenSecret = "") : signer door = .error secretUnset := if_pos h

theorem readState_unset (h : door.settings.tokenSecret = "") :
    readState door now state provider = .error secretUnset := by
  unfold readState
  rw [signer_unset h]
  rfl

/-- With a secret a state is read, or refused. -/
theorem readState_error (hsecret : door.settings.tokenSecret ≠ "") (he : readState door now state provider = .error e) :
    ∃ detail, e = .raised (.hub ⟨.unauthorized, detail, []⟩) := by
  unfold readState at he
  rw [signer_ok.mpr ⟨hsecret, rfl⟩] at he
  simp only [bind, Except.bind] at he
  split at he
  · exact ⟨_, (Except.error.inj he).symm⟩
  · split at he
    · exact ⟨_, (Except.error.inj he).symm⟩
    · split at he
      · cases he
      · exact ⟨_, (Except.error.inj he).symm⟩

theorem oauthStart_error (he : client door provider = .error e) :
    oauthStart door now provider pkce = .error e := by
  unfold oauthStart
  rw [he]
  rfl

theorem oauthStart_unset {c : Client} (hc : client door provider = .ok c) (h : door.settings.tokenSecret = "") :
    oauthStart door now provider pkce = .error secretUnset := by
  unfold oauthStart writeState
  rw [hc, signer_unset h]
  rfl

theorem oauthStart_ok {c : Client} (hc : client door provider = .ok c) (h : door.settings.tokenSecret ≠ "") :
    ∃ url, oauthStart door now provider pkce = .ok url := by
  unfold oauthStart
  rw [hc, writeState_ok.mpr ⟨h, rfl⟩]
  exact ⟨_, rfl⟩

theorem profileFrom_unset (h : door.settings.tokenSecret = "") :
    profileFrom door now cb = .error secretUnset := by
  unfold profileFrom
  rw [readState_unset h]
  rfl

theorem profileFrom_read (h : readState door now cb.state cb.provider = .ok verifier) :
    profileFrom door now cb = orUnauthorized cb.provider (completed door cb verifier) := by
  unfold profileFrom
  rw [h]
  rfl

/-- What the client breaks with is not turned into a refusal. -/
theorem orUnauthorized_error {answer : Except Fault OAuthProfile} (ha : answer = .error e)
    (hother : ∀ text, e ≠ .oauth2Error text) : orUnauthorized provider answer = .error e := by
  subst ha
  cases e with
  | oauth2Error text => exact absurd rfl (hother text)
  | _ => rfl

/-- With a secret, a callback has its profile, or is refused, or the client breaks. -/
theorem profileFrom_error (hsecret : door.settings.tokenSecret ≠ "") (he : profileFrom door now cb = .error e) :
    (∃ detail, e = .raised (.hub ⟨.unauthorized, detail, []⟩)) ∨
      ∃ verifier, readState door now cb.state cb.provider = .ok verifier ∧
        completed door cb verifier = .error e ∧ ∀ text, e ≠ .oauth2Error text := by
  cases hread : readState door now cb.state cb.provider with
  | error e' =>
    unfold profileFrom at he
    rw [hread] at he
    cases he
    exact .inl (readState_error hsecret hread)
  | ok verifier =>
    rw [profileFrom_read hread] at he
    cases hanswer : completed door cb verifier with
    | ok profile => rw [hanswer] at he; cases he
    | error e' =>
      rw [hanswer] at he
      cases e' with
      | oauth2Error text => exact .inl ⟨_, (Except.error.inj he).symm⟩
      | _ =>
        obtain rfl := Except.error.inj he
        exact .inr ⟨verifier, rfl, hanswer, nofun⟩

end OAuth
end SpikeHub.L4.Routes
