import SpikeHub.L4Routes.OAuth
import SpikeHub.L5Runs.Browsing

/-!
# Signing in with a provider, run by run

The service with its provider routes in front. A start sends a browser off with
a state the service signed, a callback comes back with one, and nothing about
the attempt is kept in between. The environment cannot sign: a callback whose
state verifies brings one that was sent (`Genuine`).

In every such run a callback is taken for the flow its state was signed in, for
the provider it was started for, while the state has not expired, and it is
refused, and changes nothing, where there is no such flow (`callback_by_flow`).
So every provider account that is linked was returned by the provider's client
for a code and the verifier of a flow started here (`identity_by_flow`). Behind
the routes the run is one of the service's (`service_run`).
-/
namespace SpikeHub.L5.Flows

open SpikeHub.Core SpikeHub.L1 SpikeHub.L2 SpikeHub.L4.Auth SpikeHub.L4.Routes
open SpikeHub.L5.Interleave (Hub)
open SpikeHub.L5.Requests (Call serve serve_effect)
open OAuth

/-- The service, and the states it has sent browsers off with. -/
structure Front where
  hub : Hub
  sent : List String

/-- Not a callback past its route. -/
def Own (l : Service.Lbl) : Prop :=
  ∀ c, l = .service (.call c) → ∀ profile agent, c.body ≠ .oauthCallback profile agent

inductive Lbl
  | start (provider : String) (pkce : Pkce)
  | callback (cb : Callback)
  | other (l : Service.Lbl) (own : Own l)

/-- The request a callback is, once the profile is there. -/
def signingIn (cb : Callback) (profile : OAuthProfile) : Call :=
  ⟨cb.req, .oauthCallback profile cb.userAgent, cb.secret⟩

/-- The rest of a callback. -/
def settle (door : Door) (cb : Callback) (h : Hub) : Except Fault OAuthProfile → Except Fault Reply × Hub
  | .error e => (.error e, h)
  | .ok profile =>
    ((serve door.dep (signingIn cb profile) h).1.mapError .raised, (serve door.dep (signingIn cb profile) h).2)

/-- mirrors hub_api/routes/auth.py:123-141 -/
def oauthCallback (door : Door) (cb : Callback) (h : Hub) : Except Fault Reply × Hub :=
  settle door cb h (profileFrom door h.now cb)

def step (door : Door) (f : Front) : Lbl → Front
  | .start provider pkce => { f with sent := (begun door f.hub.now provider pkce).toList ++ f.sent }
  | .callback cb => { f with hub := (oauthCallback door cb f.hub).2 }
  | .other l _ => { f with hub := Service.step door.dep f.hub l }

/-- A state that verifies was sent. -/
def Genuine (door : Door) (f : Front) (l : Lbl) : Prop :=
  ∀ cb, l = .callback cb → ((tokens door).decode f.hub.now cb.state).isSome = true → cb.state ∈ f.sent

def lts (door : Door) : LTS Front Lbl where
  init f := Service.Start f.hub ∧ f.sent = []
  step f l f' := Genuine door f l ∧ f' = step door f l

/-- The flow for the provider, with the verifier, starts here, and its state is
good at `now`. -/
def Starts (door : Door) (provider verifier state : String) (now : Time) (f : Front) (l : Lbl) : Prop :=
  ∃ pkce, l = .start provider pkce ∧ pkce.verifier = verifier ∧
    begun door f.hub.now provider pkce = some state ∧ now < (tokens door).expiry f.hub.now

/-- The callback of a flow comes back, the provider's client returns the profile
of the identity for its verifier, and the account is signed in. -/
def Returns (door : Door) (provider verifier state : String) (now : Time) (i : Identity) (f : Front)
    (l : Lbl) : Prop :=
  ∃ cb profile cookie user, l = .callback cb ∧ cb.provider = provider ∧ cb.state = state ∧ f.hub.now = now ∧
    cb.complete cb.code verifier = .ok profile ∧ profile.provider = i.provider ∧ profile.subject = i.subject ∧
    (oauthCallback door cb f.hub).1 = .ok (.signedIn cookie user.handle) ∧
    user ∈ (oauthCallback door cb f.hub).2.db.users ∧ user.id = i.userId

/-- What a step asks of the service behind the routes. -/
def behind (door : Door) (f : Front) : Lbl → List Service.Lbl
  | .start _ _ => []
  | .callback cb =>
    match profileFrom door f.hub.now cb with
    | .ok profile => [.service (.call (signingIn cb profile))]
    | .error _ => []
  | .other l _ => [l]

def behindRun (door : Door) : Front → List Lbl → List Service.Lbl
  | _, [] => []
  | f, l :: ls => behind door f l ++ behindRun door (step door f l) ls

variable {door : Door} {f f' f₀ : Front} {l : Lbl} {ls : List Lbl} {cb : Callback} {h h' : Hub} {now ttl : Time}
  {provider verifier state : String} {profile : OAuthProfile} {db db' : Db} {i : Identity}

/-! ## What was sent -/

/-- A state that was sent was sent by a start of the run. -/
theorem sent_run (hr : (lts door).Run f₀ ls f) (hstart : f₀.sent = []) (hs : state ∈ f.sent) :
    (lts door).Sometime (fun s l => ∃ provider pkce, l = .start provider pkce ∧
      begun door s.hub.now provider pkce = some state) f₀ ls f := by
  have hsince := hr.since (I := fun _ => True) (R := fun f => state ∈ f.sent)
    (Q := fun s l => ∃ provider pkce, l = .start provider pkce ∧ begun door s.hub.now provider pkce = some state)
    (fun _ _ _ _ _ => trivial) (fun s l s' _ hstep hmem => by
      obtain ⟨-, rfl⟩ := hstep
      cases l with
      | start provider pkce =>
        rcases List.mem_append.mp hmem with hnew | hold
        · exact .inr ⟨provider, pkce, rfl, Option.mem_toList.mp hnew⟩
        · exact .inl hold
      | callback => exact .inl hmem
      | other => exact .inl hmem) trivial hs
  rcases hsince with hmem | hflow
  · rw [hstart] at hmem
    cases hmem
  · exact hflow

/-- What a state that verifies says, and since when. -/
theorem decoded_run {claims : Claims} (hlaw : (tokens door).Lawful ttl) (hr : (lts door).Run f₀ ls f)
    (hstart : f₀.sent = []) (hgenuine : Genuine door f (.callback cb))
    (hclaims : (tokens door).decode f.hub.now cb.state = some claims) :
    ∃ provider verifier, claims "sub" = some (.str provider) ∧ claims "pkce" = some (.str verifier) ∧
      (lts door).Sometime (Starts door provider verifier cb.state f.hub.now) f₀ ls f := by
  have hsent : cb.state ∈ f.sent := hgenuine cb rfl (by rw [hclaims]; rfl)
  obtain ⟨pre, l, post, s, s', rfl, hpre, hq, hs, hpost⟩ := (sent_run hr hstart hsent).split
  obtain ⟨provider, pkce, rfl, hbegun⟩ := hq
  obtain ⟨-, -, hstate⟩ := begun_some hbegun
  have hin : f.hub.now < (tokens door).expiry s.hub.now := by
    by_contra hpast
    rw [hstate, hlaw.expired _ _ _ _ (Int.not_lt.mp hpast)] at hclaims
    cases hclaims
  obtain ⟨claims', hread, hsub, hpkce⟩ := hlaw.reads _ _ provider pkce.verifier hin
  rw [hstate, hread, Option.some.injEq] at hclaims
  subst hclaims
  exact ⟨provider, pkce.verifier, hsub, hpkce, hpre.then_sometime
    (.here hs ⟨pkce, rfl, rfl, hbegun, hin⟩ hpost)⟩

/-! ## Callbacks -/

/-- **A callback is taken for its flow**: where its state was sent in a flow for
the provider, and has not expired, the provider's client is asked with the
verifier of that flow, and what it says decides; where there is none the
callback is refused, and nothing has changed. -/
theorem callback_by_flow (door : Door) (ttl : Time) (hlaw : (tokens door).Lawful ttl) (f₀ f : Front)
    (ls : List Lbl) (hstart : f₀.sent = []) (hr : (lts door).Run f₀ ls f) (cb : Callback)
    (hgenuine : Genuine door f (.callback cb)) :
    (∀ verifier, (lts door).Sometime (Starts door cb.provider verifier cb.state f.hub.now) f₀ ls f →
      oauthCallback door cb f.hub =
        settle door cb f.hub (orUnauthorized cb.provider (cb.complete cb.code verifier))) ∧
      ((∀ verifier, ¬ (lts door).Sometime (Starts door cb.provider verifier cb.state f.hub.now) f₀ ls f) →
        door.settings.tokenSecret ≠ "" → oauthCallback door cb f.hub = (unauthorized unverifiable, f.hub) ∨
          oauthCallback door cb f.hub = (unauthorized elsewhere, f.hub)) := by
  constructor
  · intro verifier hflow
    obtain ⟨pre, l, post, s, s', -, -, hq, -, -⟩ := hflow.split
    obtain ⟨pkce, -, rfl, hbegun, hin⟩ := hq
    unfold oauthCallback
    rw [profileFrom_begun hlaw hbegun hin]
  · intro hnone hsecret
    have hsigner : signer door = .ok (tokens door) := signer_ok.mpr ⟨hsecret, rfl⟩
    unfold oauthCallback profileFrom readState
    rw [hsigner]
    cases hclaims : (tokens door).decode f.hub.now cb.state with
    | none =>
      refine .inl ?_
      simp only [bind, Except.bind, hclaims]
      rfl
    | some claims =>
      refine .inr ?_
      obtain ⟨provider, verifier, hsub, -, hflow⟩ := decoded_run hlaw hr hstart hgenuine hclaims
      have helse : claims "sub" ≠ some (.str cb.provider) := by
        intro he
        rw [hsub, Option.some.injEq, Claim.str.injEq] at he
        subst he
        exact hnone verifier hflow
      simp only [bind, Except.bind, hclaims, if_pos helse]
      rfl

/-! ## The service behind the routes -/

theorem behind_step (door : Door) (f : Front) (l : Lbl) :
    (Service.lts door.dep).Run f.hub (behind door f l) (step door f l).hub := by
  cases l with
  | start => exact .nil _
  | other l own => exact .cons rfl (.nil _)
  | callback cb =>
    show (Service.lts door.dep).Run f.hub _ (oauthCallback door cb f.hub).2
    cases hp : profileFrom door f.hub.now cb with
    | error e =>
      simp only [behind, oauthCallback, hp]
      exact .nil _
    | ok profile =>
      simp only [behind, oauthCallback, hp]
      exact .cons rfl (.nil _)

/-- A run of the front is one of the service: a callback that has its profile is
the request with this profile, and what is refused before is nothing. -/
theorem service_run (hr : (lts door).Run f ls f') :
    (Service.lts door.dep).Run f.hub (behindRun door f ls) f'.hub := by
  induction hr with
  | nil => exact .nil _
  | cons hs _ ih =>
    obtain ⟨-, rfl⟩ := hs
    exact (behind_step door _ _).append ih

theorem service_reachable (hr : (lts door).Reachable f) : (Service.lts door.dep).Reachable f.hub := by
  obtain ⟨f₀, ls, hstart, hr⟩ := hr
  exact ⟨f₀.hub, _, hstart.1, service_run hr⟩

/-! ## Identities -/

/-- The identity is there, used since or not. -/
def Linked (i : Identity) (db : Db) : Prop :=
  ∃ j ∈ db.identities, j.provider = i.provider ∧ j.subject = i.subject ∧ j.userId = i.userId

theorem linked_same (hl : Linked i db') (hs : db'.identities = db.identities) : Linked i db := by
  unfold Linked at hl
  rw [hs] at hl
  exact hl

theorem linked_inserted {new : Identity} (hnew) (hl : Linked i db')
    (hs : db'.identities = db.identities.insert new hnew) :
    Linked i db ∨ new.provider = i.provider ∧ new.subject = i.subject ∧ new.userId = i.userId := by
  obtain ⟨j, hj, hkey⟩ := hl
  rw [hs] at hj
  rcases Table.mem_insert.mp hj with hold | rfl
  · exact .inl ⟨j, hold, hkey⟩
  · exact .inr hkey

theorem linked_touched {id : Uuid} (hl : Linked i (Accounts.touchIdentity now id db)) : Linked i db := by
  obtain ⟨j, hj, hkey⟩ := hl
  have hused : ∃ a ∈ db.identities, (if decide (a.id = id) then Accounts.used now a else a) = j :=
    Table.mem_updateWhere (g := Accounts.used now) (h := fun _ _ h => h) |>.mp hj
  obtain ⟨a, ha, rfl⟩ := hused
  refine ⟨a, ha, ?_⟩
  split at hkey
  · exact hkey
  · exact hkey

/-- An identity is linked by the callback with its profile. -/
theorem linked_effect {dep : Deployment} {now : Time} {r : Rand} {req : Presented} {body : Request}
    {res : Except Raised Reply} (he : Effect dep now r req db body res db') (hl : Linked i db') :
    Linked i db ∨ ∃ profile agent cookie user, body = .oauthCallback profile agent ∧
      profile.provider = i.provider ∧ profile.subject = i.subject ∧
      res = .ok (.signedIn cookie user.handle) ∧ user ∈ db'.users ∧ user.id = i.userId := by
  have hcaller : ∀ {user granted db₁}, CallerOf dep.platform now dep.config req db user granted db₁ →
      db₁.identities = db.identities := by
    intro user granted db₁ hc
    cases hc with
    | bearer => rfl
    | cookie => rfl
  cases he with
  | quiet => exact .inl hl
  | registered _ hopen | loggedIn _ hopen =>
    obtain ⟨_, rfl⟩ := hopen.row
    exact .inl (linked_same hl rfl)
  | loggedOut => exact .inl (linked_same hl rfl)
  | refreshed _ _ _ _ hadd =>
    obtain ⟨mid, _, _, -, rfl⟩ := hadd.rows
    exact .inl (linked_same hl rfl)
  | endedAll hc | minted hc | revokedPat hc =>
    have hsame := hcaller hc
    exact .inl (linked_same hl hsame)
  | uploaded _ hc _ hsame => exact .inl (linked_same hl (hsame.identities.trans (hcaller hc)))
  | downloaded hsame => exact .inl (linked_same hl hsame.identities)
  | linked hlink hopen =>
    rename_i profile agent cookie user db₁
    have haccount := Browsing.linked_account hlink
    have hmem : user ∈ db'.users := by
      obtain ⟨_, rfl⟩ := hopen.row
      exact haccount
    have hin : Linked i db₁ := by
      obtain ⟨_, rfl⟩ := hopen.row
      exact linked_same hl rfl
    cases hlink with
    | known => exact .inl (linked_touched hin)
    | adopted =>
      rename_i hnew _
      rcases linked_inserted hnew hin rfl with hold | ⟨hprovider, hsubject, hid⟩
      · exact .inl hold
      · exact .inr ⟨profile, agent, cookie, user, rfl, hprovider, hsubject, rfl, hmem, hid⟩
    | created _ _ _ hprofiled =>
      rename_i hnew
      rcases linked_inserted hnew hin rfl with hold | ⟨hprovider, hsubject, hid⟩
      · exact .inl hold
      · exact .inr ⟨profile, agent, cookie, user, rfl, hprovider, hsubject, rfl, hmem, hid⟩

theorem settle_ok {reply : Reply} {answer : Except Fault OAuthProfile}
    (hs : (settle door cb h answer).1 = .ok reply) : ∃ profile, answer = .ok profile ∧
      (serve door.dep (signingIn cb profile) h).1 = .ok reply := by
  cases answer with
  | error e => cases hs
  | ok profile =>
    refine ⟨profile, rfl, ?_⟩
    show (serve door.dep (signingIn cb profile) h).1 = .ok reply
    cases hres : (serve door.dep (signingIn cb profile) h).1 with
    | error e =>
      simp only [settle, hres] at hs
      cases hs
    | ok answered =>
      simp only [settle, hres] at hs
      cases hs
      rfl

theorem linked_step (hs : (lts door).step f l f') (hl : Linked i f'.hub.db) : Linked i f.hub.db ∨
    ∃ cb profile cookie user, l = .callback cb ∧ profileFrom door f.hub.now cb = .ok profile ∧
      profile.provider = i.provider ∧ profile.subject = i.subject ∧
      (oauthCallback door cb f.hub).1 = .ok (.signedIn cookie user.handle) ∧
      user ∈ (oauthCallback door cb f.hub).2.db.users ∧ user.id = i.userId := by
  obtain ⟨-, rfl⟩ := hs
  cases l with
  | start => exact .inl hl
  | callback cb =>
    have hafter : Linked i (oauthCallback door cb f.hub).2.db := hl
    cases hp : profileFrom door f.hub.now cb with
    | error e =>
      simp only [oauthCallback, hp] at hafter
      exact .inl hafter
    | ok profile =>
      have hserved : oauthCallback door cb f.hub = settle door cb f.hub (.ok profile) := by
        unfold oauthCallback
        rw [hp]
      rw [hserved] at hafter
      rcases linked_effect (serve_effect door.dep (signingIn cb profile) f.hub) hafter with hold | hnew
      · exact .inl hold
      · obtain ⟨profile', agent, cookie, user, hbody, hprovider, hsubject, hres, hmem, hid⟩ := hnew
        cases hbody
        refine .inr ⟨cb, profile, cookie, user, rfl, hp, hprovider, hsubject, ?_, ?_, hid⟩
        · rw [hserved]
          show (serve door.dep (signingIn cb profile) f.hub).1.mapError Fault.raised = _
          rw [hres]
          rfl
        · rw [hserved]
          exact hmem
  | other l own =>
    refine .inl ?_
    have hafter : Linked i (Service.step door.dep f.hub l).db := hl
    cases l with
    | account | moderate => exact hafter
    | service l =>
      cases l with
      | tick => exact hafter
      | sweep =>
        have hsame : (Catalogue.swept f.hub).db.identities = f.hub.db.identities := by
          rw [Catalogue.swept_db]
          rfl
        exact linked_same hafter hsame
      | call c =>
        rcases linked_effect (serve_effect door.dep c f.hub) hafter with hold | hnew
        · exact hold
        · obtain ⟨profile, agent, -, -, hbody, -⟩ := hnew
          exact absurd hbody (own c rfl profile agent)

theorem orUnauthorized_ok {answer : Except Fault OAuthProfile}
    (h : orUnauthorized provider answer = .ok profile) : answer = .ok profile := by
  unfold orUnauthorized at h
  split at h
  · cases h
  · exact h

theorem profileFrom_ok (h : profileFrom door now cb = .ok profile) : ∃ verifier,
    readState door now cb.state cb.provider = .ok verifier ∧ cb.complete cb.code verifier = .ok profile := by
  unfold profileFrom at h
  cases hread : readState door now cb.state cb.provider with
  | error e => rw [hread] at h; cases h
  | ok verifier =>
    rw [hread] at h
    refine ⟨verifier, rfl, ?_⟩
    have hanswer := orUnauthorized_ok h
    cases hc : client door cb.provider with
    | error e => rw [hc] at hanswer; cases hanswer
    | ok c => rw [hc] at hanswer; exact hanswer

/-- **A provider account is linked by its flow**: behind every identity there
are, in this order, a start for some provider and the callback that came back
with its state before that expired, when the provider's client made the
identity's profile of the code and the flow's verifier, and the account the
identity is linked to was signed in. -/
theorem identity_by_flow (door : Door) (ttl : Time) (hlaw : (tokens door).Lawful ttl) (f₀ f : Front)
    (ls : List Lbl) (hstart : (lts door).init f₀) (hr : (lts door).Run f₀ ls f)
    (i : Identity) (hi : i ∈ f.hub.db.identities) :
    ∃ provider verifier state now,
      (lts door).InOrder [Starts door provider verifier state now, Returns door provider verifier state now i]
        f₀ ls f := by
  obtain ⟨hempty, hsent⟩ := hstart
  have hlinked : Linked i f.hub.db := ⟨i, hi, rfl, rfl, rfl⟩
  rcases hr.since (I := fun _ => True) (R := fun f => Linked i f.hub.db) (fun _ _ _ _ _ => trivial)
    (fun _ _ _ _ => linked_step) trivial hlinked with hbefore | hcame
  · obtain ⟨j, hj, -⟩ := hbefore
    rw [hempty] at hj
    cases hj
  · obtain ⟨pre, l, post, t, t', rfl, hpre, hq, hs, hpost⟩ := hcame.split
    obtain ⟨cb, profile, cookie, user, rfl, hp, hprovider, hsubject, hres, hmem, hid⟩ := hq
    obtain ⟨verifier, hread, hcomplete⟩ := profileFrom_ok hp
    obtain ⟨-, claims, hclaims, hsub, hpkce⟩ := readState_ok.mp hread
    obtain ⟨provider', verifier', hsub', hpkce', hflow⟩ := decoded_run hlaw hpre hsent hs.1 hclaims
    rw [hsub', Option.some.injEq, Claim.str.injEq] at hsub
    rw [hpkce', Option.some.injEq, Claim.str.injEq] at hpkce
    subst hsub hpkce
    exact ⟨cb.provider, verifier', cb.state, t.hub.now, hflow.then_step hs
      ⟨cb, profile, cookie, user, rfl, rfl, rfl, rfl, hcomplete, hprovider, hsubject, hres, hmem, hid⟩ hpost⟩

/-! ## Traces -/

/-- A number, and what comes after it. -/
def tally (n : Nat) (rest : List Char) : List Char := List.replicate n '.' ++ '|' :: rest

def untally (cs : List Char) : Nat × List Char :=
  ((cs.takeWhile (· = '.')).length, (cs.dropWhile (· = '.')).drop 1)

theorem untally_tally (n : Nat) (rest : List Char) : untally (tally n rest) = (n, rest) := by
  unfold untally tally
  induction n with
  | zero => rfl
  | succ n ih =>
    simp only [Prod.mk.injEq, List.replicate_succ, List.cons_append, List.takeWhile_cons, List.dropWhile_cons,
      decide_true, if_true, List.length_cons] at ih ⊢
    exact ⟨congrArg (· + 1) ih.1, ih.2⟩

/-- The time, the provider and the verifier, written out. -/
def written (t : Time) (sub pkce : String) : String :=
  String.ofList (tally t.toNat (tally (-t).toNat (tally sub.toList.length (sub.toList ++ pkce.toList))))

/-- What was written, if it was. -/
def readBack (text : String) : Time × String × String :=
  let plus := untally text.toList
  let minus := untally plus.2
  let length := untally minus.2
  (plus.1 - minus.1, String.ofList (length.2.take length.1), String.ofList (length.2.drop length.1))

theorem readBack_written (t : Time) (sub pkce : String) : readBack (written t sub pkce) = (t, sub, pkce) := by
  unfold readBack written
  simp only [String.toList_ofList, untally_tally, List.take_left, List.drop_left, String.ofList_toList]
  rw [Prod.mk.injEq]
  exact ⟨Int.toNat_sub_toNat_neg t, rfl⟩

/-- A signer for traces: the text itself, good for its lifetime. -/
def plainSigner (ttl : Int) : Signer where
  issue := written
  decode now text :=
    let (t, sub, pkce) := readBack text
    if text = written t sub pkce ∧ now < t + seconds ttl then
      some fun name => if name = "sub" then some (.str sub) else if name = "pkce" then some (.str pkce) else none
    else none
  expiry t := t + seconds ttl

theorem plainSigner_lawful (ttl : Int) : (plainSigner ttl).Lawful (seconds ttl) where
  bounded _ := Int.le_refl _
  reads t now sub pkce hin := by
    simp only [plainSigner, readBack_written, true_and] at hin ⊢
    rw [if_pos hin]
    exact ⟨_, rfl, rfl, rfl⟩
  expired t now sub pkce hpast := by
    simp only [plainSigner, readBack_written, true_and] at hpast ⊢
    rw [if_neg (Int.not_lt.mpr hpast)]

/-- One provider, and its client. -/
def forge : Door where
  dep := Catalogue.unverified
  settings := { tokenSecret := "secret", oauthProviders := [("forge", ["id", "key"])] }
  library :=
    { tokenSigner := fun _ ttl _ => plainSigner ttl
      registry := fun _ _ => .error (.oauth2Error "no such provider")
      registerPreset := fun registry name _ _ => .ok fun provider =>
        if provider = name then .ok ⟨fun state challenge => state ++ challenge⟩ else registry provider }

def front : Front := ⟨Service.blank, []⟩

def leaving : Lbl := .start "forge" ⟨"v", "c"⟩

/-- She comes back with the provider's code. -/
def returning : Callback where
  provider := "forge"
  code := "code"
  state := written 0 "forge" "v"
  complete code verifier :=
    if code = "code" ∧ verifier = "v" then .ok Service.aliceProfile else .error (.oauth2Error "bad code")
  secret _ := "first"

def left : Front := step forge front leaving

def arrived : Front := step forge left (.callback returning)

theorem left_run : (lts forge).Run front [leaving] left :=
  .cons ⟨nofun, rfl⟩ (.nil _)

theorem returning_genuine : Genuine forge left (.callback returning) := by
  intro cb he _
  cases he
  decide +kernel

theorem left_flow : (lts forge).Sometime (Starts forge "forge" "v" returning.state left.hub.now) front
    [leaving] left :=
  .here ⟨nofun, rfl⟩ ⟨_, rfl, rfl, by decide +kernel, by decide +kernel⟩ (.nil _)

theorem returning_taken : oauthCallback forge returning left.hub =
    settle forge returning left.hub (.ok Service.aliceProfile) :=
  (callback_by_flow forge _ (plainSigner_lawful 300) front left [leaving] rfl left_run returning
    returning_genuine).1 "v" left_flow

theorem arrived_linked : ∃ i ∈ arrived.hub.db.identities, i.provider = "forge" ∧ ∃ provider verifier state now,
    (lts forge).InOrder [Starts forge provider verifier state now, Returns forge provider verifier state now i]
      front [leaving, .callback returning] arrived := by
  have hlinks : ∃ i ∈ arrived.hub.db.identities.rows, i.provider = "forge" := by decide +kernel
  obtain ⟨i, hi, hprovider⟩ := hlinks
  exact ⟨i, hi, hprovider, identity_by_flow forge _ (plainSigner_lawful 300) front arrived
    [leaving, .callback returning] ⟨rfl, rfl⟩ (.cons ⟨nofun, rfl⟩ (.cons ⟨returning_genuine, rfl⟩ (.nil _))) i hi⟩

end SpikeHub.L5.Flows
