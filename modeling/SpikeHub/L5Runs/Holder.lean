import SpikeHub.L5Runs.Requests

/-!
# A party with one token

One party among the clients of the service: at first it holds one token of an
account, and what it holds later came in the replies to its own requests. It
makes any requests it likes, between those of the others, and it is not the
owner of the account: it presents a value it holds, or one that names nothing
of the account; it does not know the account's password, and no provider
identifies it as the account's owner (`canMake`).

`Confined` says that all it ever holds of the account are tokens within the
scopes it started with.
-/
namespace SpikeHub.L5.Holder

open SpikeHub.Core SpikeHub.L1 SpikeHub.L2 SpikeHub.L4.Auth SpikeHub.L4.Routes SpikeHub.L5.Requests
open SpikeHub.L5.Interleave (Hub)

/-- The account and the scopes of the token the party starts with. -/
structure Grant where
  account : Uuid
  scopes : List Scope

/-- The service, and the credentials the party has been given. -/
structure Sys where
  hub : Hub
  bearers : List String
  cookies : List String

inductive Lbl
  | tick (d : Nat)
  | others (c : Call)
  | own (c : Call)

/-- The value is one the party holds, or names no token of the account. -/
def mayPresent (dep : Deployment) (g : Grant) (s : Sys) (v : String) : Bool :=
  v ∈ s.bearers || (s.hub.db.tokens.find? fun t =>
    t.tokenHash = dep.platform.hashToken v ∧ t.userId = g.account).isNone

/-- The value is one the party holds, or names no session of the account. -/
def mayShow (dep : Deployment) (g : Grant) (s : Sys) (v : String) : Bool :=
  v ∈ s.cookies || (s.hub.db.sessions.find? fun t =>
    t.tokenHash = dep.platform.hashToken v ∧ t.userId = g.account).isNone

/-- What the body presents is the party's to present. -/
def mayAsk (dep : Deployment) (g : Grant) (s : Sys) : Request → Bool
  | .refresh v => mayPresent dep g s v
  | .login email password _ =>
    (Accounts.signIn dep.platform email password s.hub.db).toOption.all (·.id ≠ g.account)
  | .oauthCallback profile _ =>
    (Accounts.identityOf profile s.hub.db).all (·.userId ≠ g.account) &&
      (Accounts.adoptable dep.platform profile s.hub.db).all (·.id ≠ g.account)
  | _ => true

def canMake (dep : Deployment) (g : Grant) (s : Sys) (c : Call) : Bool :=
  (bearer dep.platform c.req).all (mayPresent dep g s) && c.req.cookie.all (mayShow dep g s) &&
    mayAsk dep g s c.body

/-- What the party learns from a reply. -/
def Sys.learn (s : Sys) : Except Raised Reply × Hub → Sys
  | (.ok reply, hub) => ⟨hub, s.bearers ++ reply.bearers, s.cookies ++ reply.cookies⟩
  | (.error _, hub) => { s with hub := hub }

def step (dep : Deployment) (g : Grant) (s : Sys) : Lbl → Option Sys
  | .tick d => some { s with hub := { s.hub with now := s.hub.now + d } }
  | .others c => some { s with hub := (serve dep c s.hub).2 }
  | .own c => if canMake dep g s c then some (s.learn (serve dep c s.hub)) else none

/-- The party holds one token, of the account and with its scopes. -/
structure Start (dep : Deployment) (g : Grant) (s : Sys) : Prop where
  account : ∃ u ∈ s.hub.db.users, u.id = g.account
  token : ∃ v, ∃ t ∈ s.hub.db.tokens, s.bearers = [v] ∧ t.tokenHash = dep.platform.hashToken v ∧
    t.userId = g.account ∧ t.scopes = g.scopes
  cookies : s.cookies = []

def lts (dep : Deployment) (g : Grant) : LTS Sys Lbl := LTS.ofFn (Start dep g) (step dep g)

/-- What the party holds of the account is within its scopes, and no session;
so the write guard does not take it for the account unless they have that scope. -/
structure Confined (dep : Deployment) (g : Grant) (s : Sys) : Prop where
  bearers : ∀ v ∈ s.bearers, ∀ t ∈ s.hub.db.tokens, t.tokenHash = dep.platform.hashToken v →
    t.userId = g.account → t.scopes ⊆ g.scopes
  cookies : ∀ v ∈ s.cookies, ∀ t ∈ s.hub.db.sessions, t.tokenHash = dep.platform.hashToken v →
    t.userId ≠ g.account
  guarded : Scope.write ∉ g.scopes → ∀ c, canMake dep g s c = true → ∀ user db fs,
    (writeUser dep.platform s.hub.now dep.config c.req).exec s.hub.db s.hub.volume = (.ok user, db, fs) →
      user.id ≠ g.account

/-! ## The invariant -/

structure Inv (dep : Deployment) (g : Grant) (s : Sys) : Prop where
  account : ∃ u ∈ s.hub.db.users, u.id = g.account
  bearers : ∀ v ∈ s.bearers, ∃ t ∈ s.hub.db.tokens, t.tokenHash = dep.platform.hashToken v ∧
    (t.userId = g.account → t.scopes ⊆ g.scopes)
  cookies : ∀ v ∈ s.cookies, ∃ t ∈ s.hub.db.sessions, t.tokenHash = dep.platform.hashToken v ∧
    t.userId ≠ g.account

variable {dep : Deployment} {g : Grant} {s s' : Sys} {c : Call} {l : Lbl}

/-- A token the party may present, if it is the account's, is within the scopes. -/
theorem Inv.presented (h : Inv dep g s) {v : String} (hv : mayPresent dep g s v = true) {t : Token}
    (ht : t ∈ s.hub.db.tokens) (hhash : t.tokenHash = dep.platform.hashToken v)
    (hu : t.userId = g.account) : t.scopes ⊆ g.scopes := by
  unfold mayPresent at hv
  rcases Bool.or_eq_true_iff.mp hv with hv | hv
  · obtain ⟨a, ha, hahash, hsub⟩ := h.bearers v (by simpa using hv)
    have heq := s.hub.db.tokens.eq_of_clash ha ht (.inr (hahash.trans hhash.symm))
    rw [heq] at hsub
    exact hsub hu
  · have hno := Table.find?_none (Option.isNone_iff_eq_none.mp hv) ht
    simp [hhash, hu] at hno

/-- A session the party may show is not one of the account. -/
theorem Inv.shown (h : Inv dep g s) {v : String} (hv : mayShow dep g s v = true) {t : Session}
    (ht : t ∈ s.hub.db.sessions) (hhash : t.tokenHash = dep.platform.hashToken v) :
    t.userId ≠ g.account := by
  unfold mayShow at hv
  rcases Bool.or_eq_true_iff.mp hv with hv | hv
  · obtain ⟨a, ha, hahash, hne⟩ := h.cookies v (by simpa using hv)
    have heq := s.hub.db.sessions.eq_of_clash ha ht (.inr (hahash.trans hhash.symm))
    rw [heq] at hne
    exact hne
  · have hno := Table.find?_none (Option.isNone_iff_eq_none.mp hv) ht
    intro hu
    simp [hhash, hu] at hno

theorem canMake_iff : canMake dep g s c = true ↔
    (∀ v, bearer dep.platform c.req = some v → mayPresent dep g s v = true) ∧
      (∀ v, c.req.cookie = some v → mayShow dep g s v = true) ∧ mayAsk dep g s c.body = true := by
  unfold canMake
  simp only [Bool.and_eq_true, Option.all_eq_true, and_assoc]

/-- The caller of one of the party's requests, when it is the account. -/
theorem Inv.caller (h : Inv dep g s) (hc : canMake dep g s c = true) {user : User} {granted : List Scope}
    {db : Db} (hcaller : CallerOf dep.platform s.hub.now dep.config c.req s.hub.db user granted db)
    (hu : user.id = g.account) :
    granted ⊆ g.scopes ∧ ∃ v t, bearer dep.platform c.req = some v ∧ t ∈ s.hub.db.tokens ∧
      t.tokenHash = dep.platform.hashToken v ∧ t.userId = g.account := by
  obtain ⟨hbearer, hcookie, -⟩ := canMake_iff.mp hc
  cases hcaller with
  | bearer hb hacc hkind =>
    have howner := hacc.owner.symm.trans hu
    exact ⟨h.presented (hbearer _ hb) hacc.mem hacc.hash howner, _, _, hb, hacc.mem, hacc.hash, howner⟩
  | cookie hb hck hs =>
    obtain ⟨hm, hhash, -, -, howner, -⟩ := Sessions.signedIn_some hs
    exact absurd (howner.symm.trans hu) (h.shown (hcookie _ hck) hm hhash)

theorem Inv.confined (h : Inv dep g s) : Confined dep g s where
  bearers v hv t ht hhash hu :=
    h.presented (by unfold mayPresent; simp [hv]) ht hhash hu
  cookies v hv t ht hhash := h.shown (by unfold mayShow; simp [hv]) ht hhash
  guarded hw c hc user db fs hx hu := by
    obtain ⟨granted, hcaller, hscope⟩ := writeUser_caller hx
    exact hw ((h.caller hc hcaller hu).1 hscope)

/-- What was given before is still held. -/
theorem inv_carries {now : Time} {config : Settings} {N : Token → Prop} {M : Session → Prop} {hub : Hub}
    (h : Inv dep g s) (hc : Carries now config N M s.hub.db hub.db) :
    Inv dep g { s with hub := hub } where
  account := by
    obtain ⟨u, hu, hid⟩ := h.account
    exact ⟨u, hc.users u hu, hid⟩
  bearers v hv := by
    obtain ⟨t, ht, hhash, hsub⟩ := h.bearers v hv
    obtain ⟨t', ht', hcont⟩ := hc.tokens.kept t ht
    refine ⟨t', ht', hcont.tokenHash.trans hhash, fun hu => ?_⟩
    rw [hcont.scopes]
    exact hsub (hcont.userId.symm.trans hu)
  cookies v hv := by
    obtain ⟨t, ht, hhash, hne⟩ := h.cookies v hv
    obtain ⟨t', ht', hrem⟩ := hc.sessions.kept t ht
    exact ⟨t', ht', hrem.tokenHash.trans hhash, fun hu => hne (hrem.userId.symm.trans hu)⟩

end SpikeHub.L5.Holder
