import SpikeHub.L5Runs.Liveness

/-!
# Signing out everywhere leaves the tokens

Behaviour (hub_api/routes/auth.py:157-164, hub_api/auth/sessions.py:87-99):
`POST /v1/auth/sessions/revoke-all` revokes the account's session rows. Its
access, refresh and personal access tokens are rows of another table, which it
does not touch, and neither `credentials.resolve` nor `credentials.rotate`
looks at anything the call has changed.

What the code says: the route is there to "sign the account out everywhere";
`User.token_version` is "incremented to invalidate every credential already
issued -- what a password change and 'sign out everywhere' do" (user.py:55-57).
Nothing increments it, and no check reads it.

Counterexample: an account signs up, mints a personal access token and signs
out everywhere. The token is still accepted.

When it does hold: when every token of the account was dead before the call
(`signedOut_iff_tokensDead`). The sessions do end.
-/
namespace SpikeHub.Bugs.SignOut

open SpikeHub.Core SpikeHub.L1 SpikeHub.L2 SpikeHub.L4.Auth SpikeHub.L4.Routes SpikeHub.L5.Requests
open SpikeHub.L5.Liveness
open SpikeHub.L5.Interleave (Hub)

/-- The call signs `user` out everywhere. -/
structure SignsOut (dep : Deployment) (h : Hub) (c : Call) (user : User) : Prop where
  body : c.body = .revokeAll
  caller : caller dep h c.req = some user

/-- From `h'` on, no credential issued to the account before `h` is accepted. -/
def SignedOutEverywhere (dep : Deployment) (user : User) (h h' : Hub) : Prop :=
  ∀ ls h'', (lts dep).Run h' ls h'' →
    (∀ s ∈ h.db.sessions, s.userId = user.id → ¬ AcceptsSession dep h'' s) ∧
      ∀ t ∈ h.db.tokens, t.userId = user.id → ∀ value, t.tokenHash = dep.platform.hashToken value →
        ¬ Admits dep h'' value

/-- The account's tokens, those a value was issued for, are dead. -/
def TokensDead (dep : Deployment) (user : User) (h : Hub) : Prop :=
  ∀ t ∈ h.db.tokens, t.userId = user.id →
    (∃ value, t.tokenHash = dep.platform.hashToken value) → TokenDead h.now t

variable {dep : Deployment} {h : Hub} {c : Call} {user : User} {s : Session} {t : Token}

/-- What the call leaves: the use of the caller's credential, and the sessions ended. -/
theorem serve_signOut (hs : SignsOut dep h c user) : ∃ granted db,
    CallerOf dep.platform h.now dep.config c.req h.db user granted db ∧
      (serve dep c h).2.db = Sessions.endSessions h.now (Sessions.openOf user.id) db := by
  obtain ⟨granted, db, hx, hcaller⟩ := caller_some hs.caller
  refine ⟨granted, db, hcaller, ?_⟩
  unfold serve
  rw [hs.body]
  show (dbSession (revokeAll dep h.now c.req) h.db h.volume).2.1 = _
  rw [revokeAll, dbSession_commit, Work.exec_bind, hx]
  rfl

/-- Every session of the account is revoked. -/
theorem deadSession_after (hs : SignsOut dep h c user) (hm : s ∈ h.db.sessions)
    (hu : s.userId = user.id) : DeadSession dep.config (serve dep c h).2 s.tokenHash := by
  obtain ⟨granted, db, hcaller, hdb⟩ := serve_signOut hs
  have hcarries : Carries h.now dep.config (fun _ => False) (fun _ => False) h.db db :=
    carries_caller hcaller
  obtain ⟨a, ha, hrem⟩ := hcarries.sessions.kept s hm
  refine ⟨if Sessions.openOf user.id a then Sessions.ended h.now a else a, ?_, ?_, .inl ?_⟩
  · rw [hdb]
    exact Sessions.mem_endSessions.mpr ⟨a, ha, rfl⟩
  · split
    · exact hrem.tokenHash
    · exact hrem.tokenHash
  · split
    · rfl
    · rename_i hopen
      simpa [Sessions.openOf, hrem.userId.trans hu, Option.isSome_iff_ne_none] using hopen

/-- A token the call leaves alone. -/
theorem admits_after (hs : SignsOut dep h c user) {value : String} (ht : t ∈ h.db.tokens)
    (hu : t.userId = user.id) (hhash : t.tokenHash = dep.platform.hashToken value)
    (hlive : ¬ TokenDead h.now t) : Admits dep (serve dep c h).2 value := by
  obtain ⟨granted, db, hcaller, hdb⟩ := serve_signOut hs
  obtain ⟨huser, hactive⟩ := hcaller.account
  obtain ⟨hrev, hexp⟩ := checkLive_ok.mp (not_not.mp (tokenDead_iff.not.mp hlive))
  have hacc : Accepted dep.platform h.now value h.db user t :=
    ⟨ht, hhash, hrev, hexp, huser, hu.symm, hactive⟩
  obtain ⟨row, hrow⟩ := hcaller.accepted hacc
  refine admits_iff.mpr ⟨user, row, ?_⟩
  rw [hdb]
  exact ⟨hrow.mem, hrow.hash, hrow.unrevoked, hrow.unexpired, hrow.account, hrow.owner, hrow.active⟩

/-- Signing out everywhere ends every credential exactly when there was no
token to end. -/
theorem signedOut_iff_tokensDead (dep : Deployment) (h : Hub) (c : Call) (user : User)
    (hs : SignsOut dep h c user) :
    SignedOutEverywhere dep user h (serve dep c h).2 ↔ TokensDead dep user h := by
  constructor
  · intro hout t ht hu hvalue
    obtain ⟨value, hhash⟩ := hvalue
    by_contra hlive
    exact ((hout [] _ (.nil _)).2 t ht hu value hhash) (admits_after hs ht hu hhash hlive)
  · intro hdead ls h'' hrun
    constructor
    · intro s hm hu
      exact (deadSession_run hrun (deadSession_after hs hm hu)).not_accepts
    · intro t ht hu value hhash
      have hd : DeadToken h (dep.platform.hashToken value) :=
        ⟨t, ht, hhash, hdead t ht hu ⟨value, hhash⟩⟩
      have hcall : (lts dep).step h (.call c) (serve dep c h).2 := rfl
      exact (deadToken_run hrun (deadToken_step hd hcall)).not_admits

/-! ## Traces -/

/-- Nobody has signed up yet. -/
def before : Hub := ⟨0, .ofUsers .empty, .empty _, 0⟩

def signingUp : Call := ⟨{}, .register "bob@example.org" "correct horse" "agent", fun _ => "b"⟩

def minting : Call := ⟨{ cookie := some "sfh_s_b" }, .tokensCreate {}, fun _ => "p"⟩

def signingOut : Call := ⟨{ cookie := some "sfh_s_b" }, .revokeAll, fun _ => "x"⟩

def signedUp : Hub := step trial before (.call signingUp)

def withToken : Hub := step trial signedUp (.call minting)

/-- The token is revoked by its id. -/
def withRevoked : Hub := step trial withToken (.call ⟨{ cookie := some "sfh_s_b" }, .tokensRevoke 6, fun _ => "r"⟩)

/-- Signed out with a token that was revoked before. -/
theorem signedOut_with_revoked : ∃ user, caller trial withRevoked signingOut.req = some user ∧
    (∃ t ∈ withRevoked.db.tokens, t.userId = user.id ∧ t.tokenHash = plain.hashToken "sfh_pat_p") ∧
    SignedOutEverywhere trial user withRevoked (serve trial signingOut withRevoked).2 := by
  have hcaller : (caller trial withRevoked signingOut.req).any (fun user =>
      (withRevoked.db.tokens.rows.any fun t => t.userId = user.id &&
        t.tokenHash = plain.hashToken "sfh_pat_p") &&
      withRevoked.db.tokens.rows.all fun t => t.revokedAt.isSome) = true := by
    decide +kernel
  obtain ⟨user, huser, hrows⟩ := (Option.any_eq_true _ _).mp hcaller
  obtain ⟨hissued, hrevoked⟩ := Bool.and_eq_true_iff.mp hrows
  obtain ⟨t, ht, hp⟩ := List.any_eq_true.mp hissued
  simp only [Bool.and_eq_true, decide_eq_true_eq] at hp
  refine ⟨user, huser, ⟨t, Table.mem_rows.mp ht, hp⟩, ?_⟩
  refine (signedOut_iff_tokensDead trial withRevoked signingOut user ⟨rfl, huser⟩).mpr fun t ht _ _ => .inl ?_
  exact List.all_eq_true.mp hrevoked t (Table.mem_rows.mpr ht)

theorem not_signedOut : ¬ ∀ (dep : Deployment) (h : Hub) (c : Call) (user : User),
    SignsOut dep h c user → SignedOutEverywhere dep user h (serve dep c h).2 := by
  intro hall
  have hcaller : (caller trial withToken signingOut.req).any (fun user =>
      withToken.db.tokens.rows.any fun t => t.userId = user.id &&
        t.tokenHash = plain.hashToken "sfh_pat_p" && checkLive withToken.now t = .ok ()) = true := by
    decide +kernel
  obtain ⟨user, huser, hany⟩ := (Option.any_eq_true _ _).mp hcaller
  obtain ⟨t, ht, hp⟩ := List.any_eq_true.mp hany
  simp only [Bool.and_eq_true, decide_eq_true_eq] at hp
  obtain ⟨⟨hu, hhash⟩, hlive⟩ := hp
  have hs : SignsOut trial withToken signingOut user := ⟨rfl, huser⟩
  have hadmit : Admits trial (serve trial signingOut withToken).2 "sfh_pat_p" :=
    admits_after hs (Table.mem_rows.mp ht) hu hhash fun hd => tokenDead_iff.mp hd hlive
  exact (hall _ _ _ _ hs [] _ (.nil _)).2 t (Table.mem_rows.mp ht) hu _ hhash hadmit

end SpikeHub.Bugs.SignOut
