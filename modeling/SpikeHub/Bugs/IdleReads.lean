import SpikeHub.L4Routes.Uses
import SpikeHub.L5Runs.Requests

/-!
# Reading does not keep a session alive

Behaviour (hub_api/auth/sessions.py:47-65, hub_api/routes/me.py:14-29,
hub_api/routes/tokens.py:19-29): `resolve` sets `last_seen_at` and flushes,
and the route it runs for commits. `GET /v1/me` and `GET /v1/tokens` do not,
so `db_session` rolls the touch back with the rest of the session
(db/engine.py:32-39).

What the code says: `resolve` "touches `last_seen_at` so the idle window
tracks use rather than sign-in time" (sessions.py:52-53).

Counterexample: the idle limit is seven days. A browser asks for `/v1/me` on
the fourth day after sign-in, is answered, and asks again on the eighth: it is
refused.

When it does hold: exactly for a request that comes within the idle limit of
the last one whose route commits, or of the sign-in (`authenticated_iff_kept`).
-/
namespace SpikeHub.Bugs.IdleReads

open SpikeHub.Core SpikeHub.L1 SpikeHub.L2 SpikeHub.L4.Auth SpikeHub.L4.Routes
open SpikeHub.L5.Interleave (Hub alice)
open SpikeHub.L5
open SpikeHub.L5.Requests (Call Lbl serve caller trial signedIn opened asAlice)

/-- The routes that need an account. -/
def needsAccount : Request → Bool
  | .tokensIndex | .me => true
  | body => body.keepsUse

/-- The service, and when a session was last used: by any request, and by one
whose route commits. -/
structure Sys where
  hub : Hub
  used : Time
  kept : Time

/-- The request was authenticated by the session, and answered. -/
def uses (dep : Deployment) (row : Session) (c : Call) (res : Except Raised Reply) : Bool :=
  presents dep.platform row c.req && needsAccount c.body && res.isOk

def step (dep : Deployment) (row : Session) (s : Sys) : Lbl → Sys
  | .tick d => { s with hub := { s.hub with now := s.hub.now + d } }
  | .call c =>
    let (res, hub) := serve dep c s.hub
    { hub := hub
      used := if uses dep row c res then s.hub.now else s.used
      kept := if keepsUse dep.platform row c.req c.body res then s.hub.now else s.kept }

/-- The service from the sign-in that opened `row` on. -/
def lts (dep : Deployment) (row : Session) : LTS Sys Lbl :=
  LTS.ofFn (fun s => row ∈ s.hub.db.sessions ∧ s.used = row.lastSeenAt ∧ s.kept = row.lastSeenAt)
    fun s l => some (step dep row s l)

def idleLimit (dep : Deployment) : Time := seconds dep.config.sessionIdleTtlSeconds

/-- A request by the session, before its absolute expiry and less than the idle
limit after its last use; the account is active and the session not revoked. -/
structure Due (dep : Deployment) (row : Session) (s : Sys) (req : Presented) : Prop where
  presents : presents dep.platform row req = true
  inTime : s.hub.now < s.used + idleLimit dep
  unexpired : s.hub.now < row.expiresAt
  active : ∃ user ∈ s.hub.db.users, user.id = row.userId ∧ user.state = .active
  unrevoked : ∀ b ∈ s.hub.db.sessions, b.id = row.id → b.revokedAt = none

variable {dep : Deployment} {row b : Session} {s s' : Sys} {l : Lbl} {h : Hub} {req : Presented}

/-! ## The touch that stays -/

theorem seen_inductive (dep : Deployment) (row : Session) :
    (lts dep row).Inductive fun s => Seen s.kept row s.hub.db where
  init s h := by
    obtain ⟨hrow, -, hkept⟩ := h
    rw [hkept]
    exact seen_self hrow
  step s l s' hseen hs := by
    cases hs
    cases l with
    | tick => exact hseen
    | call c => exact hseen.effect (Requests.serve_effect dep c s.hub)

/-- A request by a session that is not revoked and has not expired is
authenticated while the row is not idle. -/
theorem caller_iff {t : Time} (hseen : Seen t row s.hub.db) (hdue : Due dep row s req) :
    (caller dep s.hub req).isSome = true ↔ s.hub.now < t + idleLimit dep := by
  obtain ⟨b, hb, hrow⟩ := hseen
  obtain ⟨user, hu, huid, hactive⟩ := hdue.active
  have huser : s.hub.db.user? b.userId = some user :=
    user?_eq_some.mpr ⟨hu, huid.trans hrow.userId.symm⟩
  have hpresents : presents dep.platform b req = true := hrow.presents.trans hdue.presents
  have hlive : Sessions.live s.hub.now dep.config b = true ↔ s.hub.now < t + idleLimit dep := by
    have hrevoked := hdue.unrevoked b hb hrow.id
    have hexpires := hdue.unexpired
    unfold Sessions.live idleLimit
    rw [hrevoked, hrow.expiresAt, hrow.lastSeenAt, decide_eq_true hexpires]
    simp
  rw [← hlive]
  unfold caller
  rw [currentUser_presents hpresents hb huser hactive]
  cases Sessions.live s.hub.now dep.config b with
  | true => simp
  | false => simp

theorem authenticated_iff_kept (dep : Deployment) (row : Session) (s : Sys)
    (h : (lts dep row).Reachable s) (req : Presented) (hdue : Due dep row s req) :
    (caller dep s.hub req).isSome = true ↔ s.hub.now < s.kept + idleLimit dep :=
  caller_iff ((seen_inductive dep row).reachable s h) hdue

/-! ## Traces -/

theorem run_foldl (dep : Deployment) (row : Session) (s : Sys) (ls : List Lbl) :
    (lts dep row).Run s ls (ls.foldl (step dep row) s) := by
  induction ls generalizing s with
  | nil => exact .nil s
  | cons l ls ih => exact .cons rfl (ih (step dep row s l))

/-- Four days of 86400 seconds. -/
def fourDays : Lbl := .tick 345600000000

/-- Alice signed in at the epoch, sent a request on the fourth day, and it is
the eighth. -/
def eighthDay (body : Request) : Sys :=
  [fourDays, .call (asAlice body), fourDays].foldl (step trial opened) ⟨signedIn, 0, 0⟩

theorem reachable_eighthDay (body : Request) : (lts trial opened).Reachable (eighthDay body) :=
  ⟨⟨signedIn, 0, 0⟩, _, ⟨List.mem_cons_self, rfl, rfl⟩, run_foldl _ _ _ _⟩

def again : Presented := { cookie := some "sfh_s_first" }

/-- A token was created on the fourth day. -/
theorem authenticated_after_create :
    (caller trial (eighthDay (.tokensCreate {})).hub again).isSome = true := by
  have hdue : Due trial opened (eighthDay (.tokensCreate {})) again := {
    presents := by decide +kernel
    inTime := by decide +kernel
    unexpired := by decide +kernel
    active := by decide +kernel
    unrevoked := by decide +kernel }
  have hkept : (eighthDay (.tokensCreate {})).hub.now <
      (eighthDay (.tokensCreate {})).kept + idleLimit trial := by decide +kernel
  exact (authenticated_iff_kept trial opened _ (reachable_eighthDay _) again hdue).mpr hkept

/-- On the fourth day the account was read. -/
theorem not_authenticated : ¬ ∀ (dep : Deployment) (row : Session) (s : Sys),
    (lts dep row).Reachable s → ∀ req, Due dep row s req → (caller dep s.hub req).isSome = true := by
  intro h
  have hdue : Due trial opened (eighthDay .me) again := {
    presents := by decide +kernel
    inTime := by decide +kernel
    unexpired := by decide +kernel
    active := by decide +kernel
    unrevoked := by decide +kernel }
  have hrefused : (caller trial (eighthDay .me).hub again).isSome = false := by decide +kernel
  have hcaller := h trial opened _ (reachable_eighthDay .me) again hdue
  rw [hrefused] at hcaller
  cases hcaller

end SpikeHub.Bugs.IdleReads
