import SpikeHub.L5Runs.Requests

/-!
# The end of a replayed grant is rolled back

Behaviour (hub_api/auth/credentials.py:173-213, hub_api/routes/auth.py:95-110,
hub_api/db/engine.py:32-39): when a refresh token that was already exchanged
comes back, `_break_chain` revokes its chain in the session and
`_check_not_replayed` raises. The route does not reach its commit, and
`db_session` rolls the session back: the revocations are lost.

What the code says: presenting an exchanged token "invalidates its whole
chain" (credentials.py:9-12), and the error it answers with says that "the
session has been ended".

Counterexample: a chain of an exchanged refresh token and the access token it
was exchanged for. The exchanged one is replayed; the access token is still
accepted.

When it does hold: only where there was nothing left to revoke. A replay
leaves the committed state as it was, whatever the chain (`serve_replayed`).
-/
namespace SpikeHub.Bugs.ReplayRollback

open SpikeHub.Core SpikeHub.L1 SpikeHub.L2 SpikeHub.L4.Auth SpikeHub.L4.Routes SpikeHub.L5.Requests
open SpikeHub.L5.Interleave (Hub alice oneAccount)

/-- The grant is over in the committed state, and no later request is served
by a token of it. -/
def DurablyEnded (dep : Deployment) (chain : Uuid) (h : Hub) : Prop :=
  Ended chain h.db ∧ ∀ ls h', (lts dep).Run h ls h' →
    ∀ t ∈ h'.db.tokens, t.chainId = chain → ¬ Accepts dep h' t

/-- A refresh token that was revoked before, presented again. -/
structure Replay (dep : Deployment) (h : Hub) (row : Token) (c : Call) : Prop where
  mem : row ∈ h.db.tokens
  kind : row.kind = .refresh
  revoked : row.revokedAt.isSome = true
  presented : ∃ v, c.body = .refresh v ∧ row.tokenHash = dep.platform.hashToken v

variable {dep : Deployment} {h : Hub} {row : Token} {c : Call} {chain : Uuid}

/-- The revocations of a replay do not outlive the request. -/
theorem serve_replayed (hr : Replay dep h row c) : (serve dep c h).2.db = h.db := by
  obtain ⟨v, hbody, hhash⟩ := hr.presented
  unfold serve
  rw [hbody]
  show (dbSession (refresh dep h.now ⟨h.fresh, c.secret⟩ v) h.db h.volume).2.1 = h.db
  rw [refresh, dbSession_commit, Work.exec_bind, rotate_replayed hr.mem hhash hr.kind hr.revoked]

/-- A grant that is over stays over, and is not served. -/
theorem durablyEnded_iff (hc : chain < h.fresh) : DurablyEnded dep chain h ↔ Ended chain h.db := by
  constructor
  · intro hd
    exact hd.1
  · intro he
    refine ⟨he, fun ls h' hrun t ht hchain => ?_⟩
    exact not_accepts_of_ended (ended_run hrun hc he) t ht hchain

theorem durablyEnded_iff_ended (dep : Deployment) (h : Hub) (row : Token) (c : Call)
    (hr : Replay dep h row c) (hc : row.chainId < h.fresh) :
    DurablyEnded dep row.chainId (serve dep c h).2 ↔ Ended row.chainId h.db := by
  have hfresh : row.chainId < (serve dep c h).2.fresh := Nat.lt_of_lt_of_le hc (Nat.le_add_right _ _)
  rw [durablyEnded_iff hfresh, serve_replayed hr]

/-! ## Traces -/

/-- The rows of alice's grant. -/
def grantRow (id : Uuid) (kind : TokenKind) (value : String) (revokedAt : Option Time) : Token where
  id := id
  tokenHash := plain.hashToken value
  userId := alice.id
  kind := kind
  scopes := [.read]
  chainId := 7
  revokedAt := revokedAt

def exchanged : Token := grantRow 1 .refresh "sfh_rt_first" (some 0)

/-- The access token that `exchanged` was exchanged for. -/
def access (revokedAt : Option Time) : Token := grantRow 2 .access "sfh_at_second" revokedAt

theorem no_clash (revokedAt : Option Time) : ¬ Record.clash exchanged (access revokedAt) := by
  have hne : plain.hashToken "sfh_rt_first" ≠ plain.hashToken "sfh_at_second" := by decide +kernel
  intro h
  rcases h with h | h
  · cases h
  · exact hne h

def granted (revokedAt : Option Time) : Hub where
  now := 1
  db := .ofUsers oneAccount
    ⟨[exchanged, access revokedAt], List.pairwise_pair.mpr (no_clash revokedAt)⟩
  volume := .empty _
  fresh := 100

def replaying : Call := ⟨{}, .refresh "sfh_rt_first", fun _ => "x"⟩

theorem replay_granted (revokedAt : Option Time) :
    Replay trial (granted revokedAt) exchanged replaying where
  mem := List.mem_cons_self
  kind := rfl
  revoked := rfl
  presented := ⟨"sfh_rt_first", rfl, rfl⟩

/-- The access token was signed out before the replay. -/
theorem durablyEnded_after_revoke :
    DurablyEnded trial exchanged.chainId (serve trial replaying (granted (some 0))).2 := by
  refine (durablyEnded_iff_ended trial _ exchanged replaying (replay_granted (some 0)) (by decide)).mpr ?_
  intro t ht _
  rcases List.mem_pair.mp ht with rfl | rfl <;> rfl

theorem not_durablyEnded : ¬ ∀ (dep : Deployment) (h : Hub) (row : Token) (c : Call),
    Replay dep h row c → row.chainId < h.fresh → DurablyEnded dep row.chainId (serve dep c h).2 := by
  intro hall
  have hd := hall trial (granted none) exchanged replaying (replay_granted none) (by decide)
  have hended := hd.1
  rw [serve_replayed (replay_granted none)] at hended
  have hrevoked := hended (access none) (List.mem_cons_of_mem _ List.mem_cons_self) rfl
  cases hrevoked

end SpikeHub.Bugs.ReplayRollback
