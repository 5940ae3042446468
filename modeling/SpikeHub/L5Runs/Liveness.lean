import SpikeHub.L5Runs.Requests

/-!
# Dead credentials

A token is dead once it is revoked or its expiry has passed, a session also
once its idle limit has. Accepting a credential changes its row (`last_used_at`,
`last_seen_at`, `revoked_at`), but no request moves a dead row back inside one
of these windows (`deadToken_step`, `deadSession_step`), and the clock only
moves on: a dead credential is never accepted again (`dead_not_accepted`).
-/
namespace SpikeHub.L5.Liveness

open SpikeHub.Core SpikeHub.L1 SpikeHub.L2 SpikeHub.L4.Auth SpikeHub.L4.Routes SpikeHub.L5.Requests
open SpikeHub.L5.Interleave (Hub alice oneAccount)

/-- Revoked, or its `expires_at` has passed. -/
def TokenDead (now : Time) (t : Token) : Prop :=
  t.revokedAt.isSome = true ∨ ∃ x, t.expiresAt = some x ∧ x ≤ now

/-- Revoked, or its `expires_at` or its idle limit has passed. -/
def SessionDead (config : Settings) (now : Time) (s : Session) : Prop :=
  s.revokedAt.isSome = true ∨ s.expiresAt ≤ now ∨
    s.lastSeenAt + seconds config.sessionIdleTtlSeconds ≤ now

/-- A request that presents the session's cookie value now is authenticated by it. -/
def AcceptsSession (dep : Deployment) (h : Hub) (s : Session) : Prop :=
  ∃ cookie, s.tokenHash = dep.platform.hashToken cookie ∧ ∃ user db fs,
    (Sessions.resolve dep.platform h.now cookie dep.config).exec h.db h.volume =
      (.ok (some user), db, fs)

/-- The value is not refused as a bearer credential, or not as a refresh token. -/
def Admits (dep : Deployment) (h : Hub) (value : String) : Prop :=
  (∃ found db fs, (resolve dep.platform h.now value).exec h.db h.volume = (.ok found, db, fs)) ∨
    ∃ found db fs, (usableRefresh dep.platform h.now value).exec h.db h.volume = (.ok found, db, fs)

variable {dep : Deployment} {config : Settings} {h h' : Hub} {now : Time} {t t' : Token}
  {s s' : Session} {l : Lbl} {ls : List Lbl} {hash value : String}

/-! ## The windows -/

theorem tokenDead_iff : TokenDead now t ↔ checkLive now t ≠ .ok () := by
  unfold TokenDead
  rw [ne_eq, checkLive_ok, not_and_or, not_forall, ← ne_eq, ← Option.isSome_iff_ne_none]
  refine or_congr_right (exists_congr fun x => ?_)
  rw [Classical.not_imp, Int.not_lt]

theorem sessionDead_iff : SessionDead config now s ↔ Sessions.live now config s = false := by
  unfold SessionDead Sessions.live
  cases s.revokedAt with
  | some x => simp
  | none =>
    simp only [Option.isSome_none, Bool.false_eq_true, false_or, Option.isNone_none, Bool.true_and,
      Bool.and_eq_false_iff, decide_eq_false_iff_not, Int.not_lt]

/-- The clock only moves on. -/
theorem TokenDead.later {d : Nat} (hd : TokenDead now t) : TokenDead (now + d) t := by
  rcases hd with hr | ⟨x, hx, hle⟩
  · exact .inl hr
  · exact .inr ⟨x, hx, Int.le_trans hle (Int.le_add_of_nonneg_right (Int.natCast_nonneg d))⟩

theorem SessionDead.later {d : Nat} (hd : SessionDead config now s) :
    SessionDead config (now + d) s := by
  have hle : now ≤ now + d := Int.le_add_of_nonneg_right (Int.natCast_nonneg d)
  rcases hd with hr | hx | hidle
  · exact .inl hr
  · exact .inr (.inl (Int.le_trans hx hle))
  · exact .inr (.inr (Int.le_trans hidle hle))

theorem TokenDead.continues (hd : TokenDead now t) (hc : Continues t t') : TokenDead now t' := by
  rcases hd with hr | ⟨x, hx, hle⟩
  · exact .inl (hc.revoked hr)
  · exact .inr ⟨x, hc.expiresAt.trans hx, hle⟩

theorem SessionDead.remains (hd : SessionDead config now s) (hr : Remains now config s s') :
    SessionDead config now s' := by
  rw [sessionDead_iff] at hd ⊢
  by_contra hl
  rw [hr.wasLive (Bool.not_eq_false _ ▸ hl)] at hd
  cases hd

/-! ## Runs -/

/-- The token a hash names is dead. -/
def DeadToken (h : Hub) (hash : String) : Prop :=
  ∃ t ∈ h.db.tokens, t.tokenHash = hash ∧ TokenDead h.now t

/-- The session a hash names is dead. -/
def DeadSession (config : Settings) (h : Hub) (hash : String) : Prop :=
  ∃ s ∈ h.db.sessions, s.tokenHash = hash ∧ SessionDead config h.now s

theorem deadToken_step (hd : DeadToken h hash) (hs : (lts dep).step h l h') : DeadToken h' hash := by
  obtain ⟨t, ht, hhash, hdead⟩ := hd
  cases hs
  cases l with
  | tick d => exact ⟨t, ht, hhash, hdead.later⟩
  | call c =>
    obtain ⟨t', ht', hc⟩ := (serve_renewed dep c h).carries.tokens.kept t ht
    exact ⟨t', ht', hc.tokenHash.trans hhash, hdead.continues hc⟩

theorem deadSession_step (hd : DeadSession dep.config h hash) (hs : (lts dep).step h l h') :
    DeadSession dep.config h' hash := by
  obtain ⟨s, hm, hhash, hdead⟩ := hd
  cases hs
  cases l with
  | tick d => exact ⟨s, hm, hhash, hdead.later⟩
  | call c =>
    obtain ⟨s', hm', hr⟩ := (serve_renewed dep c h).carries.sessions.kept s hm
    exact ⟨s', hm', hr.tokenHash.trans hhash, hdead.remains hr⟩

theorem deadToken_run (hr : (lts dep).Run h ls h') (hd : DeadToken h hash) : DeadToken h' hash :=
  hr.keeps (fun _ _ _ hd hs => deadToken_step hd hs) hd

theorem deadSession_run (hr : (lts dep).Run h ls h') (hd : DeadSession dep.config h hash) :
    DeadSession dep.config h' hash :=
  hr.keeps (fun _ _ _ hd hs => deadSession_step hd hs) hd

/-! ## Acceptance -/

/-- A value is admitted when it names a live token of an active account. -/
theorem admits_iff : Admits dep h value ↔
    ∃ user row, Accepted dep.platform h.now value h.db user row := by
  constructor
  · intro ha
    rcases ha with ⟨⟨user, found⟩, db, fs, hx⟩ | ⟨⟨row, user⟩, db, fs, hx⟩
    · obtain ⟨-, row, hrow, -⟩ := resolve_ok hx
      exact ⟨user, row, hrow⟩
    · obtain ⟨-, -, hrow, -⟩ := usableRefresh_ok hx
      exact ⟨user, row, hrow⟩
  · intro ha
    obtain ⟨user, row, hrow⟩ := ha
    by_cases hk : row.kind = .refresh
    · exact .inr ⟨_, _, _, usableRefresh_exec hrow hk⟩
    · exact .inl ⟨_, _, _, resolve_exec hrow hk⟩

/-- What is accepted was admitted. -/
theorem admits_of_accepts (ha : Accepts dep h t) :
    ∃ value, t.tokenHash = dep.platform.hashToken value ∧ Admits dep h value := by
  obtain ⟨value, hhash, hx | ⟨ds, pair, db, fs, hx⟩⟩ := ha
  · exact ⟨value, hhash, .inl hx⟩
  · rw [rotate_eq] at hx
    obtain ⟨found, d₁, w₁, h₁, -⟩ := Work.exec_bind_eq_ok hx
    exact ⟨value, hhash, .inr ⟨found, d₁, w₁, h₁⟩⟩

theorem DeadToken.not_admits (hd : DeadToken h (dep.platform.hashToken value)) :
    ¬ Admits dep h value := by
  intro ha
  obtain ⟨t, ht, hhash, hdead⟩ := hd
  obtain ⟨user, row, hrow⟩ := admits_iff.mp ha
  obtain rfl := hrow.eq_of_hash ht hhash
  exact tokenDead_iff.mp hdead (checkLive_ok.mpr ⟨hrow.unrevoked, hrow.unexpired⟩)

theorem DeadSession.not_accepts (hd : DeadSession dep.config h s.tokenHash) :
    ¬ AcceptsSession dep h s := by
  intro ha
  obtain ⟨cookie, hcookie, user, db, fs, hx⟩ := ha
  obtain ⟨s', hm, hhash, hdead⟩ := hd
  obtain ⟨-, row, hs, -⟩ := Sessions.resolve_ok hx
  obtain ⟨hrow, hrowhash, hl, -⟩ := Sessions.signedIn_some hs
  have hsame : s' = row :=
    h.db.sessions.eq_of_clash hm hrow (.inr ((hhash.trans hcookie).trans hrowhash.symm))
  rw [← hsame, sessionDead_iff.mp hdead] at hl
  cases hl

/-- **Dead credentials stay dead**: in no state of a run from the one in which
they are dead, whatever requests the run consists of, are they accepted. -/
theorem dead_not_accepted (dep : Deployment) (h h' : Hub) (ls : List Lbl)
    (hrun : (lts dep).Run h ls h') :
    (∀ t ∈ h.db.tokens, TokenDead h.now t → ¬ Accepts dep h' t) ∧
      ∀ s ∈ h.db.sessions, SessionDead dep.config h.now s → ¬ AcceptsSession dep h' s := by
  constructor
  · intro t ht hdead ha
    obtain ⟨value, hhash, hadmit⟩ := admits_of_accepts ha
    have hd : DeadToken h (dep.platform.hashToken value) := ⟨t, ht, hhash, hdead⟩
    exact (deadToken_run hrun hd).not_admits hadmit
  · intro s hs hdead
    exact (deadSession_run hrun ⟨s, hs, rfl, hdead⟩).not_accepts

/-! ## Traces -/

/-- A personal access token of hers, revoked. -/
def withdrawn : Token where
  id := 2
  tokenHash := plain.hashToken "sfh_pat_first"
  userId := alice.id
  kind := .pat
  chainId := 3
  revokedAt := some 0

/-- A week and a day later. -/
def idle : Hub where
  now := 8 * day
  db := .ofUsers oneAccount ⟨[withdrawn], List.pairwise_singleton _ _⟩ oneSession
  volume := .empty _
  fresh := 100

theorem dead_after_visit : ¬ Accepts trial (step trial idle (.call (asAlice .me))) withdrawn ∧
    ¬ AcceptsSession trial (step trial idle (.call (asAlice .me))) opened := by
  have hdead := dead_not_accepted trial idle (step trial idle (.call (asAlice .me))) [.call (asAlice .me)]
    (.cons rfl (.nil _))
  exact ⟨hdead.1 withdrawn List.mem_cons_self (.inl rfl),
    hdead.2 opened List.mem_cons_self (.inr (.inr (by decide)))⟩

end SpikeHub.L5.Liveness
