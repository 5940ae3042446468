import SpikeHub.L4Routes.Effects

/-!
# What becomes of the credentials

Whatever a request asks for, a token or a session it found is still there
afterwards, with the account, the scopes and the expiry it had; a token that
was revoked stays revoked, and a session that was not live at the time of the
request is not live after it. `NewToken` and `NewSession` are the ways a new one comes about,
and every credential a reply hands out names a new one (`renewed_of_effect`).
-/
namespace SpikeHub.L4.Routes

open SpikeHub.Core SpikeHub.L1 SpikeHub.L2 SpikeHub.L4.Auth SpikeHub.L4.Uploads

/-- The same token, later. -/
structure Continues (t t' : Token) : Prop where
  tokenHash : t'.tokenHash = t.tokenHash
  userId : t'.userId = t.userId
  kind : t'.kind = t.kind
  scopes : t'.scopes = t.scopes
  chainId : t'.chainId = t.chainId
  expiresAt : t'.expiresAt = t.expiresAt
  revoked : t.revokedAt.isSome = true → t'.revokedAt.isSome = true

theorem Continues.refl (t : Token) : Continues t t := ⟨rfl, rfl, rfl, rfl, rfl, rfl, id⟩

theorem Continues.trans {a b c : Token} (h : Continues a b) (h' : Continues b c) : Continues a c where
  tokenHash := h'.tokenHash.trans h.tokenHash
  userId := h'.userId.trans h.userId
  kind := h'.kind.trans h.kind
  scopes := h'.scopes.trans h.scopes
  chainId := h'.chainId.trans h.chainId
  expiresAt := h'.expiresAt.trans h.expiresAt
  revoked hr := h'.revoked (h.revoked hr)

theorem continues_touched (now : Time) (t : Token) : Continues t (touched now t) :=
  ⟨rfl, rfl, rfl, rfl, rfl, rfl, id⟩

theorem continues_revoked (now : Time) (t : Token) : Continues t (revoked now t) :=
  ⟨rfl, rfl, rfl, rfl, rfl, rfl, fun _ => rfl⟩

/-- The same session, later, as a request at `now` leaves it. -/
structure Remains (now : Time) (config : Settings) (s s' : Session) : Prop where
  tokenHash : s'.tokenHash = s.tokenHash
  userId : s'.userId = s.userId
  wasLive : Sessions.live now config s' = true → Sessions.live now config s = true

section
variable {now : Time} {config : Settings}

theorem Remains.refl (s : Session) : Remains now config s s := ⟨rfl, rfl, id⟩

theorem Remains.trans {a b c : Session} (h : Remains now config a b) (h' : Remains now config b c) :
    Remains now config a c where
  tokenHash := h'.tokenHash.trans h.tokenHash
  userId := h'.userId.trans h.userId
  wasLive hl := h.wasLive (h'.wasLive hl)

/-- Only a live session is touched. -/
theorem remains_seen {s : Session} (hl : Sessions.live now config s = true) :
    Remains now config s (Sessions.seen now s) :=
  ⟨rfl, rfl, fun _ => hl⟩

theorem remains_ended (s : Session) : Remains now config s (Sessions.ended now s) :=
  ⟨rfl, rfl, fun hl => by simp [Sessions.live, Sessions.ended] at hl⟩

end

/-- The same accounts and more; the credentials continue, new ones are of the
kind `N`, new sessions of the kind `M`. -/
structure Carries (now : Time) (config : Settings) (N : Token → Prop) (M : Session → Prop)
    (db db' : Db) : Prop where
  users : ∀ u ∈ db.users, u ∈ db'.users
  tokens : Table.Evolves Continues N db.tokens db'.tokens
  sessions : Table.Evolves (Remains now config) M db.sessions db'.sessions

section
variable {now : Time} {config : Settings} {N : Token → Prop} {M : Session → Prop} {db db' db'' : Db}

theorem Carries.refl (db : Db) : Carries now config N M db db :=
  ⟨fun _ h => h, .refl Continues.refl _, .refl Remains.refl _⟩

theorem Carries.trans (hN : ∀ {a b}, N a → Continues a b → N b)
    (hM : ∀ {a b}, M a → Remains now config a b → M b) (h : Carries now config N M db db')
    (h' : Carries now config N M db' db'') : Carries now config N M db db'' where
  users u hu := h'.users u (h.users u hu)
  tokens := h.tokens.trans Continues.trans hN h'.tokens
  sessions := h.sessions.trans Remains.trans hM h'.sessions

theorem carries_sameAuth (h : SameAuth db db') : Carries now config N M db db' where
  users _ hu := h.users ▸ hu
  tokens := h.tokens ▸ .refl Continues.refl _
  sessions := h.sessions ▸ .refl Remains.refl _

theorem carries_touchToken (id : Uuid) : Carries now config N M db (touchToken now id db) where
  users _ hu := hu
  tokens := .updateWhere Continues.refl (touched now) (fun _ _ h => h) fun t _ _ =>
    continues_touched now t
  sessions := .refl Remains.refl _

theorem carries_revokeTokens (q : Token → Bool) :
    Carries now config N M db (revokeTokens now q db) where
  users _ hu := hu
  tokens := .updateWhere Continues.refl (revoked now) (fun _ _ h => h) fun t _ _ =>
    continues_revoked now t
  sessions := .refl Remains.refl _

theorem carries_touchSession {id : Uuid}
    (hl : ∀ s ∈ db.sessions, s.id = id → Sessions.live now config s = true) :
    Carries now config N M db (Sessions.touchSession now id db) where
  users _ hu := hu
  tokens := .refl Continues.refl _
  sessions := .updateWhere Remains.refl (Sessions.seen now) (fun _ _ h => h) fun s hs hid =>
    remains_seen (hl s hs (by simpa using hid))

theorem carries_endSessions (q : Session → Bool) :
    Carries now config N M db (Sessions.endSessions now q db) where
  users _ hu := hu
  tokens := .refl Continues.refl _
  sessions := .updateWhere Remains.refl (Sessions.ended now) (fun _ _ h => h) fun s _ _ =>
    remains_ended s

theorem carries_addToken {t : Token} (ht : N t) (h) :
    Carries now config N M db { db with tokens := db.tokens.insert t h } where
  users _ hu := hu
  tokens := .insert Continues.refl h ht
  sessions := .refl Remains.refl _

theorem carries_addSession {s : Session} (hs : M s) (h) :
    Carries now config N M db { db with sessions := db.sessions.insert s h } where
  users _ hu := hu
  tokens := .refl Continues.refl _
  sessions := .insert Remains.refl h hs

theorem carries_addUser {u : User} (h) :
    Carries now config N M db { db with users := db.users.insert u h } where
  users _ hu := Table.mem_insert_of_mem h hu
  tokens := .refl Continues.refl _
  sessions := .refl Remains.refl _

theorem carries_caller {p : Platform} {req : Presented} {user : User} {granted : List Scope}
    (h : CallerOf p now config req db user granted db') : Carries now config N M db db' := by
  cases h with
  | bearer => exact carries_touchToken _
  | cookie _ _ hs =>
    obtain ⟨hm, -, hl, -⟩ := Sessions.signedIn_some hs
    refine carries_touchSession fun s hs hid => ?_
    rw [db.sessions.eq_of_clash hs hm (.inl hid)]
    exact hl

theorem carries_linked {p : Platform} {ids : Accounts.LinkIds} {profile : OAuthProfile}
    {user : User} (h : Accounts.Linked p now ids profile config db user db') :
    Carries now config N M db db' := by
  cases h with
  | known => exact ⟨fun _ hu => hu, .refl Continues.refl _, .refl Remains.refl _⟩
  | adopted => exact ⟨fun _ hu => hu, .refl Continues.refl _, .refl Remains.refl _⟩
  | created =>
    rename_i hu _ _
    exact ⟨fun _ => Table.mem_insert_of_mem hu, .refl Continues.refl _, .refl Remains.refl _⟩

end

/-! ## New credentials -/

variable {dep : Deployment} {now : Time} {r : Rand} {req : Presented} {db db' : Db} {body : Request}
  {res : Except Raised Reply}

/-- A token that a request adds. -/
inductive NewToken (dep : Deployment) (now : Time) (r : Rand) (req : Presented) (db : Db) :
    Request → Token → Prop
  | minted {body : TokenBody} {user : User} {granted : List Scope} {db₁ : Db} {t : Token} :
      CallerOf dep.platform now dep.config req db user granted db₁ → t.userId = user.id →
      t.scopes = body.knownScopes → t.chainId = r.base + 1 →
      NewToken dep now r req db (.tokensCreate body) t
  | rotated {presented : String} {user : User} {row t : Token} :
      Accepted dep.platform now presented db user row → row.kind = .refresh →
      t.userId = row.userId → t.scopes = row.scopes → t.chainId = row.chainId →
      NewToken dep now r req db (.refresh presented) t

/-- A session that a request opens, by the account it signs in. -/
inductive NewSession (dep : Deployment) (now : Time) (r : Rand) (db : Db) : Request → Session → Prop
  | registered {email password agent : String} {user : User} {s : Session} :
      (∀ u ∈ db.users, ¬ Record.clash u user) → s.userId = user.id →
      NewSession dep now r db (.register email password agent) s
  | loggedIn {email password agent : String} {user : User} {s : Session} :
      Accounts.signIn dep.platform email password db = .ok user → s.userId = user.id →
      NewSession dep now r db (.login email password agent) s
  | linked {profile : OAuthProfile} {agent : String} {user : User} {db₁ : Db} {s : Session} :
      Accounts.Linked dep.platform now ⟨r.base, r.base + 1⟩ profile dep.config db user db₁ →
      s.userId = user.id → NewSession dep now r db (.oauthCallback profile agent) s

theorem NewToken.continues {t t' : Token} (h : NewToken dep now r req db body t)
    (hc : Continues t t') : NewToken dep now r req db body t' := by
  cases h with
  | minted hcaller hu hs hch =>
    exact .minted hcaller (hc.userId.trans hu) (hc.scopes.trans hs) (hc.chainId.trans hch)
  | rotated hacc hk hu hs hch =>
    exact .rotated hacc hk (hc.userId.trans hu) (hc.scopes.trans hs) (hc.chainId.trans hch)

theorem NewSession.remains {config : Settings} {s s' : Session} (h : NewSession dep now r db body s)
    (hr : Remains now config s s') :
    NewSession dep now r db body s' := by
  cases h with
  | registered hu hs => exact .registered hu (hr.userId.trans hs)
  | loggedIn hu hs => exact .loggedIn hu (hr.userId.trans hs)
  | linked hu hs => exact .linked hu (hr.userId.trans hs)

/-- What a request leaves of the credentials, and what its reply hands out. -/
structure Renewed (dep : Deployment) (now : Time) (r : Rand) (req : Presented) (db : Db)
    (body : Request) (res : Except Raised Reply) (db' : Db) : Prop where
  carries :
    Carries now dep.config (NewToken dep now r req db body) (NewSession dep now r db body) db db'
  bearers : ∀ reply, res = .ok reply → ∀ v ∈ reply.bearers, ∃ t ∈ db'.tokens,
    t.tokenHash = dep.platform.hashToken v ∧ NewToken dep now r req db body t
  cookies : ∀ reply, res = .ok reply → ∀ c ∈ reply.cookies, ∃ s ∈ db'.sessions,
    s.tokenHash = dep.platform.hashToken c ∧ NewSession dep now r db body s

theorem renewed_quiet
    (h : Carries now dep.config (NewToken dep now r req db body) (NewSession dep now r db body) db db')
    (hq : ∀ reply, res = .ok reply → reply.Quiet) : Renewed dep now r req db body res db' where
  carries := h
  bearers reply hr v hv := by rw [(hq reply hr).bearers] at hv; cases hv
  cookies reply hr c hc := by rw [(hq reply hr).cookies] at hc; cases hc

theorem quiet_reply {reply : Reply} (h : reply.Quiet) :
    ∀ out, Except.ok (ε := Raised) reply = .ok out → out.Quiet := by
  intro out hout
  cases hout
  exact h

theorem renewed_signedIn {d : Draw} {user : User} {agent cookie handle : String} {db₁ : Db}
    (hc : Carries now dep.config (NewToken dep now r req db body) (NewSession dep now r db body) db db₁)
    (ho : OpensSession dep now d user agent cookie db₁ db')
    (hs : ∀ s : Session, s.userId = user.id → NewSession dep now r db body s) :
    Renewed dep now r req db body (.ok (.signedIn cookie handle)) db' := by
  obtain ⟨⟨h, rfl⟩, rfl⟩ := ho
  have hnew := hs (Sessions.opened dep.platform now d user dep.config agent) rfl
  refine ⟨hc.trans NewToken.continues NewSession.remains (carries_addSession hnew h), ?_, ?_⟩
  · intro reply hr v hv
    cases hr
    cases hv
  · intro reply hr c hc
    cases hr
    rw [List.mem_singleton.mp hc]
    exact ⟨_, Table.mem_insert_self h, rfl, hnew⟩

theorem renewed_refreshed {presented : String} {user : User} {row : Token} {pair : IssuedPair}
    (hacc : Accepted dep.platform now presented db user row) (hkind : row.kind = .refresh)
    (ha : pair.accessToken = newToken (startOf .access) (r.draw 0))
    (hr : pair.refreshToken = newToken (startOf .refresh) (r.draw 1))
    (hadd : AddedPair dep.platform now (pairDraws r) user row.scopes dep.config row.chainId
      (revokeTokens now (fun t => t.id = row.id) db) db') :
    Renewed dep now r req db (.refresh presented) (.ok (.pair pair)) db' := by
  obtain ⟨mid, h, h', hmid, rfl⟩ := hadd.rows
  have hnew : ∀ d kind, NewToken dep now r req db (.refresh presented)
      (pairRow dep.platform now d dep.config user.id kind row.scopes row.chainId) :=
    fun d kind => .rotated hacc hkind hacc.owner rfl rfl
  have haccess :
      Table.Evolves Continues (NewToken dep now r req db (.refresh presented)) db.tokens mid := by
    rw [hmid]
    exact (Table.Evolves.updateWhere Continues.refl (revoked now) (fun _ _ h => h)
      fun t _ _ => continues_revoked now t).trans Continues.trans NewToken.continues
      (.insert Continues.refl h (hnew _ _))
  refine ⟨⟨fun _ hu => hu, ?_, .refl Remains.refl _⟩, ?_, ?_⟩
  · exact haccess.trans Continues.trans NewToken.continues (.insert Continues.refl h' (hnew _ _))
  · intro reply hreply v hv
    cases hreply
    simp only [Reply.bearers, List.mem_cons, List.not_mem_nil, or_false] at hv
    rcases hv with rfl | rfl
    · have hmem := Table.mem_insert_self h
      rw [← hmid] at hmem
      refine ⟨_, Table.mem_insert_of_mem h' hmem, ?_, hnew (r.draw 0) .access⟩
      rw [ha]
      rfl
    · refine ⟨_, Table.mem_insert_self h', ?_, hnew (r.draw 1) .refresh⟩
      rw [hr]
      rfl
  · intro reply hreply c hc
    cases hreply
    cases hc

theorem renewed_minted {body : TokenBody} {user : User} {granted : List Scope} {db₁ : Db} {h}
    (hcaller : CallerOf dep.platform now dep.config req db user granted db₁) :
    Renewed dep now r req db (.tokensCreate body)
      (.ok (.minted (newToken (startOf .pat) (r.draw 0)) body.name body.knownScopes))
      { db₁ with tokens := db₁.tokens.insert (patRow dep now (r.draw 0) user body) h } := by
  have hnew : NewToken dep now r req db (.tokensCreate body) (patRow dep now (r.draw 0) user body) :=
    .minted hcaller rfl rfl rfl
  refine ⟨(carries_caller hcaller).trans NewToken.continues NewSession.remains (carries_addToken hnew h),
    ?_, ?_⟩
  · intro reply hreply v hv
    cases hreply
    rw [List.mem_singleton.mp hv]
    exact ⟨_, Table.mem_insert_self h, rfl, hnew⟩
  · intro reply hreply c hc
    cases hreply
    cases hc

/-- Every request renews the credentials, whatever it asks for. -/
theorem renewed_of_effect (h : Effect dep now r req db body res db') :
    Renewed dep now r req db body res db' := by
  cases h with
  | quiet hq => exact renewed_quiet (.refl _) hq
  | registered _ hopen =>
    rename_i hu _
    exact renewed_signedIn (carries_addUser hu) hopen fun s hs => .registered hu hs
  | loggedIn hsign hopen => exact renewed_signedIn (.refl _) hopen fun s hs => .loggedIn hsign hs
  | loggedOut =>
    exact renewed_quiet (carries_endSessions _) (quiet_reply ⟨rfl, rfl⟩)
  | refreshed hacc hkind ha hr hadd => exact renewed_refreshed hacc hkind ha hr hadd
  | linked hlink hopen =>
    exact renewed_signedIn (carries_linked hlink) hopen fun s hs => .linked hlink hs
  | endedAll hcaller =>
    refine renewed_quiet ?_ (quiet_reply ⟨rfl, rfl⟩)
    exact (carries_caller hcaller).trans NewToken.continues NewSession.remains (carries_endSessions _)
  | minted hcaller => exact renewed_minted hcaller
  | revokedPat hcaller =>
    refine renewed_quiet ?_ (quiet_reply ⟨rfl, rfl⟩)
    exact (carries_caller hcaller).trans NewToken.continues NewSession.remains (carries_revokeTokens _)
  | uploaded _ hcaller _ hsame hq =>
    refine renewed_quiet ?_ (quiet_reply hq)
    exact (carries_caller hcaller).trans NewToken.continues NewSession.remains (carries_sameAuth hsame)
  | downloaded hsame => exact renewed_quiet (carries_sameAuth hsame) (quiet_reply ⟨rfl, rfl⟩)

end SpikeHub.L4.Routes
