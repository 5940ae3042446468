import SpikeHub.Core.History
import SpikeHub.L5Runs.Fresh

/-!
# Credentials that last

What a credential that was handed out is good for, after any run of the
service: everybody's requests, the janitor, the clock, and an operator.

A personal access token authenticates its owner, with its scopes, exactly
while the account is active and the owner has not revoked it
(`pat_authenticates_iff`); no other request ends it, `revoke-all` included. A
password that was registered signs in exactly as it was typed
(`password_signs_in`).
-/
namespace SpikeHub.L5.Lasting

open SpikeHub.Core SpikeHub.L1 SpikeHub.L2 SpikeHub.L4.Auth SpikeHub.L4.Uploads SpikeHub.L4.Routes
open SpikeHub.L5.Service
open SpikeHub.L5.Interleave (Hub)
open SpikeHub.L5.Requests (Call serve serve_effect caller asAlice plain plain_lawful)
open SpikeHub.L5.Catalogue (swept swept_db unverified)

/-- The same token, used or revoked since. -/
structure SameToken (t t' : Token) : Prop where
  id : t'.id = t.id
  tokenHash : t'.tokenHash = t.tokenHash
  userId : t'.userId = t.userId
  kind : t'.kind = t.kind
  scopes : t'.scopes = t.scopes
  expiresAt : t'.expiresAt = t.expiresAt

/-- The token is in the database, and revoked if `b`. -/
def Kept (t : Token) (b : Prop) (db : Db) : Prop :=
  ∃ t' ∈ db.tokens, SameToken t t' ∧ (t'.revokedAt.isSome = true ↔ b)

/-- The owner's own request has revoked the token. -/
def Revokes (dep : Deployment) (owner id : Uuid) (s : Hub) (l : Lbl) : Prop :=
  ∃ c user, l = .service (.call c) ∧ c.body = .tokensRevoke id ∧ caller dep s c.req = some user ∧
    user.id = owner ∧ (serve dep c s).1 = .ok .done

variable {dep : Deployment} {h h' : Hub} {l : Lbl} {ls : List Lbl} {c : Call} {db db' : Db} {fs : Volume} {now : Time}
  {r : Rand} {req : Presented} {body : Request} {res : Except Raised Reply} {t t' : Token} {b b' : Prop}
  {user : User} {granted : List Scope} {p : Platform} {config : Settings}

theorem SameToken.refl (t : Token) : SameToken t t := ⟨rfl, rfl, rfl, rfl, rfl, rfl⟩

theorem SameToken.trans {t'' : Token} (h : SameToken t t') (h' : SameToken t' t'') : SameToken t t'' where
  id := h'.id.trans h.id
  tokenHash := h'.tokenHash.trans h.tokenHash
  userId := h'.userId.trans h.userId
  kind := h'.kind.trans h.kind
  scopes := h'.scopes.trans h.scopes
  expiresAt := h'.expiresAt.trans h.expiresAt

theorem kept_self (ht : t ∈ db.tokens) : Kept t (t.revokedAt.isSome = true) db :=
  ⟨t, ht, .refl t, Iff.rfl⟩

theorem Kept.iff (h : Kept t b db) (hb : b ↔ b') : Kept t b' db := by
  obtain ⟨t', ht', hsame, hrev⟩ := h
  exact ⟨t', ht', hsame, hrev.trans hb⟩

theorem Kept.trans (h : Kept t b db) (h' : ∀ t' ∈ db.tokens, SameToken t t' →
    (t'.revokedAt.isSome = true ↔ b) → Kept t' b' db') : Kept t b' db' := by
  obtain ⟨t', ht', hsame, hrev⟩ := h
  obtain ⟨t'', ht'', hsame', hrev'⟩ := h' t' ht' hsame hrev
  exact ⟨t'', ht'', hsame.trans hsame', hrev'⟩

theorem Kept.same (h : Kept t b db) (htokens : db'.tokens = db.tokens) : Kept t b db' := by
  obtain ⟨t', ht', hkept⟩ := h
  exact ⟨t', htokens ▸ ht', hkept⟩

theorem Kept.inserted (h : Kept t b db) {new : Token} (hnew) :
    Kept t b { db with tokens := db.tokens.insert new hnew } := by
  obtain ⟨t', ht', hkept⟩ := h
  exact ⟨t', Table.mem_insert_of_mem hnew ht', hkept⟩

theorem Kept.touched (h : Kept t b db) (id : Uuid) : Kept t b (touchToken now id db) := by
  obtain ⟨t', ht', hsame, hrev⟩ := h
  refine ⟨_, mem_touchToken.mpr ⟨t', ht', rfl⟩, ?_⟩
  split
  · exact ⟨hsame.trans ⟨rfl, rfl, rfl, rfl, rfl, rfl⟩, hrev⟩
  · exact ⟨hsame, hrev⟩

/-- Tokens that are revoked, this one among them or not. -/
theorem Kept.revoked (h : Kept t b db) (q : Token → Bool) (hq : ∀ t', SameToken t t' → q t' = q t) :
    Kept t (b ∨ q t = true) (revokeTokens now q db) := by
  obtain ⟨t', ht', hsame, hrev⟩ := h
  refine ⟨_, mem_revokeTokens.mpr ⟨t', ht', rfl⟩, ?_⟩
  rw [hq t' hsame]
  split
  · rename_i htrue
    exact ⟨hsame.trans ⟨rfl, rfl, rfl, rfl, rfl, rfl⟩, iff_of_true rfl (.inr htrue)⟩
  · rename_i hfalse
    exact ⟨hsame, hrev.trans ⟨.inl, fun h => h.resolve_right hfalse⟩⟩

theorem Kept.caller (h : Kept t b db) (hc : CallerOf p now config req db user granted db') :
    Kept t b db' := by
  cases hc with
  | bearer => exact h.touched _
  | cookie => exact h.same rfl

/-! ## Step by step -/

/-- What a request leaves of a personal access token: it is revoked when its
owner asked for just that, and as it was otherwise. -/
theorem pat_effect (h : Effect dep now r req db body res db') (ht : t ∈ db.tokens) (hpat : t.kind = .pat) :
    Kept t (t.revokedAt.isSome = true ∨ (body = .tokensRevoke t.id ∧ res = .ok .done ∧
      ∃ user granted db₁, CallerOf dep.platform now dep.config req db user granted db₁ ∧
        user.id = t.userId)) db' := by
  have hself : Kept t (t.revokedAt.isSome = true) db := kept_self ht
  have hother : ∀ {db'}, Kept t (t.revokedAt.isSome = true) db' → body ≠ .tokensRevoke t.id →
      Kept t (t.revokedAt.isSome = true ∨ (body = .tokensRevoke t.id ∧ res = .ok .done ∧
        ∃ user granted db₁, CallerOf dep.platform now dep.config req db user granted db₁ ∧
          user.id = t.userId)) db' :=
    fun hk hne => hk.iff ⟨.inl, fun h => h.resolve_right fun he => hne he.1⟩
  cases h with
  | quiet _ hraised =>
    refine hself.iff ⟨.inl, fun h => h.resolve_right fun hdone => ?_⟩
    obtain ⟨hbody, hok, -⟩ := hdone
    obtain ⟨e, he⟩ := hraised (by rw [hbody]; rfl)
    rw [hok] at he
    cases he
  | registered _ hopen | loggedIn _ hopen =>
    obtain ⟨_, rfl⟩ := hopen.row
    exact hother (hself.same rfl) nofun
  | loggedOut => exact hother (hself.same rfl) nofun
  | refreshed hacc hkind haccess hrefresh hadd =>
    rename_i row pair
    obtain ⟨mid, hm, hm', rfl, rfl⟩ := hadd.rows
    have hne : t.id ≠ row.id := by
      intro he
      obtain rfl := db.tokens.eq_of_clash ht hacc.mem (.inl he)
      rw [hkind] at hpat
      cases hpat
    have hrev : Kept t _ (revokeTokens now _ db) :=
      hself.revoked (fun t => t.id = row.id) fun t' hs => by simp only [hs.id]
    refine hother (Kept.iff ((hrev.inserted hm).inserted hm') ?_) nofun
    simp [hne]
  | linked hlink hopen =>
    obtain ⟨_, rfl⟩ := hopen.row
    refine hother (hself.same ?_) nofun
    cases hlink with
    | known => rfl
    | adopted => rfl
    | created => rfl
  | endedAll hcaller => exact hother ((hself.caller hcaller).same rfl) nofun
  | minted hcaller => exact hother ((hself.caller hcaller).inserted _) nofun
  | revokedPat hcaller hrow hid howner hkind =>
    rename_i id user granted row db₁
    have hrev : Kept t _ (revokeTokens now _ db₁) :=
      (hself.caller hcaller).revoked (fun t => t.id = row.id) fun t' hs => by simp only [hs.id]
    refine hrev.iff (or_congr_right ?_)
    rw [decide_eq_true_eq, hid]
    constructor
    · intro he
      refine ⟨by rw [he], rfl, user, granted, db₁, hcaller, ?_⟩
      obtain ⟨t', ht', hsame, -⟩ := hself.caller hcaller
      rw [← howner, ← hsame.userId, db₁.tokens.eq_of_clash ht' hrow (.inl (hsame.id.trans (he.trans hid.symm)))]
    · intro hdone
      cases hdone.1
      rfl
  | uploaded hup hcaller _ hsame =>
    refine hother ((hself.caller hcaller).same hsame.tokens) fun he => ?_
    rw [he] at hup
    cases hup
  | downloaded hsame => exact hother (hself.same hsame.tokens) nofun

/-! ## Runs -/

theorem CallerOf.exec (hc : CallerOf p now config req db user granted db') :
    (currentUser p now config req).exec db fs = (.ok (user, granted), db', fs) := by
  cases hc with
  | bearer hb hacc hkind =>
    unfold currentUser
    rw [hb]
    dsimp only
    rw [Work.exec_bind_ok (resolve_exec hacc hkind)]
    rfl
  | cookie hb hcookie hs hne =>
    unfold currentUser
    rw [hb, hcookie, Option.filter_some, if_pos (decide_eq_true hne)]
    dsimp only
    rw [Work.exec_bind_ok (Sessions.resolve_exec hs)]
    rfl

theorem caller_eq_some : caller dep h req = some user ↔
    ∃ granted db', CallerOf dep.platform h.now dep.config req h.db user granted db' := by
  constructor
  · intro hc
    obtain ⟨granted, db', -, hcaller⟩ := Requests.caller_some hc
    exact ⟨granted, db', hcaller⟩
  · intro hc
    obtain ⟨granted, db', hcaller⟩ := hc
    unfold caller
    rw [CallerOf.exec hcaller]

theorem Kept.unique (h : Kept t b db) (h' : Kept t b' db) : b ↔ b' := by
  obtain ⟨t', ht', hsame, hrev⟩ := h
  obtain ⟨t'', ht'', hsame', hrev'⟩ := h'
  rw [db.tokens.eq_of_clash ht'' ht' (.inl (hsame'.id.trans hsame.id.symm))] at hrev'
  exact hrev.symm.trans hrev'

theorem pat_serve (hk : Kept t b h.db) (hpat : t.kind = .pat) (dep : Deployment) (c : Call) :
    Kept t (b ∨ Revokes dep t.userId t.id h (.service (.call c))) (serve dep c h).2.db := by
  refine hk.trans fun t' ht' hsame hrev => ?_
  refine (pat_effect (serve_effect dep c h) ht' (hsame.kind.trans hpat)).iff (or_congr hrev ?_)
  rw [hsame.id, hsame.userId]
  constructor
  · intro hdone
    obtain ⟨hbody, hok, user, granted, db₁, hcaller, howner⟩ := hdone
    exact ⟨c, user, rfl, hbody, caller_eq_some.mpr ⟨granted, db₁, hcaller⟩, howner, hok⟩
  · intro hdone
    obtain ⟨c', user, he, hbody, hcaller, howner, hok⟩ := hdone
    cases he
    obtain ⟨granted, db₁, hcaller⟩ := caller_eq_some.mp hcaller
    exact ⟨hbody, hok, user, granted, db₁, hcaller, howner⟩

theorem pat_step (hk : Kept t b h.db) (hpat : t.kind = .pat) (hs : (lts dep).step h l h') :
    Kept t (b ∨ Revokes dep t.userId t.id h l) h'.db := by
  have hquiet : (∀ c, l ≠ .service (.call c)) → (b ↔ b ∨ Revokes dep t.userId t.id h l) := by
    intro hl
    refine ⟨.inl, fun h => h.resolve_right fun hr => ?_⟩
    obtain ⟨c, -, he, -⟩ := hr
    exact hl c he
  cases hs
  cases l with
  | account => exact (hk.same rfl).iff (hquiet fun _ => nofun)
  | moderate => exact (hk.same rfl).iff (hquiet fun _ => nofun)
  | service l =>
    cases l with
    | tick => exact (hk.same rfl).iff (hquiet fun _ => nofun)
    | call c => exact pat_serve hk hpat dep c
    | sweep =>
      have htokens : (swept h).db.tokens = h.db.tokens := by rw [swept_db]; rfl
      exact (hk.same htokens).iff (hquiet fun _ => nofun)

/-- What a run leaves of a personal access token. -/
theorem pat_run (hk : Kept t b h.db) (hpat : t.kind = .pat) (hr : (lts dep).Run h ls h') :
    Kept t (b ∨ (lts dep).Sometime (Revokes dep t.userId t.id) h ls h') h'.db :=
  hr.marks (K := fun b s => Kept t b s.db) (fun _ _ _ => Kept.unique)
    (fun _ _ _ _ hk hs => pat_step hk hpat hs) hk

/-- A token that is there authenticates its owner, with its scopes, while it
is not revoked and the account is active. -/
theorem currentUser_pat {presented : String} (hk : Kept t b db) (hpat : t.kind = .pat)
    (hexpires : t.expiresAt = none) (hb : bearer p req = some presented)
    (hhash : t.tokenHash = p.hashToken presented) :
    (∃ db', (currentUser p now config req).exec db fs = (.ok (user, granted), db', fs)) ↔
      user ∈ db.users ∧ user.id = t.userId ∧ user.state = .active ∧ granted = t.scopes ∧ ¬ b := by
  obtain ⟨t', ht', hsame, hrev⟩ := hk
  constructor
  · intro hx
    obtain ⟨db', hx⟩ := hx
    obtain ⟨-, hcaller⟩ := currentUser_ok hx
    cases hcaller with
    | bearer hb' hacc =>
      obtain rfl := Option.some.inj (hb.symm.trans hb')
      obtain rfl := hacc.eq_of_hash ht' (hsame.tokenHash.trans hhash)
      refine ⟨hacc.account, hacc.owner.trans hsame.userId, hacc.active, hsame.scopes, fun hrevoked => ?_⟩
      have hsome := hrev.mpr hrevoked
      rw [hacc.unrevoked] at hsome
      cases hsome
    | cookie hb' => rw [hb] at hb'; cases hb'
  · intro hx
    obtain ⟨huser, howner, hactive, rfl, hnot⟩ := hx
    have hacc : Accepted p now presented db user t' := by
      refine ⟨ht', hsame.tokenHash.trans hhash, ?_, fun x hx => ?_, huser, howner.trans hsame.userId.symm, hactive⟩
      · exact Option.not_isSome_iff_eq_none.mp fun hr => hnot (hrev.mp hr)
      · rw [hsame.expiresAt, hexpires] at hx
        cases hx
    have hkind : t'.kind ≠ .refresh := by rw [hsame.kind, hpat]; decide
    exact ⟨_, hsame.scopes ▸ CallerOf.exec (.bearer hb hacc hkind)⟩

/-- The token a request was given. -/
theorem minted_kept {token name : String} {scopes : List Scope}
    (hminted : (serve dep c h).1 = .ok (.minted token name scopes)) :
    ∃ owner t, caller dep h c.req = some owner ∧ t.id = h.fresh ∧ t.userId = owner.id ∧ t.kind = .pat ∧
      t.expiresAt = none ∧ t.scopes = scopes ∧ t.tokenHash = dep.platform.hashToken token ∧
      Kept t False (serve dep c h).2.db := by
  have he := serve_effect dep c h
  rw [hminted] at he
  generalize c.body = body at he
  generalize (serve dep c h).2.db = db' at he
  cases he with
  | quiet hq => cases (hq _ rfl).bearers
  | uploaded _ _ _ _ hq => cases hq.bearers
  | minted hcaller =>
    rename_i user granted db₁ hnew
    refine ⟨user, patRow dep h.now (Rand.draw ⟨h.fresh, c.secret⟩ 0) user _,
      caller_eq_some.mpr ⟨granted, db₁, hcaller⟩, rfl, rfl, rfl, rfl, rfl, rfl, ?_⟩
    exact ⟨_, Table.mem_insert_self hnew, .refl _, iff_of_false nofun id⟩

/-- **A personal access token lasts**: after any run it authenticates its
owner, with its scopes and nobody else, exactly while the account is active and
the owner has not revoked it. -/
theorem pat_authenticates_iff (dep : Deployment) (h h' : Hub) (ls : List Lbl) (c : Call)
    (token name : String) (scopes : List Scope)
    (hminted : (serve dep c h).1 = .ok (.minted token name scopes))
    (hrun : (lts dep).Run (serve dep c h).2 ls h') :
    ∃ owner, caller dep h c.req = some owner ∧ ∀ req user granted,
      bearer dep.platform req = some token →
      ((∃ db', (currentUser dep.platform h'.now dep.config req).exec h'.db h'.volume =
          (.ok (user, granted), db', h'.volume)) ↔
        user ∈ h'.db.users ∧ user.id = owner.id ∧ user.state = .active ∧ granted = scopes ∧
          ¬ (lts dep).Sometime (Revokes dep owner.id h.fresh) (serve dep c h).2 ls h') := by
  obtain ⟨owner, t, hcaller, hid, howner, hpat, hexpires, rfl, hhash, hkept⟩ := minted_kept hminted
  refine ⟨owner, hcaller, fun req user granted hb => ?_⟩
  have hlast := (pat_run hkept hpat hrun).iff (iff_of_eq (false_or _))
  rw [currentUser_pat hlast hpat hexpires hb hhash, howner, hid]

theorem minted_of_bearers {res : Except Raised Reply} {token : String}
    (hb : res.toOption.map Reply.bearers = some [token]) :
    ∃ name scopes, res = .ok (.minted token name scopes) := by
  cases res with
  | error e => cases hb
  | ok reply =>
    cases reply with
    | minted token' name scopes => cases hb; exact ⟨name, scopes, rfl⟩
    | _ => cases hb

/-- A token of hers, for reading. -/
def minting : Call := asAlice (.tokensCreate { name := "ci" })

/-- She has minted it and signed out everywhere. -/
def signedOut : Hub := step unverified (serve unverified minting signedUp).2 (.service (.call (asAlice .revokeAll)))

theorem revokeAll_not_revokes {owner id : Uuid} :
    ¬ (lts dep).Sometime (Revokes dep owner id) h [.service (.call (asAlice .revokeAll))] h' := by
  intro hs
  cases hs with
  | here _ hrevokes =>
    obtain ⟨c, user, hc, hbody, -⟩ := hrevokes
    cases hc
    cases hbody
  | later _ hnone => cases hnone

theorem pat_outlives_revokeAll : ∃ owner, caller unverified signedUp minting.req = some owner ∧
    ∃ scopes db', (currentUser plain signedOut.now unverified.config
        { authorization := some "Bearer sfh_pat_x" }).exec signedOut.db signedOut.volume =
        (.ok (owner, scopes), db', signedOut.volume) := by
  have hbearers : (serve unverified minting signedUp).1.toOption.map Reply.bearers = some ["sfh_pat_x"] := by
    decide +kernel
  obtain ⟨name, scopes, hminted⟩ := minted_of_bearers hbearers
  obtain ⟨owner, hcaller, hiff⟩ := pat_authenticates_iff unverified signedUp signedOut
    [.service (.call (asAlice .revokeAll))] minting _ name scopes hminted (.cons rfl (.nil _))
  have hactive : (caller unverified signedUp minting.req).all
      (fun u => u ∈ signedOut.db.users.rows ∧ u.state = .active) = true := by decide +kernel
  rw [hcaller, Option.all_some, decide_eq_true_eq] at hactive
  refine ⟨owner, hcaller, scopes, (hiff _ owner scopes (by decide)).mpr ?_⟩
  exact ⟨Table.mem_rows.mp hactive.1, rfl, hactive.2, rfl, revokeAll_not_revokes⟩

/-! ## Passwords -/

/-- The account has the password it was registered with. -/
def Registered (p : Platform) (id : Uuid) (handle email password salt : String) (db : Db) : Prop :=
  ∃ user ∈ db.users, user.id = id ∧ user.handle = handle ∧ user.email = email ∧
    user.passwordHash = some (p.hashPassword password salt)

theorem registered_step {id : Uuid} {handle email password salt : String}
    (hk : Registered p id handle email password salt h.db) (hs : (lts dep).step h l h') :
    Registered p id handle email password salt h'.db := by
  obtain ⟨user, hu, hrow⟩ := hk
  cases hs
  cases l with
  | account a standing =>
    refine ⟨_, mem_setStanding.mpr ⟨user, hu, rfl⟩, ?_⟩
    split
    · exact hrow
    · exact hrow
  | moderate => exact ⟨user, hu, hrow⟩
  | service l =>
    cases l with
    | tick => exact ⟨user, hu, hrow⟩
    | call c => exact ⟨user, (Requests.serve_renewed dep c h).carries.users user hu, hrow⟩
    | sweep =>
      refine ⟨user, ?_, hrow⟩
      show user ∈ (swept h).db.users
      rw [swept_db]
      exact hu

/-- One account has the address. -/
theorem signIn_eq {email password : String} (hu : user ∈ db.users)
    (hemail : user.email = Accounts.normaliseEmail p email) :
    Accounts.signIn p email password db =
      if p.checkPasswordLogin password (some (Accounts.asPrincipal user)) user.passwordHash then .ok user
      else refuse .unauthorized "that address and password do not match" := by
  have hfound : Accounts.byEmail p email db = some user :=
    Table.find?_eq hu (decide_eq_true hemail) fun a _ ha =>
      .inr (.inr ((of_decide_eq_true ha).trans hemail.symm))
  unfold Accounts.signIn
  rw [hfound]
  rfl

/-- A session goes in when its id and its cookie are new. -/
theorem start_exec {d : Draw} {agent : String} (hid : ∀ s ∈ db.sessions, s.id ≠ d.id)
    (hhash : ∀ s ∈ db.sessions, s.tokenHash ≠ p.hashToken (newToken "sfh_s_" d)) :
    ∃ db', (Sessions.start p now d user config agent).exec db fs = (.ok (newToken "sfh_s_" d), db', fs) := by
  have hnew : ∀ a ∈ db.sessions, ¬ Record.clash a (Sessions.opened p now d user config agent) := by
    intro a ha hc
    rcases hc with hc | hc
    · exact hid a ha hc
    · exact hhash a ha hc
  refine ⟨{ db with sessions := db.sessions.insert _ hnew }, ?_⟩
  unfold Sessions.start Sessions.addSession Table.insert?
  rw [Work.exec_bind, Work.exec_statement, dif_pos hnew]
  rfl

/-- **A password lasts**: after any run the registered address signs in, to the
same account, with the registered password and with no other. -/
theorem password_signs_in (dep : Deployment) (hlaw : dep.platform.LawfulLogin) (h h' : Hub)
    (hr : (lts dep).Reachable h) (ls : List Lbl) (c : Call) (email password agent cookie handle : String)
    (hbody : c.body = .register email password agent)
    (hreg : (serve dep c h).1 = .ok (.signedIn cookie handle))
    (hrun : (lts dep).Run (serve dep c h).2 ls h') :
    ∃ user ∈ h'.db.users, user.id = h.fresh ∧ user.handle = handle ∧ (user.state = .active →
      ∀ req email' password' agent' secret,
        Accounts.normaliseEmail dep.platform email' = Accounts.normaliseEmail dep.platform email →
        (∀ s ∈ h'.db.sessions, s.tokenHash ≠ dep.platform.hashToken ("sfh_s_" ++ secret 0)) →
        (serve dep ⟨req, .login email' password' agent', secret⟩ h').1 =
          if password' = password then .ok (.signedIn ("sfh_s_" ++ secret 0) handle)
          else refuse .unauthorized "that address and password do not match") := by
  have hstart : Registered dep.platform h.fresh handle (Accounts.normaliseEmail dep.platform email)
      password (c.secret 0) (serve dep c h).2.db := by
    have he := serve_effect dep c h
    rw [hreg, hbody] at he
    generalize (serve dep c h).2.db = db' at he
    cases he with
    | quiet hq => cases (hq _ rfl).cookies
    | uploaded hup => cases hup
    | registered hregistered hopen =>
      rename_i user hnew
      obtain ⟨_, rfl⟩ := hopen.row
      exact ⟨user, Table.mem_insert_self hnew, by rw [hregistered]; exact ⟨rfl, rfl, rfl, rfl⟩⟩
  have hend : Registered dep.platform h.fresh handle (Accounts.normaliseEmail dep.platform email)
      password (c.secret 0) h'.db := hrun.keeps (fun _ _ _ hk hs => registered_step hk hs) hstart
  obtain ⟨user, hu, hid, hhandle, hemail, hhash⟩ := hend
  refine ⟨user, hu, hid, hhandle, fun hactive req email' password' agent' secret hsame hcookie => ?_⟩
  have hserved : (lts dep).step h (.service (.call c)) (serve dep c h).2 := rfl
  have hbelow := Fresh.fresh_reachable ((hr.step hserved).run hrun)
  have hids : ∀ s ∈ h'.db.sessions, s.id ≠ (Rand.draw ⟨h'.fresh, secret⟩ 0).id := fun s hs =>
    Nat.ne_of_lt (hbelow.sessions s hs)
  have hopen : ∃ db', (Sessions.start dep.platform h'.now (Rand.draw ⟨h'.fresh, secret⟩ 0) user dep.config
      agent').exec h'.db h'.volume = (.ok ("sfh_s_" ++ secret 0), db', h'.volume) := start_exec hids hcookie
  obtain ⟨db', hopen⟩ := hopen
  show (dbSession (login dep h'.now ⟨h'.fresh, secret⟩ email' password' agent') h'.db h'.volume).1 = _
  unfold login
  rw [dbSession_commit, Work.exec_bind, Work.exec_check, signIn_eq hu (hemail.trans hsame.symm), hhash]
  by_cases hp : password' = password
  · rw [if_pos hp, if_pos ((hlaw.hashed _ _ _ _ hactive).mpr hp)]
    dsimp only
    rw [Work.exec_bind_ok hopen, hhandle]
    rfl
  · rw [if_neg hp, if_neg (mt (hlaw.hashed _ _ _ _ hactive).mp hp)]
    rfl

theorem signedIn_of_cookies {res : Except Raised Reply} {cookie : String}
    (hc : res.toOption.map Reply.cookies = some [cookie]) : ∃ handle, res = .ok (.signedIn cookie handle) := by
  cases res with
  | error e => cases hc
  | ok reply =>
    cases reply with
    | signedIn cookie' handle => cases hc; exact ⟨handle, rfl⟩
    | _ => cases hc

/-- Bob registers. -/
def registering : Call := ⟨{}, .register "Bob@example.org" "long enough" "", fun _ => "bob"⟩

theorem password_after_register : ∃ user ∈ (serve unverified registering blank).2.db.users,
    user.state = .active → ∀ secret : Nat → String,
      (∀ s ∈ (serve unverified registering blank).2.db.sessions,
        s.tokenHash ≠ plain.hashToken ("sfh_s_" ++ secret 0)) →
      (serve unverified ⟨{}, .login "bob@example.org " "long enough" "", secret⟩
        (serve unverified registering blank).2).1 = .ok (.signedIn ("sfh_s_" ++ secret 0) user.handle) := by
  have hcookies : (serve unverified registering blank).1.toOption.map Reply.cookies = some ["sfh_s_bob"] := by
    decide +kernel
  obtain ⟨handle, hreg⟩ := signedIn_of_cookies hcookies
  obtain ⟨user, hu, -, hhandle, hlogin⟩ := password_signs_in unverified plain_lawful blank
    (serve unverified registering blank).2 ⟨blank, [], rfl, .nil _⟩ [] registering _ _ _ _ handle rfl hreg (.nil _)
  refine ⟨user, hu, fun hactive secret hnew => ?_⟩
  rw [hhandle, hlogin hactive {} "bob@example.org " "long enough" "" secret (by decide) hnew, if_pos rfl]

end SpikeHub.L5.Lasting
