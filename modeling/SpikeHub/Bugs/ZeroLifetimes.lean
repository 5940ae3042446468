import SpikeHub.L5Runs.Grants

/-!
# A lifetime of nothing is a lifetime without end

Behaviour (hub_api/auth/credentials.py:87-89): `_expiry` asks whether the
lifetime is truthy. A lifetime of 0 seconds is not, so the token is stored
without an expiry, as a personal token is, and `_check_live` takes it for good,
while the client is told that it expires in 0 seconds.

What the code says: `_ttl_for` returns "the lifetime in seconds for `kind`, or
None for no expiry" (credentials.py:47-48), and `_expiry` "when a token with
lifetime `ttl` stops working".

Counterexample: with `access_token_ttl_seconds = 0`, alice's access token is
accepted a hundred years after it was issued.

When it does hold: in a state reached by any calls, exactly when no token there
is of a kind whose lifetime is configured to 0 (`grantsExpire_iff`): with both
lifetimes other than 0, in every state.
-/
namespace SpikeHub.Bugs.ZeroLifetimes

open SpikeHub.Core SpikeHub.L1 SpikeHub.L2 SpikeHub.L4.Auth SpikeHub.L4.Routes
open SpikeHub.L5.Grants (Call pairDraws patDraw steps_added settle_evolves begun)
open SpikeHub.L5.Calls (after settle)
open SpikeHub.L5.Interleave (Hub alice)
open SpikeHub.L5.Requests (trial)

/-- The calls on grants, with two notes beside the state: when the row of an id
was minted, and what the client was told of how long it lasts. -/
structure Sys where
  sys : L5.Grants.Sys
  minted : Uuid → Option Time
  told : Uuid → Option Int

/-- What a call answers. -/
def reply (dep : Deployment) (h : Hub) : Call → Option IssuedPair
  | .issuePair user scopes access refresh _ =>
    ((issuePair dep.platform h.now (pairDraws h access refresh) user scopes dep.config).exec
      h.db h.volume).1.toOption
  | .rotate presented access refresh _ =>
    ((rotate dep.platform h.now (pairDraws h access refresh) presented dep.config).exec
      h.db h.volume).1.toOption
  | _ => none

/-- The ids a call draws are from `fresh` on; the first is its access token's. -/
def step (dep : Deployment) (s : Sys) (c : Call) : Sys where
  sys := L5.Grants.step dep s.sys c
  minted i :=
    if s.sys.hub.fresh ≤ i ∧ i < (L5.Grants.step dep s.sys c).hub.fresh then some s.sys.hub.now
    else s.minted i
  told i :=
    if i = s.sys.hub.fresh then
      ((reply dep s.sys.hub c).map IssuedPair.expiresIn).or (s.told i)
    else s.told i

/-- No token yet, and nothing noted. -/
structure Start (s : Sys) : Prop where
  grants : L5.Grants.Start s.sys
  told : ∀ i, s.told i = none

def lts (dep : Deployment) : LTS Sys Call where
  init := Start
  step s c s' := s' = step dep s c

/-- The token lasts from when it was minted for as long as its kind does, it is
refused from then on, and the client was told so. -/
structure Lasts (dep : Deployment) (s : Sys) (t : Token) (minted : Time) (lifetime : Int) : Prop where
  noted : s.minted t.id = some minted
  configured : ttlFor dep.config t.kind = some lifetime
  expires : t.expiresAt = some (minted + seconds lifetime)
  refused : ∀ now, minted + seconds lifetime ≤ now → ∀ presented ds fs,
    t.tokenHash = dep.platform.hashToken presented →
    (∃ e, ((resolve dep.platform now presented).exec s.sys.hub.db fs).1 = .error e) ∧
      ∃ e, ((rotate dep.platform now ds presented dep.config).exec s.sys.hub.db fs).1 = .error e
  told : t.kind = .access → ∀ n, s.told t.id = some n → n = lifetime

/-- Every token of a grant expires. -/
def GrantsExpire (dep : Deployment) (s : Sys) : Prop :=
  ∀ t ∈ s.sys.hub.db.tokens, t.kind ≠ .pat → ∃ minted lifetime, Lasts dep s t minted lifetime

/-- No token is of a kind whose lifetime is configured to 0. -/
def NoneIsZero (dep : Deployment) (s : Sys) : Prop :=
  ∀ t ∈ s.sys.hub.db.tokens, ttlFor dep.config t.kind ≠ some 0

variable {dep : Deployment} {s s' : Sys} {c : Call} {t : Token} {db : Db} {fs : Volume} {now : Time}
  {presented : String} {ds : PairDraws} {n : Int}

/-! ## What a call adds -/

/-- The same token, with the expiry it was given. -/
structure Kept (t t' : Token) : Prop where
  id : t'.id = t.id
  kind : t'.kind = t.kind
  expiresAt : t'.expiresAt = t.expiresAt

/-- A row of a call from the state `h` on, with the expiry it gives. -/
structure Given (config : Settings) (h : Hub) (t : Token) : Prop where
  first : h.fresh ≤ t.id
  last : t.id < h.fresh + 5
  expiresAt : t.expiresAt = expiry h.now (ttlFor config t.kind)

theorem steps_given (config : Settings) (h : Hub) : Steps Kept (Given config h) h.now where
  refl _ := ⟨rfl, rfl, rfl⟩
  trans h h' := ⟨h'.id.trans h.id, h'.kind.trans h.kind, h'.expiresAt.trans h.expiresAt⟩
  lasting hg hk := ⟨hk.id ▸ hg.first, hk.id ▸ hg.last, by rw [hk.expiresAt, hg.expiresAt, hk.kind]⟩
  revoked _ := ⟨rfl, rfl, rfl⟩

theorem kept_refl (t : Token) : Kept t t := ⟨rfl, rfl, rfl⟩

theorem step_hub_rotate (sys : L5.Grants.Sys) (presented access refresh : String) (keep : Bool) :
    (L5.Grants.step dep sys (.rotate presented access refresh keep)).hub =
      after sys.hub (settle keep sys.hub (rotate dep.platform sys.hub.now
        (pairDraws sys.hub access refresh) presented dep.config)) 5 := by
  unfold L5.Grants.step
  dsimp only
  split
  · rfl
  · rfl

/-- A call keeps the tokens that are there, and gives those it adds their expiry. -/
theorem step_evolves (dep : Deployment) (sys : L5.Grants.Sys) (c : Call) :
    Table.Evolves Kept (Given dep.config sys.hub) sys.hub.db.tokens
      (L5.Grants.step dep sys c).hub.db.tokens := by
  have hs := steps_given dep.config sys.hub
  have hdraw : ∀ {i : Uuid}, i < 5 → ∀ {d : Draw} {spec : Mint}, d.id = sys.hub.fresh + i →
      Given dep.config sys.hub (spec.row dep.platform sys.hub.now d dep.config) := by
    intro i hi d spec hd
    have hid : (spec.row dep.platform sys.hub.now d dep.config).id = sys.hub.fresh + i := hd
    refine ⟨?_, ?_, rfl⟩
    · rw [hid]
      exact Nat.le_add_right _ _
    · rw [hid]
      exact Nat.add_lt_add_left hi _
  cases c with
  | tick => exact .refl kept_refl _
  | issuePair user scopes access refresh keep =>
    refine settle_evolves kept_refl (issuePair_evolves hs ?_ ?_ _ _)
    · exact hdraw (i := 0) (by decide) rfl
    · exact hdraw (i := 3) (by decide) rfl
  | issuePat user scopes name secret keep =>
    exact settle_evolves kept_refl (mint_evolves hs (hdraw (i := 0) (by decide) rfl) _ _)
  | rotate presented access refresh keep =>
    rw [step_hub_rotate]
    refine settle_evolves kept_refl (rotate_evolves hs fun row _ => ⟨?_, ?_⟩)
    · exact hdraw (i := 0) (by decide) rfl
    · exact hdraw (i := 3) (by decide) rfl

theorem step_fresh (dep : Deployment) (sys : L5.Grants.Sys) (c : Call) (hc : ∀ d, c ≠ .tick d) :
    (L5.Grants.step dep sys c).hub.fresh = sys.hub.fresh + 5 := by
  cases c with
  | tick d => exact absurd rfl (hc d)
  | issuePair => rfl
  | issuePat => rfl
  | rotate =>
    rw [step_hub_rotate]
    rfl

theorem pair_told {chainId : Option Uuid} {user : User} {scopes : List Scope} {pair : IssuedPair}
    (h : ((issuePair dep.platform now ds user scopes dep.config chainId).exec db fs).1 = .ok pair) :
    pair.expiresIn = dep.config.accessTokenTtlSeconds := by
  generalize hrun : (issuePair dep.platform now ds user scopes dep.config chainId).exec db fs = out at h
  obtain ⟨res, db', fs'⟩ := out
  obtain rfl : res = .ok pair := h
  unfold issuePair at hrun
  obtain ⟨access, d₁, w₁, -, hrun⟩ := Work.exec_bind_eq_ok hrun
  obtain ⟨refresh, d₂, w₂, -, hrun⟩ := Work.exec_bind_eq_ok hrun
  cases hrun
  rfl

theorem rotate_told {pair : IssuedPair}
    (h : ((rotate dep.platform now ds presented dep.config).exec db fs).1 = .ok pair) :
    pair.expiresIn = dep.config.accessTokenTtlSeconds := by
  generalize hrun : (rotate dep.platform now ds presented dep.config).exec db fs = out at h
  obtain ⟨res, db', fs'⟩ := out
  obtain rfl : res = .ok pair := h
  rw [rotate_eq] at hrun
  obtain ⟨found, d₁, w₁, -, hrun⟩ := Work.exec_bind_eq_ok hrun
  unfold exchange at hrun
  rw [Work.write_bind] at hrun
  exact pair_told (congrArg Prod.fst hrun)

/-- What the client is told is what is configured. -/
theorem reply_told {h : Hub} {pair : IssuedPair} (hr : reply dep h c = some pair) :
    pair.expiresIn = dep.config.accessTokenTtlSeconds := by
  have hok : ∀ {res : Except Raised IssuedPair}, res.toOption = some pair → res = .ok pair := by
    intro res hres
    cases res with
    | ok a => exact congrArg Except.ok (Option.some.inj hres)
    | error e => cases hres
  cases c with
  | tick => cases hr
  | issuePat => cases hr
  | issuePair => exact pair_told (hok hr)
  | rotate => exact rotate_told (hok hr)

/-! ## Every token, from when it was minted -/

structure Inv (dep : Deployment) (s : Sys) : Prop where
  ids : ∀ t ∈ s.sys.hub.db.tokens, t.id < s.sys.hub.fresh
  expiry : ∀ t ∈ s.sys.hub.db.tokens, ∃ minted, s.minted t.id = some minted ∧
    t.expiresAt = expiry minted (ttlFor dep.config t.kind)
  told : ∀ i n, s.told i = some n → n = dep.config.accessTokenTtlSeconds

theorem inv_call (hi : Inv dep s) (hc : ∀ d, c ≠ .tick d) : Inv dep (step dep s c) := by
  have hfresh := step_fresh dep s.sys c hc
  have hevolves := step_evolves dep s.sys c
  have hminted : ∀ i, (step dep s c).minted i =
      if s.sys.hub.fresh ≤ i ∧ i < s.sys.hub.fresh + 5 then some s.sys.hub.now else s.minted i := by
    intro i
    unfold step
    dsimp only
    rw [hfresh]
  refine ⟨fun t ht => ?_, fun t ht => ?_, fun i n hn => ?_⟩
  · show t.id < (L5.Grants.step dep s.sys c).hub.fresh
    rw [hfresh]
    rcases hevolves.old t ht with ⟨a, ha, hkept⟩ | hgiven
    · rw [hkept.id]
      exact Nat.lt_add_right 5 (hi.ids a ha)
    · exact hgiven.last
  · rcases hevolves.old t ht with ⟨a, ha, hkept⟩ | hgiven
    · obtain ⟨minted, hnoted, hexpiry⟩ := hi.expiry a ha
      have hold : ¬ (s.sys.hub.fresh ≤ a.id ∧ a.id < s.sys.hub.fresh + 5) := fun h =>
        Nat.not_lt.mpr h.1 (hi.ids a ha)
      refine ⟨minted, ?_, ?_⟩
      · rw [hminted, hkept.id, if_neg hold, hnoted]
      · rw [hkept.expiresAt, hexpiry, hkept.kind]
    · refine ⟨s.sys.hub.now, ?_, hgiven.expiresAt⟩
      rw [hminted, if_pos ⟨hgiven.first, hgiven.last⟩]
  · unfold step at hn
    dsimp only at hn
    split at hn
    · cases hr : reply dep s.sys.hub c with
      | none =>
        rw [hr] at hn
        exact hi.told i n hn
      | some pair =>
        rw [hr] at hn
        exact (Option.some.inj hn).symm.trans (reply_told hr)
    · exact hi.told i n hn

theorem inv_tick (hi : Inv dep s) (d : Nat) : Inv dep (step dep s (.tick d)) := by
  have hnone : ∀ i, ¬ (s.sys.hub.fresh ≤ i ∧ i < s.sys.hub.fresh) := fun i h =>
    absurd h.1 (Nat.not_le.mpr h.2)
  refine ⟨hi.ids, fun t ht => ?_, fun i n hn => ?_⟩
  · obtain ⟨minted, hnoted, hexpiry⟩ := hi.expiry t ht
    exact ⟨minted, (if_neg (hnone t.id)).trans hnoted, hexpiry⟩
  · unfold step at hn
    dsimp only [reply] at hn
    split at hn
    · exact hi.told i n hn
    · exact hi.told i n hn

theorem inv_inductive (dep : Deployment) : (lts dep).Inductive (Inv dep) where
  init s hs := by
    refine ⟨fun t ht => ?_, fun t ht => ?_, fun i n hn => ?_⟩
    · rw [hs.grants.tokens] at ht
      cases ht
    · rw [hs.grants.tokens] at ht
      cases ht
    · rw [hs.told] at hn
      cases hn
  step s c s' hi hs := by
    cases hs
    cases c with
    | tick d => exact inv_tick hi d
    | issuePair => exact inv_call hi fun _ h => by cases h
    | issuePat => exact inv_call hi fun _ h => by cases h
    | rotate => exact inv_call hi fun _ h => by cases h

/-! ## When its tokens expire -/

/-- What presents the token is refused from its expiry on: its hash names no other. -/
theorem refused_of_expired {at_ : Time} (ht : t ∈ db.tokens) (hexpires : t.expiresAt = some at_)
    (hnow : at_ ≤ now) (hhash : t.tokenHash = dep.platform.hashToken presented) :
    (∃ e, ((resolve dep.platform now presented).exec db fs).1 = .error e) ∧
      ∃ e, ((rotate dep.platform now ds presented dep.config).exec db fs).1 = .error e := by
  have hnone : ∀ user row, ¬ Accepted dep.platform now presented db user row := by
    intro user row hacc
    obtain rfl : t = row := hacc.eq_of_hash ht hhash
    exact Int.not_lt.mpr hnow (hacc.unexpired at_ hexpires)
  constructor
  · rcases hx : (resolve dep.platform now presented).exec db fs with ⟨res, db', fs'⟩
    cases res with
    | error e => exact ⟨e, rfl⟩
    | ok found =>
      obtain ⟨-, row, hacc, -⟩ := resolve_ok hx
      exact absurd hacc (hnone _ row)
  · rcases hx : (rotate dep.platform now ds presented dep.config).exec db fs with ⟨res, db', fs'⟩
    cases res with
    | error e => exact ⟨e, rfl⟩
    | ok pair =>
      obtain ⟨-, -, -, user, row, hacc, -⟩ := rotate_ok hx
      exact absurd hacc (hnone user row)

theorem expiry_of_ne_zero (minted : Time) (hn : n ≠ 0) :
    expiry minted (some n) = some (minted + seconds n) := by
  unfold expiry
  dsimp only
  rw [if_neg hn]

theorem lasts_of_inv (hi : Inv dep s) (hnone : NoneIsZero dep s) (ht : t ∈ s.sys.hub.db.tokens)
    (hkind : t.kind ≠ .pat) : ∃ minted lifetime, Lasts dep s t minted lifetime := by
  obtain ⟨minted, hnoted, hexpiry⟩ := hi.expiry t ht
  have hlifetime : ∃ lifetime, ttlFor dep.config t.kind = some lifetime := by
    cases hk : t.kind with
    | access => exact ⟨_, rfl⟩
    | refresh => exact ⟨_, rfl⟩
    | pat => exact absurd hk hkind
  obtain ⟨lifetime, hconfigured⟩ := hlifetime
  have hne : lifetime ≠ 0 := by
    intro he
    apply hnone t ht
    rw [hconfigured, he]
  have hexpires : t.expiresAt = some (minted + seconds lifetime) := by
    rw [hexpiry, hconfigured, expiry_of_ne_zero minted hne]
  refine ⟨minted, lifetime, hnoted, hconfigured, hexpires, ?_, ?_⟩
  · intro now hnow presented ds fs hhash
    exact refused_of_expired ht hexpires hnow hhash
  · intro haccess n hn
    rw [haccess] at hconfigured
    rw [hi.told t.id n hn]
    exact Option.some.inj hconfigured

theorem grantsExpire_iff (hr : (lts dep).Reachable s) : GrantsExpire dep s ↔ NoneIsZero dep s := by
  have hi := (inv_inductive dep).reachable s hr
  constructor
  · intro hexpire t ht hzero
    have hkind : t.kind ≠ .pat := by
      intro hk
      rw [hk] at hzero
      cases hzero
    obtain ⟨_, lifetime, hlasts⟩ := hexpire t ht hkind
    obtain ⟨minted, -, hexpiry⟩ := hi.expiry t ht
    -- without a lifetime there is no expiry
    rw [hzero, hlasts.expires] at hexpiry
    cases hexpiry
  · intro hnone t ht hkind
    exact lasts_of_inv hi hnone ht hkind

/-- With both lifetimes other than 0, whatever the run. -/
theorem noneIsZero_of_config (haccess : dep.config.accessTokenTtlSeconds ≠ 0)
    (hrefresh : dep.config.refreshTokenTtlSeconds ≠ 0) : NoneIsZero dep s := by
  intro t _ hzero
  cases hk : t.kind with
  | access =>
    rw [hk] at hzero
    exact haccess (Option.some.inj hzero)
  | refresh =>
    rw [hk] at hzero
    exact hrefresh (Option.some.inj hzero)
  | pat =>
    rw [hk] at hzero
    cases hzero

/-! ## A pair of alice's -/

def begun : Sys := ⟨L5.Grants.begun, fun _ => none, fun _ => none⟩

def alicesPair : Call := .issuePair alice [.read, .write] "a" "b" false

def granted : Sys := step trial begun alicesPair

theorem start_begun : Start begun := ⟨⟨rfl, fun _ => rfl⟩, fun _ => rfl⟩

theorem reachable_pair (dep : Deployment) : (lts dep).Reachable (step dep begun alicesPair) :=
  ⟨begun, [alicesPair], start_begun, .cons rfl (.nil _)⟩

/-- With the lifetimes that are the default, both of its tokens expire. -/
theorem grantsExpire_of_granted :
    GrantsExpire trial granted ∧ granted.sys.hub.db.tokens.rows.map Token.kind = [.access, .refresh] :=
  ⟨(grantsExpire_iff (reachable_pair trial)).mpr (noneIsZero_of_config (by decide) (by decide)),
    by decide +kernel⟩

def zero : Deployment := { trial with config := { accessTokenTtlSeconds := 0 } }

/-- One whose access token has no expiry. -/
def endless : Sys := step zero begun alicesPair

def century : Time := 100 * 365 * day

theorem not_grantsExpire :
    ¬ (∀ (dep : Deployment) (s : Sys), (lts dep).Reachable s → GrantsExpire dep s) ∧
      endless.told 100 = some 0 ∧
      ((resolve zero.platform century "sfh_at_a").exec endless.sys.hub.db endless.sys.hub.volume).1.toOption.map
        (fun found => found.1.id) = some alice.id := by
  refine ⟨fun h => ?_, by decide +kernel, by decide +kernel⟩
  have hrow : (endless.sys.hub.db.tokens.rows.any fun t => t.kind = .access && t.expiresAt.isNone) = true := by
    decide +kernel
  obtain ⟨t, ht, hendless⟩ := List.any_eq_true.mp hrow
  rw [Bool.and_eq_true, decide_eq_true_eq, Option.isNone_iff_eq_none] at hendless
  have hkind : t.kind ≠ .pat := by
    rw [hendless.1]
    exact TokenKind.noConfusion
  obtain ⟨minted, lifetime, hlasts⟩ := h zero endless (reachable_pair zero) t ht hkind
  have hexpires := hlasts.expires
  rw [hendless.2] at hexpires
  cases hexpires

end SpikeHub.Bugs.ZeroLifetimes
