import SpikeHub.L5Runs.Holder

/-!
# A token mints scopes it does not carry

Behaviour (hub_api/routes/tokens.py:45-62, hub_api/deps.py:39-56): `POST
/v1/tokens` takes any authenticated caller and mints a personal access token
with the scopes the body asks for. What the caller's own credential carries is
not looked at.

What the code says: the scopes are "what a credential is allowed to do"
(credentials.py:28), a session has them all because it "is the account itself"
(deps.py:51-52), and the write guard refuses "a credential that was not
granted" its scope (deps.py:79).

Counterexample: a token with `models:read` mints one with `models:write`, and
the write guard takes the new one.

When it does hold: in every run in which what the party mints with a token of
the account asks for scopes it started with (`asksWithin`), everything it holds
of the account stays within them, whatever else it and others request.
-/
namespace SpikeHub.Bugs.ScopeMint

open SpikeHub.Core SpikeHub.L1 SpikeHub.L4.Auth SpikeHub.L4.Routes SpikeHub.L5.Holder
open SpikeHub.L5.Interleave (Hub alice oneAccount)
open SpikeHub.L5.Requests (Call serve serve_renewed plain trial)

/-- A token minted with one of the account asks for scopes of the grant. -/
def asksWithin (dep : Deployment) (g : Grant) (s : Sys) : Lbl → Bool
  | .own ⟨req, .tokensCreate body, _⟩ =>
    ((bearer dep.platform req).bind (tokenOf dep.platform s.hub.db)).all fun row =>
      row.userId ≠ g.account || body.knownScopes.all (· ∈ g.scopes)
  | _ => true

variable {dep : Deployment} {g : Grant} {s s' : Sys} {c : Call} {l : Lbl}

theorem asksWithin_minted {body : TokenBody} (hbody : c.body = .tokensCreate body)
    (hw : asksWithin dep g s (.own c) = true) {v : String} {t : Token}
    (hb : bearer dep.platform c.req = some v) (ht : t ∈ s.hub.db.tokens)
    (hhash : t.tokenHash = dep.platform.hashToken v) (hu : t.userId = g.account) :
    body.knownScopes ⊆ g.scopes := by
  obtain ⟨req, body', secret⟩ := c
  cases hbody
  have hrow : tokenOf dep.platform s.hub.db v = some t :=
    Table.find?_eq ht (by simp [hhash]) fun a _ ha => .inr ((by simpa using ha : _ = _).trans hhash.symm)
  dsimp only at hb
  simp only [asksWithin, hb, Option.bind_some, hrow, Option.all_some, hu, ne_eq, not_true_eq_false,
    decide_false, Bool.false_or, List.all_eq_true, decide_eq_true_eq] at hw
  exact hw

/-- A token one of the party's requests adds. -/
theorem minted_within (h : Inv dep g s) (hc : canMake dep g s c = true)
    (hw : asksWithin dep g s (.own c) = true) {t : Token}
    (ht : NewToken dep s.hub.now ⟨s.hub.fresh, c.secret⟩ c.req s.hub.db c.body t)
    (hu : t.userId = g.account) : t.scopes ⊆ g.scopes := by
  obtain ⟨-, -, hask⟩ := canMake_iff.mp hc
  generalize hbody : c.body = body at ht hask
  cases ht with
  | minted hcaller huser hscopes _ =>
    obtain ⟨-, v, row, hb, hrow, hhash, howner⟩ := h.caller hc hcaller (huser.symm.trans hu)
    rw [hscopes]
    exact asksWithin_minted hbody hw hb hrow hhash howner
  | rotated hacc _ huser hscopes _ =>
    rw [hscopes]
    exact h.presented hask hacc.mem hacc.hash (huser.symm.trans hu)

/-- A session one of the party's requests opens is not one of the account. -/
theorem opened_elsewhere (h : Inv dep g s) (hc : canMake dep g s c = true) {t : Session}
    (ht : NewSession dep s.hub.now ⟨s.hub.fresh, c.secret⟩ s.hub.db c.body t) :
    t.userId ≠ g.account := by
  obtain ⟨owner, howner, hid⟩ := h.account
  obtain ⟨-, -, hask⟩ := canMake_iff.mp hc
  generalize hbody : c.body = body at ht hask
  have hnew : ∀ u : User, (∀ a ∈ s.hub.db.users, ¬ Record.clash a u) → u.id ≠ g.account :=
    fun u hu he => hu owner howner (.inl (hid.trans he.symm))
  cases ht with
  | registered hu huser =>
    rw [huser]
    exact hnew _ hu
  | loggedIn hsign huser =>
    rw [huser]
    simpa [mayAsk, hsign, Except.toOption] using hask
  | linked hlink huser =>
    rw [huser]
    simp only [mayAsk, Bool.and_eq_true, Option.all_eq_true, decide_eq_true_eq] at hask
    cases hlink with
    | known hidentity _ huid _ =>
      rw [huid]
      exact hask.1 _ hidentity
    | adopted _ hadopt => exact hask.2 _ hadopt
    | created =>
      rename_i hu _ _
      exact hnew _ hu

/-- What the party learns from its own request. -/
theorem inv_own (h : Inv dep g s) (hc : canMake dep g s c = true)
    (hw : asksWithin dep g s (.own c) = true) : Inv dep g (s.learn (serve dep c s.hub)) := by
  have hrenewed := serve_renewed dep c s.hub
  have hkept := inv_carries h hrenewed.carries
  rcases hx : serve dep c s.hub with ⟨res, hub⟩
  rw [hx] at hrenewed hkept
  cases res with
  | error e => exact hkept
  | ok reply =>
    refine ⟨hkept.account, fun v hv => ?_, fun v hv => ?_⟩
    · rcases List.mem_append.mp hv with hv | hv
      · exact hkept.bearers v hv
      · obtain ⟨t, ht, hhash, hnew⟩ := hrenewed.bearers reply rfl v hv
        exact ⟨t, ht, hhash, minted_within h hc hw hnew⟩
    · rcases List.mem_append.mp hv with hv | hv
      · exact hkept.cookies v hv
      · obtain ⟨t, ht, hhash, hnew⟩ := hrenewed.cookies reply rfl v hv
        exact ⟨t, ht, hhash, opened_elsewhere h hc hnew⟩

theorem inv_step (h : Inv dep g s) (hw : asksWithin dep g s l = true) (hs : step dep g s l = some s') :
    Inv dep g s' := by
  cases l with
  | tick d =>
    cases hs
    exact ⟨h.account, h.bearers, h.cookies⟩
  | others c =>
    cases hs
    exact inv_carries h (serve_renewed dep c s.hub).carries
  | own c =>
    simp only [step] at hs
    split at hs
    · rename_i hc
      cases hs
      exact inv_own h hc hw
    · cases hs

theorem inv_start (h : Start dep g s) : Inv dep g s := by
  obtain ⟨v, t, ht, hbearers, hhash, -, hscopes⟩ := h.token
  refine ⟨h.account, fun w hw => ?_, fun w hw => ?_⟩
  · rw [hbearers] at hw
    rw [List.mem_singleton.mp hw]
    exact ⟨t, ht, hhash, fun _ => hscopes ▸ List.Subset.refl _⟩
  · rw [h.cookies] at hw
    cases hw

theorem inv_inductive (dep : Deployment) (g : Grant) :
    ((lts dep g).restrict fun s l => asksWithin dep g s l = true).Inductive (Inv dep g) where
  init _ h := inv_start h
  step _ _ _ h hs := inv_step h hs.1 hs.2

theorem confined_of_asksWithin (dep : Deployment) (g : Grant) (s : Sys)
    (h : ((lts dep g).restrict fun s l => asksWithin dep g s l = true).Reachable s) :
    Confined dep g s :=
  ((inv_inductive dep g).reachable s h).confined

/-! ## Traces -/

/-- A token of alice's that may read. -/
def readToken : Token where
  id := 1
  tokenHash := plain.hashToken "sfh_pat_read"
  userId := alice.id
  kind := .pat
  scopes := [.read]
  chainId := 2

def reading : Grant := ⟨alice.id, [.read]⟩

def begin : Sys where
  hub := {
    now := 0
    db := .ofUsers oneAccount ⟨[readToken], List.pairwise_singleton _ _⟩
    volume := .empty _
    fresh := 100 }
  bearers := ["sfh_pat_read"]
  cookies := []

theorem start_begin : Start trial reading begin where
  account := ⟨alice, List.mem_cons_self, rfl⟩
  token := ⟨"sfh_pat_read", readToken, List.mem_cons_self, rfl, rfl, rfl, rfl⟩
  cookies := rfl

/-- A replay of `ls`, every step of which meets `C`, that ends where `p` holds. -/
theorem reachable_of_trace (C : Sys → Lbl → Prop) [∀ s l, Decidable (C s l)] (ls : List Lbl)
    (p : Sys → Bool) (hx : (LTS.exec (step trial reading) C begin ls).any p = true) :
    ∃ s, ((lts trial reading).restrict C).Reachable s ∧ p s = true :=
  LTS.reachable_of_exec start_begin hx

/-- `POST /v1/tokens` with the token, for `scopes`. -/
def minting (scopes : List Scope) : Lbl :=
  .own ⟨{ authorization := some "Bearer sfh_pat_read" }, .tokensCreate { scopes := scopes },
    fun _ => "new"⟩

/-- A second token, with the scope of the first. -/
theorem confined_after_minting : ∃ s : Sys, s.bearers.length = 2 ∧ Confined trial reading s := by
  obtain ⟨s, hs, hp⟩ := reachable_of_trace (fun s l => asksWithin trial reading s l = true)
    [minting [.read]] (fun s => s.bearers.length = 2) (by decide +kernel)
  exact ⟨s, by simpa using hp, confined_of_asksWithin trial reading s hs⟩

theorem not_confined : ¬ ∀ s, (lts trial reading).Reachable s → Confined trial reading s := by
  intro h
  obtain ⟨s, hs, hp⟩ := reachable_of_trace (fun _ _ => True) [minting [.write]]
    (fun s => ∃ v ∈ s.bearers, ∃ t ∈ s.hub.db.tokens.rows,
      t.tokenHash = trial.platform.hashToken v ∧ t.userId = alice.id ∧ Scope.write ∈ t.scopes)
    (by decide +kernel)
  simp only [decide_eq_true_eq] at hp
  obtain ⟨v, hv, t, ht, hhash, hu, hscope⟩ := hp
  have hread := (h s hs.of_restrict).bearers v hv t ht hhash hu hscope
  exact absurd hread (by decide)

end SpikeHub.Bugs.ScopeMint
