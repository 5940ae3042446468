import SpikeHub.L5Runs.Parties
import SpikeHub.L5Runs.Requests

/-!
# An adopted account keeps the ways in of who made it

Behaviour (hub_api/auth/accounts.py:55-75, 106-158): anyone may register with
any address, and a provider account with an unverified address makes an
account on it. A provider login with the verified address then adopts that
account: `link_or_create` adds the link and returns it, with the password and
the links it had.

What the code says: adopting is for a provider that "states it verified the
address", as otherwise "anyone who can set that address at a provider" could
"take over the account that owns it" (accounts.py:150-155, and the test
`test_an_unverified_address_does_not_adopt_an_account`). The account that was
made by someone who never proved the address is the same taking over, in the
other order.

Counterexample: mallory registers victor's address with a password of her own;
victor signs in through his provider, which verified the address, and is given
mallory's account. Her password still signs in to it.

When it does hold: exactly where the account the profile reaches, if there is
one, came out of a call of the same party (`ownCreation`).
-/
namespace SpikeHub.Bugs.SharedAddress

open SpikeHub.Core SpikeHub.L1 SpikeHub.L4.Auth SpikeHub.L4.Routes SpikeHub.L5.Parties
open SpikeHub.L5.Interleave (Hub)

variable {P : Type}

/-- Every way into the account was set up by `p`: its password, which is the
only one that signs in, and its links. -/
structure OnlyBy (dep : Deployment) (w : World P) (s : Sys P) (u : User) (p : P) : Prop where
  password : u.passwordHash.isSome = true → s.creator u.id = p
  signsIn : ∀ email password, Accounts.signIn dep.platform email password s.hub.db = .ok u →
    s.creator u.id = p ∧ password = s.password u.id
  links : ∀ i ∈ s.hub.db.identities, i.userId = u.id → w.holder i.provider i.subject = p

/-- The account that a profile leads to, if there is one already. -/
def reached (dep : Deployment) (profile : OAuthProfile) (db : Db) : Option User :=
  match Accounts.identityOf profile db with
  | some i => db.user? i.userId
  | none => Accounts.adoptable dep.platform profile db

/-- The account came out of a call of the party's own. -/
def ownCreation (dep : Deployment) (s : Sys P) (p : P) (profile : OAuthProfile) : Prop :=
  ∀ u, reached dep profile s.hub.db = some u → s.creator u.id = p

variable {dep : Deployment} {w : World P} {s : Sys P} {p : P} {profile : OAuthProfile} {u : User}

theorem onlyBy_iff_creator (hl : dep.platform.LawfulLogin) (h : Inv dep w s) (hu : u ∈ s.hub.db.users)
    (hc : w.controls u.email = p) : OnlyBy dep w s u p ↔ s.creator u.id = p := by
  constructor
  · intro ho
    rcases h.origin u hu with hp | ⟨i, hi, hid, hholder⟩
    · exact ho.password hp
    · rw [← hholder]
      exact ho.links i hi hid
  · intro hcreator
    refine ⟨fun _ => hcreator, fun email password hsign => ⟨hcreator, ?_⟩, fun i hi hid => ?_⟩
    · obtain ⟨-, hcheck⟩ := Accounts.signIn_ok hsign
      cases hhash : u.passwordHash with
      | none =>
        rw [hhash, hl.noPassword] at hcheck
        cases hcheck
      | some hash =>
        obtain ⟨salt, hsalt⟩ := h.hashed u hu hash hhash
        rw [hhash, hsalt] at hcheck
        exact (hl.hashed password _ salt _ (h.active u hu)).mp hcheck
    · rcases h.linked i hi u hu hid with hholder | hholder
      · exact hholder.trans hcreator
      · exact hholder.trans hc

/-- The creator of the account a call returned is the caller, where the call
made it; else it was reached, with the creator it had. -/
theorem creator_linked {hub : Hub}
    (hl : Accounts.Linked dep.platform s.hub.now ⟨s.hub.fresh, s.hub.fresh + 1⟩ profile dep.config
      s.hub.db u hub.db) :
    u ∈ hub.db.users ∧ ((s.note p "" (.ok u, hub)).creator u.id = p ↔ ownCreation dep s p profile) := by
  unfold ownCreation reached
  generalize hdb : hub.db = db at hl
  cases hl with
  | known hidentity hu hid _ =>
    rw [note_known hu, hidentity]
    dsimp only
    rw [user?_eq_some.mpr ⟨hu, hid⟩]
    exact ⟨hu, by simp⟩
  | adopted hidentity hadopt =>
    obtain ⟨-, hu, -⟩ := adoptable_some hadopt
    rw [note_known hu, hidentity]
    dsimp only
    rw [hadopt]
    exact ⟨hu, by simp⟩
  | created hidentity hadopt _ _ =>
    rename_i hu _ _
    rw [note_new hu, hidentity]
    dsimp only
    rw [hadopt, Function.update_self]
    exact ⟨Table.mem_insert_self hu, by simp⟩

theorem onlyBy_iff_ownCreation [DecidableEq P] (dep : Deployment) (w : World P)
    (hl : dep.platform.LawfulLogin) (s : Sys P) (hs : (lts dep w).Reachable s) (p : P)
    (profile : OAuthProfile) (hh : Honest dep w p profile) (hub : Hub) (u : User)
    (hx : linking dep profile s.hub = (.ok u, hub)) (hc : w.controls u.email = p) :
    OnlyBy dep w (s.note p "" (.ok u, hub)) u p ↔ ownCreation dep s p profile := by
  have hinv := (inv_inductive dep w).reachable s hs
  have hlinked := linking_ok hx
  obtain ⟨hu, hcreator⟩ := creator_linked (p := p) hlinked
  have hinv' : Inv dep w (s.note p "" (.ok u, hub)) := inv_linked hinv hh hlinked
  rw [← hcreator]
  exact onlyBy_iff_creator hl hinv' (by simpa using hu) hc

/-! ## Traces -/

open SpikeHub.L5.Requests (plain plain_lawful trial)

inductive Person
  | victor | mallory
deriving DecidableEq

/-- One address and one provider account are victor's. -/
def world : World Person where
  holder _ subject := if subject = "victor" then .victor else .mallory
  controls address := if address = "victor@example.org" then .victor else .mallory

def begin : Sys Person := ⟨⟨0, .ofUsers .empty, .empty _, 0⟩, fun _ => .mallory, fun _ => ""⟩

def victorProfile : OAuthProfile where
  provider := "github"
  subject := "victor"
  email := "victor@example.org"
  emailVerified := true

/-- The account victor's login leads to after `ls`, with what `q` says of it. -/
def leadsTo (q : Sys Person → User → Bool) (s : Sys Person) : Bool :=
  match linking trial victorProfile s.hub with
  | (.ok u, hub) => world.controls u.email = .victor && q (s.note .victor "" (.ok u, hub)) u
  | _ => false

theorem exists_linking (ls : List (Lbl Person)) (q : Sys Person → User → Bool)
    (hx : (LTS.exec (step trial world) (fun _ _ => True) begin ls).any (leadsTo q) = true) :
    ∃ s u hub, (lts trial world).Reachable s ∧ linking trial victorProfile s.hub = (.ok u, hub) ∧
      world.controls u.email = .victor ∧ q (s.note .victor "" (.ok u, hub)) u = true := by
  have hstart : Start begin := ⟨rfl, rfl⟩
  obtain ⟨s, hs, hp⟩ := LTS.reachable_of_exec hstart hx
  unfold leadsTo at hp
  split at hp
  · rename_i u hub hlink
    simp only [Bool.and_eq_true, decide_eq_true_eq] at hp
    exact ⟨s, u, hub, hs.of_restrict, hlink, hp⟩
  · cases hp

theorem honest_victor : Honest trial world .victor victorProfile := by decide

/-- Victor registered the address himself. -/
theorem onlyBy_after_own_register : ∃ s u, u.passwordHash.isSome = true ∧
    OnlyBy trial world s u Person.victor := by
  obtain ⟨s, u, hub, hs, hlink, hc, hq⟩ := exists_linking
    [.register .victor "victor@example.org" "correct horse" "salt"]
    (fun s u => u.passwordHash.isSome && s.creator u.id = .victor) (by decide +kernel)
  simp only [Bool.and_eq_true, decide_eq_true_eq] at hq
  refine ⟨_, u, hq.1, (onlyBy_iff_ownCreation trial world plain_lawful s hs .victor victorProfile
    honest_victor hub u hlink hc).mpr ?_⟩
  exact (creator_linked (linking_ok hlink)).2.mp hq.2

/-- Mallory registered it before him. -/
theorem not_onlyBy : ¬ ∀ (s : Sys Person), (lts trial world).Reachable s → ∀ p profile,
    Honest trial world p profile → profile.emailVerified = true → ∀ hub u,
    linking trial profile s.hub = (.ok u, hub) → world.controls u.email = p →
      OnlyBy trial world (s.note p "" (.ok u, hub)) u p := by
  intro h
  obtain ⟨s, u, hub, hs, hlink, hc, hq⟩ := exists_linking
    [.register .mallory "victor@example.org" "hunter22" "salt"]
    (fun s u => s.creator u.id = .mallory &&
      (Accounts.signIn plain "victor@example.org" "hunter22" s.hub.db).toOption = some u)
    (by decide +kernel)
  simp only [Bool.and_eq_true, decide_eq_true_eq] at hq
  have honly := h s hs .victor victorProfile honest_victor rfl hub u hlink hc
  have hsign : Accounts.signIn plain "victor@example.org" "hunter22"
      (s.note .victor "" (.ok u, hub)).hub.db = .ok u := by
    have ho := hq.2
    revert ho
    cases Accounts.signIn plain "victor@example.org" "hunter22" (s.note .victor "" (.ok u, hub)).hub.db with
    | error e => intro ho; cases ho
    | ok v => intro ho; exact congrArg Except.ok (Option.some.inj ho)
  have hvictor := (honly.signsIn _ _ hsign).1
  rw [hq.1] at hvictor
  cases hvictor

end SpikeHub.Bugs.SharedAddress
