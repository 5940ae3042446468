import SpikeHub.L4Auth.Accounts
import SpikeHub.L4Routes.Routes
import SpikeHub.L5Runs.Interleave

/-!
# Parties and their accounts

Any number of parties who register, sign in and come back from providers, each
call in a session of its own. A provider account is one party's
(`World.holder`), and so is an address (`World.controls`); a provider says it
verified an address to the party who controls it only (`Honest`).

The state keeps, beside the database, whose call created an account and which
password it was registered with. `inv_step` says where the ways into an account
come from: its password is its creator's, and a provider account is linked to
it by its creator, or by the party who controls its address.
-/
namespace SpikeHub.L5.Parties

open SpikeHub.Core SpikeHub.L1 SpikeHub.L2 SpikeHub.L4.Auth SpikeHub.L4.Routes
open SpikeHub.L5.Interleave (Hub)

/-- Who holds a provider account, and who controls an address. -/
structure World (P : Type) where
  holder : String → String → P
  controls : String → P

structure Sys (P : Type) where
  hub : Hub
  creator : Uuid → P
  password : Uuid → String

inductive Lbl (P : Type)
  | tick (d : Nat)
  | register (p : P) (email password salt : String)
  | signIn (p : P) (email password : String)
  | linkOrCreate (p : P) (profile : OAuthProfile)

variable {P : Type}

/-- The profile of a provider account of `p`, which vouches for an address
only if it is `p`'s. -/
def Honest (dep : Deployment) (w : World P) (p : P) (profile : OAuthProfile) : Prop :=
  w.holder profile.provider profile.subject = p ∧
    (profile.emailVerified = true →
      w.controls (Accounts.normaliseEmail dep.platform profile.email) = p)

instance [DecidableEq P] (dep : Deployment) (w : World P) (p : P) (profile : OAuthProfile) :
    Decidable (Honest dep w p profile) :=
  inferInstanceAs (Decidable (_ ∧ (_ → _)))

/-- A call in a session of its own. -/
def called (m : AuthWork User) (h : Hub) : Except Raised User × Hub :=
  let (res, db, volume) := dbSession (committing m) h.db h.volume
  (res, { h with db := db, volume := volume, fresh := h.fresh + 2 })

def registering (dep : Deployment) (email password salt : String) (h : Hub) :
    Except Raised User × Hub :=
  called (Accounts.register dep.platform h.fresh salt email password dep.config) h

def linking (dep : Deployment) (profile : OAuthProfile) (h : Hub) : Except Raised User × Hub :=
  called (Accounts.linkOrCreate dep.platform h.now ⟨h.fresh, h.fresh + 1⟩ profile dep.config) h

/-- Notes whose call an account came out of, if it is new. -/
def Sys.note (s : Sys P) (p : P) (password : String) : Except Raised User × Hub → Sys P
  | (.ok u, hub) =>
    if (s.hub.db.user? u.id).isSome then { s with hub := hub }
    else ⟨hub, Function.update s.creator u.id p, Function.update s.password u.id password⟩
  | (.error _, hub) => { s with hub := hub }

def step [DecidableEq P] (dep : Deployment) (w : World P) (s : Sys P) : Lbl P → Option (Sys P)
  | .tick d => some { s with hub := { s.hub with now := s.hub.now + d } }
  | .register p email password salt =>
    some (s.note p password (registering dep email password salt s.hub))
  -- `sign_in` only reads
  | .signIn _ _ _ => some s
  | .linkOrCreate p profile =>
    if Honest dep w p profile then some (s.note p "" (linking dep profile s.hub)) else none

/-- No account yet. -/
structure Start (s : Sys P) : Prop where
  users : s.hub.db.users = Table.empty
  identities : s.hub.db.identities = Table.empty

def lts [DecidableEq P] (dep : Deployment) (w : World P) : LTS (Sys P) (Lbl P) :=
  LTS.ofFn Start (step dep w)

/-! ## Where the ways in come from -/

structure Inv (dep : Deployment) (w : World P) (s : Sys P) : Prop where
  owned : ∀ i ∈ s.hub.db.identities, ∃ u ∈ s.hub.db.users, u.id = i.userId
  linked : ∀ i ∈ s.hub.db.identities, ∀ u ∈ s.hub.db.users, i.userId = u.id →
    w.holder i.provider i.subject = s.creator u.id ∨ w.holder i.provider i.subject = w.controls u.email
  origin : ∀ u ∈ s.hub.db.users, u.passwordHash.isSome = true ∨
    ∃ i ∈ s.hub.db.identities, i.userId = u.id ∧ w.holder i.provider i.subject = s.creator u.id
  hashed : ∀ u ∈ s.hub.db.users, ∀ hash, u.passwordHash = some hash →
    ∃ salt, hash = dep.platform.hashPassword (s.password u.id) salt
  active : ∀ u ∈ s.hub.db.users, u.state = .active

variable {dep : Deployment} {w : World P} {s s' : Sys P} {l : Lbl P} {p : P} {profile : OAuthProfile}
  {u : User}

/-! ### The calls -/

section
variable {m : AuthWork User} {h h' : Hub} {res : Except Raised User}

theorem called_cases (hx : called m h = (res, h')) :
    (∃ e, res = .error e ∧ h'.db = h.db) ∨
      ∃ u, res = .ok u ∧ m.exec h.db h.volume = (.ok u, h'.db, h'.volume) := by
  unfold called at hx
  rcases hd : dbSession (committing m) h.db h.volume with ⟨out, db, volume⟩
  rw [hd] at hx
  cases hx
  rcases committing_cases hd with ⟨e, rfl, rfl⟩ | ⟨u, rfl, hok⟩
  · exact .inl ⟨e, rfl, rfl⟩
  · exact .inr ⟨u, rfl, hok⟩

theorem called_ok (hx : called m h = (.ok u, h')) :
    m.exec h.db h.volume = (.ok u, h'.db, h'.volume) := by
  rcases called_cases hx with ⟨e, he, -⟩ | ⟨v, hv, hok⟩
  · cases he
  · cases hv
    exact hok

theorem called_error {e : Raised} (hx : called m h = (.error e, h')) : h'.db = h.db := by
  rcases called_cases hx with ⟨-, -, hdb⟩ | ⟨v, hv, -⟩
  · exact hdb
  · cases hv

theorem linking_ok (hx : linking dep profile h = (.ok u, h')) :
    Accounts.Linked dep.platform h.now ⟨h.fresh, h.fresh + 1⟩ profile dep.config h.db u h'.db :=
  (Accounts.linkOrCreate_ok (called_ok hx)).2

end

/-! ### One call -/

/-- A call that raised leaves everything. -/
theorem inv_same (h : Inv dep w s) {hub : Hub} (hdb : hub.db = s.hub.db) :
    Inv dep w { s with hub := hub } where
  owned := hdb ▸ h.owned
  linked := hdb ▸ h.linked
  origin := hdb ▸ h.origin
  hashed := hdb ▸ h.hashed
  active := hdb ▸ h.active

/-- A new account, with at most a link of its creator's. -/
theorem inv_created (h : Inv dep w s) {hub : Hub} {password : String}
    (hu : ∀ a ∈ s.hub.db.users, ¬ Record.clash a u)
    (husers : hub.db.users = s.hub.db.users.insert u hu) (hactive : u.state = .active)
    (hhash : ∀ hash, u.passwordHash = some hash →
      ∃ salt, hash = dep.platform.hashPassword password salt)
    (hkept : ∀ i ∈ s.hub.db.identities, i ∈ hub.db.identities)
    (hlinks : ∀ i ∈ hub.db.identities, i ∈ s.hub.db.identities ∨
      i.userId = u.id ∧ w.holder i.provider i.subject = p)
    (horigin : u.passwordHash.isSome = true ∨
      ∃ i ∈ hub.db.identities, i.userId = u.id ∧ w.holder i.provider i.subject = p) :
    Inv dep w ⟨hub, Function.update s.creator u.id p, Function.update s.password u.id password⟩ := by
  have hne : ∀ a ∈ s.hub.db.users, a.id ≠ u.id := fun a ha he => hu a ha (.inl he)
  have hmem : ∀ a, a ∈ hub.db.users ↔ a ∈ s.hub.db.users ∨ a = u := fun a => by
    rw [husers]
    exact Table.mem_insert
  have hold : ∀ a ∈ s.hub.db.users, Function.update s.creator u.id p a.id = s.creator a.id ∧
      Function.update s.password u.id password a.id = s.password a.id :=
    fun a ha => ⟨Function.update_of_ne (hne a ha) _ _, Function.update_of_ne (hne a ha) _ _⟩
  constructor
  · intro i hi
    rcases hlinks i hi with hi | hi
    · obtain ⟨a, ha, hid⟩ := h.owned i hi
      exact ⟨a, (hmem a).mpr (.inl ha), hid⟩
    · exact ⟨u, (hmem u).mpr (.inr rfl), hi.1.symm⟩
  · intro i hi a ha hid
    dsimp only
    rcases (hmem a).mp ha with ha | rfl
    · rw [(hold a ha).1]
      rcases hlinks i hi with hi | hi
      · exact h.linked i hi a ha hid
      · exact absurd (hid.symm.trans hi.1) (hne a ha)
    · rw [Function.update_self]
      rcases hlinks i hi with hi | hi
      · obtain ⟨b, hb, hbid⟩ := h.owned i hi
        exact absurd (hbid.trans hid) (hne b hb)
      · exact .inl hi.2
  · intro a ha
    dsimp only
    rcases (hmem a).mp ha with ha | rfl
    · rw [(hold a ha).1]
      rcases h.origin a ha with hp | ⟨i, hi, hiu, hih⟩
      · exact .inl hp
      · exact .inr ⟨i, hkept i hi, hiu, hih⟩
    · rw [Function.update_self]
      exact horigin
  · intro a ha hash hp
    dsimp only
    rcases (hmem a).mp ha with ha | rfl
    · rw [(hold a ha).2]
      exact h.hashed a ha hash hp
    · rw [Function.update_self]
      exact hhash hash hp
  · intro a ha
    rcases (hmem a).mp ha with ha | rfl
    · exact h.active a ha
    · exact hactive

/-- A new link, made by the party who controls the account's address. -/
theorem inv_adopted (h : Inv dep w s) {hub : Hub} {i : Identity}
    (hi : ∀ a ∈ s.hub.db.identities, ¬ Record.clash a i) (husers : hub.db.users = s.hub.db.users)
    (hlinks : hub.db.identities = s.hub.db.identities.insert i hi) (hu : u ∈ s.hub.db.users)
    (hid : i.userId = u.id) (hholder : w.holder i.provider i.subject = w.controls u.email) :
    Inv dep w { s with hub := hub } := by
  have hmem : ∀ a, a ∈ hub.db.identities ↔ a ∈ s.hub.db.identities ∨ a = i := fun a => by
    rw [hlinks]
    exact Table.mem_insert
  constructor
  · intro a ha
    dsimp only
    rw [husers]
    rcases (hmem a).mp ha with ha | rfl
    · exact h.owned a ha
    · exact ⟨u, hu, hid.symm⟩
  · intro a ha v hv hav
    dsimp only at hv ⊢
    rw [husers] at hv
    rcases (hmem a).mp ha with ha | rfl
    · exact h.linked a ha v hv hav
    · have heq : u = v := s.hub.db.users.eq_of_clash hu hv (.inl (hid.symm.trans hav))
      rw [← heq]
      exact .inr hholder
  · intro v hv
    dsimp only at hv ⊢
    rw [husers] at hv
    rcases h.origin v hv with hp | ⟨a, ha, hau, hah⟩
    · exact .inl hp
    · exact .inr ⟨a, (hmem a).mpr (.inl ha), hau, hah⟩
  · exact husers ▸ h.hashed
  · exact husers ▸ h.active

/-- A link that was used. -/
theorem inv_touched (h : Inv dep w s) {hub : Hub} {link : Uuid}
    (hdb : hub.db = Accounts.touchIdentity s.hub.now link s.hub.db) :
    Inv dep w { s with hub := hub } := by
  have husers : hub.db.users = s.hub.db.users := by rw [hdb]; rfl
  have hevolves : Table.Evolves (fun a b : Identity => b.userId = a.userId ∧ b.provider = a.provider ∧
      b.subject = a.subject) (fun _ => False) s.hub.db.identities hub.db.identities := by
    rw [hdb]
    exact .updateWhere (fun _ => ⟨rfl, rfl, rfl⟩) (Accounts.used s.hub.now) (fun _ _ h => h)
      fun _ _ _ => ⟨rfl, rfl, rfl⟩
  have hback : ∀ b ∈ hub.db.identities, ∃ a ∈ s.hub.db.identities, b.userId = a.userId ∧
      b.provider = a.provider ∧ b.subject = a.subject :=
    fun b hb => (hevolves.old b hb).resolve_right id
  constructor
  · intro b hb
    obtain ⟨a, ha, hau, -, -⟩ := hback b hb
    dsimp only
    rw [husers, hau]
    exact h.owned a ha
  · intro b hb v hv hbv
    obtain ⟨a, ha, hau, hap, has⟩ := hback b hb
    dsimp only at hv ⊢
    rw [husers] at hv
    rw [hap, has]
    exact h.linked a ha v hv (hau.symm.trans hbv)
  · intro v hv
    dsimp only at hv ⊢
    rw [husers] at hv
    rcases h.origin v hv with hp | ⟨a, ha, hau, hah⟩
    · exact .inl hp
    · obtain ⟨b, hb, hbu, hbp, hbs⟩ := hevolves.kept a ha
      rw [← hbu] at hau
      rw [← hbp, ← hbs] at hah
      exact .inr ⟨b, hb, hau, hah⟩
  · exact husers ▸ h.hashed
  · exact husers ▸ h.active

/-! ### Every run -/

theorem note_known {hub : Hub} {password : String} (hu : u ∈ s.hub.db.users) :
    s.note p password (.ok u, hub) = { s with hub := hub } :=
  if_pos (user?_isSome.mpr ⟨u, hu, rfl⟩)

theorem note_new {hub : Hub} {password : String} (hu : ∀ a ∈ s.hub.db.users, ¬ Record.clash a u) :
    s.note p password (.ok u, hub) =
      ⟨hub, Function.update s.creator u.id p, Function.update s.password u.id password⟩ := by
  refine if_neg fun h => ?_
  obtain ⟨a, ha, hid⟩ := user?_isSome.mp h
  exact hu a ha (.inl hid)

@[simp] theorem note_hub {hub : Hub} {password : String} :
    (s.note p password (.ok u, hub)).hub = hub := by
  simp only [Sys.note]
  split <;> rfl

theorem adoptable_some {db : Db} (h : Accounts.adoptable dep.platform profile db = some u) :
    profile.emailVerified = true ∧ u ∈ db.users ∧
      u.email = Accounts.normaliseEmail dep.platform profile.email := by
  unfold Accounts.adoptable at h
  split at h
  · cases h
  · rename_i hv
    obtain ⟨hu, he⟩ := Accounts.byEmail_some h
    exact ⟨not_not.mp (not_or.mp hv).2, hu, he⟩

theorem inv_register (h : Inv dep w s) {email password salt : String} :
    Inv dep w (s.note p password (registering dep email password salt s.hub)) := by
  rcases hx : registering dep email password salt s.hub with ⟨res, hub⟩
  cases res with
  | error e => exact inv_same h (called_error hx)
  | ok u =>
    obtain ⟨-, hu, hdb, hreg⟩ := Accounts.register_ok (called_ok hx)
    have hhash : u.passwordHash = some (dep.platform.hashPassword password salt) := by rw [hreg]; rfl
    have hactive : u.state = .active := by rw [hreg]; rfl
    have hlinks : hub.db.identities = s.hub.db.identities := by rw [hdb]
    rw [note_new hu]
    refine inv_created h hu (by rw [hdb]) hactive ?_ ?_ ?_ ?_
    · intro hash hp
      rw [hhash, Option.some.injEq] at hp
      exact ⟨salt, hp.symm⟩
    · intro i hi
      rw [hlinks]
      exact hi
    · intro i hi
      rw [hlinks] at hi
      exact .inl hi
    · rw [hhash]
      exact .inl rfl

theorem inv_linked (h : Inv dep w s) (hh : Honest dep w p profile) {hub : Hub}
    (hl : Accounts.Linked dep.platform s.hub.now ⟨s.hub.fresh, s.hub.fresh + 1⟩ profile dep.config
      s.hub.db u hub.db) : Inv dep w (s.note p "" (.ok u, hub)) := by
  obtain ⟨hholder, hverified⟩ := hh
  generalize hdb : hub.db = db at hl
  cases hl with
  | known _ hu _ _ =>
    rw [note_known hu]
    exact inv_touched h hdb
  | adopted _ hadopt =>
    rename_i hi
    obtain ⟨hv, hu, hemail⟩ := adoptable_some hadopt
    have hcontrols : w.controls u.email = p := hemail ▸ hverified hv
    rw [note_known hu]
    exact inv_adopted h hi (by rw [hdb]) (by rw [hdb]) hu rfl (hholder.trans hcontrols.symm)
  | created _ _ _ hprofiled =>
    rename_i hu hi
    have hactive : u.state = .active := by rw [hprofiled]; rfl
    have hhash : u.passwordHash = none := by rw [hprofiled]; rfl
    have hmem : ∀ i, i ∈ hub.db.identities ↔ i ∈ s.hub.db.identities ∨
        i = Accounts.linkTo s.hub.now (s.hub.fresh + 1) u profile := fun i => by
      rw [hdb]
      exact Table.mem_insert (h := hi)
    rw [note_new hu]
    refine inv_created h hu (by rw [hdb]) hactive ?_ ?_ ?_ ?_
    · intro hash hp
      rw [hhash] at hp
      cases hp
    · intro i hi
      exact (hmem i).mpr (.inl hi)
    · intro i hi
      rcases (hmem i).mp hi with hi | hi
      · exact .inl hi
      · rw [hi]
        exact .inr ⟨rfl, hholder⟩
    · exact .inr ⟨_, (hmem _).mpr (.inr rfl), rfl, hholder⟩

theorem inv_step [DecidableEq P] (h : Inv dep w s) (hs : step dep w s l = some s') : Inv dep w s' := by
  cases l with
  | tick d =>
    cases hs
    exact inv_same h rfl
  | register p email password salt =>
    cases hs
    exact inv_register h
  | signIn =>
    cases hs
    exact h
  | linkOrCreate p profile =>
    simp only [step] at hs
    split at hs
    · rename_i hh
      cases hs
      rcases hx : linking dep profile s.hub with ⟨res, hub⟩
      cases res with
      | error e => exact inv_same h (called_error hx)
      | ok u => exact inv_linked h hh (linking_ok hx)
    · cases hs

theorem inv_start (h : Start s) : Inv dep w s := by
  have hu : ∀ u, u ∉ s.hub.db.users := fun u hu => Table.not_mem_empty u (h.users ▸ hu)
  have hi : ∀ i, i ∉ s.hub.db.identities := fun i hi => Table.not_mem_empty i (h.identities ▸ hi)
  exact ⟨fun i h => absurd h (hi i), fun i h => absurd h (hi i), fun u h => absurd h (hu u),
    fun u h => absurd h (hu u), fun u h => absurd h (hu u)⟩

theorem inv_inductive [DecidableEq P] (dep : Deployment) (w : World P) :
    (lts dep w).Inductive (Inv dep w) where
  init _ h := inv_start h
  step _ _ _ h hs := inv_step h hs

end SpikeHub.L5.Parties
