import SpikeHub.Bugs.FallbackHandles

/-!
# A proof of an address that is not recorded

Behaviour (hub_api/auth/accounts.py:106-201): `_from_profile` takes the flag of
a new account from the profile. `link_or_create` adopts an account because a
provider verified its address, or finds it by its link, and leaves the flag.

What the code says: `email_verified` is "False until the address is proven"
(db/models/user.py:43), an account without it is told to "verify your email
address before publishing" (uploads/intent.py:61-65), and no other code sets it.

Counterexample: alice registers with a password, and signs in through a provider
that verified her address. The account is adopted, and may not publish.

When it does hold: a run records what it proved exactly when no step of it proves
the address of an account that was there before and has no flag (`recorded_iff`).
-/
namespace SpikeHub.Bugs.ProvenAddresses

open SpikeHub.Core SpikeHub.L1 SpikeHub.L2 SpikeHub.L4.Auth SpikeHub.L4.Auth.Accounts SpikeHub.L4.Routes
open SpikeHub.Bugs.FallbackHandles (Drawn drawn_inductive unused)
open SpikeHub.L5.Identities (Call githubOne)
open SpikeHub.L5.Interleave (Hub)
open SpikeHub.L5.Parties (registering linking called linking_ok called_error called_cases)
open SpikeHub.L5.Requests (trial)

/-- Beside the service: the accounts whose own address was proven. -/
structure Sys where
  hub : Hub
  proven : Uuid → Bool

/-- The account whose own address a call proves: the one a profile with a
verified address leads to, if the address is the account's. -/
def provenBy (dep : Deployment) (h : Hub) : Call → Option Uuid
  | .linkOrCreate profile =>
    (linking dep profile h).1.toOption.bind fun user =>
      if profile.emailVerified ∧ user.email = normaliseEmail dep.platform profile.email then
        some user.id
      else none
  | _ => none

def step (dep : Deployment) (s : Sys) (c : Call) : Sys where
  hub := L5.Identities.step dep s.hub c
  proven i := decide (provenBy dep s.hub c = some i) || s.proven i

/-- No account yet. -/
structure Start (s : Sys) : Prop where
  accounts : FallbackHandles.Start s.hub
  proven : ∀ i, s.proven i = false

def lts (dep : Deployment) : LTS Sys Call where
  init := Start
  step s c s' := s' = step dep s c

/-- The flag of an account says whether its address was proven. -/
def Recorded (s : Sys) : Prop := ∀ u ∈ s.hub.db.users, u.emailVerified = s.proven u.id

/-- The account a profile leads to, if it was there before. -/
def existing (p : Platform) (profile : OAuthProfile) (db : Db) : Option User :=
  match identityOf profile db with
  | some identity => (linkedOwner identity db).toOption
  | none => adoptable p profile db

/-- The call proves no address of an account that was there before without the flag. -/
def AlreadyFlagged (dep : Deployment) (s : Sys) : Call → Prop
  | .linkOrCreate profile => profile.emailVerified = true → ∀ user,
    existing dep.platform profile s.hub.db = some user →
      user.email = normaliseEmail dep.platform profile.email → user.emailVerified = true
  | _ => True

variable {dep : Deployment} {p : Platform} {s s' : Sys} {c : Call} {cs : List Call} {db db' : Db}
  {h : Hub} {now : Time} {ids : LinkIds} {profile : OAuthProfile} {config : Settings} {user : User}
  {fs : Volume}

/-! ## What a call does to the accounts -/

/-- A new account, with the flag it is given. -/
structure Joined (h : Hub) (user : User) (flag : Bool) (db' : Db) : Prop where
  id : user.id = h.fresh
  flag : user.emailVerified = flag
  users : ∃ hu, db'.users = h.db.users.insert user hu

/-- A sign-in leads to an account that was there before, or makes one. -/
theorem linked_cases (hl : Linked p now ⟨h.fresh, h.fresh + 1⟩ profile config h.db user db') :
    (existing p profile h.db = some user ∧ user ∈ h.db.users ∧ db'.users = h.db.users) ∨
      existing p profile h.db = none ∧ user.email = normaliseEmail p profile.email ∧
        Joined h user profile.emailVerified db' := by
  cases hl with
  | known hknown hu hid hactive =>
    refine .inl ⟨?_, hu, rfl⟩
    unfold existing linkedOwner
    rw [hknown]
    dsimp only
    rw [user?_eq_some.mpr ⟨hu, hid⟩]
    dsimp only
    rw [if_pos hactive]
    rfl
  | adopted hnone hadopt =>
    refine .inl ⟨?_, ?_, rfl⟩
    · unfold existing
      rw [hnone]
      exact hadopt
    · unfold adoptable at hadopt
      split at hadopt
      · cases hadopt
      · exact (byEmail_some hadopt).1
  | created hnone hadopt _ hrow =>
    rename_i hu _
    refine .inr ⟨?_, ?_, ?_, ?_, hu, rfl⟩
    · unfold existing
      rw [hnone]
      exact hadopt
    all_goals
      rw [hrow]
      rfl

/-- Nothing stands in the way of a sign-in to an account that is there. -/
theorem linking_existing (hd : Drawn h) (hex : existing dep.platform profile h.db = some user) :
    (linking dep profile h).1 = .ok user := by
  have hrun : ∃ db', (linkOrCreate dep.platform h.now ⟨h.fresh, h.fresh + 1⟩ profile dep.config).exec
      h.db h.volume = (.ok user, db', h.volume) := by
    unfold existing at hex
    cases hid : identityOf profile h.db with
    | some identity =>
      rw [hid] at hex
      dsimp only at hex
      have howner : linkedOwner identity h.db = .ok user := by
        cases ho : linkedOwner identity h.db with
        | ok found =>
          rw [ho] at hex
          exact congrArg Except.ok (Option.some.inj hex)
        | error e =>
          rw [ho] at hex
          cases hex
      exact ⟨_, linkOrCreate_known hid howner⟩
    | none =>
      rw [hid] at hex
      have hlink : ∀ i ∈ h.db.identities, i.id ≠ h.fresh + 1 := fun i hi =>
        Nat.ne_of_lt (Nat.lt_succ_of_lt (hd.identities i hi))
      exact linkOrCreate_adopts hid hex hlink
  obtain ⟨db', hrun⟩ := hrun
  unfold linking called
  rw [dbSession_commit, hrun]

/-- What a call does to the accounts, what it proves, and whether it should have
set a flag. -/
inductive Moved (dep : Deployment) (s : Sys) (c : Call) : Prop
  | quiet : (step dep s c).hub.db.users = s.hub.db.users → provenBy dep s.hub c = none →
      AlreadyFlagged dep s c → Moved dep s c
  | proves {user : User} : (step dep s c).hub.db.users = s.hub.db.users → user ∈ s.hub.db.users →
      provenBy dep s.hub c = some user.id →
      (AlreadyFlagged dep s c ↔ user.emailVerified = true) → Moved dep s c
  | joined {user : User} {flag : Bool} : Joined s.hub user flag (step dep s c).hub.db →
      provenBy dep s.hub c = (if flag then some user.id else none) → AlreadyFlagged dep s c →
      Moved dep s c

theorem moved_register (email password salt : String) : Moved dep s (.register email password salt) := by
  rcases hx : registering dep email password salt s.hub with ⟨res, hub⟩
  have hhub : (step dep s (.register email password salt)).hub = hub := congrArg Prod.snd hx
  rcases called_cases hx with ⟨e, -, hdb⟩ | ⟨user, -, hok⟩
  · exact .quiet (by rw [hhub, hdb]) rfl trivial
  · obtain ⟨-, hu, hdb, hrow⟩ := register_ok hok
    have hjoined : Joined s.hub user false (step dep s (.register email password salt)).hub.db := by
      refine ⟨?_, ?_, hu, ?_⟩
      · rw [hrow]
        rfl
      · rw [hrow]
        rfl
      · rw [hhub, hdb]
    exact .joined hjoined rfl trivial

/-- A sign-in that raises leads to no account that was there. -/
theorem flagged_of_raised (hd : Drawn s.hub) {e : Raised} (hx : (linking dep profile s.hub).1 = .error e) :
    AlreadyFlagged dep s (.linkOrCreate profile) := by
  intro _ user hex
  rw [linking_existing hd hex] at hx
  cases hx

theorem moved_linkOrCreate (hd : Drawn s.hub) (profile : OAuthProfile) :
    Moved dep s (.linkOrCreate profile) := by
  rcases hx : linking dep profile s.hub with ⟨res, hub⟩
  have hhub : (step dep s (.linkOrCreate profile)).hub = hub := congrArg Prod.snd hx
  have hres : (linking dep profile s.hub).1 = res := congrArg Prod.fst hx
  cases res with
  | error e =>
    refine .quiet ?_ ?_ (flagged_of_raised hd hres)
    · rw [hhub, called_error hx]
    · unfold provenBy
      dsimp only
      rw [hres]
      rfl
  | ok user =>
    have hproven : provenBy dep s.hub (.linkOrCreate profile) =
        if profile.emailVerified ∧ user.email = normaliseEmail dep.platform profile.email then
          some user.id
        else none := by
      unfold provenBy
      dsimp only
      rw [hres]
      rfl
    rcases linked_cases (linking_ok hx) with ⟨hex, hu, husers⟩ | ⟨hex, hemail, hjoined⟩
    · rw [← hhub] at husers
      by_cases hown : profile.emailVerified ∧ user.email = normaliseEmail dep.platform profile.email
      · rw [if_pos hown] at hproven
        refine .proves husers hu hproven ⟨fun hflagged => hflagged hown.1 user hex hown.2, ?_⟩
        intro hflag _ found hfound _
        rw [hex, Option.some.injEq] at hfound
        exact hfound ▸ hflag
      · rw [if_neg hown] at hproven
        refine .quiet husers hproven fun hverified found hfound hemail => ?_
        rw [hex, Option.some.injEq] at hfound
        exact absurd ⟨hverified, hfound ▸ hemail⟩ hown
    · rw [← hhub] at hjoined
      refine .joined hjoined ?_ fun _ found hfound => ?_
      · rw [hproven]
        simp only [hemail, and_true]
      · rw [hex] at hfound
        cases hfound

theorem moved (dep : Deployment) (hd : Drawn s.hub) (c : Call) : Moved dep s c := by
  cases c with
  | tick => exact .quiet rfl rfl trivial
  | register email password salt => exact moved_register email password salt
  | linkOrCreate profile => exact moved_linkOrCreate hd profile

/-! ## What a flag says -/

structure Inv (s : Sys) : Prop where
  drawn : Drawn s.hub
  born : ∀ i, s.proven i = true → i < s.hub.fresh
  flagged : ∀ u ∈ s.hub.db.users, u.emailVerified = true → s.proven u.id = true

theorem proven_step {i : Uuid} : (step dep s c).proven i = true ↔
    provenBy dep s.hub c = some i ∨ s.proven i = true := by
  simp only [step, Bool.or_eq_true, decide_eq_true_eq]

theorem fresh_step : s.hub.fresh ≤ (step dep s c).hub.fresh := by
  cases c with
  | tick => exact Nat.le_refl _
  | register => exact Nat.le_add_right _ 2
  | linkOrCreate => exact Nat.le_add_right _ 2

theorem users_step (hd : Drawn s.hub) : ∀ u ∈ s.hub.db.users, u ∈ (step dep s c).hub.db.users := by
  intro u hu
  cases moved dep hd c with
  | quiet husers => exact husers ▸ hu
  | proves husers => exact husers ▸ hu
  | joined hjoined =>
    obtain ⟨hnew, husers⟩ := hjoined.users
    rw [husers]
    exact Table.mem_insert_of_mem hnew hu

theorem inv_step (dep : Deployment) (hi : Inv s) (c : Call) : Inv (step dep s c) := by
  have hdrawn : Drawn (step dep s c).hub := (drawn_inductive dep).step s.hub c _ hi.drawn rfl
  have hkept : ∀ i, s.proven i = true → i < (step dep s c).hub.fresh := fun i h =>
    Nat.lt_of_lt_of_le (hi.born i h) fresh_step
  have hmono : ∀ u ∈ s.hub.db.users, u.emailVerified = true → (step dep s c).proven u.id = true :=
    fun u hu hflag => proven_step.mpr (.inr (hi.flagged u hu hflag))
  cases moved dep hi.drawn c with
  | quiet husers hproven =>
    refine ⟨hdrawn, fun i h => ?_, fun u hu => hmono u (husers ▸ hu)⟩
    rw [proven_step, hproven] at h
    exact hkept i (h.resolve_left fun h => (by cases h))
  | @proves user husers hu hproven =>
    refine ⟨hdrawn, fun i h => ?_, fun u hu => hmono u (husers ▸ hu)⟩
    rw [proven_step, hproven, Option.some.injEq] at h
    rcases h with rfl | h
    · exact Nat.lt_of_lt_of_le (hi.drawn.users user hu) fresh_step
    · exact hkept i h
  | @joined user flag hjoined hproven =>
    obtain ⟨hnew, husers⟩ := hjoined.users
    have huser : user ∈ (step dep s c).hub.db.users := by
      rw [husers]
      exact Table.mem_insert_self hnew
    refine ⟨hdrawn, fun i h => ?_, fun u hu hflag => ?_⟩
    · rw [proven_step, hproven] at h
      rcases h with h | h
      · split at h
        · cases h
          exact hdrawn.users user huser
        · cases h
      · exact hkept i h
    · rw [husers] at hu
      rcases (Table.mem_insert (h := hnew)).mp hu with hu | rfl
      · exact hmono u hu hflag
      · rw [hjoined.flag] at hflag
        exact proven_step.mpr (.inl (by rw [hproven, if_pos hflag]))

theorem inv_inductive (dep : Deployment) : (lts dep).Inductive Inv where
  init s h₀ := by
    refine ⟨(drawn_inductive dep).init s.hub h₀.accounts, fun i h => ?_, fun u hu => ?_⟩
    · rw [h₀.proven] at h
      cases h
    · rw [h₀.accounts.users] at hu
      exact absurd hu (Table.not_mem_empty u)
  step s c s' hi hs := by
    cases hs
    exact inv_step dep hi c

/-- A step keeps the flags true to what was proven exactly when it meets the condition. -/
theorem recorded_step (hi : Inv s) (h : Recorded s) :
    Recorded (step dep s c) ↔ AlreadyFlagged dep s c := by
  cases moved dep hi.drawn c with
  | quiet husers hproven hflagged =>
    refine iff_of_true (fun u hu => ?_) hflagged
    rw [husers] at hu
    rw [h u hu, Bool.eq_iff_iff, proven_step, hproven]
    simp only [reduceCtorEq, false_or]
  | @proves user husers huser hproven hiff =>
    rw [hiff]
    constructor
    · intro h'
      rw [h' user (husers ▸ huser)]
      exact proven_step.mpr (.inl hproven)
    · intro hflag u hu
      rw [husers] at hu
      rw [Bool.eq_iff_iff, proven_step, hproven, ← h u hu, Option.some.injEq]
      refine ⟨.inr, ?_⟩
      rintro (hid | hu')
      · rwa [← s.hub.db.users.eq_of_clash huser hu (.inl hid)]
      · exact hu'
  | @joined user flag hjoined hproven hflagged =>
    obtain ⟨hnew, husers⟩ := hjoined.users
    refine iff_of_true (fun u hu => ?_) hflagged
    rw [husers] at hu
    rw [Bool.eq_iff_iff, proven_step, hproven]
    rcases (Table.mem_insert (h := hnew)).mp hu with hu | rfl
    · -- an account that was there before has another id
      have hne : (if flag = true then some user.id else none) ≠ some u.id := by
        intro he
        split at he
        · have hlt := hi.drawn.users u hu
          rw [← Option.some.inj he, hjoined.id] at hlt
          exact Nat.lt_irrefl _ hlt
        · cases he
      rw [h u hu]
      exact ⟨.inr, fun h => h.resolve_left hne⟩
    · have hunborn : s.proven u.id ≠ true := by
        intro hborn
        have hlt := hi.born _ hborn
        rw [hjoined.id] at hlt
        exact Nat.lt_irrefl _ hlt
      rw [hjoined.flag]
      cases flag with
      | true => simp
      | false => simp [hunborn]

/-- What was not recorded is not recorded later. -/
theorem recorded_before (hi : Inv s) (h : Recorded (step dep s c)) : Recorded s := by
  intro u hu
  have hlater := h u (users_step hi.drawn u hu)
  rw [Bool.eq_iff_iff]
  constructor
  · exact hi.flagged u hu
  · intro hproven
    rw [hlater]
    exact proven_step.mpr (.inr hproven)

theorem recorded_of_run (hi : Inv s) (hr : (lts dep).Run s cs s') (h : Recorded s') : Recorded s := by
  induction hr with
  | nil => exact h
  | cons hs _ ih =>
    cases hs
    exact recorded_before hi (ih (inv_step dep hi _) h)

theorem recorded_run (hi : Inv s) (h : Recorded s) (hr : (lts dep).Run s cs s') :
    Recorded s' ↔ ((lts dep).restrict (AlreadyFlagged dep)).Run s cs s' := by
  induction hr with
  | nil => exact iff_of_true h (.nil _)
  | @cons s _ s' c cs hs hr ih =>
    cases hs
    have hi' := inv_step dep hi c
    constructor
    · intro h'
      have hmid := recorded_of_run hi' hr h'
      exact .cons ⟨(recorded_step hi h).mp hmid, rfl⟩ ((ih hi' hmid).mp h')
    · intro hr'
      cases hr' with
      | cons hs' hrest =>
        obtain ⟨hflagged, rfl⟩ := hs'
        exact (ih hi' ((recorded_step hi h).mpr hflagged)).mpr hrest

theorem recorded_start {s : Sys} (h₀ : Start s) : Recorded s := by
  intro u hu
  rw [h₀.accounts.users] at hu
  exact absurd hu (Table.not_mem_empty u)

/-- **A run records what it proved, exactly when it proves nothing of an account
that was there before without the flag.** -/
theorem recorded_iff {s₀ s : Sys} {cs : List Call} (h₀ : Start s₀) (hr : (lts dep).Run s₀ cs s) :
    Recorded s ↔ ((lts dep).restrict (AlreadyFlagged dep)).Run s₀ cs s :=
  recorded_run ((inv_inductive dep).init s₀ h₀) (recorded_start h₀) hr

/-! ## Alice's address -/

def begun : Sys := ⟨unused, fun _ => false⟩

theorem start_begun : Start begun := ⟨⟨rfl, rfl⟩, fun _ => rfl⟩

def aliceRegisters : Call := .register "alice@example.org" "correct horse" "salt"

def aliceComes : Call := .linkOrCreate (githubOne "alice@example.org")

/-- Her account is made out of the profile, and she comes back. -/
theorem recorded_of_profile : Recorded (step trial (step trial begun aliceComes) aliceComes) := by
  have hrun : (lts trial).Run begun [aliceComes, aliceComes]
      (step trial (step trial begun aliceComes) aliceComes) := .cons rfl (.cons rfl (.nil _))
  refine (recorded_iff start_begun hrun).mpr (.cons ⟨?_, rfl⟩ (.cons ⟨?_, rfl⟩ (.nil _)))
  · intro _ user hex
    have hnone : existing trial.platform (githubOne "alice@example.org") begun.hub.db = none := by
      decide +kernel
    rw [hnone] at hex
    cases hex
  · intro _ user hex _
    have hall : (existing trial.platform (githubOne "alice@example.org")
        (step trial begun aliceComes).hub.db).all User.emailVerified = true := by
      decide +kernel
    rw [hex] at hall
    exact hall

/-- She had registered before, and the provider's word is not recorded. -/
theorem not_recorded : ¬ ∀ (dep : Deployment) (s₀ s : Sys) (cs : List Call),
    Start s₀ → (lts dep).Run s₀ cs s → Recorded s := by
  intro h
  have hrun : (lts trial).Run begun [aliceRegisters, aliceComes]
      (step trial (step trial begun aliceRegisters) aliceComes) := .cons rfl (.cons rfl (.nil _))
  have hrecorded := h trial begun _ _ start_begun hrun
  have hlost : ((step trial (step trial begun aliceRegisters) aliceComes).hub.db.users.rows.any fun u =>
      !u.emailVerified && (step trial (step trial begun aliceRegisters) aliceComes).proven u.id) = true := by
    decide +kernel
  obtain ⟨u, hu, hflag⟩ := List.any_eq_true.mp hlost
  rw [Bool.and_eq_true, Bool.not_eq_true'] at hflag
  rw [hrecorded u hu, hflag.2] at hflag
  cases hflag.1

end SpikeHub.Bugs.ProvenAddresses
