import SpikeHub.L5Runs.Identities

/-!
# The fallback handle is somebody's

Behaviour (hub_api/auth/handles.py:42-74): `allocate` returns the stem or the
first of its suffixes that `_is_free` finds free. When 2 to 999 are taken as
well it returns "user-" and the number of accounts plus one, and does not ask
whether that is free.

What the code says: the search "falls back to a stem that cannot realistically
collide" (handles.py:45-47). Anybody may be given that name before: it is what
an address of that local part is reduced to.

Counterexample: user-1000@b registers, then 998 addresses with the local part
"admin", which is reserved. There are 999 accounts, and the next such address
is to get user-1000.

When it does hold: exactly when no account has the fallback name where the
suffixes are exhausted (`allocates_iff`).
-/
namespace SpikeHub.Bugs.FallbackHandles

open SpikeHub.Core SpikeHub.L1 SpikeHub.L2 SpikeHub.L4.Auth SpikeHub.L4.Auth.Handles SpikeHub.L4.Routes
open SpikeHub.L5.Identities (Call step)
open SpikeHub.L5.Interleave (Hub)
open SpikeHub.L5.Parties (registering linking linking_ok called called_error called_cases)
open SpikeHub.L5.Requests (plain trial)

/-- No account yet. -/
structure Start (h : Hub) : Prop where
  users : h.db.users = Table.empty
  identities : h.db.identities = Table.empty

/-- `register` and `link_or_create`, from no account on. -/
def lts (dep : Deployment) : LTS Hub Call where
  init := Start
  step h c h' := h' = step dep h c

/-- What a call answers. -/
def answered (dep : Deployment) (h : Hub) : Call → Option (Except Raised User)
  | .tick _ => none
  | .register email password salt => some (registering dep email password salt h).1
  | .linkOrCreate profile => some (linking dep profile h).1

/-- What a call has a handle allocated from. -/
def candidatesOf (p : Platform) : Call → List String
  | .tick _ => []
  | .register email _ _ => [Accounts.normaliseEmail p email]
  | .linkOrCreate profile => [profile.username, profile.email]

/-- The address of the account a call may add. -/
def addressOf (p : Platform) : Call → String
  | .tick _ => ""
  | .register email _ _ => Accounts.normaliseEmail p email
  | .linkOrCreate profile => Accounts.normaliseEmail p profile.email

def Unheld (handle : String) (db : Db) : Prop := ∀ u ∈ db.users, u.handle ≠ handle

/-- The handle is nobody's, and no call that asks for it, for an address that
is nobody's either, breaks a constraint. -/
structure Allocates (dep : Deployment) (h : Hub) (candidates : List String) : Prop where
  fresh : Unheld (allocate dep.platform h.db candidates) h.db
  inserted : ∀ c, candidatesOf dep.platform c = candidates →
    (∀ u ∈ h.db.users, u.email ≠ addressOf dep.platform c) →
    answered dep h c ≠ some (.error .integrityError)

/-- The fallback name is nobody's, where it comes to that. -/
def FallbackUnheld (p : Platform) (db : Db) (candidates : List String) : Prop :=
  Exhausted p db candidates → Unheld (attempt fallback (db.users.count (fun _ => true) + 1)) db

/-- The ids in use were drawn. -/
structure Drawn (h : Hub) : Prop where
  users : ∀ u ∈ h.db.users, u.id < h.fresh
  identities : ∀ i ∈ h.db.identities, i.id < h.fresh

variable {dep : Deployment} {p : Platform} {h h' : Hub} {c : Call} {db : Db} {candidates : List String}
  {profile : OAuthProfile}

/-! ## The handle -/

/-- The stem and its suffixes are asked for, the fallback is not. -/
theorem unheld_iff :
    Unheld (allocate p db candidates) db ↔ FallbackUnheld p db candidates := by
  have hexit := allocated p db candidates
  generalize allocate p db candidates = handle at hexit
  cases hexit with
  | stem hfree =>
    refine iff_of_true (isFree_iff.mp hfree).2 fun h => ?_
    rw [h.stem] at hfree
    cases hfree
  | suffixed _ hlow hhigh hfree =>
    refine iff_of_true (isFree_iff.mp hfree).2 fun h => ?_
    rw [h.suffixes _ hlow hhigh] at hfree
    cases hfree
  | fallback h => exact ⟨fun hunheld _ => hunheld, fun hunheld => hunheld h⟩

/-! ## The insert -/

/-- The ids a sign-in leaves in use. -/
theorem linked_ids {now : Time} {ids : Accounts.LinkIds} {config : Settings} {user : User} {db' : Db}
    (hl : Accounts.Linked p now ids profile config db user db') :
    (∀ u ∈ db'.users, u ∈ db.users ∨ u.id = ids.user) ∧
      ∀ i ∈ db'.identities, (∃ j ∈ db.identities, j.id = i.id) ∨ i.id = ids.identity := by
  cases hl with
  | known =>
    refine ⟨fun u hu => .inl hu, fun i hi => .inl ?_⟩
    obtain ⟨j, hj, rfl⟩ := (Table.mem_updateWhere (g := Accounts.used now) (h := fun _ _ hc => hc)).mp hi
    refine ⟨j, hj, ?_⟩
    split <;> rfl
  | adopted =>
    rename_i hnew _
    refine ⟨fun u hu => .inl hu, fun i hi => ?_⟩
    rcases (Table.mem_insert (h := hnew)).mp hi with hi | rfl
    · exact .inl ⟨i, hi, rfl⟩
    · exact .inr rfl
  | created _ _ _ hprofiled =>
    rename_i hrow hnew
    refine ⟨fun u hu => ?_, fun i hi => ?_⟩
    · rcases (Table.mem_insert (h := hrow)).mp hu with hu | rfl
      · exact .inl hu
      · exact .inr (by rw [hprofiled]; rfl)
    · rcases (Table.mem_insert (h := hnew)).mp hi with hi | rfl
      · exact .inl ⟨i, hi, rfl⟩
      · exact .inr rfl

theorem called_fresh {m : AuthWork User} {res : Except Raised User} (hx : called m h = (res, h')) :
    h'.fresh = h.fresh + 2 := (congrArg (fun x => x.2.fresh) hx).symm

theorem called_raised {m : AuthWork User} {e : Raised} (hx : called m h = (.error e, h')) :
    ∃ db' fs', m.exec h.db h.volume = (.error e, db', fs') := by
  unfold called at hx
  rw [dbSession_commit] at hx
  rcases hm : m.exec h.db h.volume with ⟨res, db', fs'⟩
  rw [hm] at hx
  cases res with
  | ok user => cases hx
  | error e' =>
    cases hx
    exact ⟨db', fs', rfl⟩

theorem Drawn.later (hd : Drawn h) (hfresh : h'.fresh = h.fresh + 2)
    (husers : ∀ u ∈ h'.db.users, u ∈ h.db.users ∨ u.id = h.fresh)
    (hidentities : ∀ i ∈ h'.db.identities,
      (∃ j ∈ h.db.identities, j.id = i.id) ∨ i.id = h.fresh + 1) : Drawn h' where
  users u hu := by
    rw [hfresh]
    rcases husers u hu with hu | hid
    · exact Nat.lt_add_right 2 (hd.users u hu)
    · rw [hid]
      exact Nat.lt_add_of_pos_right (by decide)
  identities i hi := by
    rw [hfresh]
    rcases hidentities i hi with ⟨j, hj, hid⟩ | hid
    · rw [← hid]
      exact Nat.lt_add_right 2 (hd.identities j hj)
    · rw [hid]
      exact Nat.lt_succ_self _

theorem Drawn.same (hd : Drawn h) (hfresh : h'.fresh = h.fresh + 2) (hdb : h'.db = h.db) : Drawn h' :=
  hd.later hfresh (fun _ hu => .inl (hdb ▸ hu)) fun i hi => .inl ⟨i, hdb ▸ hi, rfl⟩

theorem drawn_inductive (dep : Deployment) : (lts dep).Inductive Drawn where
  init h h₀ := by
    constructor
    · intro u hu
      rw [h₀.users] at hu
      exact absurd hu (Table.not_mem_empty u)
    · intro i hi
      rw [h₀.identities] at hi
      exact absurd hi (Table.not_mem_empty i)
  step h c h' hd hs := by
    cases hs
    cases c with
    | tick => exact ⟨hd.users, hd.identities⟩
    | register email password salt =>
      show Drawn (registering dep email password salt h).2
      rcases hx : registering dep email password salt h with ⟨res, hub⟩
      rcases called_cases hx with ⟨e, -, hdb⟩ | ⟨user, -, hok⟩
      · exact hd.same (called_fresh hx) hdb
      · obtain ⟨-, hu, hdb, hrow⟩ := Accounts.register_ok hok
        refine hd.later (called_fresh hx) (fun a ha => ?_) fun i hi => .inl ⟨i, ?_, rfl⟩
        · rw [hdb] at ha
          rcases (Table.mem_insert (h := hu)).mp ha with ha | rfl
          · exact .inl ha
          · exact .inr (by rw [hrow]; rfl)
        · rw [hdb] at hi
          exact hi
    | linkOrCreate profile =>
      show Drawn (linking dep profile h).2
      rcases hx : linking dep profile h with ⟨res, hub⟩
      cases res with
      | error e => exact hd.same (called_fresh hx) (called_error hx)
      | ok user =>
        obtain ⟨husers, hidentities⟩ := linked_ids (linking_ok hx)
        exact hd.later (called_fresh hx) husers hidentities

/-- A new row with a new id, an unheld handle and an address of its own. -/
theorem no_clash {u : User} (hid : ∀ a ∈ db.users, a.id ≠ u.id) (hunheld : Unheld u.handle db)
    (hemail : ∀ a ∈ db.users, a.email ≠ u.email) : ∀ a ∈ db.users, ¬ Record.clash a u := by
  rintro a ha (h | h | h)
  · exact hid a ha h
  · exact hunheld a ha h
  · exact hemail a ha h

/-- What a call raises is a refusal. -/
theorem answered_refuses (hd : Drawn h)
    (hunheld : Unheld (allocate dep.platform h.db (candidatesOf dep.platform c)) h.db)
    (hemail : ∀ u ∈ h.db.users, u.email ≠ addressOf dep.platform c) {e : Raised}
    (ha : answered dep h c = some (.error e)) : ∃ refusal, e = .hub refusal := by
  have hid : ∀ a ∈ h.db.users, a.id ≠ h.fresh := fun a ha => Nat.ne_of_lt (hd.users a ha)
  have hlink : ∀ i ∈ h.db.identities, i.id ≠ h.fresh + 1 := fun i hi =>
    Nat.ne_of_lt (Nat.lt_succ_of_lt (hd.identities i hi))
  cases c with
  | tick => cases ha
  | register email password salt =>
    rcases hx : registering dep email password salt h with ⟨res, hub⟩
    rw [answered, hx, Option.some.injEq] at ha
    dsimp only at ha
    subst ha
    obtain ⟨db', fs', hraised⟩ := called_raised hx
    refine Accounts.register_refuses (fun _ => no_clash ?_ ?_ ?_) hraised
    · exact hid
    · rw [candidatesOf] at hunheld
      dsimp only [Accounts.registered]
      exact hunheld
    · exact hemail
  | linkOrCreate profile =>
    rcases hx : linking dep profile h with ⟨res, hub⟩
    rw [answered, hx, Option.some.injEq] at ha
    dsimp only at ha
    subst ha
    obtain ⟨db', fs', hraised⟩ := called_raised hx
    refine Accounts.linkOrCreate_refuses hlink (fun _ => no_clash ?_ ?_ ?_) hraised
    · exact hid
    · rw [candidatesOf] at hunheld
      dsimp only [Accounts.profiled]
      exact hunheld
    · exact hemail

/-- **The handle is nobody's, exactly when the fallback is.** -/
theorem allocates_iff (dep : Deployment) (h : Hub) (hr : (lts dep).Reachable h)
    (candidates : List String) :
    Allocates dep h candidates ↔ FallbackUnheld dep.platform h.db candidates := by
  constructor
  · exact fun ha => unheld_iff.mp ha.fresh
  · intro hfallback
    have hunheld := unheld_iff.mpr hfallback
    refine ⟨hunheld, fun c hc hemail he => ?_⟩
    subst hc
    have hdrawn := (drawn_inductive dep).reachable h hr
    obtain ⟨refusal, hrefusal⟩ := answered_refuses hdrawn hunheld hemail he
    cases hrefusal

/-! ## A reserved stem, and the fallback's name taken first -/

/-- The service before anybody registered. -/
def unused : Hub := ⟨0, .empty, .empty _, 0⟩

theorem reachable_unused : (lts trial).Reachable unused := ⟨unused, [], ⟨rfl, rfl⟩, .nil _⟩

def joins (email : String) : Call := .register email "correct horse" "salt"

/-- Two accounts, the second with a suffix. -/
def twoNamed : Hub := step trial (step trial unused (joins "alice@a")) (joins "alice@b")

theorem reachable_twoNamed : (lts trial).Reachable twoNamed := (reachable_unused.step rfl).step rfl

/-- The stem and its first suffix are taken, the next is not. -/
theorem allocates_third : allocate plain twoNamed.db ["alice"] = "alice-3" ∧
    isFree twoNamed.db (stemFrom plain ["alice"]) = false ∧ Allocates trial twoNamed ["alice"] := by
  refine ⟨by decide +kernel, by decide +kernel, ?_⟩
  refine (allocates_iff trial twoNamed reachable_twoNamed ["alice"]).mpr fun hexhausted => ?_
  have hfree : isFree twoNamed.db (attempt (stemFrom plain ["alice"]) 3) = true := by decide +kernel
  have htaken := hexhausted.suffixes 3 (by decide) (by decide)
  rw [show trial.platform = plain from rfl, hfree] at htaken
  cases htaken

def address (k : Nat) : String := String.ofList ("admin@".toList ++ List.replicate (k + 1) 'x')

/-- The account of the address that joins next. -/
def joiner (n : Nat) (id : Uuid) : User :=
  Accounts.registered plain id (address n) "correct horse" "salt" (attempt "admin" (n + 2)) {}

/-- user-1000@b has registered, and `n` addresses after it. -/
structure Joined (n : Nat) (h : Hub) : Prop where
  reachable : (lts trial).Reachable h
  handles : h.db.users.rows.map User.handle =
    "user-1000" :: (List.range n).map fun k => attempt "admin" (k + 2)
  emails : h.db.users.rows.map User.email = "user-1000@b" :: (List.range n).map address

theorem normalise_address (k : Nat) : Accounts.normaliseEmail plain (address k) = address k := by
  have hstrip : PyStr.strip (address k) = address k := by
    unfold PyStr.strip address
    rw [String.toList_ofList, PyStr.stripOf_eq_self]
    · intro c hc
      have hfirst : "admin@".toList.head? = some 'a' := by decide +kernel
      rw [List.head?_append_of_ne_nil _ (by decide), hfirst] at hc
      cases hc
      decide
    · intro c hc
      rw [List.getLast?_append_of_ne_nil _ (by simp), List.getLast?_replicate, if_neg (by omega)] at hc
      cases hc
      decide
  unfold Accounts.normaliseEmail
  rw [hstrip]
  unfold address plain
  simp only [String.toList_ofList, List.map_append, List.map_replicate]
  rfl

theorem stem_address (k : Nat) : stemFrom plain [address k] = "admin" := by
  have hclean : clean plain (address k) = "admin" := by
    have hlocal : (PyStr.partition '@' (plain.lower (PyStr.strip (address k)))).1 = "admin" := by
      have hlower := normalise_address k
      unfold Accounts.normaliseEmail at hlower
      rw [hlower]
      unfold PyStr.partition address
      rw [String.toList_ofList]
      rfl
    unfold clean
    rw [hlocal]
    decide +kernel
  unfold stemFrom
  rw [List.map_singleton, hclean]
  rfl

theorem joined_none : Joined 0 (step trial unused (joins "user-1000@b")) where
  reachable := reachable_unused.step rfl
  handles := by decide +kernel
  emails := by decide +kernel

theorem address_toList (k : Nat) : (address k).toList = "admin@".toList ++ List.replicate (k + 1) 'x' :=
  String.toList_ofList

theorem address_ne (k : Nat) : address k ≠ "user-1000@b" := by
  intro h
  have hlist := congrArg String.toList h
  rw [address_toList] at hlist
  have hhead := congrArg List.head? hlist
  rw [List.head?_append_of_ne_nil _ (by decide)] at hhead
  revert hhead
  decide

theorem address_inj {j k : Nat} (h : address j = address k) : j = k := by
  have hlist := congrArg String.toList h
  rw [address_toList, address_toList, List.append_cancel_left_eq] at hlist
  have hlength := congrArg List.length hlist
  rw [List.length_replicate, List.length_replicate] at hlength
  exact Nat.succ.inj hlength

section
variable {n m : Nat}

theorem Joined.held (hj : Joined n h) {handle : String} :
    (∃ u ∈ h.db.users, u.handle = handle) ↔
      handle = "user-1000" ∨ ∃ k < n, attempt "admin" (k + 2) = handle := by
  have hmem : (∃ u ∈ h.db.users, u.handle = handle) ↔ handle ∈ h.db.users.rows.map User.handle := by
    rw [List.mem_map]
    exact Iff.rfl
  rw [hmem, hj.handles, List.mem_cons, List.mem_map]
  simp only [List.mem_range]

/-- The suffixes in use are the first ones. -/
theorem Joined.free (hj : Joined n h) (hm : 2 ≤ m) :
    isFree h.db (attempt "admin" m) = true ↔ n + 2 ≤ m := by
  have hother : attempt "admin" m ≠ "user-1000" := by
    intro he
    have hhead := congrArg (fun s : String => s.toList.head?) he
    rw [attempt_toList, List.head?_append_of_ne_nil _ (by decide)] at hhead
    revert hhead
    decide
  have hheld : (∃ u ∈ h.db.users, u.handle = attempt "admin" m) ↔ m < n + 2 := by
    rw [hj.held, or_iff_right hother]
    constructor
    · rintro ⟨k, hk, he⟩
      have hkm := attempt_inj he
      omega
    · exact fun hlt => ⟨m - 2, by omega, by rw [Nat.sub_add_cancel hm]⟩
  rw [isFree_iff, and_iff_right attempt_unreserved, ← not_lt, ← hheld]
  constructor
  · rintro hnone ⟨u, hu, he⟩
    exact hnone u hu he
  · exact fun hnone u hu he => hnone ⟨u, hu, he⟩

theorem reserved_admin : isFree db "admin" = false := by
  rw [Bool.eq_false_iff, ne_eq, isFree_iff]
  exact fun h => h.1 (by decide)

theorem Joined.next (hj : Joined n h) (hn : n < 998) :
    allocate plain h.db [address n] = attempt "admin" (n + 2) := by
  have hstem := stem_address n
  have hfirst := allocate_suffixed (n := n + 2) plain h.db [address n]
  rw [hstem] at hfirst
  refine hfirst reserved_admin (by omega) (by omega) ((hj.free (by omega)).mpr (le_refl _)) fun m hm hmn => ?_
  rw [Bool.eq_false_iff, ne_eq, hj.free hm]
  omega

theorem Joined.more (hj : Joined n h) (hn : n < 998) : Joined (n + 1) (step trial h (joins (address n))) := by
  have haddress := normalise_address n
  have hemail : ∀ u ∈ h.db.users, u.email ≠ address n := by
    intro u hu he
    have hmem : address n ∈ h.db.users.rows.map User.email := he ▸ List.mem_map_of_mem hu
    rw [hj.emails, List.mem_cons, List.mem_map, or_iff_right (address_ne n)] at hmem
    obtain ⟨k, hk, hke⟩ := hmem
    rw [address_inj hke, List.mem_range] at hk
    exact Nat.lt_irrefl n hk
  have hunheld : Unheld (attempt "admin" (n + 2)) h.db :=
    (isFree_iff.mp ((hj.free (by omega)).mpr (le_refl _))).2
  have hid : ∀ u ∈ h.db.users, u.id ≠ h.fresh := fun u hu =>
    Nat.ne_of_lt (((drawn_inductive trial).reachable h hj.reachable).users u hu)
  have hfree : Accounts.checkUnregistered plain (address n) h.db = .ok () := by
    have hnone : Accounts.byEmail plain (address n) h.db = none := by
      refine List.find?_eq_none.mpr fun u hu => ?_
      rw [haddress, decide_eq_true_eq]
      exact hemail u hu
    unfold Accounts.checkUnregistered
    rw [hnone]
    rfl
  have hrow : ∀ u ∈ h.db.users, ¬ Record.clash u (joiner n h.fresh) := no_clash hid hunheld hemail
  have hadd : Accounts.addUser (joiner n h.fresh) h.db =
      .ok { h.db with users := h.db.users.insert (joiner n h.fresh) hrow } := Accounts.addUser_isOk hrow
  have hexec : (Accounts.register plain h.fresh "salt" (address n) "correct horse" {}).exec h.db h.volume =
      (.ok (joiner n h.fresh), { h.db with users := h.db.users.insert (joiner n h.fresh) hrow }, h.volume) := by
    have hstrong : Accounts.checkStrength plain "correct horse" = .ok () := rfl
    unfold joiner at hadd
    rw [Accounts.register_exec, haddress, hfree, hj.next hn, hadd, hstrong]
    rfl
  have hstep : (step trial h (joins (address n))).db =
      { h.db with users := h.db.users.insert (joiner n h.fresh) hrow } := by
    show (called (Accounts.register plain h.fresh "salt" (address n) "correct horse" {}) h).2.db = _
    unfold called
    rw [dbSession_commit, hexec]
  constructor
  · exact hj.reachable.step rfl
  · rw [hstep]
    show (h.db.users.rows ++ [joiner n h.fresh]).map User.handle = _
    rw [List.map_append, hj.handles, List.range_succ, List.map_append]
    rfl
  · rw [hstep]
    show (h.db.users.rows ++ [joiner n h.fresh]).map User.email = _
    rw [List.map_append, hj.emails, List.range_succ, List.map_append]
    rfl

end

theorem joined : ∀ n ≤ 998, ∃ h, Joined n h
  | 0, _ => ⟨_, joined_none⟩
  | n + 1, hn => (joined n (by omega)).imp' _ fun _ hj => hj.more (by omega)

/-- With every suffix taken there are 999 accounts. -/
theorem Joined.exhausted (hj : Joined 998 h) : ¬ FallbackUnheld plain h.db [address 998] := by
  have hcount : h.db.users.count (fun _ => true) = 999 := by
    have hlength := congrArg List.length hj.handles
    rw [List.length_map, List.length_cons, List.length_map, List.length_range] at hlength
    unfold Table.count Table.select
    rw [List.filter_true, hlength]
  obtain ⟨u, hu, hhandle⟩ := hj.held.mpr (.inl rfl)
  intro hunheld
  refine hunheld ⟨?_, fun n hlow hhigh => ?_⟩ u hu ?_
  · rw [stem_address]
    exact reserved_admin
  · rw [stem_address, Bool.eq_false_iff, ne_eq, hj.free hlow]
    omega
  · rw [hhandle, hcount]
    decide +kernel

/-- An account that is to get the handle of another. -/
theorem not_allocates : ¬ ∀ (dep : Deployment) (h : Hub), (lts dep).Reachable h →
    ∀ candidates, Allocates dep h candidates := by
  intro hall
  obtain ⟨h, hj⟩ := joined 998 (le_refl _)
  exact hj.exhausted (unheld_iff.mp (hall trial h hj.reachable [address 998]).fresh)

end SpikeHub.Bugs.FallbackHandles
