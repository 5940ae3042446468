import SpikeHub.L5Runs.Requests

/-!
# Refresh requests interleaved

`POST /v1/auth/refresh` is a read and a write with other requests in between:
`rotate` reads the committed row and checks it (`usableRefresh`), and what it
writes (`exchange`) reaches the committed state with the route's commit. The
update names the row by its primary key, so it goes through whatever the row
is by then (READ COMMITTED, no row lock, no condition on the old value). A
request that was refused by the read is answered, and its session rolled back.

`pending` is what the requests in flight have read, `exchanged` the rows whose
exchange was committed, `grant` a new grant (`issue_pair` with a new chain).
-/
namespace SpikeHub.L5.Exchanges

open SpikeHub.Core SpikeHub.L1 SpikeHub.L2 SpikeHub.L4.Auth SpikeHub.L4.Routes SpikeHub.L5.Requests
open SpikeHub.L5.Interleave (Hub)

structure Sys where
  hub : Hub
  pending : List (Token × User)
  exchanged : List Uuid

inductive Lbl
  | tick (d : Nat)
  | grant (user : Uuid) (scopes : List Scope) (secret : Nat → String)
  /-- a refresh request, as far as its checks -/
  | read (presented : String)
  /-- the rest of the `i`-th request in flight -/
  | write (i : Nat) (secret : Nat → String)

/-- Work in a session of its own, committed when it returns. -/
def settled {α : Type} (m : AuthWork α) (h : Hub) : Except Raised α × Hub :=
  let (res, db, volume) := dbSession (committing m) h.db h.volume
  (res, { h with db := db, volume := volume, fresh := h.fresh + Rand.width })

def granting (dep : Deployment) (user : User) (scopes : List Scope) (secret : Nat → String) (h : Hub) :
    Hub :=
  (settled (issuePair dep.platform h.now (pairDraws ⟨h.fresh, secret⟩) user scopes dep.config) h).2

/-- What the checks of a refresh request read. -/
def reading (dep : Deployment) (presented : String) (h : Hub) : Except Raised (Token × User) :=
  ((usableRefresh dep.platform h.now presented).exec h.db h.volume).1

/-- The writes of a refresh request that read `found`. -/
def writing (dep : Deployment) (found : Token × User) (secret : Nat → String) (h : Hub) :
    Except Raised IssuedPair × Hub :=
  settled (exchange dep.platform h.now (pairDraws ⟨h.fresh, secret⟩) found dep.config) h

def step (dep : Deployment) (s : Sys) : Lbl → Option Sys
  | .tick d => some { s with hub := { s.hub with now := s.hub.now + d } }
  | .grant user scopes secret =>
    (s.hub.db.user? user).map fun u => { s with hub := granting dep u scopes secret s.hub }
  | .read presented =>
    match reading dep presented s.hub with
    | .ok found => some { s with pending := s.pending ++ [found] }
    | .error _ => some s
  | .write i secret =>
    match s.pending[i]? with
    | none => none
    | some found =>
      match writing dep found secret s.hub with
      | (.ok _, hub) => some ⟨hub, s.pending.eraseIdx i, s.exchanged ++ [found.1.id]⟩
      | (.error _, hub) => some ⟨hub, s.pending.eraseIdx i, s.exchanged⟩

/-- Accounts, and no credential yet. -/
structure Start (s : Sys) : Prop where
  tokens : s.hub.db.tokens = Table.empty
  pending : s.pending = []
  exchanged : s.exchanged = []

def lts (dep : Deployment) : LTS Sys Lbl := LTS.ofFn Start (step dep)

variable {dep : Deployment} {s s' : Sys} {l : Lbl} {h : Hub}

/-! ## One request alone -/

/-- With nothing in between, a refresh request is the whole route: refused
where its checks refuse, -/
theorem serve_refused {req : Presented} {presented : String} {secret : Nat → String} {e : Raised}
    (hr : reading dep presented h = .error e) :
    (serve dep ⟨req, .refresh presented, secret⟩ h).1 = .error e ∧
      (serve dep ⟨req, .refresh presented, secret⟩ h).2.db = h.db := by
  unfold reading at hr
  rcases hx : (usableRefresh dep.platform h.now presented).exec h.db h.volume with ⟨res, db, fs⟩
  rw [hx] at hr
  have hrefuse : ∀ ds : PairDraws,
      (rotate dep.platform h.now ds presented dep.config).exec h.db h.volume = (.error e, db, fs) := by
    intro ds
    rw [rotate_eq]
    exact Work.exec_bind_error (hr ▸ hx)
  unfold serve
  show (dbSession (refresh dep h.now ⟨h.fresh, secret⟩ presented) h.db h.volume).1 = _ ∧
    (dbSession (refresh dep h.now ⟨h.fresh, secret⟩ presented) h.db h.volume).2.1 = _
  rw [refresh, dbSession_commit, Work.exec_bind, hrefuse]
  exact ⟨rfl, rfl⟩

/-- and committed where its writes go through. -/
theorem serve_exchanged {req : Presented} {presented : String} {secret : Nat → String}
    {found : Token × User} (hr : reading dep presented h = .ok found) :
    (serve dep ⟨req, .refresh presented, secret⟩ h).2.db = (writing dep found secret h).2.db := by
  unfold reading at hr
  rcases hx : (usableRefresh dep.platform h.now presented).exec h.db h.volume with ⟨res, db, fs⟩
  rw [hx] at hr
  obtain rfl : res = .ok found := hr
  obtain ⟨rfl, rfl, -⟩ := usableRefresh_ok hx
  unfold serve writing settled
  show (dbSession (refresh dep h.now ⟨h.fresh, secret⟩ presented) h.db h.volume).2.1 =
    (dbSession (committing (exchange dep.platform h.now (pairDraws ⟨h.fresh, secret⟩) found dep.config))
      h.db h.volume).2.1
  rw [refresh, dbSession_commit, dbSession_commit, Work.exec_bind, rotate_eq, Work.exec_bind_ok hx]
  unfold pairDraws
  generalize (exchange dep.platform h.now _ found dep.config).exec h.db h.volume = out
  obtain ⟨res, db, fs⟩ := out
  cases res <;> rfl

/-! ## What a step can do -/

inductive Trans (dep : Deployment) (s : Sys) : Lbl → Sys → Prop
  | tick {d : Nat} : Trans dep s (.tick d) { s with hub := { s.hub with now := s.hub.now + d } }
  | granted {id : Uuid} {user : User} {scopes : List Scope} {secret : Nat → String} {db : Db}
      {volume : Volume} :
      AddedPair dep.platform s.hub.now (pairDraws ⟨s.hub.fresh, secret⟩) user scopes dep.config
        (s.hub.fresh + 4) s.hub.db db →
      Trans dep s (.grant id scopes secret)
        { s with hub := ⟨s.hub.now, db, volume, s.hub.fresh + Rand.width⟩ }
  | read {presented : String} {row : Token} {user : User} :
      Accepted dep.platform s.hub.now presented s.hub.db user row → row.kind = .refresh →
      Trans dep s (.read presented) { s with pending := s.pending ++ [(row, user)] }
  | refused {l : Lbl} {pending : List (Token × User)} {volume : Volume} {n : Nat} :
      (∀ found ∈ pending, found ∈ s.pending) →
      Trans dep s l ⟨⟨s.hub.now, s.hub.db, volume, s.hub.fresh + n⟩, pending, s.exchanged⟩
  | written {i : Nat} {row : Token} {user : User} {secret : Nat → String} {db : Db}
      {volume : Volume} :
      s.pending[i]? = some (row, user) →
      AddedPair dep.platform s.hub.now (pairDraws ⟨s.hub.fresh, secret⟩) user row.scopes dep.config
        row.chainId (revokeTokens s.hub.now (fun t => t.id = row.id) s.hub.db) db →
      Trans dep s (.write i secret)
        ⟨⟨s.hub.now, db, volume, s.hub.fresh + Rand.width⟩, s.pending.eraseIdx i,
          s.exchanged ++ [row.id]⟩

/-- Work that returned was committed; work that raised left nothing. -/
theorem settled_cases {α : Type} (m : AuthWork α) (h : Hub) :
    (∃ e volume, settled m h = (.error e, ⟨h.now, h.db, volume, h.fresh + Rand.width⟩)) ∨
      ∃ a db volume, settled m h = (.ok a, ⟨h.now, db, volume, h.fresh + Rand.width⟩) ∧
        m.exec h.db h.volume = (.ok a, db, volume) := by
  unfold settled
  rw [dbSession_commit]
  rcases m.exec h.db h.volume with ⟨res, db, volume⟩
  cases res with
  | error e => exact .inl ⟨e, volume, rfl⟩
  | ok a => exact .inr ⟨a, db, volume, rfl, rfl⟩

theorem step_trans (hs : step dep s l = some s') : Trans dep s l s' := by
  cases l with
  | tick d => cases hs; exact .tick
  | grant id scopes secret =>
    obtain ⟨user, -, rfl⟩ := Option.map_eq_some_iff.mp hs
    unfold granting
    rcases settled_cases (issuePair dep.platform s.hub.now (pairDraws ⟨s.hub.fresh, secret⟩) user scopes
      dep.config) s.hub with ⟨e, volume, he⟩ | ⟨pair, db, volume, ho, hx⟩
    · rw [he]
      exact .refused fun _ hf => hf
    · rw [ho]
      obtain ⟨-, -, -, -, hadd⟩ := issuePair_ok hx
      exact .granted hadd
  | read presented =>
    simp only [step, reading] at hs
    rcases hx : (usableRefresh dep.platform s.hub.now presented).exec s.hub.db s.hub.volume with
      ⟨res, db, fs⟩
    rw [hx] at hs
    cases res with
    | error e => cases hs; exact .refused (n := 0) fun _ hf => hf
    | ok found =>
      obtain ⟨row, user⟩ := found
      obtain ⟨-, -, hacc, hk⟩ := usableRefresh_ok hx
      cases hs
      exact .read hacc hk
  | write i secret =>
    simp only [step] at hs
    split at hs
    · cases hs
    · rename_i found hfound
      obtain ⟨row, user⟩ := found
      rcases settled_cases (exchange dep.platform s.hub.now (pairDraws ⟨s.hub.fresh, secret⟩) (row, user)
        dep.config) s.hub with ⟨e, volume, he⟩ | ⟨pair, db, volume, ho, hx⟩
      · unfold writing at hs
        rw [he] at hs
        cases hs
        exact .refused fun _ hf => List.mem_of_mem_eraseIdx hf
      · unfold writing at hs
        rw [ho] at hs
        cases hs
        obtain ⟨-, -, -, hadd⟩ := exchange_ok hx
        exact .written hfound hadd

end SpikeHub.L5.Exchanges
