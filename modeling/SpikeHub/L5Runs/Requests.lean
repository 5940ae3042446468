import SpikeHub.L4Routes.Issued
import SpikeHub.L5Runs.Interleave

/-!
# Requests in turn

The service answering one request after the other, whatever each presents and
asks for: its route runs in a session of its own on the committed state, and
what the route did not commit is rolled back before the next (`serve`).

`Ended` is a grant that is over: every token of its chain is revoked. It is
over for good, as far as later chains are new ones (`ended_run`), and none of
its tokens is accepted (`not_accepts_of_ended`).
-/
namespace SpikeHub.L5.Requests

open SpikeHub.Core SpikeHub.L1 SpikeHub.L2 SpikeHub.L4.Auth SpikeHub.L4.Routes
open SpikeHub.L4.Catalog (Dialect)
open SpikeHub.L5.Interleave (Hub alice oneAccount)

/-- A request, with the random parts that are drawn for it. -/
structure Call where
  req : Presented
  body : Request
  secret : Nat → String

/-- Runs the route of a request in a session of its own. -/
def serve (dep : Deployment) (c : Call) (h : Hub) : Except Raised Reply × Hub :=
  let (res, db, volume) :=
    dbSession (route dep h.now ⟨h.fresh, c.secret⟩ c.req c.body) h.db h.volume
  (res, { h with db := db, volume := volume, fresh := h.fresh + Rand.width })

/-- The account a request is authenticated as. -/
def caller (dep : Deployment) (h : Hub) (req : Presented) : Option User :=
  match ((currentUser dep.platform h.now dep.config req).exec h.db h.volume).1 with
  | .ok (user, _) => some user
  | .error _ => none

inductive Lbl
  | tick (d : Nat)
  | call (c : Call)

def step (dep : Deployment) (h : Hub) : Lbl → Hub
  | .tick d => { h with now := h.now + d }
  | .call c => (serve dep c h).2

/-- The service from any state on. -/
def lts (dep : Deployment) : LTS Hub Lbl where
  init _ := True
  step h l h' := h' = step dep h l

variable {dep : Deployment} {h h' : Hub} {c : Call} {l : Lbl} {ls : List Lbl} {chain : Uuid}

theorem serve_effect (dep : Deployment) (c : Call) (h : Hub) :
    Effect dep h.now ⟨h.fresh, c.secret⟩ c.req h.db c.body (serve dep c h).1 (serve dep c h).2.db :=
  effect_of_route rfl

/-- What a request left of the credentials. -/
theorem serve_renewed (dep : Deployment) (c : Call) (h : Hub) :
    Renewed dep h.now ⟨h.fresh, c.secret⟩ c.req h.db c.body (serve dep c h).1 (serve dep c h).2.db :=
  renewed_of_effect (serve_effect dep c h)

theorem caller_some {req : Presented} {user : User} (hc : caller dep h req = some user) :
    ∃ granted db, (currentUser dep.platform h.now dep.config req).exec h.db h.volume =
        (.ok (user, granted), db, h.volume) ∧
      CallerOf dep.platform h.now dep.config req h.db user granted db := by
  unfold caller at hc
  rcases hx : (currentUser dep.platform h.now dep.config req).exec h.db h.volume with ⟨res, db, fs⟩
  rw [hx] at hc
  cases res with
  | error e => cases hc
  | ok found =>
    obtain ⟨u, granted⟩ := found
    cases hc
    obtain ⟨rfl, hcaller⟩ := currentUser_ok hx
    exact ⟨granted, db, rfl, hcaller⟩

/-! ## Chains -/

/-- Every token of the chain is revoked. -/
def Ended (chain : Uuid) (db : Db) : Prop :=
  ∀ t ∈ db.tokens, t.chainId = chain → t.revokedAt.isSome = true

/-- A new token starts a chain of its own, or continues one with a live token. -/
theorem newToken_chain {now : Time} {r : Rand} {req : Presented} {db : Db} {body : Request} {t : Token}
    (ht : NewToken dep now r req db body t) :
    t.chainId = r.base + 1 ∨ ∃ row ∈ db.tokens, row.chainId = t.chainId ∧ row.revokedAt = none := by
  cases ht with
  | minted _ _ _ hchain => exact .inl hchain
  | rotated hacc _ _ _ hchain => exact .inr ⟨_, hacc.mem, hchain.symm, hacc.unrevoked⟩

theorem ended_step (hc : chain < h.fresh) (he : Ended chain h.db)
    (hs : (lts dep).step h l h') : Ended chain h'.db := by
  cases hs
  cases l with
  | tick => exact he
  | call c =>
    intro t ht hchain
    rcases (serve_renewed dep c h).carries.tokens.old t ht with ⟨a, ha, hcont⟩ | hnew
    · exact hcont.revoked (he a ha (hcont.chainId.symm.trans hchain))
    · rcases newToken_chain hnew with hbase | ⟨row, hrow, hrowchain, hlive⟩
      · rw [← hchain, hbase] at hc
        exact absurd hc (Nat.not_lt.mpr (Nat.le_add_right _ _))
      · have hrevoked := he row hrow (hrowchain.trans hchain)
        rw [hlive] at hrevoked
        cases hrevoked

theorem fresh_step (hs : (lts dep).step h l h') : h.fresh ≤ h'.fresh := by
  cases hs
  cases l with
  | tick => exact Nat.le_refl _
  | call c => exact Nat.le_add_right _ _

/-- A grant that is over stays over. -/
theorem ended_run (hr : (lts dep).Run h ls h') (hc : chain < h.fresh) (he : Ended chain h.db) :
    Ended chain h'.db := by
  have hkeep := hr.keeps (P := fun s => chain < s.fresh ∧ Ended chain s.db)
    (fun s l s' hp hs => ⟨Nat.lt_of_lt_of_le hp.1 (fresh_step hs), ended_step hp.1 hp.2 hs⟩) ⟨hc, he⟩
  exact hkeep.2

/-! ## Acceptance -/

/-- A request that presents the token's value now is authenticated by it, or
exchanges it. -/
def Accepts (dep : Deployment) (h : Hub) (t : Token) : Prop :=
  ∃ presented, t.tokenHash = dep.platform.hashToken presented ∧
    ((∃ found db fs, (resolve dep.platform h.now presented).exec h.db h.volume = (.ok found, db, fs)) ∨
      ∃ ds pair db fs,
        (rotate dep.platform h.now ds presented dep.config).exec h.db h.volume = (.ok pair, db, fs))

/-- What was accepted is live. -/
theorem accepts_live {t : Token} (ht : t ∈ h.db.tokens) (ha : Accepts dep h t) : t.revokedAt = none := by
  obtain ⟨presented, hhash, hacc⟩ := ha
  rcases hacc with ⟨⟨user, found⟩, db, fs, hx⟩ | ⟨ds, pair, db, fs, hx⟩
  · obtain ⟨-, row, hrow, -⟩ := resolve_ok hx
    rw [hrow.eq_of_hash ht hhash, hrow.unrevoked]
  · obtain ⟨-, -, -, user, row, hrow, -⟩ := rotate_ok hx
    rw [hrow.eq_of_hash ht hhash, hrow.unrevoked]

theorem not_accepts_of_ended (he : Ended chain h.db) :
    ∀ t ∈ h.db.tokens, t.chainId = chain → ¬ Accepts dep h t := by
  intro t ht hchain ha
  have hrevoked := he t ht hchain
  rw [accepts_live ht ha] at hrevoked
  cases hrevoked

/-! ## Traces -/

/-- A platform for traces: ASCII case mapping, no salt. -/
def plain : Platform where
  lower v := String.ofList (v.toList.map Char.toLower)
  hashToken v := sha256 (v.toList.map fun c => UInt8.ofNat c.toNat)
  hashPassword password _ := "pw$" ++ password
  checkPasswordLogin password who hash :=
    who.any (·.status = .active) && hash = some ("pw$" ++ password)
  weakness password := if password.length < 8 then some "too short" else none

theorem plain_lawful : plain.LawfulLogin where
  hashed password password' salt who hactive := by
    simp only [plain, Option.any_some, hactive, decide_true, Bool.true_and, decide_eq_true_eq,
      Option.some.injEq]
    constructor
    · intro he
      exact (String.append_right_inj _ |>.mp he).symm
    · intro he
      rw [he]
  nobody _ _ := rfl
  noPassword password who := by simp [plain]

theorem plain_ascii : plain.LawfulAscii where
  lowered _ _ := rfl

theorem plain_hex : plain.LawfulHex where
  ascii s h c hc := by
    by_cases hcapital : 'A' ≤ c ∧ c ≤ 'Z'
    · exact Nat.lt_of_le_of_lt hcapital.2 (by decide)
    · have hmem : c ∈ (plain.lower s).toList := by
        unfold plain
        rw [String.toList_ofList, List.mem_map]
        exact ⟨c, hc, PyStr.toLower_eq_self hcapital⟩
      rcases h c hmem with hletter | hdigit | rfl
      · exact Nat.lt_of_le_of_lt hletter.2 (by decide)
      · exact Nat.lt_of_le_of_lt hdigit.2 (by decide)
      · decide

/-- A search for traces: ASCII, the pattern between the two `%` a literal. -/
def literal : Dialect where
  lower := plain.lower
  like text pattern := decide ((pattern.toList.drop 1).dropLast <:+: text.toList)

def trial : Deployment := ⟨plain, {}, fun _ => 1024 * GIB, literal⟩

/-- A session of alice's, opened at the epoch. -/
def opened : Session where
  id := 1
  tokenHash := plain.hashToken "sfh_s_first"
  userId := alice.id
  lastSeenAt := 0
  expiresAt := 30 * day

def oneSession : Table Session := ⟨[opened], List.pairwise_singleton _ _⟩

/-- Alice has signed in, and nothing is uploaded. -/
def signedIn : Hub where
  now := 0
  db := .ofUsers oneAccount .empty oneSession
  volume := .empty _
  fresh := 100

/-- A request of hers. -/
def asAlice (body : Request) : Call := ⟨{ cookie := some "sfh_s_first" }, body, fun _ => "x"⟩

end SpikeHub.L5.Requests
