import SpikeHub.L4Auth.Minting
import SpikeHub.L5Runs.Calls
import SpikeHub.L5Runs.Requests

/-!
# Tokens and the grants they descend from

Any run of `issue_pair`, `issue_pat` and `rotate`, with whatever accounts,
scopes and values, each call in a session of its own or sharing one with the
calls after it (`keep`).

Beside the service the state notes how a row came about: by a grant, or by the
rotation of another token (`Birth`). `Descends` follows the notes back to the
grant. The chain of a token is the number of its grant, in other words
(`Inv.descends`), so `chains_are_grants`: tokens have one chain exactly when
they descend from one grant, and a replay ends that grant and no other.
-/
namespace SpikeHub.L5.Grants

open SpikeHub.Core SpikeHub.L1 SpikeHub.L2 SpikeHub.L4.Auth SpikeHub.L4.Routes
open SpikeHub.L5.Calls (settle after)
open SpikeHub.L5.Interleave (Hub)

/-- A grant: the call that made it, whom it is for and what it allows. -/
structure Grant where
  call : Uuid
  userId : Uuid
  scopes : List Scope

/-- How a token came about. -/
inductive Birth
  | granted (g : Grant)
  | rotated (parent : Uuid)

structure Sys where
  hub : Hub
  born : Uuid → Option Birth

inductive Call
  | tick (d : Nat)
  | issuePair (user : User) (scopes : List Scope) (access refresh : String) (keep : Bool)
  | issuePat (user : User) (scopes : List Scope) (name secret : String) (keep : Bool)
  | rotate (presented access refresh : String) (keep : Bool)

/-- What a call draws for a pair, -/
def pairDraws (h : Hub) (access refresh : String) : PairDraws where
  access := ⟨h.fresh, access, h.fresh + 2⟩
  refresh := ⟨h.fresh + 3, refresh, h.fresh + 4⟩
  chain := h.fresh + 1

/-- and for a token by itself. -/
def patDraw (h : Hub) (secret : String) : Draw := ⟨h.fresh, secret, h.fresh + 1⟩

/-- Notes how the rows with these ids came about. -/
def Sys.note (s : Sys) (hub : Hub) (ids : List Uuid) (b : Birth) : Sys :=
  ⟨hub, fun i => if i ∈ ids then some b else s.born i⟩

def step (dep : Deployment) (s : Sys) : Call → Sys
  | .tick d => { s with hub := { s.hub with now := s.hub.now + d } }
  | .issuePair user scopes access refresh keep =>
    s.note (after s.hub (settle keep s.hub (issuePair dep.platform s.hub.now
        (pairDraws s.hub access refresh) user scopes dep.config)) 5)
      [s.hub.fresh, s.hub.fresh + 3] (.granted ⟨s.hub.fresh, user.id, scopes⟩)
  | .issuePat user scopes name secret keep =>
    s.note (after s.hub (settle keep s.hub (issuePat dep.platform s.hub.now
        (patDraw s.hub secret) user scopes name dep.config)) 5)
      [s.hub.fresh] (.granted ⟨s.hub.fresh, user.id, scopes⟩)
  | .rotate presented access refresh keep =>
    let hub := after s.hub (settle keep s.hub (rotate dep.platform s.hub.now
      (pairDraws s.hub access refresh) presented dep.config)) 5
    match exchangeable dep.platform presented s.hub.db with
    | .ok row => s.note hub [s.hub.fresh, s.hub.fresh + 3] (.rotated row.id)
    | .error _ => { s with hub := hub }

/-- No token yet. -/
structure Start (s : Sys) : Prop where
  tokens : s.hub.db.tokens = Table.empty
  born : ∀ i, s.born i = none

def lts (dep : Deployment) : LTS Sys Call where
  init := Start
  step s c s' := s' = step dep s c

/-- The token was produced from the grant by zero or more rotations. -/
inductive Descends (born : Uuid → Option Birth) : Uuid → Grant → Prop
  | granted {i : Uuid} {g : Grant} : born i = some (.granted g) → Descends born i g
  | rotated {i parent : Uuid} {g : Grant} :
      born i = some (.rotated parent) → Descends born parent g → Descends born i g

def SameGrant (born : Uuid → Option Birth) (i j : Uuid) : Prop :=
  ∃ g, Descends born i g ∧ Descends born j g

/-- A chain is what descends from a grant. -/
structure ChainsAreGrants (dep : Deployment) (s : Sys) : Prop where
  chain : ∀ t ∈ s.hub.db.tokens, ∀ t' ∈ s.hub.db.tokens,
    t.chainId = t'.chainId ↔ SameGrant s.born t.id t'.id
  granted : ∀ t ∈ s.hub.db.tokens, ∃ g, Descends s.born t.id g
  carried : ∀ t ∈ s.hub.db.tokens, ∀ g, Descends s.born t.id g →
    t.userId = g.userId ∧ t.scopes = g.scopes
  /-- A replay raises, and in its session revokes what is left of the grant. -/
  replay : ∀ row ∈ s.hub.db.tokens, ∀ presented ds,
    row.tokenHash = dep.platform.hashToken presented → row.kind = .refresh →
    row.revokedAt.isSome = true → ∃ db',
      (rotate dep.platform s.hub.now ds presented dep.config).exec s.hub.db s.hub.volume =
        (.error replayed, db', s.hub.volume) ∧
      ∀ t, t ∈ db'.tokens ↔ ∃ a ∈ s.hub.db.tokens,
        (SameGrant s.born a.id row.id ∧ a.revokedAt = none ∧ t = { a with revokedAt := some s.hub.now }) ∨
          (¬ (SameGrant s.born a.id row.id ∧ a.revokedAt = none) ∧ t = a)

variable {dep : Deployment} {s s' : Sys} {c : Call} {born born' : Uuid → Option Birth} {i j : Uuid}
  {g g' : Grant} {db db' : Db} {fs : Volume} {h : Hub}

/-! ## Descent -/

/-- A token has one grant. -/
theorem descends_unique (h : Descends born i g) : ∀ {g'}, Descends born i g' → g = g' := by
  induction h with
  | granted hb =>
    intro g' h'
    cases h' with
    | granted hb' => rw [hb] at hb'; cases hb'; rfl
    | rotated hb' => rw [hb] at hb'; cases hb'
  | rotated hb _ ih =>
    intro g' h'
    cases h' with
    | granted hb' => rw [hb] at hb'; cases hb'
    | rotated hb' hp => rw [hb] at hb'; cases hb'; exact ih hp

/-- Notes are only added. -/
theorem Descends.mono (hborn : ∀ i b, born i = some b → born' i = some b) (h : Descends born i g) :
    Descends born' i g := by
  induction h with
  | granted hb => exact .granted (hborn _ _ hb)
  | rotated hb _ ih => exact .rotated (hborn _ _ hb) ih

theorem Descends.source (h : Descends born i g) : ∃ j, born j = some (.granted g) := by
  induction h with
  | granted hb => exact ⟨_, hb⟩
  | rotated _ _ ih => exact ih

/-! ## What a call adds -/

/-- The same token, whenever it was used or revoked. -/
structure Same (t t' : Token) : Prop where
  id : t'.id = t.id
  chainId : t'.chainId = t.chainId
  userId : t'.userId = t.userId
  scopes : t'.scopes = t.scopes

theorem Same.refl (t : Token) : Same t t := ⟨rfl, rfl, rfl, rfl⟩

theorem Same.trans {a b c : Token} (h : Same a b) (h' : Same b c) : Same a c :=
  ⟨h'.id.trans h.id, h'.chainId.trans h.chainId, h'.userId.trans h.userId, h'.scopes.trans h.scopes⟩

/-- A row of a call: its id is one the call drew. -/
structure Added (ids : List Uuid) (chain userId : Uuid) (scopes : List Scope) (t : Token) : Prop where
  id : t.id ∈ ids
  chainId : t.chainId = chain
  userId : t.userId = userId
  scopes : t.scopes = scopes

/-- At most rows of the call are added. -/
abbrev Adds (ids : List Uuid) (chain userId : Uuid) (scopes : List Scope) (db db' : Db) : Prop :=
  Table.Evolves Same (Added ids chain userId scopes) db.tokens db'.tokens

section
variable {ids : List Uuid} {chain userId : Uuid} {scopes : List Scope} {p : Platform} {now : Time}
  {config : Settings}

theorem steps_added : Steps Same (Added ids chain userId scopes) now where
  refl := Same.refl
  trans := Same.trans
  lasting hn hs := ⟨hs.id ▸ hn.id, hs.chainId.trans hn.chainId, hs.userId.trans hn.userId,
    hs.scopes.trans hn.scopes⟩
  revoked _ := ⟨rfl, rfl, rfl, rfl⟩

theorem changes_issuePair (ds : PairDraws) {user : User} (chainId : Option Uuid) :
    Work.Changes (Adds [ds.access.id, ds.refresh.id] (chainId.getD ds.chain) user.id scopes)
      (issuePair p now ds user scopes config chainId) := by
  refine issuePair_evolves steps_added ⟨?_, rfl, rfl, rfl⟩ ⟨?_, rfl, rfl, rfl⟩
  · exact List.mem_cons_self
  · exact List.mem_cons_of_mem _ List.mem_cons_self

/-- The rows of a rotation go on with the chain of the row it exchanges. -/
theorem rotate_adds (ds : PairDraws) {presented : String} {row : Token}
    (hrow : exchangeable p presented db = .ok row) :
    Adds [ds.access.id, ds.refresh.id] row.chainId row.userId row.scopes db
      ((rotate p now ds presented config).exec db fs).2.1 := by
  refine rotate_evolves steps_added fun row' hrow' => ?_
  rw [hrow] at hrow'
  cases hrow'
  exact ⟨⟨List.mem_cons_self, rfl, rfl, rfl⟩,
    ⟨List.mem_cons_of_mem _ List.mem_cons_self, rfl, rfl, rfl⟩⟩

theorem rotate_refused {ds : PairDraws} {presented : String} {e : Raised}
    (hrow : exchangeable p presented db = .error e) :
    ((rotate p now ds presented config).exec db fs).2.1 = db := by
  unfold rotate
  rw [Work.exec_bind, Work.exec_check, hrow]

/-- The session of a call keeps its rows, or rolls them back. -/
theorem settle_evolves {R : Token → Token → Prop} {New : Token → Prop} {α : Type} {m : AuthWork α}
    {keep : Bool} (hrefl : ∀ t, R t t)
    (hm : Table.Evolves R New h.db.tokens (m.exec h.db h.volume).2.1.tokens) :
    Table.Evolves R New h.db.tokens (settle keep h m).1.tokens :=
  L5.Calls.settle_changes (R := fun d d' : Db => Table.Evolves R New d.tokens d'.tokens)
    (fun _ => .refl hrefl _) hm

theorem settle_view {α : Type} {m : AuthWork α} {keep : Bool}
    (hm : (m.exec h.db h.volume).2.1 = h.db) : (settle keep h m).1 = h.db :=
  L5.Calls.settle_changes (R := fun d d' => d' = d) (fun _ => rfl) hm

end

/-! ## Every token has its grant -/

structure Inv (s : Sys) : Prop where
  ids : ∀ t ∈ s.hub.db.tokens, t.id < s.hub.fresh
  births : ∀ i b, s.born i = some b → i < s.hub.fresh
  grants : ∀ i g, s.born i = some (.granted g) → g.call < s.hub.fresh
  /-- a call makes one grant -/
  once : ∀ i j g g', s.born i = some (.granted g) → s.born j = some (.granted g') → g.call = g'.call →
    g = g'
  descends : ∀ t ∈ s.hub.db.tokens, ∃ g, Descends s.born t.id g ∧ t.chainId = g.call + 1 ∧
    t.userId = g.userId ∧ t.scopes = g.scopes

/-- The birth of the rows a call adds. -/
inductive Begets (s : Sys) (chain userId : Uuid) (scopes : List Scope) : Birth → Prop
  | granted : chain = s.hub.fresh + 1 → Begets s chain userId scopes (.granted ⟨s.hub.fresh, userId, scopes⟩)
  | rotated {row : Token} : row ∈ s.hub.db.tokens → chain = row.chainId → userId = row.userId →
      scopes = row.scopes → Begets s chain userId scopes (.rotated row.id)

theorem inv_note {ids : List Uuid} {chain userId : Uuid} {scopes : List Scope} {b : Birth} {hub : Hub}
    (hi : Inv s) (hb : Begets s chain userId scopes b) (hfresh : hub.fresh = s.hub.fresh + 5)
    (hids : ∀ i ∈ ids, s.hub.fresh ≤ i ∧ i < hub.fresh)
    (hadds : Adds ids chain userId scopes s.hub.db hub.db) : Inv (s.note hub ids b) := by
  have hlater : ∀ {i : Uuid}, i < s.hub.fresh → i < hub.fresh := fun hlt =>
    hfresh ▸ Nat.lt_add_right 5 hlt
  have hkept : ∀ i b', s.born i = some b' → (s.note hub ids b).born i = some b' := by
    intro i b' hborn
    have hnew : i ∉ ids := fun hmem => Nat.not_lt.mpr (hids i hmem).1 (hi.births i b' hborn)
    exact (if_neg hnew).trans hborn
  have hnoted : ∀ {i : Uuid} {b'}, (s.note hub ids b).born i = some b' →
      s.born i = some b' ∨ i ∈ ids ∧ b' = b := by
    intro i b' hborn
    by_cases hmem : i ∈ ids
    · exact .inr ⟨hmem, (Option.some.inj ((if_pos hmem).symm.trans hborn)).symm⟩
    · exact .inl ((if_neg hmem).symm.trans hborn)
  -- a grant that is noted now is the one of this call
  have hnow : ∀ {g}, b = .granted g → g.call = s.hub.fresh := by
    intro g he
    cases hb with
    | granted => cases he; rfl
    | rotated => cases he
  constructor
  · intro t ht
    rcases hadds.old t ht with ⟨a, ha, hsame⟩ | hnew
    · exact hsame.id ▸ hlater (hi.ids a ha)
    · exact (hids _ hnew.id).2
  · intro i b' hborn
    rcases hnoted hborn with hborn | ⟨hmem, -⟩
    · exact hlater (hi.births i b' hborn)
    · exact (hids i hmem).2
  · intro i g hborn
    rcases hnoted hborn with hborn | ⟨-, he⟩
    · exact hlater (hi.grants i g hborn)
    · rw [hnow he.symm]
      exact hfresh ▸ Nat.lt_add_of_pos_right (by decide)
  · intro i j g g' hborn hborn' hcall
    rcases hnoted hborn with hborn | ⟨-, he⟩
    · rcases hnoted hborn' with hborn' | ⟨-, he'⟩
      · exact hi.once i j g g' hborn hborn' hcall
      · have hlt := hi.grants i g hborn
        rw [hcall, hnow he'.symm] at hlt
        exact absurd hlt (Nat.lt_irrefl _)
    · rcases hnoted hborn' with hborn' | ⟨-, he'⟩
      · have hlt := hi.grants j g' hborn'
        rw [← hcall, hnow he.symm] at hlt
        exact absurd hlt (Nat.lt_irrefl _)
      · exact Birth.granted.inj (he.trans he'.symm)
  · intro t ht
    rcases hadds.old t ht with ⟨a, ha, hsame⟩ | hnew
    · obtain ⟨g, hg, hchain, huser, hscopes⟩ := hi.descends a ha
      exact ⟨g, hsame.id ▸ hg.mono hkept, hsame.chainId.trans hchain, hsame.userId.trans huser,
        hsame.scopes.trans hscopes⟩
    · have hborn : (s.note hub ids b).born t.id = some b := if_pos hnew.id
      cases hb with
      | granted hchain =>
        exact ⟨_, .granted hborn, hnew.chainId.trans hchain, hnew.userId, hnew.scopes⟩
      | rotated hrow hchain huser hscopes =>
        obtain ⟨g, hg, hgchain, hguser, hgscopes⟩ := hi.descends _ hrow
        exact ⟨g, .rotated hborn (hg.mono hkept), hnew.chainId.trans (hchain.trans hgchain),
          hnew.userId.trans (huser.trans hguser), hnew.scopes.trans (hscopes.trans hgscopes)⟩

/-- A call that adds nothing. -/
theorem inv_later {hub : Hub} (hi : Inv s) (hfresh : hub.fresh = s.hub.fresh + 5)
    (htokens : hub.db.tokens = s.hub.db.tokens) : Inv { s with hub := hub } := by
  have hlater : ∀ {i : Uuid}, i < s.hub.fresh → i < hub.fresh := fun hlt =>
    hfresh ▸ Nat.lt_add_right 5 hlt
  refine ⟨fun t ht => ?_, fun i b hb => hlater (hi.births i b hb), fun i g hb => hlater (hi.grants i g hb),
    hi.once, fun t ht => ?_⟩
  · exact hlater (hi.ids t (htokens ▸ ht))
  · exact hi.descends t (htokens ▸ ht)

theorem inv_start (h₀ : Start s) : Inv s := by
  have hnone : ∀ t, t ∉ s.hub.db.tokens := by
    intro t ht
    rw [h₀.tokens] at ht
    exact Table.not_mem_empty t ht
  have hborn : ∀ {i b}, s.born i ≠ some b := by
    intro i b hb
    rw [h₀.born] at hb
    cases hb
  exact ⟨fun t ht => absurd ht (hnone t), fun _ _ hb => absurd hb hborn, fun _ _ hb => absurd hb hborn,
    fun _ _ _ _ hb => absurd hb hborn, fun t ht => absurd ht (hnone t)⟩

theorem inv_step (hi : Inv s) (hs : (lts dep).step s c s') : Inv s' := by
  have hpair : ∀ i ∈ [s.hub.fresh, s.hub.fresh + 3], s.hub.fresh ≤ i ∧ i < s.hub.fresh + 5 := by
    intro i hmem
    rcases List.mem_pair.mp hmem with rfl | rfl
    · exact ⟨Nat.le_refl _, Nat.lt_add_of_pos_right (by decide)⟩
    · exact ⟨Nat.le_add_right _ _, Nat.add_lt_add_left (by decide) _⟩
  cases hs
  cases c with
  | tick => exact ⟨hi.ids, hi.births, hi.grants, hi.once, hi.descends⟩
  | issuePair user scopes access refresh keep =>
    exact inv_note hi (.granted rfl) rfl hpair
      (settle_evolves Same.refl (changes_issuePair (pairDraws s.hub access refresh) none _ _))
  | issuePat user scopes name secret keep =>
    refine inv_note hi (.granted rfl) rfl (fun i hmem => ?_) (settle_evolves Same.refl (mint_evolves steps_added ?_ _ _))
    · exact hpair i (List.mem_cons.mpr (.inl (List.mem_singleton.mp hmem)))
    · exact ⟨List.mem_cons_self, rfl, rfl, rfl⟩
  | rotate presented access refresh keep =>
    unfold step
    dsimp only
    cases hrow : exchangeable dep.platform presented s.hub.db with
    | ok row =>
      have hmem := (exchangeable_ok hrow).1
      exact inv_note hi (.rotated hmem rfl rfl rfl) rfl hpair
        (settle_evolves Same.refl (rotate_adds (pairDraws s.hub access refresh) hrow))
    | error e =>
      refine inv_later hi rfl ?_
      exact congrArg Db.tokens (settle_view (rotate_refused hrow))

theorem inv_inductive (dep : Deployment) : (lts dep).Inductive Inv :=
  ⟨fun _ => inv_start, fun _ _ _ => inv_step⟩

/-! ## Chains -/

theorem sameGrant_iff (hi : Inv s) {t t' : Token} (ht : t ∈ s.hub.db.tokens)
    (ht' : t' ∈ s.hub.db.tokens) : t.chainId = t'.chainId ↔ SameGrant s.born t.id t'.id := by
  obtain ⟨g, hg, hchain, -⟩ := hi.descends t ht
  obtain ⟨g', hg', hchain', -⟩ := hi.descends t' ht'
  constructor
  · intro he
    rw [hchain, hchain'] at he
    obtain ⟨i, hborn⟩ := hg.source
    obtain ⟨j, hborn'⟩ := hg'.source
    rw [← hi.once i j g g' hborn hborn' (Nat.succ.inj he)] at hg'
    exact ⟨g, hg, hg'⟩
  · rintro ⟨o, ho, ho'⟩
    rw [hchain, hchain', descends_unique hg ho, descends_unique hg' ho']

/-- What a replay finds in the chain of its row. -/
theorem inChain_iff (hi : Inv s) {a row : Token} (ha : a ∈ s.hub.db.tokens) (hrow : row ∈ s.hub.db.tokens) :
    inChain row.chainId a = true ↔ SameGrant s.born a.id row.id ∧ a.revokedAt = none := by
  rw [inChain, Bool.and_eq_true, decide_eq_true_eq, Option.isNone_iff_eq_none, sameGrant_iff hi ha hrow]

/-- It revokes that, and nothing else. -/
theorem replay_revokes (hi : Inv s) {t row : Token} (hrow : row ∈ s.hub.db.tokens) :
    t ∈ (revokeTokens s.hub.now (inChain row.chainId) s.hub.db).tokens ↔ ∃ a ∈ s.hub.db.tokens,
      (SameGrant s.born a.id row.id ∧ a.revokedAt = none ∧ t = revoked s.hub.now a) ∨
        (¬ (SameGrant s.born a.id row.id ∧ a.revokedAt = none) ∧ t = a) := by
  rw [mem_revokeTokens]
  refine exists_congr fun a => and_congr_right fun ha => ?_
  rw [ite_eq_iff, inChain_iff hi ha hrow, and_assoc, @eq_comm _ _ t, @eq_comm _ a t]

/-- **A chain is what descends from one grant.** -/
theorem chains_are_grants (dep : Deployment) (s : Sys) (hr : (lts dep).Reachable s) :
    ChainsAreGrants dep s := by
  have hi := (inv_inductive dep).reachable s hr
  constructor
  · exact fun t ht t' ht' => sameGrant_iff hi ht ht'
  · intro t ht
    obtain ⟨g, hg, -⟩ := hi.descends t ht
    exact ⟨g, hg⟩
  · intro t ht g hg
    obtain ⟨o, ho, -, huser, hscopes⟩ := hi.descends t ht
    rw [descends_unique hg ho]
    exact ⟨huser, hscopes⟩
  · intro row hrow presented ds hhash hkind hrevoked
    exact ⟨_, rotate_replayed hrow hhash hkind hrevoked, fun t => replay_revokes hi hrow⟩

/-! ## A pair that was exchanged -/

open SpikeHub.L5.Interleave (alice oneAccount)
open SpikeHub.L5.Requests (trial)

/-- One account, without a token. -/
def begun : Sys := ⟨⟨0, .ofUsers oneAccount, .empty _, 100⟩, fun _ => none⟩

/-- A pair of alice's, its refresh token exchanged, and a personal token. -/
def exchanged : Sys :=
  step trial (step trial (step trial begun (.issuePair alice [.read, .write] "a" "b" false))
    (.rotate "sfh_rt_b" "c" "d" false)) (.issuePat alice [.read] "ci" "e" false)

theorem chains_of_exchanged : ChainsAreGrants trial exchanged ∧
    exchanged.hub.db.tokens.rows.map Token.chainId = [101, 101, 101, 101, 111] := by
  have hrun : (lts trial).Run begun _ exchanged := .cons rfl (.cons rfl (.cons rfl (.nil _)))
  exact ⟨chains_are_grants trial exchanged ⟨begun, _, ⟨rfl, fun _ => rfl⟩, hrun⟩, by decide +kernel⟩

end SpikeHub.L5.Grants
