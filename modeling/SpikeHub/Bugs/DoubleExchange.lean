import SpikeHub.L5Runs.Exchanges

/-!
# One refresh token, two successors

Behaviour (hub_api/auth/credentials.py:152-189, hub_api/routes/auth.py:95-110):
`rotate` refuses a row whose `revoked_at` is set, and otherwise sets it. The
read takes no lock and the update, by primary key, does not ask for the value
that was read: two requests that present one refresh token at a time both find
it unrevoked, and both commit a new pair.

What the code says: "Refresh tokens rotate. Presenting one that has already
been exchanged invalidates its whole chain" (credentials.py:9-12); `rotate` is
to "exchange a refresh token for a new pair, invalidating the old one".

Counterexample: a grant, and its refresh token presented twice; both requests
read, then both write. The chain has two live refresh tokens, each of which can
be exchanged in its turn without ever being a replay.

When it does hold: in every run in which each exchange is written while the
row it read is still unrevoked in the committed state (`stillLive`).
-/
namespace SpikeHub.Bugs.DoubleExchange

open SpikeHub.Core SpikeHub.L1 SpikeHub.L2 SpikeHub.L4.Auth SpikeHub.L4.Routes SpikeHub.L5.Exchanges
open SpikeHub.L5.Requests (trial)
open SpikeHub.L5.Interleave (Hub alice oneAccount)

/-- A refresh token that can still be exchanged. -/
def Unspent (t : Token) : Prop := t.kind = .refresh ∧ t.revokedAt = none

/-- A chain has at most one unspent refresh token. -/
def OneLive (db : Db) : Prop :=
  ∀ a ∈ db.tokens, ∀ b ∈ db.tokens, Unspent a → Unspent b → a.chainId = b.chainId → a = b

/-- At most one unspent refresh token in a chain, and one pair for each that
was exchanged. -/
def Single (s : Sys) : Prop := OneLive s.hub.db ∧ s.exchanged.Nodup

/-- The row a request is about to revoke has not been revoked since it was read. -/
def stillLive (s : Sys) : Lbl → Bool
  | .write i _ => s.pending[i]?.all fun found =>
    s.hub.db.tokens.rows.all fun t => decide (t.id = found.1.id → t.revokedAt = none)
  | _ => true

structure Inv (s : Sys) : Prop where
  one : OneLive s.hub.db
  chains : ∀ t ∈ s.hub.db.tokens, t.chainId < s.hub.fresh
  pending : ∀ found ∈ s.pending, ∃ t ∈ s.hub.db.tokens,
    t.id = found.1.id ∧ t.kind = .refresh ∧ t.chainId = found.1.chainId
  spent : ∀ id ∈ s.exchanged, ∃ t ∈ s.hub.db.tokens, t.id = id ∧ t.revokedAt ≠ none
  nodup : s.exchanged.Nodup

variable {dep : Deployment} {s s' : Sys} {l : Lbl} {db db' : Db} {t : Token} {user : User} {chain : Uuid}

theorem token_eq {a b : Token} (ha : a ∈ db.tokens) (hb : b ∈ db.tokens) (hid : a.id = b.id) : a = b :=
  db.tokens.eq_of_clash ha hb (.inl hid)

/-! ## A pair added -/

/-- A pair in a chain that has no unspent token left. -/
theorem oneLive_added {now : Time} {ds : PairDraws} {scopes : List Scope} {config : Settings}
    (h : OneLive db) (hadd : AddedPair dep.platform now ds user scopes config chain db db')
    (hnone : ∀ t ∈ db.tokens, Unspent t → t.chainId ≠ chain) : OneLive db' := by
  have hsplit : ∀ t ∈ db'.tokens, Unspent t → t ∈ db.tokens ∨
      t = pairRow dep.platform now ds.refresh config user.id .refresh scopes chain := by
    intro t ht hlive
    rcases hadd.mem.mp ht with ht | rfl | rfl
    · exact .inl ht
    · exact nomatch hlive.1
    · exact .inr rfl
  intro a ha b hb hla hlb hchain
  rcases hsplit a ha hla with hao | hae <;> rcases hsplit b hb hlb with hbo | hbe
  · exact h a hao b hbo hla hlb hchain
  · rw [hbe] at hchain
    exact absurd hchain (hnone a hao hla)
  · rw [hae] at hchain
    exact absurd hchain.symm (hnone b hbo hlb)
  · exact hae.trans hbe.symm

theorem chains_added {now : Time} {ds : PairDraws} {scopes : List Scope} {config : Settings} {n m : Uuid}
    (h : ∀ t ∈ db.tokens, t.chainId < n) (hchain : chain < m) (hle : n ≤ m)
    (hadd : AddedPair dep.platform now ds user scopes config chain db db') :
    ∀ t ∈ db'.tokens, t.chainId < m := by
  intro t ht
  rcases hadd.mem.mp ht with ht | rfl | rfl
  · exact Nat.lt_of_lt_of_le (h t ht) hle
  · exact hchain
  · exact hchain

/-! ## A row revoked -/

section
variable {now : Time} {row : Token}

/-- The unspent tokens left are those that were, and not `row`. -/
theorem unspent_revoked (ht : t ∈ (revokeTokens now (fun t => t.id = row.id) db).tokens)
    (hlive : Unspent t) : t ∈ db.tokens ∧ t.id ≠ row.id := by
  obtain ⟨a, ha, rfl⟩ := mem_revokeTokens.mp ht
  by_cases hid : a.id = row.id
  · simp [hid, Unspent, revoked] at hlive
  · simpa [hid] using ha

theorem mem_revoked (now : Time) (row : Token) (ht : t ∈ db.tokens) :
    ∃ t' ∈ (revokeTokens now (fun t => t.id = row.id) db).tokens,
    t'.id = t.id ∧ t'.kind = t.kind ∧ t'.chainId = t.chainId ∧
      (t.id = row.id ∨ t.revokedAt ≠ none → t'.revokedAt ≠ none) := by
  refine ⟨_, mem_revokeTokens.mpr ⟨t, ht, rfl⟩, ?_⟩
  by_cases hid : t.id = row.id
  · simp [hid, revoked]
  · simp [hid]

end

/-! ## Step by step -/

theorem Inv.written (h : Inv s) {i : Nat} {row : Token} {secret : Nat → String}
    {volume : SpikeHub.L2.Volume}
    (hp : s.pending[i]? = some (row, user)) (hlive : stillLive s (.write i secret) = true)
    (hadd : AddedPair dep.platform s.hub.now (pairDraws ⟨s.hub.fresh, secret⟩) user row.scopes dep.config
      row.chainId (revokeTokens s.hub.now (fun t => t.id = row.id) s.hub.db) db) :
    Inv ⟨⟨s.hub.now, db, volume, s.hub.fresh + Rand.width⟩, s.pending.eraseIdx i,
      s.exchanged ++ [row.id]⟩ := by
  obtain ⟨t, ht, hid, hkind, hchain⟩ := h.pending _ (List.mem_of_getElem? hp)
  -- the row the request read is the unspent token of its chain
  have hunspent : Unspent t := by
    refine ⟨hkind, ?_⟩
    simp only [stillLive, hp, Option.all_some, List.all_eq_true, decide_eq_true_eq] at hlive
    exact hlive t ht hid
  have hkeep : ∀ a ∈ s.hub.db.tokens, ∃ a' ∈ db.tokens, a'.id = a.id ∧ a'.kind = a.kind ∧
      a'.chainId = a.chainId ∧ (a.id = row.id ∨ a.revokedAt ≠ none → a'.revokedAt ≠ none) := by
    intro a ha
    obtain ⟨a', ha', hsame⟩ := mem_revoked s.hub.now row ha
    exact ⟨a', hadd.mem.mpr (.inl ha'), hsame⟩
  refine ⟨oneLive_added ?_ hadd ?_, ?_, ?_, ?_, ?_⟩
  · intro a ha b hb hla hlb hab
    exact h.one a (unspent_revoked ha hla).1 b (unspent_revoked hb hlb).1 hla hlb hab
  · intro a ha hla hac
    obtain ⟨hao, hne⟩ := unspent_revoked ha hla
    have hat := h.one a hao t ht hla hunspent (hac.trans hchain.symm)
    exact hne (hat ▸ hid)
  · have hold : ∀ a ∈ (revokeTokens s.hub.now (fun t => t.id = row.id) s.hub.db).tokens,
        a.chainId < s.hub.fresh := by
      intro a ha
      obtain ⟨b, hb, rfl⟩ := mem_revokeTokens.mp ha
      split
      · exact h.chains b hb
      · exact h.chains b hb
    exact chains_added hold (Nat.lt_add_right _ (hchain ▸ h.chains t ht)) (Nat.le_add_right _ _) hadd
  · intro found hf
    obtain ⟨a, ha, haid, hak, hac⟩ := h.pending found (List.mem_of_mem_eraseIdx hf)
    obtain ⟨a', ha', hid', hk', hc', -⟩ := hkeep a ha
    exact ⟨a', ha', hid'.trans haid, hk'.trans hak, hc'.trans hac⟩
  · intro id hmem
    rcases List.mem_append.mp hmem with hmem | hmem
    · obtain ⟨a, ha, haid, har⟩ := h.spent id hmem
      obtain ⟨a', ha', hid', -, -, hr'⟩ := hkeep a ha
      exact ⟨a', ha', hid'.trans haid, hr' (.inr har)⟩
    · obtain ⟨a', ha', hid', -, -, hr'⟩ := hkeep t ht
      rw [List.mem_singleton.mp hmem]
      exact ⟨a', ha', hid'.trans hid, hr' (.inl hid)⟩
  · refine List.nodup_append.mpr ⟨h.nodup, List.nodup_singleton _, fun id hmem id' hmem' he => ?_⟩
    rw [he, List.mem_singleton.mp hmem'] at hmem
    obtain ⟨a, ha, haid, har⟩ := h.spent _ hmem
    rw [token_eq ha ht (haid.trans hid.symm)] at har
    exact har hunspent.2

theorem inv_step (h : Inv s) (hlive : stillLive s l = true) (hs : step dep s l = some s') : Inv s' := by
  cases step_trans hs with
  | tick => exact ⟨h.one, h.chains, h.pending, h.spent, h.nodup⟩
  | granted hadd =>
    refine ⟨oneLive_added h.one hadd fun t ht _ he => ?_, ?_, ?_, ?_, h.nodup⟩
    · have hlt := h.chains t ht
      rw [he] at hlt
      exact absurd hlt (Nat.not_lt.mpr (Nat.le_add_right _ _))
    · exact chains_added h.chains (Nat.add_lt_add_left (by decide) _) (Nat.le_add_right _ _) hadd
    · intro found hf
      obtain ⟨t, ht, hsame⟩ := h.pending found hf
      exact ⟨t, hadd.mem.mpr (.inl ht), hsame⟩
    · intro id hid
      obtain ⟨t, ht, hsame⟩ := h.spent id hid
      exact ⟨t, hadd.mem.mpr (.inl ht), hsame⟩
  | read hacc hk =>
    refine ⟨h.one, h.chains, fun found hf => ?_, h.spent, h.nodup⟩
    rcases List.mem_append.mp hf with hf | hf
    · exact h.pending found hf
    · rw [List.mem_singleton.mp hf]
      exact ⟨_, hacc.mem, rfl, hk, rfl⟩
  | refused hsub =>
    exact ⟨h.one, fun t ht => Nat.lt_add_right _ (h.chains t ht),
      fun found hf => h.pending found (hsub found hf),
      h.spent, h.nodup⟩
  | written hp hadd => exact h.written hp hlive hadd

theorem inv_start (h : Start s) : Inv s where
  one a ha := by rw [h.tokens] at ha; exact absurd ha (Table.not_mem_empty a)
  chains t ht := by rw [h.tokens] at ht; exact absurd ht (Table.not_mem_empty t)
  pending found hf := by rw [h.pending] at hf; cases hf
  spent id hid := by rw [h.exchanged] at hid; cases hid
  nodup := h.exchanged ▸ List.nodup_nil

theorem inv_inductive (dep : Deployment) :
    ((lts dep).restrict fun s l => stillLive s l = true).Inductive Inv where
  init _ h := inv_start h
  step _ _ _ h hs := inv_step h hs.1 hs.2

theorem single_of_stillLive (dep : Deployment) (s : Sys)
    (h : ((lts dep).restrict fun s l => stillLive s l = true).Reachable s) : Single s :=
  have hinv := (inv_inductive dep).reachable s h
  ⟨hinv.one, hinv.nodup⟩

/-! ## Traces -/

def begin : Sys := ⟨⟨0, .ofUsers oneAccount, .empty _, 0⟩, [], []⟩

theorem start_begin : Start begin := ⟨rfl, rfl, rfl⟩

/-- A replay of `ls`, every step of which meets `C`, that ends where `p` holds. -/
theorem reachable_of_trace (C : Sys → Lbl → Prop) [∀ s l, Decidable (C s l)] (ls : List Lbl)
    (p : Sys → Bool) (hx : (LTS.exec (step trial) C begin ls).any p = true) :
    ∃ s, ((lts trial).restrict C).Reachable s ∧ p s = true :=
  LTS.reachable_of_exec start_begin hx

/-- A grant of alice's, with the refresh token `sfh_rt_1`. -/
def granted : Lbl := .grant alice.id [.read] fun _ => "1"

/-- The token exchanged, then presented again. -/
theorem single_after_replay : ∃ s : Sys, s.exchanged.length = 1 ∧ Single s := by
  obtain ⟨s, hs, hp⟩ := reachable_of_trace (fun s l => stillLive s l = true)
    [granted, .read "sfh_rt_1", .write 0 fun _ => "2", .read "sfh_rt_1"]
    (fun s => s.exchanged.length = 1) (by decide +kernel)
  exact ⟨s, by simpa using hp, single_of_stillLive trial s hs⟩

theorem not_single : ¬ ∀ s, (lts trial).Reachable s → Single s := by
  intro h
  obtain ⟨s, hs, hp⟩ := reachable_of_trace (fun _ _ => True)
    [granted, .read "sfh_rt_1", .read "sfh_rt_1", .write 0 fun _ => "2", .write 0 fun _ => "3"]
    (fun s => s.exchanged = [2, 2] ∧ ∃ a ∈ s.hub.db.tokens, ∃ b ∈ s.hub.db.tokens,
      a.kind = .refresh ∧ b.kind = .refresh ∧ a.revokedAt = none ∧ b.revokedAt = none ∧
        a.chainId = b.chainId ∧ a.id ≠ b.id) (by decide +kernel)
  simp only [decide_eq_true_eq] at hp
  obtain ⟨-, a, ha, b, hb, hka, hkb, hra, hrb, hchain, hne⟩ := hp
  exact hne (congrArg Token.id ((h s hs.of_restrict).1 a ha b hb ⟨hka, hra⟩ ⟨hkb, hrb⟩ hchain))

end SpikeHub.Bugs.DoubleExchange
