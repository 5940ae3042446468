import SpikeHub.L4Auth.Credentials

/-!
# What the calls do to the tokens

`issue_pair` and `rotate` add rows and revoke rows, and nothing else, whether
they return or raise. `Steps` is what a relation between the old and the new
form of a row must allow for that, with what is wanted of the rows that are
added; each call then takes the table from one to the other
(`issuePair_evolves`, `rotate_evolves`).
-/
namespace SpikeHub.L4.Auth

open SpikeHub.Core SpikeHub.L1 SpikeHub.L2

/-- `R` lets a row be revoked, and what is new stays so. -/
structure Steps (R : Token → Token → Prop) (New : Token → Prop) (now : Time) : Prop where
  refl : ∀ t, R t t
  trans : ∀ {a b c}, R a b → R b c → R a c
  lasting : ∀ {a b}, New a → R a b → New b
  revoked : ∀ t, R t (revoked now t)

section
variable {R : Token → Token → Prop} {New : Token → Prop} {p : Platform} {now : Time} {config : Settings}
  {db : Db} {fs : Volume} {user : User} {scopes : List Scope} {presented : String}

theorem Steps.then (hs : Steps R New now) {a b c : Db} (h : Table.Evolves R New a.tokens b.tokens)
    (h' : Table.Evolves R New b.tokens c.tokens) : Table.Evolves R New a.tokens c.tokens :=
  Table.Evolves.trans hs.trans hs.lasting h h'

theorem mint_evolves (hs : Steps R New now) {d : Draw} {spec : Mint} (hrow : New (spec.row p now d config)) :
    Work.Changes (fun db db' : Db => Table.Evolves R New db.tokens db'.tokens) (mint p now d spec config) := by
  unfold mint
  have hsame : ∀ db : Db, Table.Evolves R New db.tokens db.tokens := fun db => .refl hs.refl _
  refine Work.Changes.bind hs.then (Work.changes_statement hsame fun db db' hadd => ?_) fun _ =>
    Work.changes_view hsame fun _ _ => rfl
  obtain ⟨hnew, rfl⟩ := addToken_ok hadd
  exact .insert hs.refl hnew hrow

theorem issuePair_evolves (hs : Steps R New now) {ds : PairDraws} {chainId : Option Uuid}
    (haccess : New (pairRow p now ds.access config user.id .access scopes (chainId.getD ds.chain)))
    (hrefresh : New (pairRow p now ds.refresh config user.id .refresh scopes (chainId.getD ds.chain))) :
    Work.Changes (fun db db' : Db => Table.Evolves R New db.tokens db'.tokens)
      (issuePair p now ds user scopes config chainId) := by
  unfold issuePair
  refine Work.Changes.bind hs.then (mint_evolves hs haccess) fun _ =>
    Work.Changes.bind hs.then (mint_evolves hs hrefresh) fun _ => ?_
  exact Work.changes_view (fun _ => .refl hs.refl _) fun _ _ => rfl

theorem revokeTokens_evolves (hs : Steps R New now) (q : Token → Bool) :
    Table.Evolves R New db.tokens (revokeTokens now q db).tokens :=
  .updateWhere hs.refl (revoked now) (fun _ _ h => h) fun a _ _ => hs.revoked a

/-- The new rows go on with the account, the scopes and the chain of the row
that is exchanged. -/
theorem rotate_evolves (hs : Steps R New now) {ds : PairDraws}
    (hrows : ∀ row, exchangeable p presented db = .ok row →
      New (pairRow p now ds.access config row.userId .access row.scopes row.chainId) ∧
        New (pairRow p now ds.refresh config row.userId .refresh row.scopes row.chainId)) :
    Table.Evolves R New db.tokens ((rotate p now ds presented config).exec db fs).2.1.tokens := by
  have hsame : Table.Evolves R New db.tokens db.tokens := .refl hs.refl _
  unfold rotate
  rw [Work.exec_bind, Work.exec_check]
  cases hrow : exchangeable p presented db with
  | error e => exact hsame
  | ok row =>
    obtain ⟨haccess, hrefresh⟩ := hrows row hrow
    dsimp only
    rw [Work.exec_bind, checkNotReplayed_exec]
    by_cases hrevoked : row.revokedAt.isSome = true
    · rw [if_pos hrevoked]
      exact revokeTokens_evolves hs _
    rw [if_neg hrevoked]
    dsimp only
    rw [Work.exec_bind, Work.exec_orRaise]
    cases checkLive now row with
    | error e => exact hsame
    | ok _ =>
      dsimp only
      rw [Work.exec_bind, Work.exec_check]
      cases howner : activeOwner db row with
      | error e => exact hsame
      | ok user =>
        dsimp only
        rw [Work.write_bind]
        rw [← (activeOwner_ok.mp howner).2.1] at haccess hrefresh
        refine hs.then (revokeTokens_evolves hs _) (issuePair_evolves hs ?_ ?_ _ _)
        · exact haccess
        · exact hrefresh

end
end SpikeHub.L4.Auth
