import SpikeHub.Core.Counter
import SpikeHub.L5Runs.Catalogue

/-!
# A download is not counted

Behaviour (hub_api/routes/models.py:99-126): `download` reads the version's row,
adds one to the `download_count` it read, and the route's commit sets the column
to the sum. Sessions run at READ COMMITTED and the row is not locked
(db/engine.py:16-39).

What the code says: `found.download_count += 1`. A request that is redirected
counts one up from what the column holds, as every request alone does.

Counterexample: two requests for one version have both read 0 when the first
commits. The column is 1 after both.

When it does hold: exactly when every request of the version commits while the
column is as it read it (`counted_iff`).
-/
namespace SpikeHub.Bugs.LostDownloads

open SpikeHub.Core SpikeHub.L1 SpikeHub.L2 SpikeHub.L4.Uploads SpikeHub.L4.Catalog SpikeHub.L4.Routes
open SpikeHub.L5.Interleave (Hub)

/-- `pending` is what the requests in flight have read, `done` the versions of
those that were redirected. -/
structure Sys where
  db : Db
  pending : List PublishedRow
  done : List Uuid

inductive Lbl
  /-- a request, as far as its query -/
  | read (handle slug version : String)
  /-- the rest of the `i`-th request in flight -/
  | commit (i : Nat)

theorem counted_keys (row : PublishedRow) : KeepsKeys (countedFrom row.version.downloadCount) :=
  countedFrom_keys _

/-- What a request commits that read `row`. -/
def counting (row : PublishedRow) (db : Db) : Except Raised Db :=
  updateVersion row.version.id (countedFrom row.version.downloadCount) (counted_keys row) db

def step (s : Sys) : Lbl → Option Sys
  | .read handle slug version =>
    match oneVersion s.db handle slug version with
    | some row => some { s with pending := s.pending ++ [row] }
    | none => some s
  | .commit i =>
    match s.pending[i]? with
    | none => none
    | some row =>
      match counting row s.db with
      | .ok db => some ⟨db, s.pending.eraseIdx i, s.done ++ [row.version.id]⟩
      | .error _ => some { s with pending := s.pending.eraseIdx i }

/-- Whatever is published, and no request yet. -/
structure Start (s : Sys) : Prop where
  pending : s.pending = []
  done : s.done = []

def lts : LTS Sys Lbl := LTS.ofFn Start step

/-- The count of a version that has a row. -/
def countOf (id : Uuid) (db : Db) : Nat :=
  ((db.versions.find? fun v => v.id = id).map ModelVersion.downloadCount).getD 0

/-- Every redirected request of the version is counted. -/
def Counted (v : ModelVersion) (s : Sys) : Prop :=
  ∃ w ∈ s.db.versions, w.id = v.id ∧ w.downloadCount = v.downloadCount + s.done.count v.id

/-- A request of the version commits while the count is as it read it. -/
def Current (id : Uuid) (s : Sys) : Lbl → Prop
  | .read _ _ _ => True
  | .commit i => ∀ row db, s.pending[i]? = some row → row.version.id = id → counting row s.db = .ok db →
      countOf id s.db = row.version.downloadCount

/-- The count of a version, as a cell. -/
def cell (id : Uuid) : Counter Sys where
  value s := countOf id s.db
  writes s := s.done.count id
  reads s := {n | ∃ row ∈ s.pending, row.version.id = id ∧ row.version.downloadCount = n}

variable {s s' : Sys} {l : Lbl} {ls : List Lbl} {db db' : Db} {row : PublishedRow} {v : ModelVersion}
  {id : Uuid}

/-! ## One request -/

theorem countOf_mem (hv : v ∈ db.versions) : countOf v.id db = v.downloadCount := by
  unfold countOf
  rw [Table.find?_eq hv (by simp) fun w _ hw => .inl (by simpa using hw)]
  rfl

theorem countOf_none (hnone : ∀ v ∈ db.versions, v.id ≠ id) : countOf id db = 0 := by
  unfold countOf
  have hfind : db.versions.find? (fun v => v.id = id) = none :=
    List.find?_eq_none.mpr fun v hv => by simpa using hnone v hv
  rw [hfind]
  rfl

theorem mem_counting (h : counting row db = .ok db') {w : ModelVersion} : w ∈ db'.versions ↔
    ∃ v ∈ db.versions, (if v.id = row.version.id then countedFrom row.version.downloadCount v else v) = w := by
  obtain ⟨-, rfl⟩ := updateVersion_ok h
  exact mem_setVersion

/-- The update sets the count of its version and no other. -/
theorem countOf_counting (h : counting row db = .ok db') :
    countOf id db' = if row.version.id = id then row.version.downloadCount + 1 else countOf id db := by
  by_cases hid : row.version.id = id
  · obtain ⟨⟨v, hv, hvid⟩, -⟩ := updateVersion_ok h
    have hcounted := (mem_counting h).mpr ⟨v, hv, if_pos hvid⟩
    rw [if_pos hid, ← hid, ← hvid]
    exact countOf_mem hcounted
  rw [if_neg hid]
  by_cases hex : ∃ w ∈ db.versions, w.id = id
  · obtain ⟨w, hw, rfl⟩ := hex
    have hkept := (mem_counting h).mpr ⟨w, hw, if_neg fun he => hid he.symm⟩
    rw [countOf_mem hw, countOf_mem hkept]
  · have hnone : ∀ w ∈ db.versions, w.id ≠ id := fun w hw he => hex ⟨w, hw, he⟩
    rw [countOf_none hnone, countOf_none fun w hw => ?_]
    obtain ⟨v, hv, rfl⟩ := (mem_counting h).mp hw
    split
    · exact hnone v hv
    · exact hnone v hv

/-- With nothing in between, a request is the whole route. -/
theorem serve_counting {dep : Deployment} {h : Hub} {req : Presented} {handle slug version : String}
    {secret : Nat → String} (hrow : oneVersion h.db handle slug version = some row) :
    counting row h.db =
      .ok (L5.Requests.serve dep ⟨req, .download handle slug version, secret⟩ h).2.db := by
  obtain ⟨-, hv, -⟩ := mem_joined.mp (mem_visibleRows.mp (oneVersion_eq_some.mp hrow).1).1
  have hset : counting row h.db = .ok _ := if_pos ⟨row.version, hv, rfl⟩
  rw [hset]
  show _ = Except.ok (dbSession (download dep handle slug version) h.db h.volume).2.1
  unfold counting at hset
  unfold download
  rw [dbSession_commit, Work.exec_bind, Work.exec_check, hrow]
  dsimp only [orNotFound]
  rw [Work.exec_bind, Work.exec_statement, hset]
  rfl

/-! ## Any number of requests -/

inductive Trans (s : Sys) : Lbl → Sys → Prop
  | read {handle slug version : String} {row : PublishedRow} :
      row.version ∈ s.db.versions →
      Trans s (.read handle slug version) { s with pending := s.pending ++ [row] }
  | missing {handle slug version : String} : Trans s (.read handle slug version) s
  | counted {i : Nat} {row : PublishedRow} {db : Db} :
      s.pending[i]? = some row → counting row s.db = .ok db →
      Trans s (.commit i) ⟨db, s.pending.eraseIdx i, s.done ++ [row.version.id]⟩
  | stale {i : Nat} {row : PublishedRow} :
      s.pending[i]? = some row → (∀ v ∈ s.db.versions, v.id ≠ row.version.id) →
      Trans s (.commit i) { s with pending := s.pending.eraseIdx i }

theorem step_trans (hs : step s l = some s') : Trans s l s' := by
  cases l with
  | read handle slug version =>
    simp only [step] at hs
    split at hs
    · rename_i row hrow
      cases hs
      exact .read (mem_joined.mp (mem_visibleRows.mp (oneVersion_eq_some.mp hrow).1).1).2.1
    · cases hs
      exact .missing
  | commit i =>
    simp only [step] at hs
    split at hs
    · cases hs
    · rename_i row hrow
      split at hs
      · rename_i db hdb
        cases hs
        exact .counted hrow hdb
      · rename_i e hstale
        cases hs
        refine .stale hrow fun v hv he => ?_
        unfold counting updateVersion at hstale
        rw [if_pos ⟨v, hv, he⟩] at hstale
        cases hstale

/-- A version keeps its row. -/
theorem version_step (hv : ∃ w ∈ s.db.versions, w.id = id) (hs : lts.step s l s') :
    ∃ w ∈ s'.db.versions, w.id = id := by
  cases step_trans hs with
  | read => exact hv
  | missing => exact hv
  | stale => exact hv
  | counted _ hdb =>
    obtain ⟨w, hw, hid⟩ := hv
    refine ⟨_, (mem_counting hdb).mpr ⟨w, hw, rfl⟩, ?_⟩
    split
    · exact hid
    · exact hid

theorem cell_counts (id : Uuid) : (cell id).Counts lts (Current id) := by
  intro s l s' hs
  cases step_trans hs with
  | read hv =>
    rename_i handle slug version row
    refine .inl ⟨⟨rfl, rfl, ?_⟩, trivial⟩
    rintro n ⟨r, hr, hid, hn⟩
    rcases List.mem_append.mp hr with hr | hr
    · exact .inr ⟨r, hr, hid, hn⟩
    · rw [List.mem_singleton] at hr
      subst hr hid
      exact .inl (hn.symm.trans (countOf_mem hv).symm)
  | missing => exact .inl ⟨⟨rfl, rfl, Set.subset_insert _ _⟩, trivial⟩
  | stale hrow hgone =>
    rename_i i row
    refine .inl ⟨⟨rfl, rfl, ?_⟩, fun r db hr _ hset => ?_⟩
    · rintro n ⟨r, hr, hid, hn⟩
      exact .inr ⟨r, List.mem_of_mem_eraseIdx hr, hid, hn⟩
    · rw [hrow, Option.some.injEq] at hr
      subst hr
      obtain ⟨⟨v, hv, hvid⟩, -⟩ := updateVersion_ok hset
      exact absurd hvid (hgone v hv)
  | counted hrow hdb =>
    rename_i i row db
    have hreads : ∀ {n}, n ∈ (cell id).reads ⟨db, s.pending.eraseIdx i, s.done ++ [row.version.id]⟩ →
        n ∈ (cell id).reads s := by
      rintro n ⟨r, hr, hid, hn⟩
      exact ⟨r, List.mem_of_mem_eraseIdx hr, hid, hn⟩
    by_cases hid : row.version.id = id
    · refine .inr ⟨row.version.downloadCount, ⟨?_, ?_, ?_, fun _ => hreads⟩, ?_⟩
      · exact ⟨row, List.mem_of_getElem? hrow, hid, rfl⟩
      · exact (countOf_counting hdb).trans (if_pos hid)
      · show (s.done ++ [row.version.id]).count id = s.done.count id + 1
        rw [hid, List.count_append, List.count_singleton_self]
      · constructor
        · exact fun hc => (hc row db hrow hid hdb).symm
        · intro hcurrent r _ hr _ _
          rw [hrow, Option.some.injEq] at hr
          subst hr
          exact hcurrent.symm
    · refine .inl ⟨⟨?_, ?_, fun _ hn => .inr (hreads hn)⟩, fun r _ hr hrid _ => ?_⟩
      · exact (countOf_counting hdb).trans (if_neg hid)
      · show (s.done ++ [row.version.id]).count id = s.done.count id
        rw [List.count_append, List.count_singleton, beq_false_of_ne hid, if_neg Bool.false_ne_true, Nat.add_zero]
      · rw [hrow, Option.some.injEq] at hr
        subst hr
        exact absurd hrid hid

/-- **No download is lost, exactly when each commits on what it read.** -/
theorem counted_iff (s s' : Sys) (ls : List Lbl) (h₀ : Start s) (hr : lts.Run s ls s') (v : ModelVersion)
    (hv : v ∈ s.db.versions) : Counted v s' ↔ (lts.restrict (Current v.id)).Run s ls s' := by
  have hnone : (cell v.id).reads s = ∅ := by
    refine Set.eq_empty_of_forall_notMem ?_
    rintro n ⟨row, hrow, -⟩
    rw [h₀.pending] at hrow
    cases hrow
  obtain ⟨w, hw, hid⟩ := hr.keeps (P := fun s => ∃ w ∈ s.db.versions, w.id = v.id)
    (fun _ _ _ => version_step) ⟨v, hv, rfl⟩
  rw [← (cell_counts v.id).exact_iff hr hnone]
  have hend := countOf_mem hw
  rw [hid] at hend
  show _ ↔ countOf v.id s'.db + s.done.count v.id = countOf v.id s.db + s'.done.count v.id
  rw [h₀.done, countOf_mem hv, hend, List.count_nil, Nat.add_zero]
  constructor
  · rintro ⟨x, hx, hxid, hcount⟩
    rw [← version_eq hx hw (hxid.trans hid.symm)]
    exact hcount
  · exact fun hcount => ⟨w, hw, hid, hcount⟩

/-! ## Two requests for one version -/

open SpikeHub.L5.Catalogue (uploaded)

/-- A version was published, and nobody has downloaded it. -/
def begun : Sys := ⟨uploaded.db, [], []⟩

def reading : Lbl := .read "alice" "mnist" "1.0"

def inTurn : List Lbl := [reading, .commit 0, reading, .commit 0]

def overlapping : List Lbl := [reading, reading, .commit 0, .commit 0]

/-- A replay from there on that ends where `p` holds. -/
theorem run_of_replay (ls : List Lbl) {p : Sys → Bool}
    (hx : (LTS.exec step (fun _ _ => True) begun ls).any p = true) :
    ∃ s, lts.Run begun ls s ∧ p s = true := by
  obtain ⟨s, hs, hp⟩ := (Option.any_eq_true p _).mp hx
  exact ⟨s, (LTS.run_of_exec hs).of_restrict, hp⟩

/-- The version's row, and its count after two requests. -/
theorem published_once : ∃ v ∈ begun.db.versions, v.id = 101 ∧ v.downloadCount = 0 := by decide +kernel

def counts (n : Nat) (s : Sys) : Bool :=
  s.pending.isEmpty && s.done.count 101 = 2 && decide (∀ w ∈ s.db.versions, w.downloadCount = n)

theorem counted_in_turn : ∃ v ∈ begun.db.versions, ∃ s,
    (lts.restrict (Current v.id)).Run begun inTurn s := by
  obtain ⟨v, hv, hid, hzero⟩ := published_once
  obtain ⟨s, hr, hp⟩ := run_of_replay inTurn (p := counts 2) (by decide +kernel)
  refine ⟨v, hv, s, (counted_iff begun s inTurn ⟨rfl, rfl⟩ hr v hv).mp ?_⟩
  unfold counts at hp
  simp only [Bool.and_eq_true, decide_eq_true_eq] at hp
  obtain ⟨w, hw, hwid⟩ := hr.keeps (P := fun s => ∃ w ∈ s.db.versions, w.id = v.id)
    (fun _ _ _ => version_step) ⟨v, hv, rfl⟩
  exact ⟨w, hw, hwid, by rw [hp.2 w hw, hzero, hid, hp.1.2]⟩

/-- Both were redirected, and one is counted. -/
theorem not_counted : ¬ ∀ (s s' : Sys) (ls : List Lbl), Start s → lts.Run s ls s' → s'.pending = [] →
    ∀ v ∈ s.db.versions, Counted v s' := by
  intro hall
  obtain ⟨v, hv, hid, hzero⟩ := published_once
  obtain ⟨s, hr, hp⟩ := run_of_replay overlapping (p := counts 1) (by decide +kernel)
  unfold counts at hp
  simp only [Bool.and_eq_true, decide_eq_true_eq, List.isEmpty_iff] at hp
  obtain ⟨w, hw, -, hcount⟩ := hall begun s overlapping ⟨rfl, rfl⟩ hr hp.1.1 v hv
  rw [hp.2 w hw, hzero, hid, hp.1.2] at hcount
  cases hcount

end SpikeHub.Bugs.LostDownloads
