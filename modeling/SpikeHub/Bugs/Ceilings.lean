import SpikeHub.L5Runs.Intents
import SpikeHub.L5Runs.Interleave

/-!
# Intents that overlap pass each other's checks

Behaviour (hub_api/uploads/intent.py:74-145, hub_api/quota/limits.py:30-63):
an intent sums the ledger and the reservations, counts the models and the
versions, and then inserts. Nothing holds what it counted until it commits:
there is no lock, and no constraint declares a ceiling. Two intents of one
account that count before either commits are both granted.

What the code says: the ceilings are "checked before an upload is accepted"
(limits.py:1), reserved bytes are bytes "promised" (usage.py:21), and
`available_bytes` is "what may still be reserved" (usage.py:27).

Counterexample: an account with an allowance of 10 bytes and room for one
model; two intents of 6 bytes for two new models, both at their inserts before
the first commits. 12 bytes are reserved, under two models.

When it does hold: in every run in which no count has grown between the read
an intent compared and the commit of its rows (`notGrown`), whatever else
overlaps.
-/
namespace SpikeHub.Bugs.Ceilings

open SpikeHub.Core SpikeHub.L1 SpikeHub.L2 SpikeHub.L3 SpikeHub.L4.Uploads SpikeHub.L5.Intents

/-- What the job counted has not grown since. -/
def current (now : Time) (db : Db) (j : Job) : Bool :=
  match j.pc with
  | .committing c m =>
    storedBytes db j.user.id + pendingBytes db now j.user.id ≤
        c.usage.usedBytes + c.usage.reservedBytes ∧
      (c.models.all fun n => modelCount db j.user.id ≤ n) ∧ versionCount db m.id ≤ c.versions
  | _ => true

def notGrown (s : Sys) : Lbl → Bool
  | .step r => s.jobs[r]?.all (current s.now s.db)
  | _ => true

structure Inv (config : Settings) (s : Sys) : Prop where
  ceilings : Ceilings config s.now s.db
  sizes : ∀ v ∈ s.db.versions, 0 < v.sizeBytes
  jobs : ∀ j ∈ s.jobs, j.Ok config s.db

variable {config : Settings} {s s' : Sys} {l : Lbl} {db db' : Db} {j : Job} {now : Time}

/-! ## The inserts of one request -/

section
variable {c : Counted} {m : HubModel} {new : Bool} {v : ModelVersion}

theorem bytes_inserted (ha : AddedReservation j.user.id v db db')
    (h : ∀ u ∈ db.users, storedBytes db u.id + pendingBytes db now u.id ≤ u.storageLimit)
    (hj : j.user ∈ db.users)
    (hfit : storedBytes db j.user.id + pendingBytes db now j.user.id + v.sizeBytes ≤
      j.user.storageLimit) :
    ∀ u ∈ db'.users, storedBytes db' u.id + pendingBytes db' now u.id ≤ u.storageLimit := by
  intro u hu
  rw [ha.users] at hu
  have hold := h u hu
  rw [ha.storedBytes, pendingBytes_eq, ha.ownedSum, ← pendingBytes_eq]
  by_cases hid : u.id = j.user.id
  · have huj : u = j.user := db.users.eq_of_clash hu hj (.inl hid)
    rw [huj] at hold ⊢
    split <;> omega
  · rw [if_neg fun h => hid h.1]
    omega

theorem models_inserted (hi : Inserted m new v db db')
    (h : ∀ u ∈ db.users, (modelCount db u.id : Int) ≤ config.maxModelsPerUser)
    (hroom : new = true → (modelCount db m.ownerId : Int) < config.maxModelsPerUser) :
    ∀ u ∈ db'.users, (modelCount db' u.id : Int) ≤ config.maxModelsPerUser := by
  intro u hu
  rw [hi.users] at hu
  have hold := h u hu
  rw [hi.modelCount]
  split
  · rename_i hn
    have := hroom hn.1
    rw [hn.2] at this
    omega
  · exact hold

theorem versions_inserted (hi : Inserted m new v db db')
    (h : ∀ a ∈ db.models, (versionCount db a.id : Int) ≤ config.maxVersionsPerModel)
    (hroom : (versionCount db m.id : Int) < config.maxVersionsPerModel) :
    ∀ a ∈ db'.models, (versionCount db' a.id : Int) ≤ config.maxVersionsPerModel := by
  intro a ha
  rw [hi.versionCount]
  by_cases hid : m.id = a.id
  · rw [if_pos hid, ← hid]
    omega
  · rw [if_neg hid]
    rcases hi.mem_models.mp ha with ha | ⟨-, ha⟩
    · have := h a ha
      omega
    · exact absurd (congrArg HubModel.id ha).symm hid

theorem ceilings_inserted (h : Ceilings config now db) (hok : j.Ok config db)
    (hpc : j.pc = .committing c m) (hcur : current now db j = true)
    (hi : Inserted m c.models.isSome v db db') (hsize : v.sizeBytes = j.intent.request.sizeBytes) :
    Ceilings config now db' := by
  have hchecked := hok.checked
  unfold current at hcur
  rw [hpc] at hchecked hcur
  obtain ⟨⟨hlimit, hfit, hmodels⟩, ⟨howner, hmodel⟩, hversions⟩ := hchecked
  simp only [decide_eq_true_eq] at hcur
  obtain ⟨hbytes, hcount, hver⟩ := hcur
  have hpos := j.intent.positive
  have hadded : AddedReservation j.user.id v db db' := howner ▸ hi.added hmodel
  rw [canFit_iff hpos] at hfit
  refine ⟨bytes_inserted hadded h.bytes hok.user ?_,
    models_inserted hi h.models fun hnew => ?_, versions_inserted hi h.versions ?_⟩
  · rw [hsize]
    omega
  · obtain ⟨n, hn⟩ := Option.isSome_iff_exists.mp hnew
    have hlt := hmodels n hn
    simp only [hn, Option.all_some, decide_eq_true_eq] at hcount
    rw [howner]
    omega
  · omega

end

/-! ## The invariant -/

theorem inv_step (h : Inv config s) (hc : notGrown s l = true) (hs : step config s l = some s') :
    Inv config s' := by
  cases step_trans hs with
  | tick =>
    rename_i d
    refine ⟨⟨fun u hu => ?_, h.ceilings.models, h.ceilings.versions⟩, h.sizes, h.jobs⟩
    have hold := h.ceilings.bytes u hu
    have hle : pendingBytes s.db (s.now + d) u.id ≤ pendingBytes s.db s.now u.id :=
      pendingBytes_tick d u.id h.sizes
    dsimp only
    omega
  | created hu =>
    refine ⟨h.ceilings, h.sizes, fun j hj => ?_⟩
    rcases List.mem_append.mp hj with hj | hj
    · exact h.jobs j hj
    · rw [List.mem_singleton.mp hj]
      exact ⟨hu, trivial⟩
  | advanced hj ha =>
    have hok := h.jobs _ (List.mem_of_getElem? hj)
    refine ⟨h.ceilings, h.sizes, fun k hk => ?_⟩
    rcases List.mem_or_eq_of_mem_set hk with hk | he
    · exact h.jobs k hk
    · rw [he]
      exact ⟨hok.user, hok.checked.advance ha⟩
  | inserted hj hpc hins =>
    have hok := h.jobs _ (List.mem_of_getElem? hj)
    have hi := insertRows_ok hins
    simp only [notGrown, hj, Option.all_some] at hc
    refine ⟨ceilings_inserted h.ceilings hok hpc hc hi rfl, fun v hv => ?_, fun k hk => ?_⟩
    · obtain ⟨_, he⟩ := hi.versions
      rw [he] at hv
      rcases Table.mem_insert.mp hv with hv | hv
      · exact h.sizes v hv
      · rw [hv]
        exact UploadIntent.positive _
    · have hgrow : ∀ a ∈ s.db.models, a ∈ _ := fun a ha => hi.mem_models.mpr (.inl ha)
      rcases List.mem_or_eq_of_mem_set hk with hk | he
      · have hold := h.jobs k hk
        exact ⟨hi.users ▸ hold.user, hold.checked.mono hgrow⟩
      · rw [he]
        exact ⟨hi.users ▸ hok.user, trivial⟩

theorem inv_inductive (config : Settings) :
    ((lts config).restrict fun s l => notGrown s l = true).Inductive (Inv config) where
  init _ h := ⟨h.ceilings, h.sizes, fun j hj => by rw [h.jobs] at hj; cases hj⟩
  step _ _ _ h hs := inv_step h hs.1 hs.2

theorem ceilings_of_notGrown (config : Settings) (s : Sys)
    (h : ((lts config).restrict fun s l => notGrown s l = true).Reachable s) :
    Ceilings config s.now s.db :=
  ((inv_inductive config).reachable s h).ceilings

/-! ## Traces -/

open SpikeHub.L5.Interleave (alice intentFor length_pos)

/-- An allowance of 10 bytes, and room for one model of one version. -/
def limited : User := { alice with storageLimit := 10 }

def strict : Settings := { maxModelsPerUser := 1, maxVersionsPerModel := 1 }

def begin : Sys := ⟨0, .ofUsers ⟨[limited], List.pairwise_singleton _ _⟩, []⟩

def intending (slug : String) (bs : Bytes) (hbs : 0 < bs.length) (ids : NewIds) : Lbl :=
  .create limited.id ⟨{ intentFor bs "1.0" with slug := slug }, length_pos bs hbs⟩ (1024 * GIB)
    ids

def six (b : UInt8) : Bytes := List.replicate 6 b

def two : List Lbl :=
  [intending "mnist" (six 97) (by decide) ⟨0, 1⟩, intending "shd" (six 98) (by decide) ⟨2, 3⟩]

/-- Request `r` up to its inserts. -/
def upToInserts (r : Nat) : List Lbl := List.replicate 10 (.step r)

theorem reachable_of_trace (C : Sys → Lbl → Prop) [∀ s l, Decidable (C s l)] (ls : List Lbl)
    (p : Sys → Bool) (hx : (LTS.exec (step strict) C begin ls).any p = true) :
    ∃ s, ((lts strict).restrict C).Reachable s ∧ p s = true := by
  have hstart : Start strict begin := {
    ceilings := {
      bytes := by decide
      models := by decide
      versions := fun m hm => absurd hm (Table.not_mem_empty m) }
    sizes := fun v hv => absurd hv (Table.not_mem_empty v)
    jobs := rfl }
  exact LTS.reachable_of_exec hstart hx

/-- The second intent counts after the first has committed, and is refused. -/
theorem ceilings_in_turn : ∃ s : Sys, pendingBytes s.db s.now limited.id = 6 ∧
    Ceilings strict s.now s.db := by
  obtain ⟨s, hr, hp⟩ := reachable_of_trace (fun s l => notGrown s l = true)
    (two ++ upToInserts 0 ++ [.step 1, .step 0, .step 1, .step 1, .step 1])
    (fun s => pendingBytes s.db s.now limited.id = 6) (by decide +kernel)
  exact ⟨s, by simpa using hp, ceilings_of_notGrown strict s hr⟩

/-- Both counted before either committed. -/
theorem not_ceilings : ¬ ∀ s, (lts strict).Reachable s → Ceilings strict s.now s.db := by
  intro h
  obtain ⟨s, hr, hp⟩ := reachable_of_trace (fun _ _ => True)
    (two ++ upToInserts 0 ++ upToInserts 1 ++ [.step 0, .step 1])
    (fun s => limited ∈ s.db.users.rows ∧
      limited.storageLimit < storedBytes s.db limited.id + pendingBytes s.db s.now limited.id)
    (by decide +kernel)
  simp only [decide_eq_true_eq] at hp
  have hbytes := (h s hr.of_restrict).bytes limited hp.1
  exact absurd hp.2 (Int.not_lt.mpr hbytes)

end SpikeHub.Bugs.Ceilings
