import SpikeHub.L4Uploads.Frame
import SpikeHub.L5Runs.Calls
import SpikeHub.L5Runs.Catalogue

/-!
# An abandoned first upload keeps its model

Behaviour (hub_api/uploads/intent.py:112-145): the first `reserve` under a slug
adds the model's row, and the reservation's row to it. What gives a reservation
up deletes the second only: `_abandon` when its bytes are refused
(uploads/receive.py:125-132), `sweep` once it expired (uploads/janitor.py:18-36).
No code deletes a model, and `check_model_count` counts them all.

What the code says: the janitor reclaims "what abandoned uploads left behind",
and "the rows that would otherwise accumulate" (janitor.py:1-8), a reservation is
short-lived "so an abandoned one cannot hold an allowance" (receive.py:50-51),
and `_model_for` creates the model "on first publish" (intent.py:119).

Counterexample: an account that may have one model reserves `mnist` 1.0, lets it
expire and has it swept. It has no version, its model count is 1, and it may
not reserve anything under another name.

When it does hold: never (`slot_never_freed`).
-/
namespace SpikeHub.Bugs.ModelSlots

open SpikeHub.Core SpikeHub.L1 SpikeHub.L2 SpikeHub.L3 SpikeHub.L4.Uploads
open SpikeHub.L5.Calls
open SpikeHub.L5.Catalogue (abcIntent)
open SpikeHub.L5.Interleave (Hub alice)

/-- A reserve that is granted to `u`, under a slug the account has no model of. -/
structure FirstUpload (host : Host) (h : Hub) (u : User) (intent : UploadIntent) : Prop where
  account : h.db.user? u.id = some u
  granted : ((asked host h u intent).exec h.db h.volume).1.isOk = true
  unnamed : namedModel h.db u.id intent.request.slug = none

/-- The calls after it, at the end of which the reservation `fresh + 1` is gone,
and none of which reserved anything else under the slug. -/
structure GivenUp (host : Host) (h : Hub) (u : User) (intent : UploadIntent) (keep : Bool) (h' : Hub) :
    Prop where
  run : ∃ reserved cs, step host h (.reserve u.id intent keep) = some reserved ∧
    (lts host).Run reserved cs h' ∧
    ∀ later keep', later.request.slug = intent.request.slug → Call.reserve u.id later keep' ∉ cs
  gone : ∀ v ∈ h'.db.versions, v.id ≠ h.fresh + 1

/-- The account has as many models as before it. -/
def SlotFreed (h h' : Hub) (u : User) : Prop := modelCount h'.db u.id = modelCount h.db u.id

variable {host : Host} {h h' h'' : Hub} {u : User} {intent : UploadIntent} {keep : Bool} {c : Call}
  {cs : List Call} {n : Nat}

/-! ## A model stays -/

theorem stay_step (hs : step host h c = some h') : ModelsStay h.db h'.db := by
  cases c with
  | tick =>
    cases hs
    exact .refl _
  | reserve user intent keep =>
    obtain ⟨u, -, rfl⟩ := Option.map_eq_some_iff.mp hs
    exact settle_changes ModelsStay.refl (reserve_stay _ _)
  | receive user upload body keep =>
    cases hs
    exact settle_changes ModelsStay.refl (receive_stay _ _)
  | publish user upload keep =>
    simp only [step] at hs
    split at hs
    · cases hs
      exact settle_changes ModelsStay.refl (publish_stay _ _)
    · cases hs
      exact .refl _
  | sweep =>
    cases hs
    exact settle_changes ModelsStay.refl (sweep_stay _ _)

theorem stay_run (hr : (lts host).Run h cs h') : ModelsStay h.db h'.db :=
  hr.keeps (P := fun s => ModelsStay h.db s.db) (fun _ _ _ hp hs => hp.trans (stay_step hs)) (.refl _)

/-- The reserve adds one. -/
theorem count_reserved (hf : FirstUpload host h u intent)
    (hs : step host h (.reserve u.id intent keep) = some h') :
    modelCount h'.db u.id = modelCount h.db u.id + 1 := by
  obtain ⟨u', hu, rfl⟩ := Option.map_eq_some_iff.mp hs
  rw [hf.account, Option.some.injEq] at hu
  subst hu
  have hgranted := hf.granted
  rcases hx : (asked host h u intent).exec h.db h.volume with ⟨res, db, fs⟩
  rw [hx] at hgranted
  cases res with
  | error e => cases hgranted
  | ok slot =>
    obtain ⟨-, -, hg⟩ := reserve_ok hx
    obtain ⟨m, db₁, hmodel, -, -, hv, hv', rfl⟩ := hg.rows
    rw [after_db, settle_ok hx]
    cases hmodel with
    | found hfound =>
      rw [hf.unnamed] at hfound
      cases hfound
    | created =>
      rename_i hnew _ _ _
      show (h.db.models.insert _ hnew).count _ = _
      rw [Table.count_insert]
      simp [newModel, modelCount]

/-- Whatever the calls after it are. -/
theorem kept_slot (hf : FirstUpload host h u intent)
    (hs : step host h (.reserve u.id intent keep) = some h') (hr : (lts host).Run h' cs h'') :
    modelCount h.db u.id + 1 ≤ modelCount h''.db u.id := by
  rw [← count_reserved hf hs]
  exact (stay_run hr).count u.id

/-- **An abandoned first upload never frees its slot.** -/
theorem slot_never_freed (hf : FirstUpload host h u intent) (hgiven : GivenUp host h u intent keep h') :
    ¬ SlotFreed h h' u := by
  obtain ⟨reserved, cs, hs, hr, -⟩ := hgiven.run
  intro hfreed
  have hkept := kept_slot hf hs hr
  rw [hfreed] at hkept
  exact Nat.not_succ_le_self _ hkept

/-- First uploads, each given up before the next. -/
inductive GivesUp (host : Host) (u : User) : Hub → Nat → Hub → Prop
  | nil (h : Hub) : GivesUp host u h 0 h
  | cons {h h' h'' : Hub} {n : Nat} {intent : UploadIntent} {keep : Bool} :
      FirstUpload host h u intent → GivenUp host h u intent keep h' → GivesUp host u h' n h'' →
      GivesUp host u h (n + 1) h''

theorem count_given (hg : GivesUp host u h n h') : modelCount h.db u.id + n ≤ modelCount h'.db u.id := by
  induction hg with
  | nil => exact Nat.le_refl _
  | cons hf hgiven _ ih =>
    obtain ⟨reserved, cs, hs, hr, -⟩ := hgiven.run
    have hkept := kept_slot hf hs hr
    omega

/-- As many of them as an account may have models use them up. -/
theorem used_up (hg : GivesUp host u h n h') (hn : host.config.maxModelsPerUser ≤ n) :
    checkModelCount h'.db u.id host.config ≠ .ok () := by
  have hcount := count_given hg
  unfold checkModelCount
  rw [Ne, checkCount_ok]
  omega

/-! ## An account that may have one model -/

def one : Host := ⟨{ maxModelsPerUser := 1 }, 1024 * GIB⟩

/-- Alice has reserved `mnist` 1.0 for the bytes `abc`, and is given the upload 1. -/
def reserved : Hub := after start (settle false start (asked one start alice abcIntent)) 2

/-- The bytes `abd` are refused, in a session that goes on. -/
def abd : Body := ⟨[[97, 98], [100]], false⟩

def refused : Hub := after reserved (settle true reserved (receive reserved.now reserved.fresh 1 alice.id abd)) 1

/-- Or nothing is sent for a day, and the janitor runs. -/
def waited : Nat := 24 * 60 * 60 * 1000000

def lapsed : Hub := { reserved with now := reserved.now + waited }

def swept : Hub := after lapsed (settle false lapsed (sweep lapsed.now)) 0

theorem first_upload : FirstUpload one start alice abcIntent where
  account := by decide +kernel
  granted := by decide +kernel
  unnamed := by decide +kernel

theorem step_reserved : step one start (.reserve alice.id abcIntent false) = some reserved := by
  unfold step
  dsimp only
  rw [first_upload.account]
  rfl

/-- No other reserve, and the row is gone. -/
theorem given_up (hr : (lts one).Run reserved cs h')
    (hcs : ∀ user intent keep, Call.reserve user intent keep ∉ cs)
    (hgone : (h'.db.versions.rows.all fun v => v.id ≠ start.fresh + 1) = true) :
    GivenUp one start alice abcIntent false h' where
  run := ⟨reserved, cs, step_reserved, hr, fun later keep' _ => hcs alice.id later keep'⟩
  gone v hv := of_decide_eq_true (List.all_eq_true.mp hgone v hv)

theorem given_swept : GivenUp one start alice abcIntent false swept := by
  have htick : step one reserved (.tick waited) = some lapsed := rfl
  have hsweep : step one lapsed .sweep = some swept := rfl
  have hr : (lts one).Run reserved [.tick waited, .sweep] swept := .cons htick (.cons hsweep (.nil _))
  exact given_up hr (by simp) (by decide +kernel)

theorem given_refused : GivenUp one start alice abcIntent false refused := by
  have hr : (lts one).Run reserved [.receive alice.id 1 abd true] refused := .cons rfl (.nil _)
  exact given_up hr (by simp) (by decide +kernel)

theorem not_freed_swept : ¬ SlotFreed start swept alice :=
  slot_never_freed first_upload given_swept

/-- Neither way gives the slot back, and the account has none left. -/
theorem not_slotFreed :
    ¬ (∀ (host : Host) (h h' : Hub) (u : User) (intent : UploadIntent) (keep : Bool),
      FirstUpload host h u intent → GivenUp host h u intent keep h' → SlotFreed h h' u) ∧
    (modelCount start.db alice.id = 0 ∧ modelCount swept.db alice.id = 1 ∧
      modelCount refused.db alice.id = 1) ∧
    checkModelCount swept.db alice.id one.config ≠ .ok () := by
  refine ⟨fun h => ?_, by decide +kernel, by decide +kernel⟩
  have hfreed : SlotFreed start swept alice := h one _ _ _ _ false first_upload given_swept
  have hcount : modelCount swept.db alice.id ≠ modelCount start.db alice.id := by decide +kernel
  exact hcount hfreed

end SpikeHub.Bugs.ModelSlots
