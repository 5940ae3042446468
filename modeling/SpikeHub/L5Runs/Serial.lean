import SpikeHub.L5Runs.Objects
import SpikeHub.L5Runs.Rows

/-!
# Requests one at a time

`serial` starts a request only when every earlier one has been answered or
has failed. At most one request is then in flight (`OneAtATime`), which is
all the discipline on staging files asks for (`exclusive_of_serial`): the
object invariant `Intact` holds of serial runs.
-/
namespace SpikeHub.L5.Interleave

open SpikeHub.Core SpikeHub.L1 SpikeHub.L2 SpikeHub.L4.Uploads

/-- A request starts when none is in flight. -/
def serial (s : Sys) : Lbl → Bool
  | .create .. | .content .. | .commit .. | .sweep => s.jobs.all Job.finished
  | _ => true

/-- Requests in flight are one request. -/
def OneAtATime (s : Sys) : Prop :=
  ∀ (q r : Nat) (j k : Job), s.jobs[q]? = some j → s.jobs[r]? = some k →
    j.finished = false → k.finished = false → q = r

/-- The runs in which requests are executed one at a time. -/
def oneByOne (config : Settings) : LTS Sys Lbl :=
  (lts config).restrict fun s l => serial s l = true

variable {config : Settings} {s s' : Sys} {l : Lbl} {r : Nat} {j j' : Job} {h' : Hub}

theorem finished_failed (j : Job) : j.failed.finished = true := by cases j <;> rfl

theorem OneAtATime.others (h : OneAtATime s) (hj : s.jobs[r]? = some j) (hf : j.finished = false)
    {q : Nat} {k : Job} (hne : q ≠ r) (hk : s.jobs[q]? = some k) : k.finished = true := by
  by_contra hkf
  exact hne (h q r k j hk hj (Bool.eq_false_iff.mpr hkf) hf)

theorem OneAtATime.set (h : OneAtATime s) (hj : s.jobs[r]? = some j) (hf : j.finished = false) :
    OneAtATime ⟨h', s.jobs.set r j'⟩ := by
  intro p q k₁ k₂ hp hq hf₁ hf₂
  rw [jobs_set hj] at hp hq
  split at hp <;> split at hq
  · rename_i hpr hqr; exact hpr.trans hqr.symm
  · rename_i hpr hqr
    have := h.others hj hf hqr hq
    rw [this] at hf₂; cases hf₂
  · rename_i hpr hqr
    have := h.others hj hf hpr hp
    rw [this] at hf₁; cases hf₁
  · exact h p q k₁ k₂ hp hq hf₁ hf₂

/-- What holds of every finished request, and of the one in flight as it is
now, holds of all. -/
theorem OneAtATime.all_set (h : OneAtATime s) (hj : s.jobs[r]? = some j) (hf : j.finished = false)
    {P : Job → Prop} (hfinished : ∀ k, k.finished = true → P k) (hnow : P j') :
    ∀ k ∈ s.jobs.set r j', P k := by
  intro k hk
  obtain ⟨q, hq⟩ := List.getElem?_of_mem hk
  rw [jobs_set hj] at hq
  split at hq
  · rw [← Option.some.inj hq]
    exact hnow
  · rename_i hne
    exact hfinished k (h.others hj hf hne hq)

theorem all_finished (hx : s.jobs.all Job.finished = true) {q : Nat} {k : Job}
    (hk : s.jobs[q]? = some k) : k.finished = true :=
  List.all_eq_true.mp hx k (List.mem_of_getElem? hk)

theorem serial_of_request (hr : request l = some j) (hx : serial s l = true) :
    s.jobs.all Job.finished = true := by
  cases l <;> cases hr <;> exact hx

theorem OneAtATime.spawn (hx : s.jobs.all Job.finished = true) : OneAtATime (spawn s j) := by
  have hold : ∀ {q : Nat} {k : Job}, (Interleave.spawn s j).jobs[q]? = some k →
      k.finished = false → q = s.jobs.length := by
    intro q k hq hf
    unfold Interleave.spawn at hq
    dsimp only at hq
    rw [List.getElem?_append] at hq
    split at hq
    · have := all_finished hx hq
      rw [this] at hf; cases hf
    · rename_i hge
      have hlt := (List.getElem?_eq_some_iff.mp hq).1
      simp only [List.length_singleton] at hlt
      omega
  intro p q k₁ k₂ hp hq hf₁ hf₂
  exact (hold hp hf₁).trans (hold hq hf₂).symm

theorem oneAtATime_step (h : OneAtATime s) (hx : serial s l = true)
    (hs : step config s l = some s') : OneAtATime s' := by
  cases step_trans hs with
  | tick => exact h
  | granted hu hg => exact h
  | refused => exact h
  | spawned hr => exact OneAtATime.spawn (serial_of_request hr hx)
  | stepped hj hf hjs => exact h.set hj hf
  | failed hj hf => exact h.set hj hf

theorem finished_cases (h : j.finished = true) :
    (∃ user upload chunks e, j = .content user upload chunks (.done e)) ∨
      (∃ user upload e, j = .commit user upload (.done e)) ∨ ∃ e, j = .sweep (.done e) := by
  unfold Job.finished at h
  split at h
  · exact .inl ⟨_, _, _, _, rfl⟩
  · exact .inr (.inl ⟨_, _, _, rfl⟩)
  · exact .inr (.inr ⟨_, rfl⟩)
  · cases h

theorem holds_finished (h : j.finished = true) : j.holds = none := by
  obtain ⟨_, _, _, _, rfl⟩ | ⟨_, _, _, rfl⟩ | ⟨_, rfl⟩ := finished_cases h <;> rfl

/-- The only request in flight opens a staging file nobody holds. -/
theorem exclusive_of_serial (h : OneAtATime s) : exclusive s l = true := by
  cases l with
  | step r =>
    simp only [exclusive]
    cases hj : s.jobs[r]? with
    | none => rfl
    | some j =>
      cases ho : j.opens with
      | none => simp [ho]
      | some id =>
        simp only [Option.bind_some, ho, Option.all_some, List.all_eq_true, decide_eq_true_eq]
        intro k hk
        obtain ⟨q, hq⟩ := List.getElem?_of_mem hk
        have hopen : j.finished = false ∧ j.holds = none := by
          unfold Job.opens at ho
          split at ho
          · exact ⟨rfl, rfl⟩
          · cases ho
        by_cases hqr : q = r
        · rw [hqr, hj] at hq
          rw [← Option.some.inj hq, hopen.2]
          simp
        · rw [holds_finished (h.others hj hopen.1 hqr hq)]
          simp
  | _ => rfl

/-- What holds of every serial run: one request in flight, rows known, objects intact. -/
structure SerialInv (s : Sys) : Prop where
  one : OneAtATime s
  rows : Rows s
  intact : Intact s

theorem serialInv_inductive (config : Settings) : (oneByOne config).Inductive SerialInv where
  init := by
    intro s hs
    obtain ⟨users, now, rfl⟩ := hs
    exact ⟨fun q r j k h => by simp [start] at h, rows_start users now, intact_start users now⟩
  step s l s' h hs :=
    ⟨oneAtATime_step h.one hs.1 hs.2, rows_step h.rows hs.2,
      intact_step h.intact (exclusive_of_serial h.one) hs.2⟩

end SpikeHub.L5.Interleave
