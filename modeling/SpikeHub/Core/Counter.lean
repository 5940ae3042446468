import Mathlib.Data.Set.Insert
import SpikeHub.Core.LTS

/-!
# Counters that are read and written back

Clients count in a cell by reading it and writing back one more, with anything
in between. `Counter` says where a system keeps the cell, how often it was
written and what its clients have read; `Counts` that its steps do nothing else
with the cell.

A write of what is still there counts one up. The first that is not leaves the
cell behind the number of writes, and so are from then on all values anybody
has read or can write (`Behind`). So nothing was lost in a run exactly when
every write found what its client had read (`exact_iff`).
-/
namespace SpikeHub.Core

structure Counter (S : Type) where
  value : S → Nat
  writes : S → Nat
  reads : S → Set Nat

namespace Counter

variable {S L : Type}

/-- The cell is left alone, and perhaps read. -/
structure Looks (C : Counter S) (s s' : S) : Prop where
  value : C.value s' = C.value s
  writes : C.writes s' = C.writes s
  reads : C.reads s' ⊆ insert (C.value s) (C.reads s)

/-- A client that read `r` writes it back, one more. -/
structure Writes (C : Counter S) (r : Nat) (s s' : S) : Prop where
  read : r ∈ C.reads s
  value : C.value s' = r + 1
  writes : C.writes s' = C.writes s + 1
  reads : C.reads s' ⊆ C.reads s

/-- A step looks, or writes; a write is current where the cell is as it was read. -/
def Counts (C : Counter S) (M : LTS S L) (Current : S → L → Prop) : Prop :=
  ∀ s l s', M.step s l s' →
    (C.Looks s s' ∧ Current s l) ∨ ∃ r, C.Writes r s s' ∧ (Current s l ↔ r = C.value s)

/-- Every write since `o` is in the cell. -/
structure Exact (C : Counter S) (o s : S) : Prop where
  value : C.value s + C.writes o = C.value o + C.writes s
  reads : ∀ r ∈ C.reads s, r ≤ C.value s

/-- The cell has fewer, and so has everything that was read. -/
structure Behind (C : Counter S) (o s : S) : Prop where
  value : C.value s + C.writes o < C.value o + C.writes s
  reads : ∀ r ∈ C.reads s, r + C.writes o < C.value o + C.writes s

variable {C : Counter S} {M : LTS S L} {Current : S → L → Prop} {o s s' : S} {l : L} {ls : List L}
  {r : Nat}

theorem Exact.looks (h : C.Exact o s) (hl : C.Looks s s') : C.Exact o s' where
  value := by rw [hl.value, hl.writes, h.value]
  reads r hr := by
    rw [hl.value]
    rcases hl.reads hr with rfl | hr
    · exact Nat.le_refl _
    · exact h.reads r hr

theorem Behind.looks (h : C.Behind o s) (hl : C.Looks s s') : C.Behind o s' where
  value := by
    rw [hl.value, hl.writes]
    exact h.value
  reads r hr := by
    rw [hl.writes]
    rcases hl.reads hr with rfl | hr
    · exact h.value
    · exact h.reads r hr

theorem Exact.writes_current (h : C.Exact o s) (hw : C.Writes r s s') (hr : r = C.value s) :
    C.Exact o s' where
  value := by
    have hvalue := h.value
    rw [hw.value, hw.writes, hr]
    omega
  reads n hn := by
    have hle := h.reads n (hw.reads hn)
    rw [hw.value, hr]
    omega

/-- What is not the value any more is less. -/
theorem Exact.writes_stale (h : C.Exact o s) (hw : C.Writes r s s') (hr : r ≠ C.value s) :
    C.Behind o s' where
  value := by
    have hvalue := h.value
    have hle := h.reads r hw.read
    rw [hw.value, hw.writes]
    omega
  reads n hn := by
    have hvalue := h.value
    have hle := h.reads n (hw.reads hn)
    rw [hw.writes]
    omega

theorem Behind.writes (h : C.Behind o s) (hw : C.Writes r s s') : C.Behind o s' where
  value := by
    have hlt := h.reads r hw.read
    rw [hw.value, hw.writes]
    omega
  reads n hn := by
    have hlt := h.reads n (hw.reads hn)
    rw [hw.writes]
    omega

theorem Counts.exact_step (hC : C.Counts M Current) (h : C.Exact o s) (hc : Current s l)
    (hs : M.step s l s') : C.Exact o s' := by
  rcases hC s l s' hs with ⟨hl, -⟩ | ⟨r, hw, hcurrent⟩
  · exact h.looks hl
  · exact h.writes_current hw (hcurrent.mp hc)

theorem Counts.stale_step (hC : C.Counts M Current) (h : C.Exact o s) (hc : ¬ Current s l)
    (hs : M.step s l s') : C.Behind o s' := by
  rcases hC s l s' hs with ⟨-, hcurrent⟩ | ⟨r, hw, hcurrent⟩
  · exact absurd hcurrent hc
  · exact h.writes_stale hw fun hr => hc (hcurrent.mpr hr)

theorem Counts.behind_step (hC : C.Counts M Current) (h : C.Behind o s) (hs : M.step s l s') :
    C.Behind o s' := by
  rcases hC s l s' hs with ⟨hl, -⟩ | ⟨r, hw, -⟩
  · exact h.looks hl
  · exact h.writes hw

/-- A run that ends with every write in the cell has lost none on the way. -/
theorem Counts.current_of_exact (hC : C.Counts M Current) (hr : M.Run s ls s') (h : C.Exact o s)
    (hend : C.value s' + C.writes o = C.value o + C.writes s') : (M.restrict Current).Run s ls s' := by
  induction hr with
  | nil => exact .nil _
  | cons hs hr ih =>
    rename_i s s₁ s' l ls
    by_cases hc : Current s l
    · exact .cons ⟨hc, hs⟩ (ih (hC.exact_step h hc hs) hend)
    · have hbehind := hr.keeps (P := C.Behind o) (fun _ _ _ hb hs => hC.behind_step hb hs)
        (hC.stale_step h hc hs)
      exact absurd hend (Nat.ne_of_lt hbehind.value)

theorem Counts.exact_iff (hC : C.Counts M Current) (hr : M.Run s ls s') (hnone : C.reads s = ∅) :
    C.value s' + C.writes s = C.value s + C.writes s' ↔ (M.restrict Current).Run s ls s' := by
  have hstart : C.Exact s s := by
    refine ⟨rfl, fun r hr => ?_⟩
    rw [hnone] at hr
    exact absurd hr (Set.notMem_empty r)
  constructor
  · exact hC.current_of_exact hr hstart
  · intro hcurrent
    have hend := LTS.Run.keeps (M := M.restrict Current) (P := C.Exact s)
      (fun _ _ _ h hs => hC.exact_step h hs.1 hs.2) hcurrent hstart
    exact hend.value

end Counter
end SpikeHub.Core
