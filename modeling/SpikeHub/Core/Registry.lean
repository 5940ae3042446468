import SpikeHub.Core.LTS

/-!
# A registry of releases

What a registry is for, over any names: under a name there are releases, each
of a version of its own, and a name is on show or it is not. `Step` is all
that can happen to it: a version that is not there is released, or a name is
put on show or taken off it. No step takes a release back or gives its version
away again, so a registry is what its log tells (`run_resolves`): a version
resolves to what was released under it, as long as the last word on its name
was not to take it off.
-/
namespace SpikeHub.Core

structure Registry (M V A : Type) where
  releases : M → V → Option A
  listed : M → Prop

namespace Registry

inductive Lbl (M V A : Type)
  | release (m : M) (v : V) (a : A)
  | list (m : M) (on : Bool)

variable {M V A : Type}

/-- What a caller finds under a name and a version. -/
def Resolves (r : Registry M V A) (m : M) (v : V) (a : A) : Prop := r.listed m ∧ r.releases m v = some a

/-- Nothing is released, and every name will be on show. -/
def empty (M V A : Type) : Registry M V A where
  releases _ _ := none
  listed _ := True

variable [DecidableEq M]

/-- The word of a step on the name. -/
def Lbl.word (m : M) : Lbl M V A → Option Bool
  | .list m' on => if m' = m then some on else none
  | .release .. => none

/-- The last word on the name. -/
def lastWord (m : M) (ls : List (Lbl M V A)) : Option Bool := (ls.filterMap (Lbl.word m)).getLast?

theorem lastWord_cons {m : M} {l : Lbl M V A} {ls : List (Lbl M V A)} :
    lastWord m (l :: ls) = (lastWord m ls).or (l.word m) := by
  unfold lastWord
  rw [List.filterMap_cons]
  cases l.word m with
  | none => simp
  | some on => simp [List.getLast?_cons, Option.or_some]

variable [DecidableEq V]

def release (r : Registry M V A) (m : M) (v : V) (a : A) : Registry M V A :=
  { r with releases := fun m' v' => if m' = m ∧ v' = v then some a else r.releases m' v' }

def list (r : Registry M V A) (m : M) (on : Bool) : Registry M V A :=
  { r with listed := fun m' => if m' = m then on = true else r.listed m' }

inductive Step : Registry M V A → Lbl M V A → Registry M V A → Prop
  | release {r : Registry M V A} {m : M} {v : V} {a : A} :
      r.releases m v = none → Step r (.release m v a) (r.release m v a)
  | list {r : Registry M V A} {m : M} {on : Bool} : Step r (.list m on) (r.list m on)

def lts (M V A : Type) [DecidableEq M] [DecidableEq V] : LTS (Registry M V A) (Lbl M V A) where
  init r := r = empty M V A
  step := Step

variable {r r' : Registry M V A} {l : Lbl M V A} {ls : List (Lbl M V A)} {m : M} {v : V} {a : A}

theorem Step.releases (h : Step r l r') :
    r'.releases m v = some a ↔ r.releases m v = some a ∨ l = .release m v a := by
  cases h with
  | list => simp [Registry.list]
  | release hnone =>
    rename_i m₀ v₀ a₀
    simp only [Registry.release, Lbl.release.injEq]
    by_cases hname : m = m₀ ∧ v = v₀
    · obtain ⟨rfl, rfl⟩ := hname
      simp [hnone]
    · rw [if_neg hname]
      constructor
      · exact .inl
      · intro h
        rcases h with h | h
        · exact h
        · exact absurd ⟨h.1.symm, h.2.1.symm⟩ hname

theorem run_releases (h : (lts M V A).Run r ls r') :
    r'.releases m v = some a ↔ r.releases m v = some a ∨ .release m v a ∈ ls := by
  induction h with
  | nil => simp
  | cons hs _ ih =>
    have hstep : Step _ _ _ := hs
    rw [ih, hstep.releases, List.mem_cons, or_assoc]
    exact or_congr_right (or_congr_left eq_comm)

theorem Step.listed (h : Step r l r') : r'.listed m ↔ (l.word m).elim (r.listed m) (· = true) := by
  cases h with
  | release => rfl
  | list =>
    rename_i m₀ on
    simp only [Registry.list, Lbl.word]
    by_cases hname : m = m₀
    · rw [if_pos hname, if_pos hname.symm]
      rfl
    · rw [if_neg hname, if_neg fun h => hname h.symm]
      rfl

theorem run_listed (h : (lts M V A).Run r ls r') :
    r'.listed m ↔ (lastWord m ls).elim (r.listed m) (· = true) := by
  induction h with
  | nil => rfl
  | @cons r₀ r₁ r₂ l ls hs _ ih =>
    have hstep : Step r₀ l r₁ := hs
    rw [ih, lastWord_cons]
    cases lastWord m ls with
    | some on => rfl
    | none => exact hstep.listed

/-- **A registry is what its log tells.** -/
theorem run_resolves (h : (lts M V A).Run (empty M V A) ls r) :
    r.Resolves m v a ↔ .release m v a ∈ ls ∧ lastWord m ls ≠ some false := by
  unfold Resolves
  rw [run_listed h, run_releases h, and_comm]
  refine and_congr ?_ ?_
  · simp [empty]
  · cases lastWord m ls with
    | none => simp [empty]
    | some on => cases on <;> simp

end Registry
end SpikeHub.Core
