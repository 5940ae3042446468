import Mathlib.Data.List.Basic
import Mathlib.Logic.Relation
import Mathlib.Tactic.Common

/-!
# Labelled transition systems

A system is a set of initial states and a labelled step relation. `Run`
strings steps together, `Reachable` is the end of a run from an initial
state, and an `Inductive` predicate holds in every reachable state.

`restrict` keeps the steps that meet a condition on the state before the
step and the label. Its reachable states are the ends of the runs *all* of
whose steps meet the condition, which is how a property that holds only
under a discipline (no two transfers overlap, no clock tick in between) is
stated: not of one step, but of whole runs.

`ofFn` is the system of an executable step function; `exec` replays a list
of labels, and `reachable_of_exec` turns a replay the kernel can compute
into a reachable state.
-/
namespace SpikeHub.Core

structure LTS (S L : Type) where
  init : S → Prop
  step : S → L → S → Prop

namespace LTS

variable {S L : Type}

inductive Run (M : LTS S L) : S → List L → S → Prop
  | nil (s : S) : Run M s [] s
  | cons {s s' s'' : S} {l : L} {ls : List L} :
      M.step s l s' → Run M s' ls s'' → Run M s (l :: ls) s''

def Reachable (M : LTS S L) (s : S) : Prop := ∃ s₀ ls, M.init s₀ ∧ M.Run s₀ ls s

/-- Holds initially and is kept by every step. -/
structure Inductive (M : LTS S L) (P : S → Prop) : Prop where
  init : ∀ s, M.init s → P s
  step : ∀ s l s', P s → M.step s l s' → P s'

variable {M : LTS S L} {P Q : S → Prop}

theorem Run.append {s s' s'' : S} {ls ls' : List L} (h : M.Run s ls s') (h' : M.Run s' ls' s'') :
    M.Run s (ls ++ ls') s'' := by
  induction h with
  | nil => exact h'
  | cons hs _ ih => exact .cons hs (ih h')

/-- What one step keeps, a run keeps. -/
theorem Run.keeps (hstep : ∀ s l s', P s → M.step s l s' → P s') {s s' : S} {ls : List L}
    (hr : M.Run s ls s') (h : P s) : P s' := by
  induction hr with
  | nil => exact h
  | cons hs _ ih => exact ih (hstep _ _ _ h hs)

theorem Inductive.reachable (I : M.Inductive P) (s : S) (h : M.Reachable s) : P s := by
  obtain ⟨s₀, ls, h₀, hr⟩ := h
  exact hr.keeps I.step (I.init s₀ h₀)

/-- An invariant may assume one already established. -/
theorem Inductive.and (hQ : M.Inductive Q) (hinit : ∀ s, M.init s → P s)
    (hstep : ∀ s l s', Q s → P s → M.step s l s' → P s') : M.Inductive fun s => Q s ∧ P s where
  init s h := ⟨hQ.init s h, hinit s h⟩
  step s l s' h hs := ⟨hQ.step s l s' h.1 hs, hstep s l s' h.1 h.2 hs⟩

theorem Reachable.run {s s' : S} {ls : List L} (h : M.Reachable s) (hr : M.Run s ls s') :
    M.Reachable s' := by
  obtain ⟨s₀, ls₀, h₀, hr₀⟩ := h
  exact ⟨s₀, ls₀ ++ ls, h₀, hr₀.append hr⟩

theorem Reachable.step {s s' : S} {l : L} (h : M.Reachable s) (hs : M.step s l s') :
    M.Reachable s' :=
  h.run (.cons hs (.nil _))

/-! ## Runs under a discipline -/

/-- The steps of `M` that meet `C` on the state before the step. -/
def restrict (M : LTS S L) (C : S → L → Prop) : LTS S L where
  init := M.init
  step s l s' := C s l ∧ M.step s l s'

theorem Inductive.restrict (I : M.Inductive P) (C : S → L → Prop) : (M.restrict C).Inductive P where
  init := I.init
  step s l s' h hs := I.step s l s' h hs.2

theorem Run.mono {C D : S → L → Prop} (hCD : ∀ s l, C s l → D s l) {s s' : S} {ls : List L}
    (h : (M.restrict C).Run s ls s') : (M.restrict D).Run s ls s' := by
  induction h with
  | nil => exact .nil _
  | cons hs _ ih => exact .cons ⟨hCD _ _ hs.1, hs.2⟩ ih

theorem Reachable.mono {C D : S → L → Prop} (hCD : ∀ s l, C s l → D s l) {s : S}
    (h : (M.restrict C).Reachable s) : (M.restrict D).Reachable s := by
  obtain ⟨s₀, ls, h₀, hr⟩ := h
  exact ⟨s₀, ls, h₀, hr.mono hCD⟩

/-- A run all of whose labels meet a condition. -/
theorem Run.labels {D : L → Prop} {s s' : S} {ls : List L} (h : M.Run s ls s')
    (hD : ∀ l ∈ ls, D l) : (M.restrict fun _ l => D l).Run s ls s' := by
  induction h with
  | nil => exact .nil _
  | cons hs _ ih =>
    exact .cons ⟨hD _ List.mem_cons_self, hs⟩ (ih fun l hl => hD l (List.mem_cons_of_mem _ hl))

theorem Run.of_restrict {C : S → L → Prop} {s s' : S} {ls : List L} (h : (M.restrict C).Run s ls s') :
    M.Run s ls s' := by
  induction h with
  | nil => exact .nil _
  | cons hs _ ih => exact .cons hs.2 ih

theorem Reachable.of_restrict {C : S → L → Prop} {s : S} (h : (M.restrict C).Reachable s) :
    M.Reachable s := by
  obtain ⟨s₀, ls, h₀, hr⟩ := h
  exact ⟨s₀, ls, h₀, hr.of_restrict⟩

/-- One discipline after the other. -/
theorem Reachable.nest {C D : S → L → Prop} {s : S}
    (h : (M.restrict fun s l => C s l ∧ D s l).Reachable s) :
    ((M.restrict C).restrict D).Reachable s := by
  obtain ⟨s₀, ls, h₀, hr⟩ := h
  refine ⟨s₀, ls, h₀, ?_⟩
  clear h₀
  induction hr with
  | nil => exact .nil _
  | cons hs _ ih => exact .cons ⟨hs.1.2, hs.1.1, hs.2⟩ ih

/-! ## Executable systems -/

def ofFn (init : S → Prop) (f : S → L → Option S) : LTS S L where
  init := init
  step s l s' := f s l = some s'

/-- Replay of a list of labels, refusing a step that does not meet `C`. -/
def exec (f : S → L → Option S) (C : S → L → Prop) [∀ s l, Decidable (C s l)] :
    S → List L → Option S
  | s, [] => some s
  | s, l :: ls => if C s l then (f s l).bind fun s' => exec f C s' ls else none

variable {init : S → Prop} {f : S → L → Option S} {C : S → L → Prop} [∀ s l, Decidable (C s l)]

theorem run_of_exec : ∀ {s s' : S} {ls : List L}, exec f C s ls = some s' →
    ((ofFn init f).restrict C).Run s ls s'
  | s, s', [], h => by simp only [exec, Option.some.injEq] at h; subst h; exact .nil _
  | s, s', l :: ls, h => by
    simp only [exec] at h
    split at h
    · rename_i hc
      obtain ⟨s₁, h₁, h₂⟩ := Option.bind_eq_some_iff.mp h
      exact .cons ⟨hc, h₁⟩ (run_of_exec h₂)
    · cases h

/-- A replay from an initial state that ends where `p` holds. -/
theorem reachable_of_exec {s₀ : S} {ls : List L} {p : S → Bool} (h₀ : init s₀)
    (h : (exec f C s₀ ls).any p = true) :
    ∃ s, ((ofFn init f).restrict C).Reachable s ∧ p s = true := by
  obtain ⟨s, hs, hp⟩ := (Option.any_eq_true p _).mp h
  exact ⟨s, ⟨s₀, ls, h₀, run_of_exec hs⟩, hp⟩

/-! ## One component by itself -/

/-- Any number of steps of a partial step function. -/
abbrev Steps (f : S → Option S) : S → S → Prop := Relation.ReflTransGen fun a b => f a = some b

/-- What a component does by itself, at its place in a system that takes its
steps under the label `l`. -/
theorem run_of_steps {A : Type} {M : LTS S L} {f : A → Option A} (place : A → S) {l : L}
    (hplace : ∀ a b, f a = some b → M.step (place a) l (place b)) {a b : A} (h : Steps f a b) :
    ∃ n, M.Run (place a) (List.replicate n l) (place b) := by
  induction h using Relation.ReflTransGen.head_induction_on with
  | refl => exact ⟨0, .nil _⟩
  | head hs _ ih =>
    obtain ⟨n, hr⟩ := ih
    exact ⟨n + 1, .cons (hplace _ _ hs) hr⟩

end LTS
end SpikeHub.Core
