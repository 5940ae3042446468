import Mathlib.Data.List.Nodup
import Mathlib.Tactic.Common

/-!
# Gates in a row

A decision made by gates passed one after the other, each of which refuses
under a name of its own: `verdict` is the name of the first that refuses, or
`passed`. Two passages through gates of the same names end the same way
exactly when they differ at no gate that both have reached (`verdict_eq_iff`).
-/
namespace SpikeHub.Core.Gates

variable {N : Type} {passed : N}

def verdict (passed : N) : List (N × Bool) → N
  | [] => passed
  | (_, true) :: rest => verdict passed rest
  | (name, false) :: _ => name

/-- The answers agree at every gate up to the first that refuses. -/
def Alike : List Bool → List Bool → Prop
  | a :: as, b :: bs => a = b ∧ (a = true → Alike as bs)
  | _, _ => True

theorem verdict_passed {gates : List (N × Bool)} (h : ∀ g ∈ gates, g.2 = true) :
    verdict passed gates = passed := by
  induction gates with
  | nil => rfl
  | cons g rest ih =>
    obtain ⟨name, ok⟩ := g
    obtain rfl : ok = true := h _ List.mem_cons_self
    exact ih fun g hg => h g (List.mem_cons_of_mem _ hg)

theorem verdict_mem (gates : List (N × Bool)) : verdict passed gates ∈ passed :: gates.map Prod.fst := by
  induction gates with
  | nil => simp [verdict]
  | cons g rest ih =>
    obtain ⟨name, ok⟩ := g
    cases ok with
    | false => simp [verdict]
    | true =>
      rcases List.mem_cons.mp ih with h | h
      · simp [verdict, h]
      · simp [verdict, h]

theorem verdict_eq_iff {as bs : List (N × Bool)} (hnames : as.map Prod.fst = bs.map Prod.fst)
    (hnodup : (passed :: as.map Prod.fst).Nodup) :
    verdict passed as = verdict passed bs ↔ Alike (as.map Prod.snd) (bs.map Prod.snd) := by
  induction as generalizing bs with
  | nil =>
    have hnil : bs = [] := List.map_eq_nil_iff.mp hnames.symm
    simp [hnil, Alike]
  | cons a as ih =>
    cases bs with
    | nil => simp at hnames
    | cons b bs =>
      obtain ⟨name, p⟩ := a
      obtain ⟨name', q⟩ := b
      simp only [List.map_cons, List.cons.injEq] at hnames
      obtain ⟨rfl, hrest⟩ := hnames
      simp only [List.map_cons, List.nodup_cons, List.mem_cons, not_or] at hnodup
      -- a gate that refuses is told apart from all that come after it
      have hne : ∀ gates : List (N × Bool), gates.map Prod.fst = as.map Prod.fst →
          verdict passed gates ≠ name := by
        intro gates hgates he
        have hmem : verdict passed gates ∈ passed :: gates.map Prod.fst := verdict_mem gates
        rw [he, hgates] at hmem
        rcases List.mem_cons.mp hmem with h | h
        · exact hnodup.1.1 h.symm
        · exact hnodup.2.1 h
      have hnd : (passed :: as.map Prod.fst).Nodup := List.nodup_cons.mpr ⟨hnodup.1.2, hnodup.2.2⟩
      cases p with
      | true =>
        cases q with
        | true => simpa [verdict, Alike] using ih hrest hnd
        | false => simp [verdict, Alike, hne as rfl]
      | false =>
        cases q with
        | true => simp [verdict, Alike, (hne bs hrest.symm).symm]
        | false => simp [verdict, Alike]

end SpikeHub.Core.Gates
