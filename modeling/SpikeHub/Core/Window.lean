import Mathlib.Algebra.Order.Group.Defs
import Mathlib.Algebra.Order.Group.Unbundled.Basic
import Mathlib.Data.List.Count
import Mathlib.Tactic.Common

/-!
# What a limit on the last while bounds

A log holds the times at which something was admitted. Where each admission
had found fewer than `n` entries no older than `w` (`since`), every window of
length `w`, wherever it lies, holds at most `n` (`Bounded`).

The count the limit compares need not be the log's own: one at least as large
(`admitted` takes any number the log's count is below) bounds the log as well.
-/
namespace SpikeHub.Core.Window

variable {T : Type} [LinearOrder T]

/-- Entries in `[a, b]`. -/
def count (log : List T) (a b : T) : Nat := log.countP fun x => a ≤ x ∧ x ≤ b

/-- Entries at `a` or later. -/
def since (log : List T) (a : T) : Nat := log.countP fun x => a ≤ x

variable {a b x : T} {log : List T}

theorem count_cons : count (x :: log) a b = count log a b + if a ≤ x ∧ x ≤ b then 1 else 0 := by
  unfold count
  rw [List.countP_cons]
  simp only [decide_eq_true_eq]

theorem since_cons : since (x :: log) a = since log a + if a ≤ x then 1 else 0 := by
  unfold since
  rw [List.countP_cons]
  simp only [decide_eq_true_eq]

theorem count_le_since : count log a b ≤ since log a := by
  refine List.countP_mono_left fun x _ h => ?_
  simp only [decide_eq_true_eq] at h ⊢
  exact h.1

theorem since_anti (h : a ≤ b) : since log b ≤ since log a := by
  refine List.countP_mono_left fun x _ hx => ?_
  simp only [decide_eq_true_eq] at hx ⊢
  exact h.trans hx

variable [AddCommGroup T]

/-- Nothing is logged after `now`, and no window of length `w` holds more than `n`. -/
structure Bounded (w : T) (n : Nat) (now : T) (log : List T) : Prop where
  past : ∀ x ∈ log, x ≤ now
  window : ∀ t, count log (t - w) t ≤ n

namespace Bounded

variable {w now now' : T} {n : Nat}

theorem nil : Bounded w n now [] where
  past _ hx := absurd hx List.not_mem_nil
  window _ := Nat.zero_le n

theorem later (h : Bounded w n now log) (hle : now ≤ now') : Bounded w n now' log :=
  ⟨fun x hx => (h.past x hx).trans hle, h.window⟩

/-- One more, where the last `w` have room for it. -/
theorem admitted [IsOrderedAddMonoid T] (h : Bounded w n now log) (hroom : since log (now - w) < n) :
    Bounded w n now (now :: log) where
  past x hx := by
    rcases List.mem_cons.mp hx with he | hx
    · exact le_of_eq he
    · exact h.past x hx
  window t := by
    have hold := h.window t
    rw [count_cons]
    split
    · rename_i hin
      -- the window reaches back no further than the one that was compared
      have hlast : count log (t - w) t ≤ since log (now - w) :=
        count_le_since.trans (since_anti (sub_le_sub_right hin.2 w))
      omega
    · exact hold

end Bounded
end SpikeHub.Core.Window
