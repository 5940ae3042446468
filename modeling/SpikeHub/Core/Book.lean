import Mathlib.Algebra.BigOperators.Group.List.Basic
import Mathlib.Order.Lattice

/-!
# Holds and charges

The book of one account. An amount is held under a key until some time, and
charged under a key; what is charged is not held any more. `held` sums the
holds that are left of the keys that meet a condition, so a posting is a
change of the sums for every condition at once (`held_hold`, `held_charge`).
-/
namespace SpikeHub.Core

structure Hold (K A T : Type) where
  key : K
  amount : A
  expires : T

inductive Posting (K A T : Type)
  | hold (entry : Hold K A T)
  | charge (key : K) (amount : A)

structure Book (K A T : Type) where
  used : A
  holds : List (Hold K A T)

namespace Book

variable {K A T : Type} [AddCommMonoid A] {b : Book K A T} {q : K → Bool} {t : T} {key : K} {amount : A}
  {entry : Hold K A T}

def empty : Book K A T := ⟨0, []⟩

section
variable [LinearOrder T]

/-- What is held at `t` under the keys that meet `q`. -/
def held (b : Book K A T) (q : K → Bool) (t : T) : A :=
  ((b.holds.filter fun entry => q entry.key && t < entry.expires).map Hold.amount).sum

/-- What is held at `t`. -/
def reserved (b : Book K A T) (t : T) : A := b.held (fun _ => true) t

end

variable [DecidableEq K]

def post (b : Book K A T) : Posting K A T → Book K A T
  | .hold entry => { b with holds := entry :: b.holds }
  | .charge key amount => ⟨b.used + amount, b.holds.filter fun entry => entry.key ≠ key⟩

variable [LinearOrder T]

theorem held_hold : (b.post (.hold entry)).held q t =
    b.held q t + if q entry.key = true ∧ t < entry.expires then entry.amount else 0 := by
  unfold held post
  by_cases h : q entry.key = true ∧ t < entry.expires
  · rw [if_pos h, List.filter_cons_of_pos (by simp [h]), List.map_cons, List.sum_cons, add_comm]
  · rw [if_neg h, List.filter_cons_of_neg (by simpa using h), add_zero]

/-- What was held under the key is left out. -/
theorem held_charge :
    (b.post (.charge key amount)).held q t = b.held (fun k => q k && k ≠ key) t := by
  unfold held post
  rw [List.filter_filter]
  congr 2
  refine List.filter_congr fun entry _ => ?_
  rw [Bool.and_right_comm]

end Book
end SpikeHub.Core
