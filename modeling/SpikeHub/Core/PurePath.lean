import Mathlib.Data.List.Basic
import Mathlib.Tactic.Common

/-!
# Pure POSIX paths

`pathlib.PurePosixPath` as its segments: `parse` splits at the slashes and drops
the segments that name nothing (`pathlib` does not resolve `..`), and `join` is
`/`, where an absolute right side replaces the left.

`Inside root` is what a path below `root` is, read as text: the segments of
`root`, more of them, and no `..` to lead out again. Names without slashes stay
inside whatever they are joined to (`join_names_inside`).
-/
namespace SpikeHub.Core

structure PurePath where
  absolute : Bool
  segments : List (List Char)
deriving DecidableEq

namespace PurePath

def parse (text : List Char) : PurePath where
  absolute := text.head? = some '/'
  segments := (text.splitOn '/').filter fun segment => segment ≠ [] ∧ segment ≠ ['.']

/-- `p / q` -/
def join (p q : PurePath) : PurePath :=
  if q.absolute then q else ⟨p.absolute, p.segments ++ q.segments⟩

structure Inside (root p : PurePath) : Prop where
  absolute : p.absolute = root.absolute
  below : ∃ rest, rest ≠ [] ∧ p.segments = root.segments ++ rest ∧ ['.', '.'] ∉ rest

/-- What can be the name of a file. -/
structure IsName (segment : List Char) : Prop where
  slash : '/' ∉ segment
  nonempty : segment ≠ []
  dot : segment ≠ ['.']
  dots : segment ≠ ['.', '.']

variable {root : PurePath} {names : List (List Char)}

/-- Names with single slashes between them are read back. -/
theorem parse_names (hne : names ≠ []) (h : ∀ name ∈ names, IsName name) :
    parse (['/'].intercalate names) = ⟨false, names⟩ := by
  have hsplit : (['/'].intercalate names).splitOn '/' = names :=
    List.splitOn_intercalate '/' (fun name hname => (h name hname).slash) hne
  have hkept : names.filter (fun segment => segment ≠ [] ∧ segment ≠ ['.']) = names := by
    refine List.filter_eq_self.mpr fun name hname => ?_
    exact decide_eq_true ⟨(h name hname).nonempty, (h name hname).dot⟩
  have hhead : (['/'].intercalate names).head? ≠ some '/' := by
    cases names with
    | nil => exact absurd rfl hne
    | cons name rest =>
      have hname := h name List.mem_cons_self
      cases name with
      | nil => exact absurd rfl hname.nonempty
      | cons c cs =>
        intro hc
        have hfirst : c = '/' := by
          cases rest <;> simpa [List.intercalate] using hc
        exact hname.slash (hfirst ▸ List.mem_cons_self)
  unfold parse
  rw [hsplit, hkept, decide_eq_false hhead]

theorem join_names_inside (hne : names ≠ []) (h : ∀ name ∈ names, IsName name) :
    Inside root (root.join (parse (['/'].intercalate names))) := by
  rw [parse_names hne h]
  exact ⟨rfl, names, hne, rfl, fun hdots => (h _ hdots).dots rfl⟩

end PurePath
end SpikeHub.Core
