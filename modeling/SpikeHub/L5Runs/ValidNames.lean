import SpikeHub.L4Catalog.Names
import SpikeHub.L5Runs.Requests

/-!
# The names the service accepts

A community entry is `@handle/slug` with its version beside it, so none of the
three may contain either mark. `Exact` is what a validator of names owes: it
returns exactly on the texts whose normal form has the documented shape, it
returns that form, there is neither mark in it, and given again it is returned
as it is. `names_exact`: all three validators do.

Of the case mapping this takes that ASCII text is lowered letter by letter
(`LawfulAscii`) and that a line break at the end is none of its making
(`LawfulBreaks`): `$` would match before it.
-/
namespace SpikeHub.L5.ValidNames

open SpikeHub.Core SpikeHub.L1 SpikeHub.L4.Auth SpikeHub.L4.Catalog
open SpikeHub.L5.Requests (plain plain_ascii)

/-- What a validator owes: `normal` is the text it checks, `Shape` what that has to be. -/
structure Exact (validate : String → Except Raised String) (normal : String → String)
    (Shape : String → Prop) : Prop where
  accepts : ∀ raw, (∃ name, validate raw = .ok name) ↔ Shape (normal raw)
  normalised : ∀ raw name, validate raw = .ok name → name = normal raw
  unmarked : ∀ raw name, validate raw = .ok name → '/' ∉ name.toList ∧ '@' ∉ name.toList
  fixed : ∀ raw name, validate raw = .ok name → validate name = .ok name

variable {p : Platform} {validate : String → Except Raised String} {normal : String → String}
  {Shape : String → Prop} {name : String}

/-- It is enough to know what is returned, and that a name of the shape is normal and unmarked. -/
theorem exact_of (hok : ∀ raw name, validate raw = .ok name ↔ name = normal raw ∧ Shape name)
    (hnormal : ∀ name, Shape name → normal name = name)
    (hunmarked : ∀ name, Shape name → '/' ∉ name.toList ∧ '@' ∉ name.toList) :
    Exact validate normal Shape where
  accepts raw := by
    constructor
    · rintro ⟨name, h⟩
      obtain ⟨rfl, hshape⟩ := (hok raw name).mp h
      exact hshape
    · exact fun hshape => ⟨_, (hok raw _).mpr ⟨rfl, hshape⟩⟩
  normalised raw name h := ((hok raw name).mp h).1
  unmarked raw name h := hunmarked name ((hok raw name).mp h).2
  fixed raw name h := by
    obtain ⟨-, hshape⟩ := (hok raw name).mp h
    exact (hok name name).mpr ⟨(hnormal name hshape).symm, hshape⟩

/-- A class without the two marks. -/
theorem unmarked_of {inner : Char → Bool} (hslash : inner '/' = false) (hat : inner '@' = false)
    (h : ∀ c ∈ name.toList, inner c = true) : '/' ∉ name.toList ∧ '@' ∉ name.toList := by
  constructor
  · intro hc
    rw [h _ hc] at hslash
    cases hslash
  · intro hc
    rw [h _ hc] at hat
    cases hat

/-- Nothing to trim, and no capital. -/
theorem normal_of_slugChars (hl : p.LawfulAscii) (h : ∀ c ∈ name.toList, slugChar c = true) :
    p.lower (PyStr.strip name) = name := by
  rw [strip_of_slugChars h, lower_of_slugChars hl h]

theorem handles_exact (hl : p.LawfulAscii) (hb : p.LawfulBreaks) :
    Exact (normaliseHandle p) (fun raw => p.lower (PyStr.strip raw)) IsHandle := by
  have hchars : ∀ name, IsHandle name → ∀ c ∈ name.toList, slugChar c = true := fun name h c hc =>
    slugChar_of_handleChar (h.spelled.chars c hc)
  refine exact_of (fun raw _ => normaliseHandle_ok (lower_strip_getLast hb raw)) ?_ ?_
  · exact fun name h => normal_of_slugChars hl (hchars name h)
  · exact fun name h => unmarked_of (by decide) (by decide) (hchars name h)

theorem slugs_exact (hl : p.LawfulAscii) (hb : p.LawfulBreaks) :
    Exact (validateSlug p) (fun raw => p.lower (PyStr.strip raw)) IsSlug := by
  refine exact_of (fun raw _ => validateSlug_ok (lower_strip_getLast hb raw)) ?_ ?_
  · exact fun name h => normal_of_slugChars hl h.spelled.chars
  · exact fun name h => unmarked_of (by decide) (by decide) h.spelled.chars

theorem versions_exact : Exact validateVersion PyStr.strip IsVersion := by
  refine exact_of (fun _ _ => validateVersion_ok) ?_ ?_
  · exact fun name h => strip_of_versionChars h.chars
  · exact fun name h => unmarked_of (by decide) (by decide) h.chars

/-- **The validators accept exactly the documented shapes.** -/
theorem names_exact (p : Platform) (hl : p.LawfulAscii) (hb : p.LawfulBreaks) :
    Exact (normaliseHandle p) (fun raw => p.lower (PyStr.strip raw)) IsHandle ∧
      Exact (validateSlug p) (fun raw => p.lower (PyStr.strip raw)) IsSlug ∧
      Exact validateVersion PyStr.strip IsVersion :=
  ⟨handles_exact hl hb, slugs_exact hl hb, versions_exact⟩

/-! ## ASCII case mapping -/

/-- What lowers to a line break is one: a capital lowers to a letter. -/
theorem eq_break_of_toLower {c : Char} (h : c.toLower = '\n') : c = '\n' := by
  by_cases hcapital : 'A' ≤ c ∧ c ≤ 'Z'
  · have hval : (c.val + ('a'.val - 'A'.val)).toNat = 10 := by
      have hlower : c.toLower.val = c.val + ('a'.val - 'A'.val) := congrArg Char.val (dif_pos hcapital)
      rw [← hlower, h]
      rfl
    have hlow : 65 ≤ c.val.toNat := hcapital.1
    have hhigh : c.val.toNat ≤ 90 := hcapital.2
    rw [UInt32.toNat_add] at hval
    simp only [Char.reduceVal, UInt32.reduceSub, UInt32.reduceToNat] at hval
    omega
  · rwa [PyStr.toLower_eq_self hcapital] at h

theorem plain_breaks : plain.LawfulBreaks where
  ending s h := by
    have hmap : (plain.lower s).toList = s.toList.map Char.toLower := String.toList_ofList
    rw [hmap, List.getLast?_map, Option.map_eq_some_iff] at h
    obtain ⟨c, hc, hbreak⟩ := h
    rw [hc, eq_break_of_toLower hbreak]

theorem names_exact_plain :
    Exact (normaliseHandle plain) (fun raw => plain.lower (PyStr.strip raw)) IsHandle ∧
      Exact (validateSlug plain) (fun raw => plain.lower (PyStr.strip raw)) IsSlug ∧
      Exact validateVersion PyStr.strip IsVersion :=
  names_exact plain plain_ascii plain_breaks

/-- Trimmed, lower-cased, and of the longest length there is. -/
example : (normaliseHandle plain "\t Joe-2 \n").toOption = some "joe-2" ∧
    (validateSlug plain (String.ofList (List.replicate 64 'A'))).toOption.isSome = true ∧
    (validateSlug plain (String.ofList (List.replicate 65 'A'))).toOption.isSome = false := by
  decide +kernel

end SpikeHub.L5.ValidNames
