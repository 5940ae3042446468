import SpikeHub.L4Catalog.Names
import SpikeHub.L5Runs.Requests

/-!
# A handle cut at a hyphen

Behaviour (hub_api/auth/handles.py:34-56): `_clean` strips the hyphens at both
ends of what it reduced a candidate to, and then cuts it to 30 characters. Where
the cut falls just behind a hyphen the stem ends in one, and `allocate` returns
it as it is when it is free.

What the code says: `_clean` returns its candidate "reduced to handle-legal
characters" (handles.py:35), of which 30 leave "room for a suffix inside the
39-character limit" (handles.py:20), and a handle "may not start or end with a
hyphen" (catalog/names.py:72-75). A suffix ends in a digit, so a stem that is
taken is never returned with the hyphen at its end.

Counterexample: the username of 29 letters, a hyphen, and more. The account is
given the letters and the hyphen, which `normalise_handle` refuses.

When it does hold: exactly when the thirtieth character of what the candidate
is reduced to is not a hyphen, or that stem is not free; and, where every suffix
is taken as well, while the number of accounts leaves the fallback name within
its 39 characters (`accepted_iff`).
-/
namespace SpikeHub.Bugs.TruncatedHandles

open SpikeHub.Core SpikeHub.L1 SpikeHub.L4.Auth SpikeHub.L4.Auth.Handles SpikeHub.L4.Catalog
open SpikeHub.L5.Requests (plain)

/-- Accepted as it is, and legal. -/
structure Accepted (p : Platform) (handle : String) : Prop where
  unchanged : normaliseHandle p handle = .ok handle
  legal : Legal handle

/-- What a candidate is reduced to, before it is cut. -/
def collapsed (p : Platform) (raw : String) : List Char :=
  let lowered := (PyStr.partition '@' (p.lower (PyStr.strip raw))).1
  let replaced := PyStr.subRuns disallowed '-' false lowered.toList
  PyStr.stripOf (· = '-') (PyStr.subRuns (· = '-') '-' false replaced)

/-- The first workable candidate. -/
def workable (p : Platform) (candidates : List String) : Option String :=
  candidates.find? fun raw => clean p raw ≠ ""

/-- The cut falls behind a hyphen. -/
def CutAtHyphen (p : Platform) (candidates : List String) : Prop :=
  ∃ raw, workable p candidates = some raw ∧ (collapsed p raw)[29]? = some '-'

/-- The fallback name has at most 39 characters. -/
def RoomForCount (db : Db) : Prop := db.users.count (fun _ => true) + 1 < 10 ^ 34

instance (db : Db) : Decidable (RoomForCount db) := inferInstanceAs (Decidable (_ < _))

variable {p : Platform} {db : Db} {candidates : List String} {raw handle : String} {c : Char} {n : Nat}

/-! ## The stem -/

theorem clean_toList : (clean p raw).toList = (collapsed p raw).take 30 := by
  unfold clean collapsed stemLimit
  rw [String.toList_ofList]

/-- What is not replaced is a character of handles. -/
theorem handleChar_of_allowed (h : disallowed c = false) : handleChar c = true := by
  unfold disallowed at h
  rw [Bool.not_eq_false'] at h
  exact h

/-- The reduced candidate has no hyphen at either end. -/
theorem collapsed_first : (collapsed p raw).head? ≠ some '-' := by
  intro h
  have hstop := PyStr.stripOf_head h
  simp at hstop

theorem collapsed_last : (collapsed p raw).getLast? ≠ some '-' := by
  intro h
  have hstop := PyStr.stripOf_getLast h
  simp at hstop

/-- A list that does not end in `c` is cut behind a `c`, or its cut does not
end in one. -/
theorem take_getLast {l : List Char} (h : l.getLast? ≠ some c) (hn : 0 < n) :
    (l.take n).getLast? = some c ↔ l[n - 1]? = some c := by
  by_cases hlen : l.length ≤ n
  · rw [List.take_of_length_le hlen]
    refine iff_of_false h fun hc => ?_
    obtain ⟨hlt, -⟩ := List.getElem?_eq_some_iff.mp hc
    have hwhole : l.length = n := by omega
    rw [List.getLast?_eq_getElem?, hwhole] at h
    exact h hc
  · have hcut : (l.take n).length = n := by rw [List.length_take]; omega
    rw [List.getLast?_eq_getElem?, hcut, List.getElem?_take_of_lt (by omega)]

/-- What every stem is. -/
structure Stem (handle : String) : Prop where
  nonempty : 1 ≤ handle.toList.length
  short : handle.toList.length ≤ 30
  allowed : ∀ c ∈ handle.toList, disallowed c = false
  first : handle.toList.head? ≠ some '-'

theorem stem_fallback : Stem fallback :=
  ⟨by decide, by decide, fun _ => fallback_allowed, by decide⟩

theorem stem_clean (h : clean p raw ≠ "") : Stem (clean p raw) where
  nonempty := by
    rw [Nat.one_le_iff_ne_zero, ne_eq, List.length_eq_zero_iff]
    exact fun hnil => h (String.toList_inj.mp hnil)
  short := by
    rw [clean_toList, List.length_take]
    omega
  allowed _ := clean_allowed
  first := by
    rw [clean_toList, List.head?_take]
    simpa using collapsed_first

theorem stemFrom_cases (p : Platform) (candidates : List String) :
    (workable p candidates = none ∧ stemFrom p candidates = fallback) ∨
      ∃ raw, workable p candidates = some raw ∧ clean p raw ≠ "" ∧ stemFrom p candidates = clean p raw := by
  unfold stemFrom workable
  rw [List.find?_map, Function.comp_def]
  cases h : candidates.find? fun raw => clean p raw ≠ "" with
  | none => exact .inl ⟨rfl, rfl⟩
  | some raw => exact .inr ⟨raw, rfl, by simpa using List.find?_some h, rfl⟩

theorem stem_stemFrom (p : Platform) (candidates : List String) : Stem (stemFrom p candidates) := by
  rcases stemFrom_cases p candidates with ⟨-, h⟩ | ⟨raw, -, hne, h⟩
  · rw [h]
    exact stem_fallback
  · rw [h]
    exact stem_clean hne

/-- The stem ends in a hyphen where the cut falls behind one. -/
theorem stemFrom_last :
    (stemFrom p candidates).toList.getLast? = some '-' ↔ CutAtHyphen p candidates := by
  unfold CutAtHyphen
  rcases stemFrom_cases p candidates with ⟨hnone, h⟩ | ⟨raw, hsome, -, h⟩
  · rw [h, hnone]
    refine iff_of_false (by decide) ?_
    intro hc
    obtain ⟨_, he, -⟩ := hc
    cases he
  · rw [h, clean_toList, take_getLast collapsed_last (by decide), hsome]
    constructor
    · exact fun hc => ⟨raw, rfl, hc⟩
    · intro hc
      obtain ⟨_, he, hcut⟩ := hc
      cases he
      exact hcut

/-! ## A suffix -/

theorem digit_alphanumeric (h : c ∈ Nat.toDigits 10 n) : alphanumeric c = true := by
  have hdigit := Nat.isDigit_of_mem_toDigits (by decide) (by decide) h
  simp only [Char.isDigit, Bool.and_eq_true, decide_eq_true_eq] at hdigit
  simp only [alphanumeric, Bool.or_eq_true, Bool.and_eq_true, decide_eq_true_eq]
  exact .inr hdigit

theorem attempt_last : (attempt handle n).toList.getLast? ≠ some '-' := by
  intro h
  rw [attempt_toList, List.getLast?_append_of_ne_nil _ (by simp), List.getLast?_cons,
    List.getLast?_eq_some_getLast Nat.toDigits_ne_nil, Option.getD_some, Option.some.injEq] at h
  have hlast := digit_alphanumeric (List.getLast_mem (Nat.toDigits_ne_nil (n := n) (b := 10)))
  rw [h] at hlast
  cases hlast

/-- With a suffix, a stem is legal as far as it is short enough. -/
theorem legal_attempt (hs : Stem handle) :
    Legal (attempt handle n) ↔ handle.toList.length + 1 + n.repr.length ≤ 39 := by
  have hlength : (attempt handle n).toList.length = handle.toList.length + 1 + n.repr.length := by
    rw [attempt_toList, List.length_append, List.length_cons, ← Nat.toList_repr, String.length_toList,
      String.length_toList]
    omega
  have hne : handle.toList ≠ [] := by
    intro hnil
    have hpos := hs.nonempty
    rw [hnil] at hpos
    cases hpos
  constructor
  · intro h
    rw [← hlength]
    exact h.short
  · intro hshort
    refine ⟨by omega, by omega, fun c hc => ?_, ?_, attempt_last, attempt_unreserved⟩
    · exact handleChar_of_allowed (attempt_allowed hs.allowed hc)
    · rw [attempt_toList, List.head?_append_of_ne_nil _ hne]
      exact hs.first

/-! ## What is allocated -/

theorem accepted_iff_legal (hl : p.LawfulLower) :
    Accepted p (allocate p db candidates) ↔ Legal (allocate p db candidates) := by
  have hchars : ∀ c ∈ (allocate p db candidates).toList, handleChar c = true := fun _ hc =>
    handleChar_of_allowed (allocate_allowed hc)
  exact ⟨fun ha => ha.legal, fun hlegal => ⟨(normaliseHandle_eq hl hchars).mpr hlegal, hlegal⟩⟩

/-- A stem that is free is legal unless it ends in a hyphen. -/
theorem legal_stem (hs : Stem handle) (hfree : isFree db handle = true) :
    Legal handle ↔ handle.toList.getLast? ≠ some '-' := by
  constructor
  · exact fun h => h.last
  · intro hlast
    have hshort := hs.short
    exact ⟨hs.nonempty, by omega, fun c hc => handleChar_of_allowed (hs.allowed c hc), hs.first, hlast,
      (isFree_iff.mp hfree).1⟩

/-- A suffix that is used is short. -/
theorem legal_suffixed (hs : Stem handle) (hn : n < 1000) : Legal (attempt handle n) := by
  have hdigits : n.repr.length ≤ 3 := (Nat.length_repr_le_iff (by decide)).mpr (by omega)
  have hshort := hs.short
  exact (legal_attempt hs).mpr (by omega)

theorem legal_fallback :
    Legal (attempt fallback (db.users.count (fun _ => true) + 1)) ↔ RoomForCount db := by
  have hlength : fallback.toList.length = 4 := by decide
  have hroom : RoomForCount db ↔ (db.users.count (fun _ => true) + 1).repr.length ≤ 34 :=
    (Nat.length_repr_le_iff (by decide)).symm
  rw [legal_attempt stem_fallback, hlength, hroom]
  omega

theorem accepted_iff (p : Platform) (hl : p.LawfulLower) (db : Db) (candidates : List String) :
    Accepted p (allocate p db candidates) ↔
      ¬ (CutAtHyphen p candidates ∧ isFree db (stemFrom p candidates) = true) ∧
        (Exhausted p db candidates → RoomForCount db) := by
  have hstem := stem_stemFrom p candidates
  have hexit := allocated p db candidates
  rw [accepted_iff_legal hl]
  generalize allocate p db candidates = handle at hexit
  cases hexit with
  | stem hfree =>
    have hno : ¬ Exhausted p db candidates := fun h => by
      rw [h.stem] at hfree
      cases hfree
    rw [legal_stem hstem hfree, ne_eq, stemFrom_last]
    exact ⟨fun hcut => ⟨fun h => hcut h.1, fun h => absurd h hno⟩, fun h hcut => h.1 ⟨hcut, hfree⟩⟩
  | suffixed htaken hlow hhigh hfree =>
    refine iff_of_true (legal_suffixed hstem hhigh) ⟨fun h => ?_, fun h => ?_⟩
    · rw [htaken] at h
      cases h.2
    · rw [h.suffixes _ hlow hhigh] at hfree
      cases hfree
  | fallback h =>
    have hno : ¬ (CutAtHyphen p candidates ∧ isFree db (stemFrom p candidates) = true) := fun hcut => by
      rw [h.stem] at hcut
      cases hcut.2
    rw [legal_fallback]
    exact ⟨fun hroom => ⟨hno, fun _ => hroom⟩, fun hroom => hroom.2 h⟩

/-! ## A username of 29 letters, a hyphen, and more -/

theorem plain_lawfulLower : plain.LawfulLower where
  kept s h := by
    have hchar : ∀ c ∈ s.toList, c.toLower = c := by
      intro c hc
      refine PyStr.toLower_eq_self fun hupper => ?_
      rcases h c hc with ⟨hlow, -⟩ | ⟨-, hhigh⟩ | rfl
      · exact absurd (UInt32.le_trans hlow hupper.2) (by decide)
      · exact absurd (UInt32.le_trans hupper.1 hhigh) (by decide)
      · exact absurd hupper.1 (by decide)
    refine String.toList_inj.mp ?_
    calc (plain.lower s).toList = s.toList.map Char.toLower := String.toList_ofList
      _ = s.toList.map id := List.map_congr_left hchar
      _ = s.toList := List.map_id _

def username : String := "aaaaaaaaaaaaaaaaaaaaaaaaaaaaa-bc"

/-- A username whose thirtieth character is a letter is cut to a handle. -/
theorem accepted_letters :
    Accepted plain (allocate plain {} ["abcdefghijabcdefghijabcdefghij-bc"]) := by
  have hwhole : workable plain ["abcdefghijabcdefghijabcdefghij-bc"] =
      some "abcdefghijabcdefghijabcdefghij-bc" := by decide +kernel
  have hletter : (collapsed plain "abcdefghijabcdefghijabcdefghij-bc")[29]? = some 'j' := by decide +kernel
  refine (accepted_iff plain plain_lawfulLower {} _).mpr ⟨fun hcut => ?_, fun _ => by decide +kernel⟩
  obtain ⟨⟨raw, hraw, hhyphen⟩, -⟩ := hcut
  rw [hwhole] at hraw
  cases hraw
  rw [hletter] at hhyphen
  cases hhyphen

/-- The handle is 29 letters and the hyphen. -/
theorem not_accepted : ¬ ∀ (p : Platform), p.LawfulLower → ∀ (db : Db) (candidates : List String),
    candidates ≠ [] → Accepted p (allocate p db candidates) := by
  intro h
  have haccepted := h plain plain_lawfulLower {} [username] (List.cons_ne_nil _ _)
  have hhandle : allocate plain {} [username] = "aaaaaaaaaaaaaaaaaaaaaaaaaaaaa-" := by decide +kernel
  rw [hhandle] at haccepted
  have hlegal := (normaliseHandle_eq plain_lawfulLower (List.all_eq_true.mp (by decide))).mp haccepted.unchanged
  exact hlegal.last (by decide)

end SpikeHub.Bugs.TruncatedHandles
