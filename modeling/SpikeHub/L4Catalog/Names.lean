import SpikeHub.Core.Regex
import SpikeHub.L4Auth.Handles
import SpikeHub.L4Catalog.Licenses

/-!
# Handles, slugs and versions, as they are accepted

Model of hub_api/catalog/names.py: what a handle, a model's slug and a version
are when they are given to the service. The three patterns are kept as they are
written. `IsHandle`, `IsSlug` and `IsVersion` say in lengths and
characters what they match (`handleShape_iff`, `matches_slug`,
`matches_version`), and the validators return exactly on those
(`normaliseHandle_ok`, `validateSlug_ok`, `validateVersion_ok`).

`Legal` is a handle as the service's own code takes it, and a string of handle
characters is accepted as it is exactly when it is legal (`normaliseHandle_eq`).
-/
namespace SpikeHub.L4.Catalog

open SpikeHub.Core SpikeHub.L1 SpikeHub.L4.Auth

/-- `[a-z0-9]` -/
def alphanumeric (c : Char) : Bool := ('a' ≤ c && c ≤ 'z') || ('0' ≤ c && c ≤ '9')

/-- `[a-z0-9-]` -/
def handleChar (c : Char) : Bool := alphanumeric c || c = '-'

/-- `[a-z0-9](?:[a-z0-9-]{0,37}[a-z0-9])?` -/
def handleShape : List Char → Bool
  | [] => false
  | first :: rest =>
    alphanumeric first &&
      match rest.getLast? with
      | none => true
      | some last => rest.dropLast.length ≤ 37 && rest.dropLast.all handleChar && alphanumeric last

/-- `_HANDLE.match`, whose `$` also matches before a newline at the end. -/
def matchesHandle (cs : List Char) : Bool :=
  handleShape cs || (cs.getLast? = some '\n' && handleShape cs.dropLast)

/-- mirrors hub_api/catalog/names.py:63-78 -/
def normaliseHandle (p : Platform) (raw : String) : Except Raised String :=
  let handle := p.lower (PyStr.strip raw)
  if ¬ matchesHandle handle.toList then
    refuse .invalidName ("a handle is 1-39 characters of lowercase letters, digits and " ++
      "hyphens, and may not start or end with a hyphen")
  else if handle ∈ reservedHandles then
    refuse .conflict s!"the handle {pyRepr handle} is reserved"
  else .ok handle

/-- What a handle may be. -/
structure Legal (handle : String) : Prop where
  nonempty : 1 ≤ handle.toList.length
  short : handle.toList.length ≤ 39
  chars : ∀ c ∈ handle.toList, handleChar c = true
  first : handle.toList.head? ≠ some '-'
  last : handle.toList.getLast? ≠ some '-'
  unreserved : handle ∉ reservedHandles

/-- `[a-z0-9._-]` -/
def slugChar (c : Char) : Bool := alphanumeric c || c = '.' || c = '_' || c = '-'

/-- `[a-zA-Z0-9.+_-]` -/
def versionChar (c : Char) : Bool := letterOrDigit c || c = '.' || c = '+' || c = '_' || c = '-'

/-- `_HANDLE`, as it is written; `matchesHandle` is its match (`matchesHandle_eq`). -/
def handlePattern : Regex Char :=
  .seq (.cls alphanumeric) (.opt (.seq (.rep (.cls handleChar) 0 37) (.cls alphanumeric)))

/-- `_SLUG` -/
def slugPattern : Regex Char :=
  .seq (.cls alphanumeric) (.opt (.seq (.rep (.cls slugChar) 0 62) (.cls alphanumeric)))

/-- `_VERSION` -/
def versionPattern : Regex Char := .seq (.cls letterOrDigit) (.rep (.cls versionChar) 0 63)

/-- mirrors hub_api/catalog/names.py:81-90 -/
def validateSlug (p : Platform) (raw : String) : Except Raised String :=
  let slug := p.lower (PyStr.strip raw)
  if ¬ slugPattern.matchesLine '\n' slug.toList then
    refuse .invalidName ("a model name is 1-64 characters of lowercase letters, digits, " ++
      "dots, underscores and hyphens, and may not start or end with a separator")
  else .ok slug

/-- mirrors hub_api/catalog/names.py:93-101 -/
def validateVersion (raw : String) : Except Raised String :=
  let version := PyStr.strip raw
  if ¬ versionPattern.matchesLine '\n' version.toList then
    refuse .invalidName ("a version is 1-64 characters of letters, digits, dots, plus " ++
      "signs, underscores and hyphens, starting with a letter or digit")
  else .ok version

/-! ## The shapes -/

/-- A last character that is a letter or digit. -/
def EndsPlain (name : String) : Prop := ∀ c, name.toList.getLast? = some c → alphanumeric c = true

structure IsHandle (name : String) : Prop where
  spelled : Regex.Spelled 39 handleChar alphanumeric name.toList
  last : EndsPlain name
  unreserved : name ∉ reservedHandles

structure IsSlug (name : String) : Prop where
  spelled : Regex.Spelled 64 slugChar alphanumeric name.toList
  last : EndsPlain name

def IsVersion (name : String) : Prop := Regex.Spelled 64 versionChar letterOrDigit name.toList

variable {p : Platform} {raw name handle : String} {c : Char} {cs : List Char}

theorem handleChar_iff : handleChar c = true ↔ alphanumeric c = true ∨ c = '-' := by
  simp [handleChar]

theorem handleChar_of_alphanumeric (h : alphanumeric c = true) : handleChar c = true :=
  handleChar_iff.mpr (.inl h)

theorem slugChar_of_alphanumeric (h : alphanumeric c = true) : slugChar c = true := by
  simp [slugChar, h]

theorem slugChar_of_handleChar (h : handleChar c = true) : slugChar c = true := by
  rcases handleChar_iff.mp h with h | rfl
  · exact slugChar_of_alphanumeric h
  · decide

theorem versionChar_of_letterOrDigit (h : letterOrDigit c = true) : versionChar c = true := by
  simp [versionChar, h]

theorem alphanumeric_of_handleChar (h : handleChar c = true) (hne : c ≠ '-') :
    alphanumeric c = true :=
  (handleChar_iff.mp h).resolve_right hne

theorem legal_iff : Legal handle ↔ IsHandle handle := by
  constructor
  · intro h
    have hplain : ∀ {c}, c ∈ handle.toList → c ≠ '-' → alphanumeric c = true := fun hc hne =>
      alphanumeric_of_handleChar (h.chars _ hc) hne
    refine ⟨⟨h.nonempty, h.short, h.chars, fun c hc => ?_⟩, fun c hc => ?_, h.unreserved⟩
    · exact hplain (List.mem_of_head? hc) fun he => h.first (he ▸ hc)
    · exact hplain (List.mem_of_getLast? hc) fun he => h.last (he ▸ hc)
  · intro h
    have hyphen : alphanumeric '-' ≠ true := by decide
    refine ⟨h.spelled.nonempty, h.spelled.short, h.spelled.chars, ?_, ?_, h.unreserved⟩
    · exact fun hc => hyphen (h.spelled.first _ hc)
    · exact fun hc => hyphen (h.last _ hc)

/-! ## What the patterns match -/

theorem handleShape_iff : handleShape cs = true ↔ handlePattern.Matches cs := by
  constructor
  · intro h
    cases cs with
    | nil => cases h
    | cons first rest =>
      rcases List.eq_nil_or_concat' rest with rfl | ⟨mid, last, rfl⟩
      · have hfirst : alphanumeric first = true := by simpa [handleShape] using h
        exact ⟨[first], [], ⟨first, hfirst, rfl⟩, .inr rfl, rfl⟩
      · simp only [handleShape, List.getLast?_concat, List.dropLast_concat, Bool.and_eq_true,
          decide_eq_true_eq, List.all_eq_true] at h
        obtain ⟨hfirst, ⟨hlen, hall⟩, hlast⟩ := h
        have hmid : (Regex.rep (.cls handleChar) 0 37).Matches mid :=
          Regex.matches_rep_cls.mpr ⟨Nat.zero_le _, by simpa using hlen, hall⟩
        exact ⟨[first], _, ⟨first, hfirst, rfl⟩, .inl ⟨mid, [last], hmid, ⟨last, hlast, rfl⟩, rfl⟩, rfl⟩
  · rintro ⟨_, _, ⟨first, hfirst, rfl⟩, ⟨mid, _, hmid, ⟨last, hlast, rfl⟩, rfl⟩ | rfl, rfl⟩
    · obtain ⟨-, hlen, hall⟩ := Regex.matches_rep_cls.mp hmid
      simp only [List.singleton_append, handleShape, List.getLast?_concat, List.dropLast_concat,
        Bool.and_eq_true, decide_eq_true_eq, List.all_eq_true]
      exact ⟨hfirst, ⟨by simpa using hlen, hall⟩, hlast⟩
    · simpa [handleShape] using hfirst

theorem matchesHandle_eq : matchesHandle cs = handlePattern.matchesLine '\n' cs := by
  rw [Bool.eq_iff_iff, Regex.matchesLine_iff]
  unfold matchesHandle
  rw [Bool.or_eq_true, Bool.and_eq_true, decide_eq_true_eq, handleShape_iff, handleShape_iff]
  refine or_congr_right ⟨?_, ?_⟩
  · rintro ⟨hlast, h⟩
    exact ⟨_, h, (List.dropLast_append_getLast? _ hlast).symm⟩
  · rintro ⟨ys, hys, rfl⟩
    rw [List.getLast?_concat, List.dropLast_concat]
    exact ⟨rfl, hys⟩

theorem matches_handle : handlePattern.Matches name.toList ↔
    Regex.Spelled 39 handleChar alphanumeric name.toList ∧ EndsPlain name :=
  Regex.matches_ended fun _ => handleChar_of_alphanumeric

theorem matches_slug : slugPattern.Matches name.toList ↔ IsSlug name := by
  refine (Regex.matches_ended fun _ => slugChar_of_alphanumeric).trans ?_
  exact ⟨fun h => ⟨h.1, h.2⟩, fun h => ⟨h.spelled, h.last⟩⟩

theorem matches_version : versionPattern.Matches name.toList ↔ IsVersion name :=
  Regex.matches_started fun _ => versionChar_of_letterOrDigit

/-! ## What the validators return -/

/-- Lower-casing what was stripped leaves no line break at its end. -/
theorem lower_strip_getLast (hb : p.LawfulBreaks) (raw : String) :
    (p.lower (PyStr.strip raw)).toList.getLast? ≠ some '\n' := fun h =>
  PyStr.strip_getLast raw (hb.ending _ h)

theorem normaliseHandle_ok (hline : (p.lower (PyStr.strip raw)).toList.getLast? ≠ some '\n') :
    normaliseHandle p raw = .ok name ↔ name = p.lower (PyStr.strip raw) ∧ IsHandle name := by
  have hmatches : matchesHandle (p.lower (PyStr.strip raw)).toList = true ↔
      Regex.Spelled 39 handleChar alphanumeric (p.lower (PyStr.strip raw)).toList ∧
        EndsPlain (p.lower (PyStr.strip raw)) := by
    rw [matchesHandle_eq, Regex.matchesLine_of_ne hline, matches_handle]
  unfold normaliseHandle refuse
  dsimp only
  constructor
  · intro h
    split at h
    · cases h
    · rename_i hmatch
      split at h
      · cases h
      · rename_i hfree
        obtain ⟨hspelled, hlast⟩ := hmatches.mp (not_not.mp hmatch)
        cases h
        exact ⟨rfl, hspelled, hlast, hfree⟩
  · rintro ⟨rfl, h⟩
    rw [if_neg (not_not.mpr (hmatches.mpr ⟨h.spelled, h.last⟩)), if_neg h.unreserved]

/-- A check that refuses, or returns what it was given. -/
theorem refused_unless {b : Bool} {r : Raised} {text : String} :
    (if ¬ b = true then Except.error r else .ok text) = .ok name ↔ name = text ∧ b = true := by
  cases b <;> simp [eq_comm]

theorem validateSlug_ok (hline : (p.lower (PyStr.strip raw)).toList.getLast? ≠ some '\n') :
    validateSlug p raw = .ok name ↔ name = p.lower (PyStr.strip raw) ∧ IsSlug name := by
  unfold validateSlug refuse
  dsimp only
  rw [refused_unless, Regex.matchesLine_of_ne hline, matches_slug]
  refine and_congr_right ?_
  rintro rfl
  rfl

theorem validateVersion_ok :
    validateVersion raw = .ok name ↔ name = PyStr.strip raw ∧ IsVersion name := by
  unfold validateVersion refuse
  dsimp only
  rw [refused_unless, Regex.matchesLine_of_ne (PyStr.strip_getLast raw), matches_version]
  refine and_congr_right ?_
  rintro rfl
  rfl

/-! ## Names as they are -/

/-- The characters of handles and slugs are ASCII, no capitals and no white space. -/
theorem slugChar_range (h : slugChar c = true) :
    45 ≤ c.toNat ∧ c.toNat ≤ 122 ∧ ¬ ('A' ≤ c ∧ c ≤ 'Z') := by
  simp only [slugChar, alphanumeric, Bool.or_eq_true, Bool.and_eq_true, decide_eq_true_eq] at h
  rcases h with (((⟨hlow, hhigh⟩ | ⟨hlow, hhigh⟩) | rfl) | rfl) | rfl
  · refine ⟨Nat.le_trans (by decide) hlow, hhigh, fun hcapital => ?_⟩
    exact absurd (Char.le_trans hlow hcapital.2) (by decide)
  · refine ⟨Nat.le_trans (by decide) hlow, Nat.le_trans hhigh (by decide), fun hcapital => ?_⟩
    exact absurd (Char.le_trans hcapital.1 hhigh) (by decide)
  · decide
  · decide
  · decide

theorem versionChar_range (h : versionChar c = true) : 43 ≤ c.toNat ∧ c.toNat ≤ 122 := by
  have hother : tokenChar c = true ∨ c = '_' := by
    simp only [versionChar, Bool.or_eq_true, decide_eq_true_eq] at h
    simp only [tokenChar, Bool.or_eq_true, decide_eq_true_eq]
    tauto
  rcases hother with h | rfl
  · exact tokenChar_range h
  · decide

theorem strip_of_slugChars (h : ∀ c ∈ name.toList, slugChar c = true) : PyStr.strip name = name := by
  refine PyStr.strip_eq_self fun c hc => ?_
  obtain ⟨hlow, hhigh, -⟩ := slugChar_range (h c hc)
  exact PyStr.isSpace_of_graphic (by omega) (by omega)

theorem strip_of_versionChars (h : ∀ c ∈ name.toList, versionChar c = true) :
    PyStr.strip name = name := by
  refine PyStr.strip_eq_self fun c hc => ?_
  obtain ⟨hlow, hhigh⟩ := versionChar_range (h c hc)
  exact PyStr.isSpace_of_graphic (by omega) (by omega)

theorem lower_of_slugChars (hl : p.LawfulAscii) (h : ∀ c ∈ name.toList, slugChar c = true) :
    p.lower name = name := by
  have hascii : ∀ c ∈ name.toList, c.toNat < 128 := by
    intro c hc
    have hrange := slugChar_range (h c hc)
    omega
  have hsame : ∀ c ∈ name.toList, c.toLower = c := fun c hc =>
    PyStr.toLower_eq_self (slugChar_range (h c hc)).2.2
  rw [hl.lowered name hascii, List.map_congr_left hsame, List.map_id', String.ofList_toList]

theorem lower_of_handleChars (hl : p.LawfulLower)
    (h : ∀ c ∈ handle.toList, handleChar c = true) : p.lower handle = handle := by
  refine hl.kept handle fun c hc => ?_
  have hchar := h c hc
  simp only [handleChar, alphanumeric, Bool.or_eq_true, Bool.and_eq_true, decide_eq_true_eq] at hchar
  exact or_assoc.mp hchar

/-- A string of handle characters is accepted as it is exactly when it is legal. -/
theorem normaliseHandle_eq (hl : p.LawfulLower) (h : ∀ c ∈ handle.toList, handleChar c = true) :
    normaliseHandle p handle = .ok handle ↔ Legal handle := by
  have hstrip : PyStr.strip handle = handle :=
    strip_of_slugChars fun c hc => slugChar_of_handleChar (h c hc)
  have hsame : p.lower (PyStr.strip handle) = handle := by
    rw [hstrip, lower_of_handleChars hl h]
  have hline : (p.lower (PyStr.strip handle)).toList.getLast? ≠ some '\n' := by
    have hstripped := PyStr.strip_getLast handle
    rwa [hsame, ← hstrip]
  rw [normaliseHandle_ok hline, hsame, legal_iff]
  exact and_iff_right rfl

end SpikeHub.L4.Catalog
