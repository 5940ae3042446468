import SpikeHub.L4Catalog.Licenses
import SpikeHub.L5Runs.Requests

/-!
# A licence made of words that are no licence

Behaviour (hub_api/catalog/licenses.py:54-73): `validate` compares the words it
refuses outright with the trimmed value as a whole, and its token class also
matches the three operators. An operand is therefore compared with neither:
"none AND MIT" is returned as a licence, and so is "AND".

What the code says: a licence is "a concrete SPDX-style identifier or the
explicit unverified-candidate marker", free text is refused
(licenses.py:3-8); "expressions may join them", the ids, "with WITH/AND/OR"
(licenses.py:24-25); the words that show up in place of a licence "are refused
outright" (licenses.py:31).

Counterexample: "none AND MIT", one of whose operands is a word refused
outright.

When it does hold: exactly when the trimmed value is not an expression with an
operator as an operand, and not one of two or more operands among which is a
word refused outright (`license_exact_iff`).
-/
namespace SpikeHub.Bugs.LicenseOperands

open SpikeHub.Core SpikeHub.L1 SpikeHub.L4.Auth SpikeHub.L4.Catalog
open SpikeHub.L5.Requests (plain plain_ascii)

/-- An SPDX-style identifier of 1 to 63 characters. -/
structure Identifier (t : List Char) : Prop where
  nonempty : 1 ≤ t.length
  short : t.length ≤ 63
  first : ∀ c ∈ t.head?, letterOrDigit c = true
  chars : ∀ c ∈ t, tokenChar c = true

/-- Every operand names a licence, and every operator is one of the three. -/
structure Declares (e : Expression) : Prop where
  identifiers : ∀ t ∈ e.operands, Identifier t
  answers : ∀ t ∈ e.operands, ¬ NonAnswer t
  names : ∀ t ∈ e.operands, t ∉ operators
  joined : ∀ o ∈ e.rest, o.1 ∈ operators

/-- The grammar: the marker, or an expression that declares something. -/
def InGrammar (value : String) : Prop :=
  value = unverifiedCandidate ∨ ∃ e : Expression, Declares e ∧ e.render = value.toList

/-- `validate` accepts the string just when it is in the grammar, returns it
trimmed, and returns again what it returned. -/
structure Exact (p : Platform) (raw field : String) : Prop where
  accepts : (∃ value, validate p raw field = .ok value) ↔ InGrammar (PyStr.strip raw)
  returns : ∀ value, validate p raw field = .ok value →
    value = PyStr.strip raw ∧ validate p value field = .ok value

/-- Matched by the code's pattern, with an operand that is no identifier of a
licence and is not refused on its own. -/
def Stray (value : String) : Prop :=
  ∃ e : Expression, e.WellFormed ∧ e.render = value.toList ∧
    ∃ t ∈ e.operands, t ∈ operators ∨ e.rest ≠ [] ∧ NonAnswer t

variable {p : Platform} {raw field value : String} {e : Expression}

theorem isToken_iff_identifier {t : List Char} : isToken t = true ↔ Identifier t := by
  rw [isToken_iff]
  exact ⟨fun h => ⟨h.1, h.2.1, h.2.2.1, h.2.2.2⟩, fun h => ⟨h.nonempty, h.short, h.first, h.chars⟩⟩

theorem Declares.wellFormed (h : Declares e) : e.WellFormed :=
  ⟨fun t ht => isToken_iff_identifier.mpr (h.identifiers t ht), h.joined⟩

/-- The marker is a token like any other. -/
def marker : Expression := ⟨unverifiedCandidate.toList, []⟩

theorem marker_wellFormed : marker.WellFormed :=
  ⟨by decide, by decide⟩

theorem marker_render : marker.render = unverifiedCandidate.toList := Expression.render_single rfl

/-- A stray value is not in the grammar. -/
theorem Stray.not_inGrammar (h : Stray value) : ¬ InGrammar value := by
  obtain ⟨e, he, hrender, t, ht, hstray⟩ := h
  rintro (rfl | ⟨e', he', hrender'⟩)
  · -- the marker is one operand, and that is not an operator
    obtain rfl := Expression.render_inj he marker_wellFormed (hrender.trans marker_render.symm)
    obtain rfl : t = unverifiedCandidate.toList := List.mem_singleton.mp ht
    rcases hstray with hop | ⟨hrest, -⟩
    · exact absurd hop (by decide)
    · exact hrest rfl
  · obtain rfl := Expression.render_inj he he'.wellFormed (hrender.trans hrender'.symm)
    rcases hstray with hop | ⟨-, hanswer⟩
    · exact he'.names t ht hop
    · exact he'.answers t ht hanswer

/-- A stray value is returned. -/
theorem Stray.accepted (hl : p.LawfulAscii) (h : Stray (PyStr.strip raw)) :
    validate p raw field = .ok (PyStr.strip raw) := by
  obtain ⟨e, he, hrender, t, ht, hstray⟩ := h
  refine (validate_ok hl).mpr ⟨rfl, .inr ⟨e, he, hrender, ?_⟩⟩
  rintro ⟨hrest, hanswer⟩
  rcases hstray with hop | ⟨hmore, -⟩
  · -- a single operand that is an operator is not refused as a word
    have ht' : t ∈ e.first :: e.rest.map Prod.snd := ht
    rw [hrest] at ht'
    obtain rfl := List.mem_singleton.mp ht'
    have hplain : ∀ w ∈ operators, ¬ NonAnswer w := by decide
    exact hplain _ hop hanswer
  · exact hmore hrest

/-- What is in the grammar is returned. -/
theorem InGrammar.accepted (hl : p.LawfulAscii) (h : InGrammar (PyStr.strip raw)) :
    validate p raw field = .ok (PyStr.strip raw) := by
  refine (validate_ok hl).mpr ⟨rfl, h.imp_right ?_⟩
  rintro ⟨e, he, hrender⟩
  exact ⟨e, he.wellFormed, hrender, fun hw => he.answers e.first List.mem_cons_self hw.2⟩

/-- What is returned is in the grammar, or stray. -/
theorem inGrammar_of_accepted (hl : p.LawfulAscii) (h : validate p raw field = .ok value)
    (hnot : ¬ Stray (PyStr.strip raw)) : InGrammar (PyStr.strip raw) := by
  obtain ⟨rfl, hmarker | ⟨e, he, hrender, hsingle⟩⟩ := (validate_ok hl).mp h
  · exact .inl hmarker
  · have hnames : ∀ t ∈ e.operands, t ∉ operators := fun t ht hop =>
      hnot ⟨e, he, hrender, t, ht, .inl hop⟩
    have hanswers : ∀ t ∈ e.operands, ¬ NonAnswer t := by
      intro t ht hanswer
      by_cases hrest : e.rest = []
      · have ht' : t ∈ e.first :: e.rest.map Prod.snd := ht
        rw [hrest] at ht'
        obtain rfl := List.mem_singleton.mp ht'
        exact hsingle ⟨hrest, hanswer⟩
      · exact hnot ⟨e, he, hrender, t, ht, .inr ⟨hrest, hanswer⟩⟩
    exact .inr ⟨e, ⟨fun t ht => isToken_iff_identifier.mp (he.tokens t ht), hanswers, hnames, he.joined⟩,
      hrender⟩

/-- **When it holds**: exactly when the trimmed value has no such operand. -/
theorem license_exact_iff (hl : p.LawfulAscii) : Exact p raw field ↔ ¬ Stray (PyStr.strip raw) := by
  constructor
  · exact fun h hstray => hstray.not_inGrammar (h.accepts.mp ⟨_, hstray.accepted hl⟩)
  · intro hnot
    refine ⟨⟨?_, fun h => ⟨_, h.accepted hl⟩⟩, fun value h => validate_again hl h⟩
    rintro ⟨value, h⟩
    exact inGrammar_of_accepted hl h hnot

/-- `MIT AND Apache-2.0` -/
def mitAndApache : Expression := ⟨"MIT".toList, [("AND".toList, "Apache-2.0".toList)]⟩

theorem mitAndApache_not_stray : ¬ Stray (PyStr.strip "MIT AND Apache-2.0") := by
  have hrender : mitAndApache.render = (PyStr.strip "MIT AND Apache-2.0").toList := by decide
  rintro ⟨e, he, hrender', t, ht, hstray⟩
  obtain rfl := Expression.render_inj he ⟨by decide, by decide⟩ (hrender'.trans hrender.symm)
  have hplain : ∀ w ∈ mitAndApache.operands, w ∉ operators ∧ ¬ NonAnswer w := by decide
  rcases hstray with hop | ⟨-, hanswer⟩
  · exact (hplain t ht).1 hop
  · exact (hplain t ht).2 hanswer

theorem exact_mitAndApache : Exact plain "MIT AND Apache-2.0" "license" :=
  (license_exact_iff plain_ascii).mpr mitAndApache_not_stray

/-! ## Counterexample -/

/-- `none AND MIT` -/
def noneAndMit : Expression := ⟨"none".toList, [("AND".toList, "MIT".toList)]⟩

theorem noneAndMit_stray : Stray (PyStr.strip "none AND MIT") := by
  refine ⟨noneAndMit, ⟨by decide, by decide⟩, by decide, "none".toList, by decide, .inr ⟨by decide, by decide⟩⟩

/-- **Counterexample**: the value is returned as a licence, and one of its
operands is a word refused outright. -/
theorem none_and_mit_accepted : validate plain "none AND MIT" "license" = .ok "none AND MIT" ∧
    ¬ Exact plain "none AND MIT" "license" := by
  have hstrip : PyStr.strip "none AND MIT" = "none AND MIT" := by decide
  have haccepted : validate plain "none AND MIT" "license" = .ok (PyStr.strip "none AND MIT") :=
    noneAndMit_stray.accepted plain_ascii
  rw [hstrip] at haccepted
  exact ⟨haccepted, fun h => noneAndMit_stray.not_inGrammar (h.accepts.mp ⟨_, haccepted⟩)⟩

end SpikeHub.Bugs.LicenseOperands
