import SpikeHub.L4Auth.Platform

/-!
# Licence declarations

Model of hub_api/catalog/licenses.py. `_EXPRESSION` is read word by word: no
token and no operator has a space in it, so a value matches where the words
between its spaces are a token and any number of pairs of an operator and a
token. `Expression` is such a chain as the grammar has it, and the two agree
(`expressionShape_iff`); an expression is determined by its text
(`Expression.render_inj`).

What `validate` returns is the trimmed value (`validate_ok`), and a refusal
names the field it checked (`validate_refused`).
-/
namespace SpikeHub.L4.Catalog

open SpikeHub.Core SpikeHub.L1 SpikeHub.L4.Auth

/-- `UNVERIFIED_CANDIDATE` -/
def unverifiedCandidate : String := "unverified-candidate"

/-- `[A-Za-z0-9]` -/
def letterOrDigit (c : Char) : Bool :=
  ('A' ≤ c && c ≤ 'Z') || ('a' ≤ c && c ≤ 'z') || ('0' ≤ c && c ≤ '9')

/-- `[A-Za-z0-9.+-]` -/
def tokenChar (c : Char) : Bool := letterOrDigit c || c = '.' || c = '+' || c = '-'

/-- `_TOKEN`: `[A-Za-z0-9][A-Za-z0-9.+-]{0,62}` -/
def isToken : List Char → Bool
  | [] => false
  | first :: rest => letterOrDigit first && rest.length ≤ 62 && rest.all tokenChar

/-- `WITH|AND|OR` -/
def operators : List (List Char) := ["WITH".toList, "AND".toList, "OR".toList]

/-- The words of `(?: (?:WITH|AND|OR) TOKEN)*` -/
def chainShape : List (List Char) → Bool
  | [] => true
  | [_] => false
  | operator :: token :: rest => operator ∈ operators && isToken token && chainShape rest

/-- `TOKEN(?: (?:WITH|AND|OR) TOKEN)*` -/
def expressionShape (cs : List Char) : Bool :=
  match cs.splitOn ' ' with
  | [] => false
  | token :: rest => isToken token && chainShape rest

/-- `_EXPRESSION.match`, whose `$` also matches before a newline at the end. -/
def matchesExpression (cs : List Char) : Bool :=
  expressionShape cs || (cs.getLast? = some '\n' && expressionShape cs.dropLast)

/-- `_NON_ANSWERS` -/
def nonAnswers : List String :=
  ["unknown", "none", "other", "custom", "proprietary", "see-repo", "see-readme", "tbd", "n/a", "na"]

/-- mirrors hub_api/catalog/licenses.py:54-73 -/
def validate (p : Platform) (raw field : String) : Except Raised String :=
  let value := PyStr.strip raw
  if value = unverifiedCandidate then .ok value
  else if p.lower value ∈ nonAnswers ∨ value = "" then
    refuse .invalidLicense (field ++ " must be a concrete SPDX-style identifier (for example " ++
      "'BSD-3-Clause' or 'CC-BY-4.0'), or the exact marker '" ++ unverifiedCandidate ++
      "' when the licence could not be read from the publisher's own page") [("field", .str field)]
  else if ¬ matchesExpression value.toList then
    refuse .invalidLicense (field ++ " is not a valid SPDX-style identifier or expression")
      [("field", .str field)]
  else .ok value

/-! ## The grammar -/

/-- `t1 op t2 op ... tn`: the first operand, and each operator with the operand
behind it. -/
structure Expression where
  first : List Char
  rest : List (List Char × List Char)
deriving DecidableEq

namespace Expression

def operands (e : Expression) : List (List Char) := e.first :: e.rest.map Prod.snd

def words (e : Expression) : List (List Char) := e.first :: e.rest.flatMap fun o => [o.1, o.2]

/-- The words with single spaces between them. -/
def render (e : Expression) : List Char := [' '].intercalate e.words

/-- Every operand is a token and every operator one of the three. -/
structure WellFormed (e : Expression) : Prop where
  tokens : ∀ t ∈ e.operands, isToken t = true
  joined : ∀ o ∈ e.rest, o.1 ∈ operators

end Expression

variable {p : Platform} {raw field value : String} {t cs : List Char} {c : Char} {e e' : Expression}
  {ws : List (List Char)} {os os' : List (List Char × List Char)}

theorem tokenChar_of_letterOrDigit (h : letterOrDigit c = true) : tokenChar c = true := by
  simp [tokenChar, h]

/-- A character of tokens is ASCII, and none of the white space. -/
theorem tokenChar_range (h : tokenChar c = true) : 43 ≤ c.toNat ∧ c.toNat ≤ 122 := by
  simp only [tokenChar, letterOrDigit, Bool.or_eq_true, Bool.and_eq_true, decide_eq_true_eq] at h
  rcases h with ((((⟨hlow, hhigh⟩ | ⟨hlow, hhigh⟩) | ⟨hlow, hhigh⟩) | rfl) | rfl) | rfl
  · exact ⟨Nat.le_trans (by decide) hlow, Nat.le_trans hhigh (by decide)⟩
  · exact ⟨Nat.le_trans (by decide) hlow, hhigh⟩
  · exact ⟨Nat.le_trans (by decide) hlow, Nat.le_trans hhigh (by decide)⟩
  · decide
  · decide
  · decide

theorem tokenChar_of_mem (h : isToken t = true) (hc : c ∈ t) : tokenChar c = true := by
  cases t with
  | nil => cases hc
  | cons first rest =>
    simp only [isToken, Bool.and_eq_true, List.all_eq_true] at h
    rcases List.mem_cons.mp hc with rfl | hc
    · exact tokenChar_of_letterOrDigit h.1.1
    · exact h.2 c hc

theorem blank_not_mem_token (h : isToken t = true) : ' ' ∉ t := fun hc =>
  absurd (tokenChar_of_mem h hc) (by decide)

theorem blank_not_mem_operator (h : t ∈ operators) : ' ' ∉ t := by
  revert t
  decide

/-- A token is 1 to 63 characters of tokens, the first a letter or a digit. -/
theorem isToken_iff : isToken t = true ↔
    1 ≤ t.length ∧ t.length ≤ 63 ∧ (∀ c ∈ t.head?, letterOrDigit c = true) ∧
      ∀ c ∈ t, tokenChar c = true := by
  cases t with
  | nil => simp [isToken]
  | cons first rest =>
    simp only [isToken, Bool.and_eq_true, List.all_eq_true, decide_eq_true_eq, List.length_cons,
      List.head?_cons, Option.mem_def, Option.some.injEq, forall_eq', List.mem_cons, forall_eq_or_imp]
    constructor
    · intro h
      exact ⟨by omega, by omega, h.1.1, tokenChar_of_letterOrDigit h.1.1, h.2⟩
    · intro h
      exact ⟨⟨h.2.2.1, by omega⟩, h.2.2.2.2⟩

/-! ## The words of an expression -/

/-- The words of a chain are the pairs of an operator and a token it is made of. -/
theorem chainShape_iff : chainShape ws = true ↔
    ∃ os : List (List Char × List Char), ws = os.flatMap (fun o => [o.1, o.2]) ∧
      (∀ o ∈ os, o.1 ∈ operators) ∧ ∀ o ∈ os, isToken o.2 = true := by
  constructor
  · intro h
    induction ws using chainShape.induct with
    | case1 => exact ⟨[], rfl, by simp, by simp⟩
    | case2 => cases h
    | case3 operator token rest ih =>
      simp only [chainShape, Bool.and_eq_true, decide_eq_true_eq] at h
      obtain ⟨os, rfl, hoperators, htokens⟩ := ih h.2
      refine ⟨(operator, token) :: os, rfl, ?_, ?_⟩
      · exact List.forall_mem_cons.mpr ⟨h.1.1, hoperators⟩
      · exact List.forall_mem_cons.mpr ⟨h.1.2, htokens⟩
  · rintro ⟨os, rfl, hoperators, htokens⟩
    induction os with
    | nil => rfl
    | cons o os ih =>
      have hfirst : o.1 ∈ operators := hoperators o List.mem_cons_self
      have hsecond : isToken o.2 = true := htokens o List.mem_cons_self
      have hrest := ih (fun o ho => hoperators o (List.mem_cons_of_mem _ ho))
        fun o ho => htokens o (List.mem_cons_of_mem _ ho)
      simp [chainShape, hfirst, hsecond, hrest]

namespace Expression

theorem WellFormed.blank_not_mem (h : e.WellFormed) (ht : t ∈ e.words) : ' ' ∉ t := by
  rcases List.mem_cons.mp ht with rfl | ht
  · exact blank_not_mem_token (h.tokens _ List.mem_cons_self)
  · obtain ⟨o, ho, hto⟩ := List.mem_flatMap.mp ht
    rcases List.mem_cons.mp hto with rfl | hto
    · exact blank_not_mem_operator (h.joined o ho)
    · obtain rfl := List.mem_singleton.mp hto
      exact blank_not_mem_token (h.tokens _ (List.mem_cons_of_mem _ (List.mem_map_of_mem ho)))

/-- The words are read back from the text. -/
theorem WellFormed.splitOn_render (h : e.WellFormed) : e.render.splitOn ' ' = e.words :=
  List.splitOn_intercalate ' ' (fun _ ht => h.blank_not_mem ht) (List.cons_ne_nil _ _)

theorem pairs_inj (h : os.flatMap (fun o => [o.1, o.2]) = os'.flatMap fun o => [o.1, o.2]) :
    os = os' := by
  induction os generalizing os' with
  | nil =>
    cases os' with
    | nil => rfl
    | cons o' os' => simp at h
  | cons o os ih =>
    cases os' with
    | nil => simp at h
    | cons o' os' =>
      simp only [List.flatMap_cons, List.cons_append, List.nil_append, List.cons.injEq] at h
      rw [Prod.ext h.1 h.2.1, ih h.2.2]

/-- The text of an expression determines it. -/
theorem render_inj (h : e.WellFormed) (h' : e'.WellFormed) (he : e.render = e'.render) : e = e' := by
  have hwords : e.words = e'.words := by rw [← h.splitOn_render, ← h'.splitOn_render, he]
  obtain ⟨hfirst, hrest⟩ := List.cons.inj hwords
  obtain ⟨first, rest⟩ := e
  obtain ⟨first', rest'⟩ := e'
  obtain rfl : first = first' := hfirst
  obtain rfl : rest = rest' := pairs_inj hrest
  rfl

/-- What stands in the text of an expression: its tokens, its operators, and blanks. -/
theorem mem_render (hc : c ∈ e.render) : c = ' ' ∨ ∃ t ∈ e.words, c ∈ t := by
  unfold render at hc
  generalize e.words = ws at hc ⊢
  induction ws with
  | nil => simp at hc
  | cons w ws ih =>
    cases ws with
    | nil =>
      rw [List.intercalate_singleton] at hc
      exact .inr ⟨w, List.mem_cons_self, hc⟩
    | cons w' ws =>
      rw [List.intercalate_cons_cons, List.mem_append, List.mem_append, List.mem_singleton] at hc
      rcases hc with (hc | hc) | hc
      · exact .inr ⟨w, List.mem_cons_self, hc⟩
      · exact .inl hc
      · exact (ih hc).imp_right fun ⟨t, ht, hct⟩ => ⟨t, List.mem_cons_of_mem _ ht, hct⟩

end Expression

/-- The shape is that of the expressions. -/
theorem expressionShape_iff : expressionShape cs = true ↔ ∃ e : Expression, e.WellFormed ∧ e.render = cs := by
  constructor
  · intro h
    unfold expressionShape at h
    cases hwords : cs.splitOn ' ' with
    | nil => simp [hwords] at h
    | cons first rest =>
      simp only [hwords, Bool.and_eq_true] at h
      obtain ⟨os, hos, hoperators, htokens⟩ := chainShape_iff.mp h.2
      refine ⟨⟨first, os⟩, ⟨?_, hoperators⟩, ?_⟩
      · refine List.forall_mem_cons.mpr ⟨h.1, fun t ht => ?_⟩
        obtain ⟨o, ho, rfl⟩ := List.mem_map.mp ht
        exact htokens o ho
      · have hall : Expression.words ⟨first, os⟩ = cs.splitOn ' ' := by rw [hwords, hos]; rfl
        rw [Expression.render, hall, List.intercalate_splitOn]
  · rintro ⟨e, he, rfl⟩
    unfold expressionShape
    rw [he.splitOn_render]
    have htail : chainShape (e.rest.flatMap fun o => [o.1, o.2]) = true :=
      chainShape_iff.mpr ⟨e.rest, rfl, he.joined, fun o ho =>
        he.tokens _ (List.mem_cons_of_mem _ (List.mem_map_of_mem ho))⟩
    simp only [Expression.words, he.tokens e.first List.mem_cons_self, htail, Bool.and_true]

/-- Nothing stripped ends in a newline. -/
theorem matchesExpression_strip :
    matchesExpression (PyStr.strip raw).toList = expressionShape (PyStr.strip raw).toList := by
  have hlast : (PyStr.strip raw).toList.getLast? ≠ some '\n' := by
    intro h
    rw [PyStr.strip, String.toList_ofList] at h
    exact absurd (PyStr.stripOf_getLast h) (by decide)
  simp [matchesExpression, hlast]

/-! ## What is returned -/

/-- A token that is one of the words refused outright, in any letter case. -/
def NonAnswer (t : List Char) : Prop := String.ofList (t.map Char.toLower) ∈ nonAnswers

instance : Decidable (NonAnswer t) := inferInstanceAs (Decidable (_ ∈ _))

theorem blank_not_mem_nonAnswers : ∀ w ∈ nonAnswers, ' ' ∉ w.toList := by decide

theorem Expression.WellFormed.ascii (h : e.WellFormed) (hc : c ∈ e.render) : c.toNat < 128 := by
  have htoken : ∀ {t : List Char}, isToken t = true → c ∈ t → c.toNat < 128 := fun ht hct => by
    have hrange := tokenChar_range (tokenChar_of_mem ht hct)
    omega
  rcases Expression.mem_render hc with rfl | ⟨t, ht, hct⟩
  · decide
  · rcases List.mem_cons.mp ht with rfl | ht
    · exact htoken (h.tokens _ List.mem_cons_self) hct
    · obtain ⟨o, ho, hto⟩ := List.mem_flatMap.mp ht
      rcases List.mem_cons.mp hto with rfl | hto
      · have hoperators : (operators.all fun w => w.all fun c => c.toNat < 128) = true := by decide +kernel
        have hword := List.all_eq_true.mp hoperators _ (h.joined o ho)
        exact of_decide_eq_true (List.all_eq_true.mp hword c hct)
      · obtain rfl := List.mem_singleton.mp hto
        exact htoken (h.tokens _ (List.mem_cons_of_mem _ (List.mem_map_of_mem ho))) hct

/-- With more than one operand there is a blank. -/
theorem Expression.blank_mem_render (h : e.rest ≠ []) : ' ' ∈ e.render := by
  obtain ⟨first, rest⟩ := e
  cases rest with
  | nil => exact absurd rfl h
  | cons o os => simp [Expression.render, Expression.words, List.intercalate_cons_cons]

theorem Expression.render_single (h : e.rest = []) : e.render = e.first := by
  obtain ⟨first, rest⟩ := e
  obtain rfl : rest = [] := h
  simp [Expression.render, Expression.words]

/-- The words refused outright are compared with the value as a whole. -/
theorem lower_mem_nonAnswers (hl : p.LawfulAscii) (he : e.WellFormed) (hv : e.render = value.toList) :
    p.lower value ∈ nonAnswers ↔ e.rest = [] ∧ NonAnswer e.first := by
  have hlower : p.lower value = String.ofList (e.render.map Char.toLower) := by
    rw [hv]
    exact hl.lowered value fun c hc => he.ascii (hv ▸ hc)
  rw [hlower]
  by_cases hrest : e.rest = []
  · simp only [Expression.render_single hrest, hrest, true_and, NonAnswer]
  · simp only [hrest, false_and, iff_false]
    intro hmem
    have hblank : ' ' ∈ (String.ofList (e.render.map Char.toLower)).toList := by
      rw [String.toList_ofList]
      exact List.mem_map.mpr ⟨' ', Expression.blank_mem_render hrest, by decide⟩
    exact blank_not_mem_nonAnswers _ hmem hblank

/-- `validate` returns the trimmed value: the marker, or an expression that is
not as a whole one of the words refused outright. -/
theorem validate_ok (hl : p.LawfulAscii) : validate p raw field = .ok value ↔
    value = PyStr.strip raw ∧ (value = unverifiedCandidate ∨
      ∃ e : Expression, e.WellFormed ∧ e.render = value.toList ∧ ¬ (e.rest = [] ∧ NonAnswer e.first)) := by
  unfold validate refuse
  dsimp only
  rw [matchesExpression_strip]
  by_cases hmarker : PyStr.strip raw = unverifiedCandidate
  · rw [if_pos hmarker, Except.ok.injEq]
    exact ⟨fun h => ⟨h.symm, .inl (h ▸ hmarker)⟩, fun h => h.1.symm⟩
  · rw [if_neg hmarker]
    by_cases hexpr : expressionShape (PyStr.strip raw).toList = true
    · obtain ⟨e, he, hrender⟩ := expressionShape_iff.mp hexpr
      have hne : PyStr.strip raw ≠ "" := by
        intro h
        rw [h] at hexpr
        exact absurd hexpr (by decide)
      simp only [lower_mem_nonAnswers hl he hrender, hne, or_false, hexpr, not_true_eq_false, if_false]
      by_cases hanswer : e.rest = [] ∧ NonAnswer e.first
      · simp only [hanswer, and_self, if_true, reduceCtorEq, false_iff]
        rintro ⟨rfl, hm | ⟨e', he', hrender', hnot⟩⟩
        · exact hmarker hm
        · rw [Expression.render_inj he' he (hrender'.trans hrender.symm)] at hnot
          exact hnot hanswer
      · rw [if_neg hanswer, Except.ok.injEq]
        constructor
        · rintro rfl
          exact ⟨rfl, .inr ⟨e, he, hrender, hanswer⟩⟩
        · exact fun h => h.1.symm
    · have hnone : ¬ (value = PyStr.strip raw ∧ (value = unverifiedCandidate ∨ ∃ e : Expression,
          e.WellFormed ∧ e.render = value.toList ∧ ¬ (e.rest = [] ∧ NonAnswer e.first))) := by
        rintro ⟨rfl, hm | ⟨e, he, hrender, -⟩⟩
        · exact hmarker hm
        · exact hexpr (expressionShape_iff.mpr ⟨e, he, hrender⟩)
      simp only [hexpr, hnone, Bool.false_eq_true, not_false_eq_true, if_true, iff_false]
      split <;> simp

/-- What is returned is returned again. -/
theorem validate_again (hl : p.LawfulAscii) (h : validate p raw field = .ok value) :
    value = PyStr.strip raw ∧ validate p value field = .ok value := by
  obtain ⟨rfl, hvalue⟩ := (validate_ok hl).mp h
  exact ⟨rfl, (validate_ok hl).mpr ⟨(PyStr.strip_strip raw).symm, hvalue⟩⟩

/-- A refusal is the one of licences, and names the field it is about. -/
theorem validate_refused {r : Raised} (h : validate p raw field = .error r) :
    ∃ detail, r = .hub ⟨.invalidLicense, detail, [("field", .str field)]⟩ := by
  unfold validate refuse at h
  dsimp only at h
  split at h
  · cases h
  · split at h
    · exact ⟨_, (Except.error.inj h).symm⟩
    · split at h
      · exact ⟨_, (Except.error.inj h).symm⟩
      · cases h

end SpikeHub.L4.Catalog
