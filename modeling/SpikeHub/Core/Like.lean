import Mathlib.Data.List.Infix
import Mathlib.Tactic.Common

/-!
# LIKE patterns

The pattern language of SQL's `LIKE`, over any alphabet: `Marks` are the
characters that stand for any run, for any one character, and for the character
after them as it is. `parse` reads a pattern, which must not end in the escape
character, and `accepts` matches the whole of a text.

A pattern without marks between two `any` searches for the characters as they
are (`accepts_search`). Every pattern has texts of its own: `fill` puts nothing
for `any` and a chosen character for `one`. The text a pattern is filled to is
the pattern itself only where there are no marks (`Filled`).
-/
namespace SpikeHub.Core.Like

structure Marks (α : Type) where
  any : α
  one : α
  escape : α
deriving DecidableEq

inductive Token (α : Type)
  | any
  | one
  | lit (c : α)
deriving DecidableEq

variable {α : Type} [DecidableEq α]

/-- The tokens of a pattern, or none where it ends in the escape character. -/
def parse (m : Marks α) : List α → Option (List (Token α))
  | [] => some []
  | c :: cs =>
    if c = m.escape then
      match cs with
      | [] => none
      | d :: ds => (parse m ds).map (.lit d :: ·)
    else if c = m.any then (parse m cs).map (.any :: ·)
    else if c = m.one then (parse m cs).map (.one :: ·)
    else (parse m cs).map (.lit c :: ·)

def accepts : List (Token α) → List α → Bool
  | [], text => text.isEmpty
  | .any :: ts, text => text.tails.any (accepts ts)
  | .one :: _, [] => false
  | .one :: ts, _ :: text => accepts ts text
  | .lit _ :: _, [] => false
  | .lit c :: ts, d :: text => c = d && accepts ts text

/-- A text of the pattern: nothing for `any`, the filler for `one`. -/
def fill (filler : α) : List (Token α) → List α
  | [] => []
  | .any :: ts => fill filler ts
  | .one :: ts => filler :: fill filler ts
  | .lit c :: ts => c :: fill filler ts

/-- No mark at all. -/
def Marks.Unmarked (m : Marks α) (c : α) : Prop := c ≠ m.any ∧ c ≠ m.one ∧ c ≠ m.escape

instance (m : Marks α) (c : α) : Decidable (m.Unmarked c) := inferInstanceAs (Decidable (_ ∧ _))

variable {m : Marks α} {ts : List (Token α)} {xs text : List α} {filler c : α}

/-! ## What a pattern accepts -/

theorem accepts_any : accepts (.any :: ts) text = true ↔ ∃ s, s <:+ text ∧ accepts ts s = true := by
  simp only [accepts, List.any_eq_true, List.mem_tails]

theorem accepts_literal : accepts (xs.map .lit ++ [.any]) text = true ↔ xs <+: text := by
  induction xs generalizing text with
  | nil =>
    simp only [List.map_nil, List.nil_append, accepts_any, List.nil_prefix, iff_true]
    exact ⟨[], List.nil_suffix, rfl⟩
  | cons x xs ih =>
    cases text with
    | nil => simp [accepts]
    | cons d text =>
      simp only [List.map_cons, List.cons_append, accepts, Bool.and_eq_true, decide_eq_true_eq, ih,
        List.cons_prefix_cons]

/-- Between two `any`, characters are searched for as they are. -/
theorem accepts_search : accepts (.any :: (xs.map .lit ++ [.any])) text = true ↔ xs <:+: text := by
  rw [accepts_any, List.infix_iff_prefix_suffix]
  constructor
  · rintro ⟨s, hs, h⟩
    exact ⟨s, accepts_literal.mp h, hs⟩
  · rintro ⟨s, h, hs⟩
    exact ⟨s, hs, accepts_literal.mpr h⟩

theorem accepts_fill (filler : α) (ts : List (Token α)) : accepts ts (fill filler ts) = true := by
  induction ts with
  | nil => rfl
  | cons t ts ih =>
    cases t with
    | any => exact accepts_any.mpr ⟨_, List.suffix_rfl, ih⟩
    | one => exact ih
    | lit c =>
      simp only [fill, accepts, decide_true, Bool.true_and]
      exact ih

/-! ## Reading a pattern -/

theorem parse_escape (d : α) (ds : List α) :
    parse m (m.escape :: d :: ds) = (parse m ds).map (.lit d :: ·) := by
  rw [parse, if_pos rfl]

theorem parse_any (hm : m.any ≠ m.escape) (cs : List α) :
    parse m (m.any :: cs) = (parse m cs).map (.any :: ·) := by
  rw [parse.eq_def]
  simp only [if_neg hm, if_pos]

theorem parse_one (hone : m.one ≠ m.escape) (hm : m.one ≠ m.any) (cs : List α) :
    parse m (m.one :: cs) = (parse m cs).map (.one :: ·) := by
  rw [parse.eq_def]
  simp only [if_neg hone, if_neg hm, if_pos]

theorem parse_unmarked (h : m.Unmarked c) (cs : List α) :
    parse m (c :: cs) = (parse m cs).map (.lit c :: ·) := by
  rw [parse.eq_def]
  simp only [if_neg h.2.2, if_neg h.1, if_neg h.2.1]

/-- Characters that are no marks are read as they are. -/
theorem parse_literal (hm : m.any ≠ m.escape) (h : ∀ c ∈ xs, m.Unmarked c) :
    parse m (xs ++ [m.any]) = some (xs.map .lit ++ [.any]) := by
  induction xs with
  | nil => exact parse_any hm []
  | cons x xs ih =>
    obtain ⟨hx, hxs⟩ := List.forall_mem_cons.mp h
    rw [List.cons_append, parse_unmarked hx, ih hxs]
    rfl

/-- The tokens of a pattern that ends in `any`, and the text they are filled to:
no longer than the pattern before its end, equal to it only where that has no
marks, and of no characters but its own, the filler and an escaped `any`. -/
structure Filled (m : Marks α) (filler : α) (xs : List α) (ts : List (Token α)) : Prop where
  read : parse m (xs ++ [m.any]) = some ts
  short : (fill filler ts).length ≤ xs.length
  same : fill filler ts = xs → ∀ c ∈ xs, m.Unmarked c
  chars : ∀ c ∈ fill filler ts, c ∈ xs ∨ c = filler ∨ c = m.any

theorem Filled.nil (hm : m.any ≠ m.escape) : Filled m filler [] [.any] := by
  refine ⟨parse_any hm [], ?_, ?_, ?_⟩ <;> simp [fill]

/-- The end of the pattern is what an escape at its end stands before. -/
theorem Filled.escapes_end (hm : m.any ≠ m.escape) : Filled m filler [m.escape] [.lit m.any] where
  read := parse_escape m.any []
  short := by simp [fill]
  same h := absurd (List.cons.inj h).1 hm
  chars := by simp [fill]

theorem Filled.escaped (h : Filled m filler xs ts) (c : α) :
    Filled m filler (m.escape :: c :: xs) (.lit c :: ts) := by
  have hshort : (fill filler (.lit c :: ts)).length ≤ xs.length + 1 := Nat.succ_le_succ h.short
  refine ⟨?_, ?_, ?_, ?_⟩
  · rw [List.cons_append, List.cons_append, parse_escape, h.read]
    rfl
  · exact hshort.trans (Nat.le_succ _)
  · intro heq
    rw [heq, List.length_cons, List.length_cons] at hshort
    omega
  · intro x hx
    rcases List.mem_cons.mp hx with rfl | hx
    · exact .inl (by simp)
    · exact (h.chars x hx).imp_left fun hx => by simp [hx]

theorem Filled.chars_cons (h : Filled m filler xs ts) (c : α) :
    ∀ x ∈ fill filler ts, x ∈ c :: xs ∨ x = filler ∨ x = m.any := fun x hx =>
  (h.chars x hx).imp_left (List.mem_cons_of_mem c)

theorem Filled.any (h : Filled m filler xs ts) (hm : m.any ≠ m.escape) :
    Filled m filler (m.any :: xs) (.any :: ts) := by
  refine ⟨?_, Nat.le_succ_of_le h.short, ?_, h.chars_cons m.any⟩
  · rw [List.cons_append, parse_any hm, h.read]
    rfl
  · intro heq
    have hlen := congrArg List.length heq
    have hshort := h.short
    simp only [fill, List.length_cons] at hlen
    omega

theorem Filled.one (h : Filled m filler xs ts) (hone : m.one ≠ m.escape) (hany : m.one ≠ m.any)
    (hfiller : filler ≠ m.one) : Filled m filler (m.one :: xs) (.one :: ts) := by
  refine ⟨?_, Nat.succ_le_succ h.short, ?_, ?_⟩
  · rw [List.cons_append, parse_one hone hany, h.read]
    rfl
  · intro heq
    exact absurd (List.cons.inj heq).1 hfiller
  · exact List.forall_mem_cons.mpr ⟨.inr (.inl rfl), h.chars_cons m.one⟩

theorem Filled.unmarked (h : Filled m filler xs ts) (hc : m.Unmarked c) :
    Filled m filler (c :: xs) (.lit c :: ts) := by
  refine ⟨?_, Nat.succ_le_succ h.short, ?_, ?_⟩
  · rw [List.cons_append, parse_unmarked hc, h.read]
    rfl
  · intro heq
    exact List.forall_mem_cons.mpr ⟨hc, h.same (List.cons.inj heq).2⟩
  · exact List.forall_mem_cons.mpr ⟨.inl List.mem_cons_self, h.chars_cons c⟩

/-- The cases are those of `parse`. -/
theorem exists_filled (hm : m.any ≠ m.escape) (hfiller : filler ≠ m.one) :
    ∀ xs : List α, ∃ ts, Filled m filler xs ts
  | [] => ⟨_, .nil hm⟩
  | c :: cs => by
    by_cases hesc : c = m.escape
    · subst hesc
      cases cs with
      | nil => exact ⟨_, .escapes_end hm⟩
      | cons d ds =>
        obtain ⟨ts, hts⟩ := exists_filled hm hfiller ds
        exact ⟨_, hts.escaped d⟩
    · obtain ⟨ts, hts⟩ := exists_filled hm hfiller cs
      by_cases hany : c = m.any
      · subst hany
        exact ⟨_, hts.any hm⟩
      · by_cases hone : c = m.one
        · subst hone
          exact ⟨_, hts.one hesc hany hfiller⟩
        · exact ⟨_, hts.unmarked ⟨hany, hone, hesc⟩⟩

end SpikeHub.Core.Like
