import Mathlib.Data.List.Basic
import Mathlib.Tactic.Common

/-!
# Regular expressions

Patterns of a backtracking matcher, over any alphabet: a class of characters,
one pattern after another, an optional one, and one repeated at least `lo` times
and at most `more` times more.

`left` is the matcher: what may be left of a text when the pattern took its
beginning, in the order the matcher tries, greedy first. `Matches` is the
language, and the matcher finds exactly that (`mem_left`). `matchesLine` is a
match of `^…$`: `$` stands at the end, and before a line break at the end
(`matchesLine_iff`).

`matches_rep_cls` and `matches_ended` read two patterns as lengths and characters.
-/
namespace SpikeHub.Core

inductive Regex (α : Type)
  | cls (p : α → Bool)
  | seq (r s : Regex α)
  | opt (r : Regex α)
  | rep (r : Regex α) (lo more : Nat)

namespace Regex

variable {α : Type}

/-- `f` as often as it goes, `more` times at most. -/
def upTo (f : List α → List (List α)) : Nat → List α → List (List α)
  | 0, xs => [xs]
  | more + 1, xs => (f xs).flatMap (upTo f more) ++ [xs]

/-- `f`, `lo` times, and then at most `more` times more. -/
def repeated (f : List α → List (List α)) (more : Nat) : Nat → List α → List (List α)
  | 0, xs => upTo f more xs
  | lo + 1, xs => (f xs).flatMap (repeated f more lo)

def left : Regex α → List α → List (List α)
  | cls _, [] => []
  | cls p, c :: cs => if p c then [cs] else []
  | seq r s, xs => (r.left xs).flatMap s.left
  | opt r, xs => r.left xs ++ [xs]
  | rep r lo more, xs => repeated r.left more lo xs

/-- A match of `^r$` at the beginning of a text whose line break is `eol`. -/
def matchesLine [DecidableEq α] (r : Regex α) (eol : α) (xs : List α) : Bool :=
  (r.left xs).any fun rest => rest = [] || rest = [eol]

/-- The language of a pattern. -/
def Matches : Regex α → List α → Prop
  | cls p, xs => ∃ c, p c = true ∧ xs = [c]
  | seq r s, xs => ∃ ys zs, r.Matches ys ∧ s.Matches zs ∧ xs = ys ++ zs
  | opt r, xs => r.Matches xs ∨ xs = []
  | rep r lo more, xs => ∃ parts : List (List α), lo ≤ parts.length ∧ parts.length ≤ lo + more ∧
      (∀ ys ∈ parts, r.Matches ys) ∧ xs = parts.flatten

variable {r s : Regex α} {p inner ends : α → Bool} {xs ys : List α} {lo more k : Nat} {eol : α}

/-! ## The matcher -/

/-- Parts in `L`, from `lo` to `hi` of them, that `xs` begins with. -/
def Parts (L : List α → Prop) (lo hi : Nat) (xs ys : List α) : Prop :=
  ∃ parts : List (List α), lo ≤ parts.length ∧ parts.length ≤ hi ∧ (∀ zs ∈ parts, L zs) ∧
    xs = parts.flatten ++ ys

/-- One part, and then the others. -/
theorem mem_first {f g : List α → List (List α)} {L : List α → Prop} {hi : Nat}
    (hf : ∀ zs, zs ∈ f xs ↔ ∃ ws, L ws ∧ xs = ws ++ zs)
    (hg : ∀ zs, ys ∈ g zs ↔ Parts L lo hi zs ys) :
    ys ∈ (f xs).flatMap g ↔ Parts L (lo + 1) (hi + 1) xs ys := by
  rw [List.mem_flatMap]
  constructor
  · rintro ⟨zs, hzs, hys⟩
    obtain ⟨ws, hws, rfl⟩ := (hf zs).mp hzs
    obtain ⟨parts, hlo, hhi, hall, rfl⟩ := (hg zs).mp hys
    refine ⟨ws :: parts, Nat.succ_le_succ hlo, Nat.succ_le_succ hhi, ?_, ?_⟩
    · exact List.forall_mem_cons.mpr ⟨hws, hall⟩
    · rw [List.flatten_cons, List.append_assoc]
  · rintro ⟨parts, hlo, hhi, hall, hxs⟩
    cases parts with
    | nil => cases hlo
    | cons ws parts =>
      obtain ⟨hws, hall⟩ := List.forall_mem_cons.mp hall
      rw [List.flatten_cons, List.append_assoc] at hxs
      refine ⟨parts.flatten ++ ys, (hf _).mpr ⟨ws, hws, hxs⟩, (hg _).mpr ?_⟩
      exact ⟨parts, Nat.le_of_succ_le_succ hlo, Nat.le_of_succ_le_succ hhi, hall, rfl⟩

theorem mem_upTo {f : List α → List (List α)} {L : List α → Prop}
    (hf : ∀ xs zs, zs ∈ f xs ↔ ∃ ws, L ws ∧ xs = ws ++ zs) :
    ∀ {more : Nat} {xs : List α}, ys ∈ upTo f more xs ↔ Parts L 0 more xs ys
  | 0, xs => by
    rw [upTo, List.mem_singleton]
    constructor
    · rintro rfl
      exact ⟨[], Nat.le_refl 0, Nat.le_refl 0, by simp, rfl⟩
    · rintro ⟨parts, -, hnone, -, rfl⟩
      rw [List.eq_nil_of_length_eq_zero (Nat.le_zero.mp hnone)]
      rfl
  | more + 1, xs => by
    rw [upTo, List.mem_append, mem_first (hf xs) fun _ => mem_upTo hf, List.mem_singleton]
    constructor
    · rintro (⟨parts, -, hhi, hall, hxs⟩ | rfl)
      · exact ⟨parts, Nat.zero_le _, hhi, hall, hxs⟩
      · exact ⟨[], Nat.le_refl 0, Nat.zero_le _, by simp, rfl⟩
    · rintro ⟨parts, -, hhi, hall, hxs⟩
      -- no part at all, or one to begin with
      rcases Nat.eq_zero_or_pos parts.length with hnone | hsome
      · rw [List.eq_nil_of_length_eq_zero hnone] at hxs
        exact .inr hxs.symm
      · exact .inl ⟨parts, hsome, hhi, hall, hxs⟩

theorem mem_repeated {f : List α → List (List α)} {L : List α → Prop}
    (hf : ∀ xs zs, zs ∈ f xs ↔ ∃ ws, L ws ∧ xs = ws ++ zs) :
    ∀ {lo : Nat} {xs : List α}, ys ∈ repeated f more lo xs ↔ Parts L lo (lo + more) xs ys
  | 0, xs => by
    rw [repeated, mem_upTo hf, Nat.zero_add]
  | lo + 1, xs => by
    rw [repeated, mem_first (hf xs) fun _ => mem_repeated hf, Nat.succ_add]

/-- The matcher finds the beginnings that are in the language, and no others. -/
theorem mem_left : ys ∈ r.left xs ↔ ∃ zs, r.Matches zs ∧ xs = zs ++ ys := by
  induction r generalizing xs ys with
  | cls p =>
    cases xs with
    | nil =>
      simp only [left, List.not_mem_nil, false_iff, not_exists, not_and]
      rintro zs ⟨c, -, rfl⟩ h
      cases h
    | cons d ds =>
      have hhead : (∃ zs, (cls p).Matches zs ∧ d :: ds = zs ++ ys) ↔ p d = true ∧ ys = ds := by
        constructor
        · rintro ⟨zs, ⟨c, hc, rfl⟩, h⟩
          obtain ⟨rfl, rfl⟩ := List.cons.inj h
          exact ⟨hc, rfl⟩
        · rintro ⟨hd, rfl⟩
          exact ⟨[d], ⟨d, hd, rfl⟩, rfl⟩
      rw [hhead, left]
      split
      · simp [*]
      · simp [*]
  | seq r s ihr ihs =>
    rw [left, List.mem_flatMap]
    constructor
    · rintro ⟨mid, hmid, hys⟩
      obtain ⟨zs, hzs, rfl⟩ := ihr.mp hmid
      obtain ⟨ws, hws, rfl⟩ := ihs.mp hys
      exact ⟨zs ++ ws, ⟨zs, ws, hzs, hws, rfl⟩, (List.append_assoc ..).symm⟩
    · rintro ⟨_, ⟨zs, ws, hzs, hws, rfl⟩, rfl⟩
      exact ⟨ws ++ ys, ihr.mpr ⟨zs, hzs, List.append_assoc ..⟩, ihs.mpr ⟨ws, hws, rfl⟩⟩
  | opt r ih =>
    rw [left, List.mem_append, ih, List.mem_singleton]
    constructor
    · rintro (⟨zs, hzs, rfl⟩ | rfl)
      · exact ⟨zs, .inl hzs, rfl⟩
      · exact ⟨[], .inr rfl, rfl⟩
    · rintro ⟨zs, hzs | rfl, rfl⟩
      · exact .inl ⟨zs, hzs, rfl⟩
      · exact .inr rfl
  | rep r lo more ih =>
    rw [left, mem_repeated fun _ _ => ih]
    constructor
    · rintro ⟨parts, hlo, hhi, hall, rfl⟩
      exact ⟨parts.flatten, ⟨parts, hlo, hhi, hall, rfl⟩, rfl⟩
    · rintro ⟨_, ⟨parts, hlo, hhi, hall, rfl⟩, rfl⟩
      exact ⟨parts, hlo, hhi, hall, rfl⟩

theorem matchesLine_iff [DecidableEq α] : r.matchesLine eol xs = true ↔
    r.Matches xs ∨ ∃ ys, r.Matches ys ∧ xs = ys ++ [eol] := by
  simp only [matchesLine, List.any_eq_true, mem_left, Bool.or_eq_true, decide_eq_true_eq]
  constructor
  · rintro ⟨rest, ⟨ys, hys, rfl⟩, rfl | rfl⟩
    · rw [List.append_nil]
      exact .inl hys
    · exact .inr ⟨ys, hys, rfl⟩
  · rintro (h | ⟨ys, hys, rfl⟩)
    · exact ⟨[], ⟨xs, h, (List.append_nil xs).symm⟩, .inl rfl⟩
    · exact ⟨[eol], ⟨ys, hys, rfl⟩, .inr rfl⟩

/-- Without a line break at its end, a text matches as a whole. -/
theorem matchesLine_of_ne [DecidableEq α] (h : xs.getLast? ≠ some eol) :
    r.matchesLine eol xs = true ↔ r.Matches xs := by
  rw [matchesLine_iff]
  refine or_iff_left ?_
  rintro ⟨ys, -, rfl⟩
  exact h List.getLast?_concat

/-! ## Lengths and characters -/

theorem eq_singletons : ∀ {parts : List (List α)}, (∀ ys ∈ parts, (cls p).Matches ys) →
    parts = parts.flatten.map ([·])
  | [], _ => rfl
  | ys :: parts, h => by
    obtain ⟨⟨c, -, rfl⟩, hrest⟩ := List.forall_mem_cons.mp h
    rw [List.flatten_cons, List.singleton_append, List.map_cons, ← eq_singletons hrest]

theorem matches_rep_cls : (rep (cls p) lo more).Matches xs ↔
    lo ≤ xs.length ∧ xs.length ≤ lo + more ∧ ∀ c ∈ xs, p c = true := by
  constructor
  · rintro ⟨parts, hlo, hhi, hall, rfl⟩
    have hlen : parts.flatten.length = parts.length := by
      conv_rhs => rw [eq_singletons hall, List.length_map]
    rw [hlen]
    refine ⟨hlo, hhi, fun c hc => ?_⟩
    obtain ⟨ys, hys, hc⟩ := List.mem_flatten.mp hc
    obtain ⟨d, hd, rfl⟩ := hall ys hys
    rwa [List.mem_singleton.mp hc]
  · rintro ⟨hlo, hhi, hall⟩
    refine ⟨xs.map ([·]), ?_, ?_, ?_, (List.flatMap_singleton' xs).symm⟩
    · rwa [List.length_map]
    · rwa [List.length_map]
    · intro ys hys
      obtain ⟨c, hc, rfl⟩ := List.mem_map.mp hys
      exact ⟨c, hall c hc, rfl⟩

/-- One to `limit` characters, of which the first is one of `first`. -/
structure Spelled (limit : Nat) (inner first : α → Bool) (xs : List α) : Prop where
  nonempty : 1 ≤ xs.length
  short : xs.length ≤ limit
  chars : ∀ c ∈ xs, inner c = true
  first : ∀ c, xs.head? = some c → first c = true

/-- `[first][inner]{0,k}` -/
theorem matches_started (hinner : ∀ c, ends c = true → inner c = true) :
    (seq (cls ends) (rep (cls inner) 0 k)).Matches xs ↔ Spelled (k + 1) inner ends xs := by
  constructor
  · rintro ⟨_, rest, ⟨c, hc, rfl⟩, hrest, rfl⟩
    obtain ⟨-, hlen, hall⟩ := matches_rep_cls.mp hrest
    refine ⟨Nat.le_add_left 1 _, by simpa using hlen, ?_, ?_⟩
    · exact List.forall_mem_cons.mpr ⟨hinner c hc, hall⟩
    · rintro d hd
      rwa [← Option.some.inj hd]
  · intro h
    cases xs with
    | nil => exact absurd h.nonempty (Nat.not_succ_le_zero 0)
    | cons c rest =>
      refine ⟨[c], rest, ⟨c, h.first c rfl, rfl⟩, matches_rep_cls.mpr ⟨Nat.zero_le _, ?_, ?_⟩, rfl⟩
      · simpa using h.short
      · exact fun d hd => h.chars d (List.mem_cons_of_mem c hd)

/-- `[ends](?:[inner]{0,k}[ends])?` -/
theorem matches_ended (hinner : ∀ c, ends c = true → inner c = true) :
    (seq (cls ends) (opt (seq (rep (cls inner) 0 k) (cls ends)))).Matches xs ↔
      Spelled (k + 2) inner ends xs ∧ ∀ c, xs.getLast? = some c → ends c = true := by
  constructor
  · rintro ⟨_, rest, ⟨c, hc, rfl⟩, ⟨mid, _, hmid, ⟨d, hd, rfl⟩, rfl⟩ | rfl, rfl⟩
    · obtain ⟨-, hlen, hall⟩ := matches_rep_cls.mp hmid
      refine ⟨⟨Nat.le_add_left 1 _, ?_, ?_, ?_⟩, ?_⟩
      · simp only [List.length_append, List.length_cons, List.length_nil]
        omega
      · intro e he
        simp only [List.singleton_append, List.mem_cons, List.mem_append, List.not_mem_nil,
          or_false] at he
        rcases he with rfl | he | rfl
        · exact hinner e hc
        · exact hall e he
        · exact hinner e hd
      · intro e he
        rwa [← Option.some.inj he]
      · intro e he
        rw [← List.append_assoc, List.getLast?_concat] at he
        rwa [← Option.some.inj he]
    · refine ⟨⟨Nat.le_refl 1, Nat.le_add_left 1 _, ?_, ?_⟩, ?_⟩
      · simpa using hinner c hc
      · simpa using hc
      · simpa using hc
  · rintro ⟨h, hlast⟩
    cases xs with
    | nil => exact absurd h.nonempty (Nat.not_succ_le_zero 0)
    | cons c rest =>
      refine ⟨[c], rest, ⟨c, h.first c rfl, rfl⟩, ?_, rfl⟩
      -- a single character, or what stands between the first and the last
      rcases List.eq_nil_or_concat' rest with rfl | ⟨mid, d, rfl⟩
      · exact .inr rfl
      · have hd : (c :: (mid ++ [d])).getLast? = some d := by
          rw [← List.cons_append, List.getLast?_concat]
        refine .inl ⟨mid, [d], matches_rep_cls.mpr ⟨Nat.zero_le _, ?_, ?_⟩, ⟨d, hlast d hd, rfl⟩, rfl⟩
        · have hshort := h.short
          simp only [List.length_append, List.length_cons, List.length_nil] at hshort
          omega
        · exact fun e he => h.chars e (by simp [he])

end Regex
end SpikeHub.Core
