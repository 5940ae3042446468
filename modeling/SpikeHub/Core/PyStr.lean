import Mathlib.Data.List.Basic
import Mathlib.Tactic.Common

/-!
# Python strings

The operations of `str` the modelled code calls, on code points.

`pyRepr` is `repr` of a string, as an f-string's `!r` prints it; code points
above ASCII are taken as printable. `strip` takes off what `str.isspace`
accepts. A natural number is printed as `Nat.repr` does it. Case mapping is not
here: `str.lower` reads it from the Unicode tables of the interpreter, which
differ between the versions the service runs on.
-/
namespace SpikeHub.Core
namespace PyStr

def hexDigits (n : Nat) : List Char :=
  [n / 16, n % 16].map fun k => if k < 10 then Char.ofNat (48 + k) else Char.ofNat (87 + k)

def escape (quote c : Char) : List Char :=
  if c = quote ∨ c = '\\' then ['\\', c]
  else if c = '\n' then ['\\', 'n']
  else if c = '\r' then ['\\', 'r']
  else if c = '\t' then ['\\', 't']
  else if c.toNat < 32 ∨ c.toNat = 127 then '\\' :: 'x' :: hexDigits c.toNat
  else [c]

/-- The code points `str.isspace` accepts. -/
def spaces : List Nat :=
  [0x09, 0x0a, 0x0b, 0x0c, 0x0d, 0x1c, 0x1d, 0x1e, 0x1f, 0x20, 0x85, 0xa0, 0x1680, 0x2000, 0x2001,
    0x2002, 0x2003, 0x2004, 0x2005, 0x2006, 0x2007, 0x2008, 0x2009, 0x200a, 0x2028, 0x2029, 0x202f,
    0x205f, 0x3000]

def isSpace (c : Char) : Bool := c.toNat ∈ spaces

/-- Without the `p` at either end. -/
def stripOf (p : Char → Bool) (cs : List Char) : List Char :=
  ((cs.dropWhile p).reverse.dropWhile p).reverse

def strip (s : String) : String := String.ofList (stripOf isSpace s.toList)

/-- Without the `p` at the end. -/
def rstrip (p : Char → Bool) (s : String) : String :=
  String.ofList (s.toList.reverse.dropWhile p).reverse

/-- What comes before the first `sep`, and what comes after it. -/
def partition (sep : Char) (s : String) : String × String :=
  (String.ofList (s.toList.takeWhile (· ≠ sep)),
    String.ofList ((s.toList.dropWhile (· ≠ sep)).drop 1))

/-- Every maximal run of `p` replaced by one `mark`; `inRun` says that the run
before the first character is already replaced. -/
def subRuns (p : Char → Bool) (mark : Char) : Bool → List Char → List Char
  | _, [] => []
  | inRun, c :: cs =>
    if p c then
      if inRun then subRuns p mark true cs else mark :: subRuns p mark true cs
    else c :: subRuns p mark false cs

section
variable {p : Char → Bool} {mark c : Char} {cs : List Char}

/-- What is left is a mark, or was let through. -/
theorem subRuns_mem {inRun : Bool} (h : c ∈ subRuns p mark inRun cs) :
    c = mark ∨ c ∈ cs ∧ p c = false := by
  induction cs generalizing inRun with
  | nil => simp [subRuns] at h
  | cons d cs ih =>
    have hrest : ∀ {inRun : Bool}, c ∈ subRuns p mark inRun cs →
        c = mark ∨ c ∈ d :: cs ∧ p c = false := fun hc =>
      (ih hc).imp_right fun hc => ⟨List.mem_cons_of_mem d hc.1, hc.2⟩
    by_cases hd : p d = true
    · cases inRun with
      | true =>
        simp only [subRuns, hd, if_true] at h
        exact hrest h
      | false =>
        simp only [subRuns, hd, if_true, Bool.false_eq_true, if_false, List.mem_cons] at h
        rcases h with rfl | h
        · exact .inl rfl
        · exact hrest h
    · simp only [subRuns, hd, Bool.false_eq_true, if_false, List.mem_cons] at h
      rcases h with rfl | h
      · exact .inr ⟨List.mem_cons_self, by simpa using hd⟩
      · exact hrest h

theorem mem_of_mem_stripOf (h : c ∈ stripOf p cs) : c ∈ cs := by
  have hback := List.mem_reverse.mp ((List.dropWhile_sublist p).subset (List.mem_reverse.mp h))
  exact (List.dropWhile_sublist p).subset hback

/-- Where dropping stopped. -/
theorem head_dropWhile (h : (cs.dropWhile p).head? = some c) : p c = false := by
  have hstop := List.head?_dropWhile_not p cs
  rw [h] at hstop
  exact hstop

theorem stripOf_getLast (h : (stripOf p cs).getLast? = some c) : p c = false := by
  unfold stripOf at h
  rw [List.getLast?_reverse] at h
  exact head_dropWhile h

theorem stripOf_head (h : (stripOf p cs).head? = some c) : p c = false := by
  unfold stripOf at h
  rw [List.head?_reverse] at h
  -- what the second pass keeps ends where the first pass stopped
  have hlast : (cs.dropWhile p).reverse.getLast? = some c := by
    obtain ⟨pre, hpre⟩ := List.dropWhile_suffix p (l := (cs.dropWhile p).reverse)
    rw [← hpre, List.getLast?_append, h]
    rfl
  rw [List.getLast?_reverse] at hlast
  exact head_dropWhile hlast

/-- Nothing to take off at either end. -/
theorem stripOf_eq_self (hhead : ∀ c, cs.head? = some c → p c = false)
    (hlast : ∀ c, cs.getLast? = some c → p c = false) : stripOf p cs = cs := by
  have hkeep : ∀ {l : List Char}, (∀ c, l.head? = some c → p c = false) → l.dropWhile p = l := by
    intro l hl
    cases l with
    | nil => rfl
    | cons a l => rw [List.dropWhile_cons, hl a rfl, if_neg Bool.false_ne_true]
  unfold stripOf
  rw [hkeep hhead, hkeep, List.reverse_reverse]
  intro c hc
  rw [List.head?_reverse] at hc
  exact hlast c hc

theorem stripOf_stripOf : stripOf p (stripOf p cs) = stripOf p cs :=
  stripOf_eq_self (fun _ h => stripOf_head h) fun _ h => stripOf_getLast h

theorem stripOf_length : (stripOf p cs).length ≤ cs.length := by
  unfold stripOf
  rw [List.length_reverse]
  calc ((cs.dropWhile p).reverse.dropWhile p).length
      ≤ (cs.dropWhile p).reverse.length := (List.dropWhile_sublist p).length_le
    _ = (cs.dropWhile p).length := List.length_reverse
    _ ≤ cs.length := (List.dropWhile_sublist p).length_le

theorem strip_length (s : String) : (strip s).length ≤ s.length := by
  unfold strip
  rw [String.length_ofList, ← String.length_toList]
  exact stripOf_length

theorem strip_strip (s : String) : strip (strip s) = strip s := by
  unfold strip
  rw [String.toList_ofList, stripOf_stripOf]

/-- No white space between `!` and `~`. -/
theorem isSpace_of_graphic (hlow : 33 ≤ c.toNat) (hhigh : c.toNat ≤ 126) : isSpace c = false := by
  unfold isSpace spaces
  simp only [List.mem_cons, List.not_mem_nil, or_false, decide_eq_false_iff_not]
  omega

theorem strip_eq_self {s : String} (h : ∀ c ∈ s.toList, isSpace c = false) : strip s = s := by
  unfold strip
  rw [stripOf_eq_self, String.ofList_toList]
  · exact fun c hc => h c (List.mem_of_head? hc)
  · exact fun c hc => h c (List.mem_of_getLast? hc)

theorem toLower_eq_self (h : ¬ ('A' ≤ c ∧ c ≤ 'Z')) : c.toLower = c := dif_neg h

/-- The small letters are 32 behind the capitals. -/
theorem toNat_toLower (h : 'A' ≤ c ∧ c ≤ 'Z') : c.toLower.toNat = c.toNat + 32 := by
  have hlast : c.toNat ≤ 90 := h.2
  have hmoved : c.toLower.val = c.val + 32 := congrArg Char.val (dif_pos h)
  show c.toLower.val.toNat = c.val.toNat + 32
  rw [hmoved, UInt32.toNat_add]
  exact Nat.mod_eq_of_lt (Nat.lt_of_le_of_lt (Nat.add_le_add_right hlast 32) (by decide))

theorem toLower_capital (h : 'A' ≤ c ∧ c ≤ 'Z') : 97 ≤ c.toLower.toNat ∧ c.toLower.toNat ≤ 122 := by
  have hfirst : 65 ≤ c.toNat := h.1
  have hlast : c.toNat ≤ 90 := h.2
  rw [toNat_toLower h]
  omega

/-- Nothing is lowered to a capital. -/
theorem toLower_toLower (c : Char) : c.toLower.toLower = c.toLower := by
  by_cases hc : 'A' ≤ c ∧ c ≤ 'Z'
  · refine toLower_eq_self fun hagain => ?_
    have hfirst := (toLower_capital hc).1
    have hlast : c.toLower.toNat ≤ 90 := hagain.2
    omega
  · rw [toLower_eq_self hc, toLower_eq_self hc]

/-- What is stripped does not end in a line break. -/
theorem strip_getLast (s : String) : (strip s).toList.getLast? ≠ some '\n' := by
  unfold strip
  rw [String.toList_ofList]
  intro h
  have hspace := stripOf_getLast h
  revert hspace
  decide

/-- What comes before the first `c` and what comes after it. -/
theorem split_first {xs ys zs ws : List Char} (hx : c ∉ xs) (hy : c ∉ ys)
    (h : xs ++ c :: zs = ys ++ c :: ws) : xs = ys ∧ zs = ws := by
  induction xs generalizing ys with
  | nil =>
    cases ys with
    | nil => exact ⟨rfl, (List.cons.inj h).2⟩
    | cons y ys => exact absurd (List.mem_cons.mpr (.inl (List.cons.inj h).1)) hy
  | cons x xs ih =>
    cases ys with
    | nil => exact absurd (List.mem_cons.mpr (.inl (List.cons.inj h).1.symm)) hx
    | cons y ys =>
      obtain ⟨hhead, htail⟩ := List.cons.inj h
      obtain ⟨hfront, hback⟩ := ih (fun hc => hx (List.mem_cons_of_mem _ hc))
        (fun hc => hy (List.mem_cons_of_mem _ hc)) htail
      exact ⟨by rw [hhead, hfront], hback⟩

end

/-! ## Numbers -/

theorem toDigits_inj {n m : Nat} (h : Nat.toDigits 10 n = Nat.toDigits 10 m) : n = m := by
  calc n = Nat.ofDigitChars 10 (Nat.toDigits 10 n) 0 := Nat.ofDigitChars_ten_toDigits.symm
    _ = Nat.ofDigitChars 10 (Nat.toDigits 10 m) 0 := by rw [h]
    _ = m := Nat.ofDigitChars_ten_toDigits

theorem toString_inj {n m : Nat} (h : toString n = toString m) : n = m := by
  have hchars := congrArg String.toList h
  simp only [toString, Nat.toList_repr] at hchars
  exact toDigits_inj hchars

end PyStr

def pyRepr (s : String) : String :=
  let quote := if '\'' ∈ s.toList ∧ '"' ∉ s.toList then '"' else '\''
  String.ofList (quote :: s.toList.flatMap (PyStr.escape quote) ++ [quote])

end SpikeHub.Core
