import SpikeHub.L4Auth.Platform

/-!
# Choosing a handle

Model of hub_api/auth/handles.py, with the reserved handles of
hub_api/catalog/names.py. The suffix search is bounded, so it is total.
-/
namespace SpikeHub.L4.Auth

open SpikeHub.Core SpikeHub.L1

/-- mirrors hub_api/catalog/names.py:22-53 -/
def reservedHandles : List String :=
  ["reference", "bundled", "nir", "snntorch", "spikingjelly", "norse", "lava", "spikeforge", "capsize",
    "admin", "api", "hub", "internal", "oauth", "login", "logout", "activate", "settings", "about",
    "help", "support", "static", "assets", "docs", "www", "root", "me", "new"]

namespace Handles

/-- `_STEM_LIMIT` -/
def stemLimit : Nat := 30

/-- `_FALLBACK` -/
def fallback : String := "user"

/-- What `_DISALLOWED` matches runs of. -/
def disallowed (c : Char) : Bool :=
  !(('a' ≤ c && c ≤ 'z') || ('0' ≤ c && c ≤ '9') || c = '-')

/-- mirrors hub_api/auth/handles.py:34-39 -/
def clean (p : Platform) (raw : String) : String :=
  let lowered := (PyStr.partition '@' (p.lower (PyStr.strip raw))).1
  let replaced := PyStr.subRuns disallowed '-' false lowered.toList
  let collapsed := PyStr.stripOf (· = '-') (PyStr.subRuns (· = '-') '-' false replaced)
  String.ofList (collapsed.take stemLimit)

/-- mirrors hub_api/auth/handles.py:25-31 -/
def stemFrom (p : Platform) (candidates : List String) : String :=
  ((candidates.map (clean p)).find? (· ≠ "")).getD fallback

/-- mirrors hub_api/auth/handles.py:59-66 -/
def isFree (db : Db) (handle : String) : Bool :=
  handle ∉ reservedHandles && (db.users.find? fun u => u.handle = handle).isNone

def attempt (stem : String) (suffix : Nat) : String := s!"{stem}-{suffix}"

/-- mirrors hub_api/auth/handles.py:42-56 -/
def allocate (p : Platform) (db : Db) (candidates : List String) : String :=
  let stem := stemFrom p candidates
  if isFree db stem then stem
  else
    match (List.range' 2 998).find? fun suffix => isFree db (attempt stem suffix) with
    | some suffix => attempt stem suffix
    | none => attempt fallback (db.users.count (fun _ => true) + 1)

/-! ## What a handle is made of -/

section
variable {p : Platform} {db : Db} {candidates : List String} {raw stem : String} {c : Char} {n : Nat}

/-- A candidate is cleaned of everything else. -/
theorem clean_allowed (h : c ∈ (clean p raw).toList) : disallowed c = false := by
  unfold clean at h
  rw [String.toList_ofList] at h
  have hcollapsed := PyStr.mem_of_mem_stripOf (List.mem_of_mem_take h)
  rcases PyStr.subRuns_mem hcollapsed with rfl | ⟨hreplaced, -⟩
  · decide
  rcases PyStr.subRuns_mem hreplaced with rfl | ⟨-, hallowed⟩
  · decide
  · exact hallowed

theorem fallback_allowed (h : c ∈ fallback.toList) : disallowed c = false := by
  have hall : fallback.toList.all (fun c => !disallowed c) = true := by decide
  exact (Bool.not_eq_true' _).mp (List.all_eq_true.mp hall c h)

theorem stemFrom_allowed (h : c ∈ (stemFrom p candidates).toList) : disallowed c = false := by
  unfold stemFrom at h
  cases hfound : (candidates.map (clean p)).find? (· ≠ "") with
  | none =>
    rw [hfound] at h
    exact fallback_allowed h
  | some stem =>
    rw [hfound] at h
    obtain ⟨raw, -, rfl⟩ := List.mem_map.mp (List.mem_of_find?_eq_some hfound)
    exact clean_allowed h

theorem digit_allowed (h : c ∈ Nat.toDigits 10 n) : disallowed c = false := by
  have hdigit := Nat.isDigit_of_mem_toDigits (by decide) (by decide) h
  simp only [Char.isDigit, Bool.and_eq_true, decide_eq_true_eq] at hdigit
  have hbetween : ('0' ≤ c && c ≤ '9') = true := by
    rw [Bool.and_eq_true, decide_eq_true_eq, decide_eq_true_eq]
    exact hdigit
  unfold disallowed
  rw [hbetween, Bool.or_true, Bool.true_or, Bool.not_true]

theorem attempt_toList : (attempt stem n).toList = stem.toList ++ '-' :: Nat.toDigits 10 n := by
  simp [attempt, toString]

theorem attempt_allowed (hstem : ∀ c ∈ stem.toList, disallowed c = false)
    (h : c ∈ (attempt stem n).toList) : disallowed c = false := by
  rw [attempt_toList, List.mem_append, List.mem_cons] at h
  rcases h with h | rfl | h
  · exact hstem c h
  · decide
  · exact digit_allowed h

end

/-! ## Where a handle comes from -/

/-- Neither the stem is free nor any suffix of it. -/
structure Exhausted (p : Platform) (db : Db) (candidates : List String) : Prop where
  stem : isFree db (stemFrom p candidates) = false
  suffixes : ∀ n, 2 ≤ n → n < 1000 → isFree db (attempt (stemFrom p candidates) n) = false

/-- The three exits of `allocate`. -/
inductive Allocated (p : Platform) (db : Db) (candidates : List String) : String → Prop
  | stem : isFree db (stemFrom p candidates) = true → Allocated p db candidates (stemFrom p candidates)
  | suffixed {n : Nat} :
      isFree db (stemFrom p candidates) = false → 2 ≤ n → n < 1000 →
      isFree db (attempt (stemFrom p candidates) n) = true →
      Allocated p db candidates (attempt (stemFrom p candidates) n)
  | fallback :
      Exhausted p db candidates →
      Allocated p db candidates (attempt fallback (db.users.count (fun _ => true) + 1))

variable {p : Platform} {db : Db} {candidates : List String} {handle stem : String} {n m : Nat}

theorem allocated (p : Platform) (db : Db) (candidates : List String) :
    Allocated p db candidates (allocate p db candidates) := by
  unfold allocate
  dsimp only
  split
  · exact .stem ‹_›
  · rename_i hstem
    rw [Bool.not_eq_true] at hstem
    split
    · rename_i n hn
      obtain ⟨hfree, hmem, -⟩ := List.find?_range'_eq_some.mp hn
      obtain ⟨hlow, hhigh⟩ := List.mem_range'_1.mp hmem
      exact .suffixed hstem hlow (by omega) hfree
    · rename_i hnone
      refine .fallback ⟨hstem, fun n hlow hhigh => ?_⟩
      simpa using List.find?_range'_eq_none.mp hnone n hlow (by omega)

/-- The first suffix that is free. -/
theorem allocate_suffixed (p : Platform) (db : Db) (candidates : List String)
    (hstem : isFree db (stemFrom p candidates) = false) (hlow : 2 ≤ n)
    (hhigh : n < 1000) (hfree : isFree db (attempt (stemFrom p candidates) n) = true)
    (htaken : ∀ m, 2 ≤ m → m < n → isFree db (attempt (stemFrom p candidates) m) = false) :
    allocate p db candidates = attempt (stemFrom p candidates) n := by
  have hfirst : (List.range' 2 998).find? (fun m => isFree db (attempt (stemFrom p candidates) m)) =
      some n := by
    refine List.find?_range'_eq_some.mpr ⟨hfree, List.mem_range'_1.mpr (by omega), fun m hm hmn => ?_⟩
    rw [htaken m hm hmn]
    rfl
  unfold allocate
  dsimp only
  rw [hstem, hfirst]
  rfl

theorem isFree_iff : isFree db handle = true ↔
    handle ∉ reservedHandles ∧ ∀ u ∈ db.users, u.handle ≠ handle := by
  unfold isFree
  rw [Bool.and_eq_true, decide_eq_true_eq, Option.isNone_iff_eq_none]
  refine and_congr_right fun _ => ⟨fun h u hu he => ?_, fun h => ?_⟩
  · simpa [he] using Table.find?_none h hu
  · exact List.find?_eq_none.mpr fun u hu => by simpa using h u hu

/-- Letters, digits and hyphens, whichever exit it came from. -/
theorem allocate_allowed {c : Char} (h : c ∈ (allocate p db candidates).toList) : disallowed c = false := by
  have hexit := allocated p db candidates
  generalize allocate p db candidates = handle at hexit h
  cases hexit with
  | stem => exact stemFrom_allowed h
  | suffixed => exact attempt_allowed (fun _ => stemFrom_allowed) h
  | fallback => exact attempt_allowed (fun _ => fallback_allowed) h

theorem attempt_inj (h : attempt stem n = attempt stem m) : n = m := by
  have hlist := congrArg String.toList h
  rw [attempt_toList, attempt_toList, List.append_cancel_left_eq, List.cons.injEq] at hlist
  exact PyStr.toDigits_inj hlist.2

/-- No reserved handle has a suffix. -/
theorem attempt_unreserved : attempt stem n ∉ reservedHandles := by
  have hplain : ∀ reserved ∈ reservedHandles, '-' ∉ reserved.toList := by decide
  intro h
  refine hplain _ h ?_
  rw [attempt_toList]
  simp

end Handles
end SpikeHub.L4.Auth
