import SpikeHub.L2Storage.Volume

/-!
# A digest with a line break behind it

Behaviour (hub_api/storage/keys.py:12-27): `_SHA256` ends in `$`, which stands
at the end of a text and also before a line break that ends it. 64 digits and a
line break are therefore taken for a digest, and `object_key` makes a key of
them, with the line break in the middle of the file's name.

What the code says: `is_sha256` is "whether `value` is a lowercase hex sha256
digest" (keys.py:19), and a string that is none is refused as "not a lowercase
hex sha256 digest" (keys.py:26).

Counterexample: the letter a 64 times, and a line break.

When it does hold: exactly for the strings that are not a digest with a line
break behind it (`keyed_iff`). Even there the key is one directory and one file
below the artifact root, and no other string's.
-/
namespace SpikeHub.Bugs.DigestLineBreaks

open SpikeHub.Core SpikeHub.L1 SpikeHub.L2

/-- The control characters of Unicode. -/
def control (c : Char) : Bool := c.toNat < 32 || (127 ≤ c.toNat && c.toNat < 160)

/-- What separates the segments of a path, on one system or another. -/
def separator (c : Char) : Bool := c = '/' || c = '\\'

/-- Two characters, one slash, and a file's name. -/
structure Sharded (key : String) : Prop where
  parts : ∃ dir file : List Char, key.toList = dir ++ '/' :: file ∧ dir.length = 2 ∧ '/' ∉ dir ∧
    file ≠ [] ∧ ∀ c ∈ file, control c = false ∧ separator c = false

/-- What `is_sha256` and `object_key` owe a string: they accept a digest and
nothing else, and its key is its own and stays below the root. -/
structure Keyed (s : String) : Prop where
  accepts : isSha256 s = true ↔ IsDigest s
  defined : (∃ key, objectKey s = .ok key) ↔ IsDigest s
  distinct : ∀ t key, objectKey s = .ok key → objectKey t = .ok key → s = t
  sharded : ∀ key, objectKey s = .ok key → Sharded key
  inside : ∀ key (artifacts : PurePath), objectKey s = .ok key → artifacts.Inside (finalPath artifacts key)

/-- A digest and a line break. -/
def Broken (s : String) : Prop := ∃ digest, IsDigest digest ∧ s = digest ++ "\n"

variable {s : String} {c : Char}

theorem not_isDigest_of_broken (h : Broken s) : ¬ IsDigest s := by
  obtain ⟨digest, hdigest, rfl⟩ := h
  intro hlong
  have hlen := hlong.length
  rw [String.toList_append, List.length_append, hdigest.length] at hlen
  exact absurd hlen (by decide)

theorem isDigest_iff (h : ¬ Broken s) : isSha256 s = true ↔ IsDigest s :=
  isSha256_iff.trans (or_iff_left h)

theorem objectKey_defined : (∃ key, objectKey s = .ok key) ↔ isSha256 s = true := by
  constructor
  · rintro ⟨key, h⟩
    exact (objectKey_ok h).1
  · intro h
    unfold objectKey
    rw [if_pos h]
    exact ⟨_, rfl⟩

/-- A hexadecimal digit is no control character, and separates nothing. -/
theorem isHex_harmless (h : Sha256.isHex c = true) : control c = false ∧ separator c = false := by
  have hrange : (48 ≤ c.toNat ∧ c.toNat ≤ 57) ∨ (97 ≤ c.toNat ∧ c.toNat ≤ 102) := by
    simp only [Sha256.isHex, Bool.or_eq_true, Bool.and_eq_true, decide_eq_true_eq] at h
    exact h
  have hslash : c ≠ '/' := by
    rintro rfl
    exact absurd hrange (by decide)
  have hbackslash : c ≠ '\\' := by
    rintro rfl
    exact absurd hrange (by decide)
  constructor
  · simp only [control, Bool.or_eq_false_iff, Bool.and_eq_false_iff, decide_eq_false_iff_not]
    omega
  · simp [separator, hslash, hbackslash]

theorem sharded_of_digest {key : String} (hs : IsDigest s) (h : objectKey s = .ok key) : Sharded key := by
  have hsuffix : ∀ c ∈ suffix.toList, control c = false ∧ separator c = false := by
    simp [suffix, control, separator]
  have hfile : ∀ c ∈ s.toList ++ suffix.toList, control c = false ∧ separator c = false := by
    intro c hc
    rcases List.mem_append.mp hc with hc | hc
    · exact isHex_harmless (hs.hex c hc)
    · exact hsuffix c hc
  refine ⟨s.toList.take 2, s.toList ++ suffix.toList, ?_, ?_, ?_, ?_, hfile⟩
  · rw [objectKey_toList h]
    simp [keyNames, List.intercalate]
  · rw [List.length_take, hs.length]
    rfl
  · exact fun hc => slash_not_mem (objectKey_ok h).1 (List.mem_of_mem_take hc)
  · exact List.append_ne_nil_of_right_ne_nil _ (by decide)

/-- **When it holds**: exactly away from the line breaks. -/
theorem keyed_iff (s : String) : Keyed s ↔ ¬ Broken s := by
  constructor
  · intro h hbroken
    exact not_isDigest_of_broken hbroken (h.accepts.mp (isSha256_iff.mpr (.inr hbroken)))
  · intro h
    have haccepts := isDigest_iff h
    exact {
      accepts := haccepts
      defined := objectKey_defined.trans haccepts
      distinct := fun t key hs ht => objectKey_inj hs ht
      sharded := fun key hs => sharded_of_digest (haccepts.mp (objectKey_ok hs).1) hs
      inside := fun key artifacts hs => finalPath_inside hs }

/-! ## The letter a 64 times, and a line break -/

def sixtyFour : String := "aaaaaaaaaaaaaaaaaaaaaaaaaaaaaaaaaaaaaaaaaaaaaaaaaaaaaaaaaaaaaaaa"

/-- Taken for a digest, and given a key that has the line break in it. -/
theorem not_keyed : ¬ (∀ s, Keyed s) ∧ isSha256 (sixtyFour ++ "\n") = true ∧
    (sixtyFour ++ "\n").toList.length = 65 ∧
    (objectKey (sixtyFour ++ "\n")).toOption = some ("aa/" ++ sixtyFour ++ "\n.spkf") := by
  have haccepted : isSha256 (sixtyFour ++ "\n") = true := by decide +kernel
  have hlong : (sixtyFour ++ "\n").toList.length = 65 := by decide +kernel
  refine ⟨fun h => ?_, haccepted, hlong, by decide +kernel⟩
  have hlen := ((h _).accepts.mp haccepted).length
  rw [hlong] at hlen
  exact absurd hlen (by decide)

end SpikeHub.Bugs.DigestLineBreaks
