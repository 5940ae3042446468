import SpikeHub.Core.Posix
import SpikeHub.Core.PurePath
import SpikeHub.Core.Sha256
import SpikeHub.Core.PyStr
import SpikeHub.Core.Regex
import SpikeHub.L1Data.Errors

/-!
# Content-addressed object keys

Model of hub_api/storage/keys.py. A key is built from the digest alone, so
equal digests share an object; `objectKey_inj` is the converse, and
`objectKey_sha256` says that a digest this service computed always has a key.

What is taken for a digest is a digest, or one with a line break behind it
(`isSha256_iff`). Either way the key is two names with one slash between them
(`objectKey_names`).
-/
namespace SpikeHub.L2

open SpikeHub.Core SpikeHub.L1

/-- `_SHA256.match(value)`: `$` also matches before a final line break.
mirrors hub_api/storage/keys.py:18-20 -/
def isSha256 (value : String) : Bool :=
  let digits := if value.toList.getLast? = some '\n' then value.toList.dropLast else value.toList
  digits.length = 64 && digits.all Sha256.isHex

def suffix : String := ".spkf"

/-- mirrors hub_api/storage/keys.py:23-27 -/
def objectKey (sha256 : String) : Except Raised String :=
  if isSha256 sha256 then
    .ok (String.ofList (sha256.toList.take 2) ++ "/" ++ sha256 ++ suffix)
  else .error (.valueError s!"not a lowercase hex sha256 digest: {pyRepr sha256}")

/-- `_SHA256`, as it is written; `isSha256` is its match (`isSha256_eq`). -/
def digestPattern : Regex Char := .rep (.cls Sha256.isHex) 64 0

/-- A lowercase hex sha256 digest. -/
structure IsDigest (value : String) : Prop where
  length : value.toList.length = 64
  hex : ∀ c ∈ value.toList, Sha256.isHex c = true

variable {s t k : String}

theorem matches_digest : digestPattern.Matches s.toList ↔ IsDigest s := by
  refine Regex.matches_rep_cls.trans ⟨?_, ?_⟩
  · rintro ⟨hlow, hhigh, hhex⟩
    exact ⟨Nat.le_antisymm hhigh hlow, hhex⟩
  · intro h
    exact ⟨Nat.le_of_eq h.length.symm, Nat.le_of_eq h.length, h.hex⟩

theorem isSha256_eq : isSha256 s = digestPattern.matchesLine '\n' s.toList := by
  have hmatches : ∀ cs : List Char, digestPattern.Matches cs ↔
      cs.length = 64 ∧ ∀ c ∈ cs, Sha256.isHex c = true := by
    intro cs
    rw [← String.toList_ofList (l := cs), matches_digest]
    exact ⟨fun h => ⟨h.length, h.hex⟩, fun h => ⟨h.1, h.2⟩⟩
  rw [Bool.eq_iff_iff]
  unfold isSha256
  simp only [Bool.and_eq_true, decide_eq_true_eq, List.all_eq_true]
  by_cases hlast : s.toList.getLast? = some '\n'
  · obtain ⟨digits, hdigits⟩ := List.getLast?_eq_some_iff.mp hlast
    rw [if_pos hlast, Regex.matchesLine_iff, hmatches, hdigits, List.dropLast_concat]
    constructor
    · exact fun h => .inr ⟨digits, (hmatches digits).mpr h, rfl⟩
    · rintro (h | ⟨ys, hys, he⟩)
      · exact absurd (h.2 '\n' (by simp)) (by decide)
      · rw [List.append_cancel_right he]
        exact (hmatches ys).mp hys
  · rw [if_neg hlast, Regex.matchesLine_of_ne hlast, hmatches]

/-- What is taken for a digest: one, or one with a line break behind it. -/
theorem isSha256_iff : isSha256 s = true ↔ IsDigest s ∨ ∃ digest, IsDigest digest ∧ s = digest ++ "\n" := by
  rw [isSha256_eq, Regex.matchesLine_iff, matches_digest]
  refine or_congr_right ⟨?_, ?_⟩
  · rintro ⟨digits, hdigits, hs⟩
    refine ⟨String.ofList digits, matches_digest.mp (by rwa [String.toList_ofList]), ?_⟩
    refine String.toList_inj.mp ?_
    rw [hs, String.toList_append, String.toList_ofList]
    rfl
  · rintro ⟨digest, hdigest, rfl⟩
    exact ⟨digest.toList, matches_digest.mpr hdigest, String.toList_append ..⟩

/-- The line break does not fit in 64 characters. -/
theorem isDigest_of_length (h : isSha256 s = true) (hlength : s.length ≤ 64) : IsDigest s := by
  rcases isSha256_iff.mp h with hdigest | ⟨digest, hdigest, rfl⟩
  · exact hdigest
  · have hmore : (digest ++ "\n").length = 65 := by
      rw [String.length_append, ← String.length_toList, hdigest.length]
      rfl
    omega

theorem isSha256_of_hex {s : String} (hl : s.toList.length = 64)
    (hx : ∀ c ∈ s.toList, Sha256.isHex c = true) : isSha256 s = true :=
  isSha256_iff.mpr (.inl ⟨hl, hx⟩)

/-- A digest this service computed is well formed, so it has a key. -/
theorem objectKey_sha256 (bs : Bytes) : ∃ k, objectKey (sha256 bs) = .ok k := by
  unfold objectKey
  rw [if_pos (isSha256_of_hex (sha256_length bs) (sha256_hex bs))]
  exact ⟨_, rfl⟩

theorem objectKey_ok {s k : String} (h : objectKey s = .ok k) :
    isSha256 s = true ∧ k = String.ofList (s.toList.take 2) ++ "/" ++ s ++ suffix := by
  unfold objectKey at h
  split at h
  · rename_i hs; exact ⟨hs, (Except.ok.inj h).symm⟩
  · cases h

theorem objectKey_ne_empty {s k : String} (h : objectKey s = .ok k) : k ≠ "" := by
  obtain ⟨-, rfl⟩ := objectKey_ok h
  intro he
  have hchars := congrArg String.toList he
  simp at hchars

/-- 64 digits, and perhaps the line break. -/
theorem digits_of_isSha256 (h : isSha256 s = true) : ∃ digits eol : List Char, s.toList = digits ++ eol ∧
    digits.length = 64 ∧ (∀ c ∈ digits, Sha256.isHex c = true) ∧ (eol = [] ∨ eol = ['\n']) := by
  rcases isSha256_iff.mp h with hdigest | ⟨digest, hdigest, rfl⟩
  · exact ⟨s.toList, [], (List.append_nil _).symm, hdigest.length, hdigest.hex, .inl rfl⟩
  · exact ⟨digest.toList, ['\n'], String.toList_append .., hdigest.length, hdigest.hex, .inr rfl⟩

theorem length_of_isSha256 {s : String} (h : isSha256 s = true) : 64 ≤ s.toList.length := by
  obtain ⟨digits, eol, hs, hlen, -⟩ := digits_of_isSha256 h
  rw [hs, List.length_append]
  omega

/-- Distinct digests get distinct keys. -/
theorem objectKey_inj {s t k : String} (h : objectKey s = .ok k) (h' : objectKey t = .ok k) :
    s = t := by
  obtain ⟨hs, rfl⟩ := objectKey_ok h
  obtain ⟨ht, he⟩ := objectKey_ok h'
  have hs2 : (s.toList.take 2).length = 2 := by
    rw [List.length_take]; have := length_of_isSha256 hs; omega
  have ht2 : (t.toList.take 2).length = 2 := by
    rw [List.length_take]; have := length_of_isSha256 ht; omega
  have he := congrArg String.toList he
  simp only [String.toList_append, String.toList_ofList, List.append_assoc] at he
  obtain ⟨-, he⟩ := List.append_inj he (hs2.trans ht2.symm)
  have he := List.append_cancel_right (List.append_cancel_left he)
  exact String.toList_injective he

/-! ## The two names -/

/-- The directory and the file. -/
def keyNames (sha256 : String) : List (List Char) :=
  [sha256.toList.take 2, sha256.toList ++ suffix.toList]

theorem keyNames_ne_nil (sha256 : String) : keyNames sha256 ≠ [] := List.cons_ne_nil _ _

theorem objectKey_toList (h : objectKey s = .ok k) : k.toList = ['/'].intercalate (keyNames s) := by
  obtain ⟨-, rfl⟩ := objectKey_ok h
  simp [keyNames, List.intercalate]

/-- The digits, and what is put behind them, are neither slash nor dot. -/
theorem slash_not_mem (h : isSha256 s = true) : '/' ∉ s.toList := by
  obtain ⟨digits, eol, hs, -, hhex, heol⟩ := digits_of_isSha256 h
  rw [hs, List.mem_append]
  rintro (hc | hc)
  · exact absurd (hhex _ hc) (by decide)
  · rcases heol with rfl | rfl
    · cases hc
    · exact absurd hc (by decide)

theorem objectKey_names (h : objectKey s = .ok k) : ∀ name ∈ keyNames s, PurePath.IsName name := by
  have hs := (objectKey_ok h).1
  have hlen := length_of_isSha256 hs
  have hdir : PurePath.IsName (s.toList.take 2) := by
    obtain ⟨digits, eol, he, hdigits, hhex, -⟩ := digits_of_isSha256 hs
    have htake : s.toList.take 2 = digits.take 2 := by
      rw [he, List.take_append_of_le_length (by omega)]
    have htwo : (s.toList.take 2).length = 2 := by
      rw [List.length_take]
      omega
    refine ⟨fun hc => slash_not_mem hs (List.mem_of_mem_take hc), ?_, ?_, fun hdots => ?_⟩
    · exact fun he => by simp [he] at htwo
    · exact fun he => by simp [he] at htwo
    · have hdot : '.' ∈ digits.take 2 := by simp [← htake, hdots]
      exact absurd (hhex _ (List.mem_of_mem_take hdot)) (by decide)
  have hfile : PurePath.IsName (s.toList ++ suffix.toList) := by
    refine ⟨fun hc => ?_, ?_, ?_, ?_⟩
    · rcases List.mem_append.mp hc with hc | hc
      · exact slash_not_mem hs hc
      · exact absurd hc (by decide)
    all_goals
      intro he
      have hshort := congrArg List.length he
      simp only [List.length_append, List.length_cons, List.length_nil] at hshort
      omega
  intro name hname
  rcases List.mem_pair.mp hname with rfl | rfl
  · exact hdir
  · exact hfile

end SpikeHub.L2
