import SpikeHub.Core.Like
import SpikeHub.L5Runs.Requests

/-!
# A search whose characters are patterns

Behaviour (hub_api/catalog/queries.py:36-44): the query is put between two `%`
and handed to `LIKE` as it is. A `%` in it matches any run of characters, a `_`
any one character, and a backslash takes the meaning from the character behind
it.

What the code says: `published` returns versions "optionally filtered"
(queries.py:34); the query is what a person types into the search of the
listing (routes/models.py:42-50). A slug may itself have underscores
(catalog/names.py:20), and a search for one finds slugs without it.

Counterexample: the query "_" finds the model "mnist".

When it does hold: exactly for the queries with no `%`, no `_` and no
backslash, and no letter that the `lower` of the database also makes of a
character outside ASCII (`search_exact_iff`). In a locale of ASCII letters there are
none of the latter.
-/
namespace SpikeHub.Bugs.SearchWildcards

open SpikeHub.Core SpikeHub.Core.Like SpikeHub.L1 SpikeHub.L4.Auth SpikeHub.L4.Catalog
open SpikeHub.L5.Interleave (alice oneAccount)
open SpikeHub.L5.Requests (plain plain_ascii)

/-- `LIKE` without an `ESCAPE` clause. -/
def like : Marks Char := ⟨'%', '_', '\\'⟩

/-- What a search relies on: `LIKE` reads its pattern, and `lower` maps each
character as the locale has it, those of ASCII as ASCII does. -/
structure LawfulSearch (sql : Dialect) (low : Char → Char) : Prop where
  like : ∀ text pattern ts, parse like pattern.toList = some ts →
    sql.like text pattern = accepts ts text.toList
  lower : ∀ s, sql.lower s = String.ofList (s.toList.map low)
  ascii : ∀ c : Char, c.toNat < 128 → low c = c.toLower

/-- The text without the case of its ASCII letters. -/
def folded (s : String) : List Char := s.toList.map Char.toLower

def Contains (query text : String) : Prop := folded query <:+: folded text

/-- In the slug, the summary or the dataset. -/
def Mentions (query : String) (r : PublishedRow) : Prop :=
  Contains query r.model.slug ∨ Contains query r.model.summary ∨ Contains query r.model.dataset

/-- A search returns the visible rows that contain the query. -/
def Exact (p : Platform) (sql : Dialect) (query : String) : Prop :=
  ∀ (db : Db) (limit : Nat), (visibleRows db).length ≤ limit → ∀ r : PublishedRow,
    r ∈ published p sql db query limit ↔ r ∈ visibleRows db ∧ Mentions query r

/-- No character of the query is a mark of patterns, and none is what `lower`
makes of a character outside ASCII. -/
def Literal (low : Char → Char) (query : String) : Prop :=
  (∀ c ∈ query.toList, like.Unmarked c) ∧
    ∀ c ∈ query.toList, ∀ d : Char, 128 ≤ d.toNat → low d ≠ c.toLower

def Ascii (s : String) : Prop := ∀ c ∈ s.toList, c.toNat < 128

instance (s : String) : Decidable (Ascii s) := List.decidableBAll _ _

variable {p : Platform} {sql : Dialect} {low : Char → Char} {query text : String} {c d : Char}
  {ts : List (Token Char)} {r : PublishedRow}

/-! ## Letters of ASCII -/

theorem toLower_outside (h : 128 ≤ d.toNat) : d.toLower = d := by
  refine PyStr.toLower_eq_self fun hd => ?_
  have hlast : d.toNat ≤ 90 := hd.2
  omega

theorem toLower_inside (h : c.toNat < 128) : c.toLower.toNat < 128 := by
  by_cases hc : 'A' ≤ c ∧ c ≤ 'Z'
  · have hlast : c.toNat ≤ 90 := hc.2
    rw [PyStr.toNat_toLower hc]
    omega
  · rwa [PyStr.toLower_eq_self hc]

/-- Lowering makes what is no letter only of itself. -/
theorem toLower_eq_iff (hcapital : ¬ ('A' ≤ d ∧ d ≤ 'Z')) (hsmall : ¬ ('a' ≤ d ∧ d ≤ 'z')) :
    c.toLower = d ↔ c = d := by
  constructor
  · rintro rfl
    exact (PyStr.toLower_eq_self fun hc => hsmall (PyStr.toLower_capital hc)).symm
  · rintro rfl
    exact PyStr.toLower_eq_self hcapital

theorem unmarked_toLower : like.Unmarked c.toLower ↔ like.Unmarked c := by
  unfold Marks.Unmarked like
  simp only [ne_eq, toLower_eq_iff (d := '%') (by decide) (by decide),
    toLower_eq_iff (d := '_') (by decide) (by decide), toLower_eq_iff (d := '\\') (by decide) (by decide)]

theorem folded_inside (h : Ascii query) (hc : c ∈ folded query) : c.toNat < 128 := by
  obtain ⟨x, hx, rfl⟩ := List.mem_map.mp hc
  exact toLower_inside (h x hx)

theorem folded_lower (hc : c ∈ folded query) : c.toLower = c := by
  obtain ⟨x, -, rfl⟩ := List.mem_map.mp hc
  exact PyStr.toLower_toLower x

theorem folded_unmarked : (∀ c ∈ folded query, like.Unmarked c) ↔ ∀ c ∈ query.toList, like.Unmarked c := by
  simp only [folded, List.forall_mem_map, unmarked_toLower]

theorem folded_ne_nil (h : query ≠ "") : folded query ≠ [] := by
  rw [folded, ne_eq, List.map_eq_nil_iff]
  exact fun hnil => h (String.toList_inj.mp hnil)

/-! ## What the database searches for -/

/-- The pattern of the query, without the `%` in front of it, is found in the
text as the database lowers it. -/
def Found (low : Char → Char) (ts : List (Token Char)) (text : String) : Prop :=
  accepts (.any :: ts) (text.toList.map low) = true

theorem like_eq (hp : p.LawfulAscii) (hsql : LawfulSearch sql low) (hq : Ascii query)
    (hts : parse like (folded query ++ ['%']) = some ts) :
    sql.like (sql.lower text) ("%" ++ p.lower query ++ "%") = true ↔ Found low ts text := by
  have hpattern : ("%" ++ p.lower query ++ "%").toList = like.any :: (folded query ++ ['%']) := by
    rw [hp.lowered query hq]
    simp [folded, like]
  have hparse : parse like ("%" ++ p.lower query ++ "%").toList = some (.any :: ts) := by
    rw [hpattern, parse_any (by decide), hts]
    rfl
  rw [hsql.like _ _ _ hparse, hsql.lower, String.toList_ofList]
  rfl

theorem matching_iff (hp : p.LawfulAscii) (hsql : LawfulSearch sql low) (hq : Ascii query)
    (hts : parse like (folded query ++ ['%']) = some ts) : r.matching p sql query = true ↔
      Found low ts r.model.slug ∨ Found low ts r.model.summary ∨ Found low ts r.model.dataset := by
  unfold PublishedRow.matching
  simp only [Bool.or_eq_true, like_eq hp hsql hq hts, or_assoc]

/-- Two maps that differ only away from `xs` find it in the same places. -/
theorem infix_map_congr {f g : Char → Char} {xs l : List Char}
    (h : ∀ d ∈ l, f d = g d ∨ f d ∉ xs ∧ g d ∉ xs) : xs <:+: l.map f ↔ xs <:+: l.map g := by
  have himp : ∀ {f g : Char → Char}, (∀ d ∈ l, f d = g d ∨ f d ∉ xs ∧ g d ∉ xs) →
      xs <:+: l.map f → xs <:+: l.map g := by
    intro f g h hxs
    obtain ⟨w, hw, rfl⟩ := List.infix_map_iff.mp hxs
    refine List.infix_map_iff.mpr ⟨w, hw, List.map_congr_left fun d hd => ?_⟩
    exact (h d (hw.subset hd)).resolve_right fun hno => hno.1 (List.mem_map_of_mem hd)
  exact ⟨himp h, himp fun d hd => (h d hd).imp Eq.symm And.symm⟩

/-- A literal query is found where it is contained. -/
theorem found_literal (hsql : LawfulSearch sql low) (hq : Ascii query) (h : Literal low query) :
    Found low ((folded query).map .lit ++ [.any]) text ↔ Contains query text := by
  unfold Found Contains
  rw [accepts_search]
  refine infix_map_congr fun d _ => ?_
  by_cases hd : d.toNat < 128
  · exact .inl (hsql.ascii d hd)
  · refine .inr ⟨fun hlow => ?_, fun hlow => ?_⟩
    · obtain ⟨c, hc, he⟩ := List.mem_map.mp hlow
      exact h.2 c hc d (by omega) he.symm
    · have hin := folded_inside hq hlow
      rw [toLower_outside (by omega)] at hin
      exact hd hin

/-! ## A text that is found and does not contain the query -/

theorem map_same {f : Char → Char} {xs : List Char} (h : ∀ c ∈ xs, f c = c) : xs.map f = xs :=
  (List.map_congr_left h).trans (List.map_id xs)

/-- A text that is no longer contains the query only where it is the query. -/
theorem folded_eq (h : Contains query text) (hlen : text.toList.length ≤ query.toList.length) :
    folded query = folded text :=
  h.eq_of_length_le (by simpa only [folded, List.length_map] using hlen)

/-- With a mark in the query: the text its pattern is filled to. -/
theorem found_filled (hsql : LawfulSearch sql low) (hq : Ascii query)
    (hts : Filled like '-' (folded query) ts) (hmark : ¬ ∀ c ∈ query.toList, like.Unmarked c) :
    ∃ text, Found low ts text ∧ ¬ Contains query text := by
  have hchars : ∀ c ∈ fill '-' ts, c.toNat < 128 ∧ c.toLower = c := by
    intro c hc
    rcases hts.chars c hc with hin | rfl | rfl
    · exact ⟨folded_inside hq hin, folded_lower hin⟩
    · decide
    · decide
  have hlow : (fill '-' ts).map low = fill '-' ts :=
    map_same fun c hc => by rw [hsql.ascii c (hchars c hc).1, (hchars c hc).2]
  have hfolded : folded (String.ofList (fill '-' ts)) = fill '-' ts := by
    rw [folded, String.toList_ofList]
    exact map_same fun c hc => (hchars c hc).2
  refine ⟨String.ofList (fill '-' ts), ?_, fun hcontains => hmark ?_⟩
  · unfold Found
    rw [String.toList_ofList, hlow]
    exact accepts_any.mpr ⟨_, List.suffix_rfl, accepts_fill '-' ts⟩
  · have hshort := hts.short
    rw [folded, List.length_map] at hshort
    have hsame := folded_eq hcontains (by rwa [String.toList_ofList])
    exact folded_unmarked.mp (hts.same (hsame.trans hfolded).symm)

/-- With a letter that `lower` makes of another character: that one in its place. -/
theorem found_exotic (hsql : LawfulSearch sql low) (hq : Ascii query) (hc : c ∈ query.toList)
    (hd : 128 ≤ d.toNat) (hlow : low d = c.toLower) :
    ∃ text, Found low ((folded query).map .lit ++ [.any]) text ∧ ¬ Contains query text := by
  let put : Char → Char := fun x => if x = c.toLower then d else x
  refine ⟨String.ofList ((folded query).map put), ?_, fun hcontains => ?_⟩
  · -- as the database lowers it, the text is the query
    have hback : ((folded query).map put).map low = folded query := by
      rw [List.map_map]
      refine map_same fun x hx => ?_
      by_cases hxc : x = c.toLower
      · simp [put, hxc, hlow]
      · simp [put, hxc, hsql.ascii x (folded_inside hq hx), folded_lower hx]
    unfold Found
    rw [accepts_search, String.toList_ofList, hback]
  · have hsame := folded_eq hcontains (by simp [folded])
    have hmem : d.toLower ∈ folded query := by
      rw [hsame, folded, String.toList_ofList, List.map_map]
      refine List.mem_map.mpr ⟨c.toLower, List.mem_map_of_mem hc, ?_⟩
      simp [put]
    have hin := folded_inside hq hmem
    rw [toLower_outside hd] at hin
    omega

/-- What is not literal finds a text that does not contain it. -/
theorem exists_wrong (hsql : LawfulSearch sql low) (hq : Ascii query) (h : ¬ Literal low query) :
    ∃ ts text, parse like (folded query ++ ['%']) = some ts ∧ Found low ts text ∧
      ¬ Contains query text := by
  by_cases hmark : ∀ c ∈ query.toList, like.Unmarked c
  · have hlit := folded_unmarked.mpr hmark
    have hexotic : ∃ c ∈ query.toList, ∃ d : Char, 128 ≤ d.toNat ∧ low d = c.toLower := by
      by_contra hnone
      refine h ⟨hmark, fun c hc d hd hlow => hnone ⟨c, hc, d, hd, hlow⟩⟩
    obtain ⟨c, hc, d, hd, hlow⟩ := hexotic
    obtain ⟨text, hfound, hnot⟩ := found_exotic hsql hq hc hd hlow
    exact ⟨_, text, parse_literal (m := like) (by decide) hlit, hfound, hnot⟩
  · obtain ⟨ts, hts⟩ : ∃ ts, Filled like '-' (folded query) ts :=
      exists_filled (by decide) (by decide) _
    obtain ⟨text, hfound, hnot⟩ := found_filled hsql hq hts hmark
    exact ⟨ts, text, hts.read, hfound, hnot⟩

/-! ## A namespace of one version -/

def shelved (slug summary : String) : HubModel where
  id := 1
  ownerId := 0
  slug := slug
  license := "MIT"
  summary := summary
  createdAt := 0

def release : ModelVersion where
  id := 2
  modelId := 1
  version := "1.0"
  sha256 := String.ofList (List.replicate 64 '0')
  sizeBytes := 1
  state := .published
  createdAt := 0
  publishedAt := some 0

def oneModel (m : HubModel) : Table HubModel := ⟨[m], List.pairwise_singleton _ _⟩

def oneRelease : Table ModelVersion := ⟨[release], List.pairwise_singleton _ _⟩

theorem none_before (m : HubModel) : ∀ n ∈ (Db.ofUsers oneAccount).models, n ∈ oneModel m :=
  fun n hn => absurd hn (Table.not_mem_empty n)

theorem released (slug summary : String) : ∀ v ∈ oneRelease,
    ∃ m ∈ ((Db.ofUsers oneAccount).withModels (oneModel (shelved slug summary))
      (none_before (shelved slug summary))).models, m.id = v.modelId := by
  intro v hv
  obtain rfl : v = release := List.mem_singleton.mp hv
  exact ⟨shelved slug summary, List.mem_singleton.mpr rfl, rfl⟩

/-- One model of alice's, with one version that is published. -/
def shelf (slug summary : String) : Db :=
  ((Db.ofUsers oneAccount).withModels (oneModel (shelved slug summary))
    (none_before (shelved slug summary))).withVersions oneRelease (released slug summary)

def onlyRow (slug summary : String) : PublishedRow := ⟨shelved slug summary, release, "alice"⟩

theorem visibleRows_shelf (slug summary : String) :
    visibleRows (shelf slug summary) = [onlyRow slug summary] := rfl

/-- A slug of one letter that is not the query. -/
def otherSlug (query : String) : String := if folded query = ['m'] then "n" else "m"

theorem otherSlug_not (hne : query ≠ "") : ¬ Contains query (otherSlug query) := by
  have hnil := folded_ne_nil hne
  have hone : ∀ x : Char, folded query <:+: [x] → folded query = [x] := fun x h =>
    h.eq_of_length_le (Nat.one_le_iff_ne_zero.mpr (List.length_pos_iff.mpr hnil).ne')
  unfold Contains otherSlug
  split
  · rename_i hm
    intro h
    have hn := hone 'n' h
    rw [hm] at hn
    cases hn
  · rename_i hm
    exact fun h => hm (hone 'm' h)

/-- **When it holds**: exactly for the literal queries. -/
theorem search_exact_iff (hp : p.LawfulAscii) (hsql : LawfulSearch sql low) (hne : query ≠ "")
    (hq : Ascii query) : Exact p sql query ↔ Literal low query := by
  constructor
  · intro hexact
    by_contra hlit
    obtain ⟨ts, text, hts, hfound, hnot⟩ := exists_wrong hsql hq hlit
    have hvisible := visibleRows_shelf (otherSlug query) text
    have hlimit : (visibleRows (shelf (otherSlug query) text)).length ≤ 1 := by rw [hvisible]; rfl
    have hin : onlyRow (otherSlug query) text ∈ visibleRows (shelf (otherSlug query) text) := by
      rw [hvisible]
      exact List.mem_singleton.mpr rfl
    have hmatch : (onlyRow (otherSlug query) text).matching p sql query = true :=
      (matching_iff hp hsql hq hts).mpr (.inr (.inl hfound))
    obtain ⟨-, hmentions⟩ := (hexact _ 1 hlimit _).mp ((mem_search hne hlimit).mpr ⟨hin, hmatch⟩)
    rcases hmentions with hslug | hsummary | hdataset
    · exact otherSlug_not hne hslug
    · exact hnot hsummary
    · exact folded_ne_nil hne (List.infix_nil.mp hdataset)
  · intro hlit db limit hlimit r
    have hts := parse_literal (m := like) (by decide) (folded_unmarked.mpr hlit.1)
    rw [mem_search hne hlimit, matching_iff hp hsql hq hts]
    simp only [found_literal hsql hq hlit]
    rfl

/-! ## Counterexample -/

/-- PostgreSQL in a locale of ASCII letters. -/
def postgres : Dialect where
  lower v := String.ofList (v.toList.map Char.toLower)
  like text pattern := (parse like pattern.toList).any fun ts => accepts ts text.toList

theorem postgres_lawful : LawfulSearch postgres Char.toLower where
  like text pattern ts h := by simp [postgres, h]
  lower _ := rfl
  ascii _ _ := rfl

theorem literal_mnist : Literal Char.toLower "MNIST" := by
  have hunmarked : ("MNIST".toList.all fun c => decide (like.Unmarked c)) = true := by decide
  refine ⟨fun c hc => of_decide_eq_true (List.all_eq_true.mp hunmarked c hc), fun c hc d hd he => ?_⟩
  have hin : c.toLower.toNat < 128 := @folded_inside "MNIST" _ (by decide) (List.mem_map_of_mem hc)
  rw [← he, toLower_outside hd] at hin
  omega

theorem exact_mnist : Exact plain postgres "MNIST" :=
  (search_exact_iff plain_ascii postgres_lawful (by decide) (by decide)).mpr literal_mnist

/-- **Counterexample**: a search for an underscore finds a model without one. -/
theorem underscore_finds_mnist :
    published plain postgres (shelf "mnist" "") "_" 1 = [onlyRow "mnist" ""] ∧
      ¬ Exact plain postgres "_" := by
  have hfound : published plain postgres (shelf "mnist" "") "_" 1 = [onlyRow "mnist" ""] := by
    decide +kernel
  refine ⟨hfound, fun hexact => ?_⟩
  have hmem : onlyRow "mnist" "" ∈ published plain postgres (shelf "mnist" "") "_" 1 := by
    rw [hfound]
    exact List.mem_singleton.mpr rfl
  obtain ⟨-, hmentions⟩ := (hexact (shelf "mnist" "") 1 (by rw [visibleRows_shelf]; rfl) _).mp hmem
  revert hmentions
  unfold Mentions Contains
  decide

end SpikeHub.Bugs.SearchWildcards
