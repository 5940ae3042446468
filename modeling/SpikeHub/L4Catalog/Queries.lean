import SpikeHub.L4Auth.Platform
import Mathlib.Data.List.Nodup

/-!
# The published namespace

Model of hub_api/catalog/queries.py. `joined` is the join of models, versions
and owners, `visibleRows` what `_published` lets through of it, in the order
the tables keep their rows; where a query does not order its rows the database
is free to return them in any.

A handle, a slug and a version name at most one row (`named_unique`): the
three unique constraints of the schema, one after the other. So what
`one_version` finds depends on the rows alone (`oneVersion_eq_some`).

Where every model has an owner, `visibleRows` has one row for each version that
is public (`length_visibleRows`).
-/
namespace SpikeHub.L4.Catalog

open SpikeHub.Core SpikeHub.L1 SpikeHub.L4.Auth

/-- The text functions of the database. -/
structure Dialect where
  /-- `lower(text)` -/
  lower : String → String
  /-- `text LIKE pattern` -/
  like : String → String → Bool

/-- One row of the public listing: the model, its version, and its owner. -/
structure PublishedRow where
  model : HubModel
  version : ModelVersion
  handle : String
deriving DecidableEq, Repr

def joined (db : Db) : List PublishedRow :=
  db.models.rows.flatMap fun m =>
    (db.versions.select fun v => v.modelId = m.id).flatMap fun v =>
      (db.users.select fun u => u.id = m.ownerId).map fun u => ⟨m, v, u.handle⟩

/-- Publicly visible. -/
def PublishedRow.visible (r : PublishedRow) : Bool :=
  r.model.state = .active && r.model.visibility = .public && r.version.state = .published

/-- `_published`.
mirrors hub_api/catalog/queries.py:15-27 -/
def visibleRows (db : Db) : List PublishedRow := (joined db).filter PublishedRow.visible

/-- `published_at DESC`: nulls first. -/
def newestFirst (a b : PublishedRow) : Bool :=
  match a.version.publishedAt, b.version.publishedAt with
  | none, _ => true
  | some _, none => false
  | some s, some t => t ≤ s

def PublishedRow.matching (p : Platform) (sql : Dialect) (query : String) (r : PublishedRow) : Bool :=
  let pattern := "%" ++ p.lower query ++ "%"
  sql.like (sql.lower r.model.slug) pattern || sql.like (sql.lower r.model.summary) pattern ||
    sql.like (sql.lower r.model.dataset) pattern

/-- mirrors hub_api/catalog/queries.py:29-49 -/
def published (p : Platform) (sql : Dialect) (db : Db) (query : String := "") (limit : Nat := 100) :
    List PublishedRow :=
  let rows := if query = "" then visibleRows db
    else (visibleRows db).filter (PublishedRow.matching p sql query)
  (rows.mergeSort newestFirst).take limit

def PublishedRow.named (handle slug version : String) (r : PublishedRow) : Bool :=
  r.handle = handle && r.model.slug = slug && r.version.version = version

/-- mirrors hub_api/catalog/queries.py:52-66 -/
def oneVersion (db : Db) (handle slug version : String) : Option PublishedRow :=
  ((visibleRows db).filter (PublishedRow.named handle slug version)).head?

/-- mirrors hub_api/catalog/queries.py:69-83 -/
def latestVersion (db : Db) (handle slug : String) : Option PublishedRow :=
  (((visibleRows db).filter fun r => r.handle = handle && r.model.slug = slug).mergeSort
    newestFirst).head?

/-! ## Which rows there are -/

variable {db : Db} {r a b : PublishedRow} {handle slug version : String}

theorem mem_joined : r ∈ joined db ↔ r.model ∈ db.models ∧ r.version ∈ db.versions ∧
    r.version.modelId = r.model.id ∧ ∃ u ∈ db.users, u.id = r.model.ownerId ∧ u.handle = r.handle := by
  unfold joined
  simp only [List.mem_flatMap, List.mem_map, Table.mem_select, decide_eq_true_eq]
  constructor
  · intro h
    obtain ⟨m, hm, v, ⟨hv, hkey⟩, u, ⟨hu, howner⟩, he⟩ := h
    subst he
    exact ⟨hm, hv, hkey, u, hu, howner, rfl⟩
  · intro h
    obtain ⟨hm, hv, hkey, u, hu, howner, hhandle⟩ := h
    exact ⟨r.model, hm, r.version, ⟨hv, hkey⟩, u, ⟨hu, howner⟩, by rw [hhandle]⟩

theorem mem_visibleRows : r ∈ visibleRows db ↔ r ∈ joined db ∧ r.model.state = .active ∧
    r.model.visibility = .public ∧ r.version.state = .published := by
  unfold visibleRows PublishedRow.visible
  simp only [List.mem_filter, Bool.and_eq_true, decide_eq_true_eq, and_assoc]

theorem named_iff : r.named handle slug version = true ↔
    r.handle = handle ∧ r.model.slug = slug ∧ r.version.version = version := by
  unfold PublishedRow.named
  simp only [Bool.and_eq_true, decide_eq_true_eq, and_assoc]

/-- The join lists no row twice. -/
theorem joined_nodup (db : Db) : (joined db).Nodup := by
  unfold joined
  rw [List.nodup_flatMap]
  refine ⟨fun m _ => ?_, db.models.nodup.imp fun {m m'} hne => ?_⟩
  · rw [List.nodup_flatMap]
    refine ⟨fun v _ => ?_, (db.versions.nodup.filter _).imp fun {v v'} hne => ?_⟩
    · refine (db.users.nodup.filter _).map_on fun u hu u' hu' _ => ?_
      obtain ⟨hmem, hid⟩ := Table.mem_select.mp hu
      obtain ⟨hmem', hid'⟩ := Table.mem_select.mp hu'
      simp only [decide_eq_true_eq] at hid hid'
      exact db.users.eq_of_clash hmem hmem' (.inl (hid.trans hid'.symm))
    · intro r hr hr'
      obtain ⟨u, -, he⟩ := List.mem_map.mp hr
      obtain ⟨u', -, he'⟩ := List.mem_map.mp hr'
      exact hne (congrArg PublishedRow.version (he.trans he'.symm))
  · intro r hr hr'
    simp only [List.mem_flatMap, List.mem_map] at hr hr'
    obtain ⟨v, -, u, -, he⟩ := hr
    obtain ⟨v', -, u', -, he'⟩ := hr'
    exact hne (congrArg PublishedRow.model (he.trans he'.symm))

/-- Every row of a listing is visible. -/
theorem mem_published {p : Platform} {sql : Dialect} {query : String} {limit : Nat}
    (h : r ∈ published p sql db query limit) : r ∈ visibleRows db := by
  unfold published at h
  have hsorted := List.mem_of_mem_take h
  rw [List.mem_mergeSort] at hsorted
  split at hsorted
  · exact hsorted
  · exact (List.mem_filter.mp hsorted).1

/-- A search that is long enough has every visible row that matches. -/
theorem mem_search {p : Platform} {sql : Dialect} {query : String} {limit : Nat} (hquery : query ≠ "")
    (hlimit : (visibleRows db).length ≤ limit) :
    r ∈ published p sql db query limit ↔ r ∈ visibleRows db ∧ r.matching p sql query = true := by
  have hshort : (((visibleRows db).filter (PublishedRow.matching p sql query)).mergeSort
      newestFirst).length ≤ limit := by
    rw [List.length_mergeSort]
    exact Nat.le_trans (List.length_filter_le _ _) hlimit
  unfold published
  rw [if_neg hquery, List.take_of_length_le hshort, List.mem_mergeSort, List.mem_filter]

/-- The first `limit` of all that is visible. -/
def newest (db : Db) (limit : Nat) : List PublishedRow :=
  ((visibleRows db).mergeSort newestFirst).take limit

theorem published_newest {p : Platform} {sql : Dialect} {limit : Nat} :
    published p sql db "" limit = newest db limit := by
  unfold published newest
  rw [if_pos rfl]

theorem newest_visible {limit : Nat} (h : r ∈ newest db limit) : r ∈ visibleRows db :=
  List.mem_mergeSort.mp (List.mem_of_mem_take h)

/-- A listing that is long enough has them all. -/
theorem newest_all {limit : Nat} (hlimit : (visibleRows db).length ≤ limit) (h : r ∈ visibleRows db) :
    r ∈ newest db limit := by
  unfold newest
  rw [List.take_of_length_le (by rwa [List.length_mergeSort]), List.mem_mergeSort]
  exact h

theorem length_newest_le (db : Db) (limit : Nat) : (newest db limit).length ≤ limit :=
  List.length_take_le _ _

theorem visibleRows_nodup (db : Db) : (visibleRows db).Nodup := (joined_nodup db).filter _

theorem newest_nodup (db : Db) (limit : Nat) : (newest db limit).Nodup :=
  ((List.mergeSort_perm _ _).nodup_iff.mpr (visibleRows_nodup db)).sublist (List.take_sublist _ _)

/-- Handle, slug and version name one row: handles are unique, slugs are in
their owner's models, versions in their model. -/
theorem named_unique (ha : a ∈ joined db) (hb : b ∈ joined db) (hhandle : a.handle = b.handle)
    (hslug : a.model.slug = b.model.slug) (hversion : a.version.version = b.version.version) :
    a = b := by
  obtain ⟨hma, hva, hka, u, hu, howna, hua⟩ := mem_joined.mp ha
  obtain ⟨hmb, hvb, hkb, w, hw, hownb, hwb⟩ := mem_joined.mp hb
  have huser : u = w := db.users.eq_of_clash hu hw (.inr (.inl (by rw [hua, hwb, hhandle])))
  have howner : a.model.ownerId = b.model.ownerId := by rw [← howna, ← hownb, huser]
  have hmodel : a.model = b.model := db.models.eq_of_clash hma hmb (.inr ⟨howner, hslug⟩)
  have hkey : a.version.modelId = b.version.modelId := by rw [hka, hkb, hmodel]
  have hrow : a.version = b.version := db.versions.eq_of_clash hva hvb (.inr ⟨hkey, hversion⟩)
  rcases a with ⟨m, v, x⟩
  rcases b with ⟨m', v', x'⟩
  simp only at hmodel hrow hhandle
  rw [hmodel, hrow, hhandle]

/-- The rows a name picks out are none or one. -/
theorem named_length_le (db : Db) (handle slug version : String) :
    ((visibleRows db).filter (PublishedRow.named handle slug version)).length ≤ 1 := by
  have hnodup : ((visibleRows db).filter (PublishedRow.named handle slug version)).Nodup :=
    (visibleRows_nodup db).filter _
  have hone : ∀ a ∈ (visibleRows db).filter (PublishedRow.named handle slug version),
      ∀ b ∈ (visibleRows db).filter (PublishedRow.named handle slug version), a = b := by
    intro a ha b hb
    obtain ⟨hma, hna⟩ := List.mem_filter.mp ha
    obtain ⟨hmb, hnb⟩ := List.mem_filter.mp hb
    obtain ⟨hha, hsa, hva⟩ := named_iff.mp hna
    obtain ⟨hhb, hsb, hvb⟩ := named_iff.mp hnb
    exact named_unique (mem_visibleRows.mp hma).1 (mem_visibleRows.mp hmb).1 (hha.trans hhb.symm)
      (hsa.trans hsb.symm) (hva.trans hvb.symm)
  match hx : (visibleRows db).filter (PublishedRow.named handle slug version) with
  | [] => simp
  | [_] => simp
  | a :: b :: rest =>
    rw [hx] at hnodup hone
    have hab : a = b := hone a (by simp) b (by simp)
    simp [hab] at hnodup

theorem oneVersion_eq_some : oneVersion db handle slug version = some r ↔
    r ∈ visibleRows db ∧ r.handle = handle ∧ r.model.slug = slug ∧ r.version.version = version := by
  unfold oneVersion
  constructor
  · intro h
    obtain ⟨hmem, hnamed⟩ := List.mem_filter.mp (List.mem_of_head? h)
    exact ⟨hmem, named_iff.mp hnamed⟩
  · intro h
    obtain ⟨hmem, hh, hs, hv⟩ := h
    have hin : r ∈ (visibleRows db).filter (PublishedRow.named handle slug version) :=
      List.mem_filter.mpr ⟨hmem, named_iff.mpr ⟨hh, hs, hv⟩⟩
    cases hx : (visibleRows db).filter (PublishedRow.named handle slug version) with
    | nil => rw [hx] at hin; cases hin
    | cons x xs =>
      have hxin : x ∈ (visibleRows db).filter (PublishedRow.named handle slug version) := by
        rw [hx]; exact List.mem_cons_self
      obtain ⟨hxmem, hxnamed⟩ := List.mem_filter.mp hxin
      obtain ⟨hxh, hxs, hxv⟩ := named_iff.mp hxnamed
      have hxr := named_unique (mem_visibleRows.mp hxmem).1 (mem_visibleRows.mp hmem).1
        (hxh.trans hh.symm) (hxs.trans hs.symm) (hxv.trans hv.symm)
      rw [List.head?_cons, hxr]

/-! ## Which versions are public -/

/-- Published, under a model that is active and public. -/
def isPublic (db : Db) (v : ModelVersion) : Bool :=
  v.state = .published &&
    (db.models.select fun m => m.id = v.modelId).any fun m => m.state = .active && m.visibility = .public

def publicVersions (db : Db) : List ModelVersion := db.versions.select (isPublic db)

theorem mem_publicVersions {v : ModelVersion} : v ∈ publicVersions db ↔ v ∈ db.versions ∧
    v.state = .published ∧
      ∃ m ∈ db.models, m.id = v.modelId ∧ m.state = .active ∧ m.visibility = .public := by
  unfold publicVersions isPublic
  simp only [Table.mem_select, Bool.and_eq_true, decide_eq_true_eq, List.any_eq_true, and_assoc]

/-- A version has one row in the join. -/
theorem version_unique (ha : a ∈ joined db) (hb : b ∈ joined db) (h : a.version = b.version) : a = b := by
  obtain ⟨hma, -, hka, u, hu, howna, hua⟩ := mem_joined.mp ha
  obtain ⟨hmb, -, hkb, w, hw, hownb, hwb⟩ := mem_joined.mp hb
  have hmodel : a.model = b.model :=
    db.models.eq_of_clash hma hmb (.inl (by rw [← hka, ← hkb, h]))
  have huser : u = w := db.users.eq_of_clash hu hw (.inl (by rw [howna, hownb, hmodel]))
  have hhandle : a.handle = b.handle := by rw [← hua, ← hwb, huser]
  rcases a with ⟨m, v, x⟩
  rcases b with ⟨m', v', x'⟩
  simp only at hmodel h hhandle
  rw [hmodel, h, hhandle]

theorem visible_version (h : r ∈ visibleRows db) : r.version ∈ publicVersions db := by
  obtain ⟨hjoined, hactive, hpublic, hstate⟩ := mem_visibleRows.mp h
  obtain ⟨hm, hv, hkey, -⟩ := mem_joined.mp hjoined
  exact mem_publicVersions.mpr ⟨hv, hstate, r.model, hm, hkey.symm, hactive, hpublic⟩

/-- Where models have owners, a public version has a row that is visible. -/
theorem exists_visible (howners : ∀ m ∈ db.models, ∃ u ∈ db.users, u.id = m.ownerId) {v : ModelVersion}
    (h : v ∈ publicVersions db) : ∃ r ∈ visibleRows db, r.version = v := by
  obtain ⟨hv, hstate, m, hm, hid, hactive, hpublic⟩ := mem_publicVersions.mp h
  obtain ⟨u, hu, howner⟩ := howners m hm
  have hjoined : (⟨m, v, u.handle⟩ : PublishedRow) ∈ joined db :=
    mem_joined.mpr ⟨hm, hv, hid.symm, u, hu, howner, rfl⟩
  exact ⟨_, mem_visibleRows.mpr ⟨hjoined, hactive, hpublic, hstate⟩, rfl⟩

theorem length_visibleRows (howners : ∀ m ∈ db.models, ∃ u ∈ db.users, u.id = m.ownerId) :
    (visibleRows db).length = (publicVersions db).length := by
  have hrows : ((visibleRows db).map PublishedRow.version).Nodup := by
    refine (visibleRows_nodup db).map_on fun a ha b hb h => ?_
    exact version_unique (mem_visibleRows.mp ha).1 (mem_visibleRows.mp hb).1 h
  have hversions : (publicVersions db).Nodup := db.versions.nodup.filter _
  have hperm : ((visibleRows db).map PublishedRow.version).Perm (publicVersions db) := by
    refine (List.perm_ext_iff_of_nodup hrows hversions).mpr fun v => ?_
    rw [List.mem_map]
    constructor
    · rintro ⟨r, hr, rfl⟩
      exact visible_version hr
    · exact exists_visible howners
  rw [← hperm.length_eq, List.length_map]

end SpikeHub.L4.Catalog
