import Mathlib.Data.List.Pairwise
import Mathlib.Algebra.BigOperators.Group.List.Basic
import Mathlib.Algebra.Order.BigOperators.Group.Finset
import Mathlib.Algebra.Order.BigOperators.Group.List
import Mathlib.Algebra.Order.Ring.Int
import Mathlib.Tactic.Common

/-!
# Tables with unique constraints

A relational table is a list of rows no two of which clash, where `clash`
says that two rows collide on the primary key or on another unique
constraint. The constraint is a field of `Table`, so a table that breaks it
cannot be built: `insert?` is refused (an integrity error), `update` needs a
proof that it leaves the constrained columns apart, `delete` keeps fewer rows.

Aggregates are `sum` and `count` over a `WHERE` filter. The lemmas say how
each statement moves them: an insert adds the new row's part, an update moves
the part of the one row it touches (`sum_update_one`), a delete removes the
parts of the rows it drops (`sum_delete`).
-/
namespace SpikeHub.Core

/-- The unique constraints of a kind of row. -/
class Record (α : Type) where
  clash : α → α → Prop
  refl : ∀ a, clash a a
  symm : ∀ {a b}, clash a b → clash b a

structure Table (α : Type) [Record α] where
  rows : List α
  unique : rows.Pairwise fun a b => ¬ Record.clash a b

namespace Table

variable {α : Type} [Record α]

instance : Membership α (Table α) := ⟨fun t a => a ∈ t.rows⟩

theorem mem_rows {t : Table α} {a : α} : a ∈ t.rows ↔ a ∈ t := Iff.rfl

def empty : Table α := ⟨[], .nil⟩

@[simp] theorem not_mem_empty (a : α) : a ∉ (empty : Table α) := by simp [← mem_rows, empty]

instance : Std.Symm fun a b : α => ¬ Record.clash a b := ⟨fun _ _ h hc => h (Record.symm hc)⟩

/-- Two rows of a table that clash are one row. -/
theorem eq_of_clash (t : Table α) {a b : α} (ha : a ∈ t) (hb : b ∈ t) (h : Record.clash a b) :
    a = b := by
  by_contra hne
  exact t.unique.forall ha hb hne h

theorem nodup (t : Table α) : t.rows.Nodup :=
  t.unique.imp fun {a _} h he => h (by rw [← he]; exact Record.refl a)

/-! ## Statements -/

/-- `SELECT … WHERE p`, the first row. -/
def find? (t : Table α) (p : α → Bool) : Option α := t.rows.find? p

/-- `SELECT … WHERE p`. -/
def select (t : Table α) (p : α → Bool) : List α := t.rows.filter p

def insert (t : Table α) (r : α) (h : ∀ a ∈ t, ¬ Record.clash a r) : Table α where
  rows := t.rows ++ [r]
  unique := by
    rw [List.pairwise_append]
    refine ⟨t.unique, List.pairwise_singleton _ _, fun a ha b hb => ?_⟩
    rw [List.mem_singleton.mp hb]
    exact h a ha

instance (t : Table α) (p : α → Prop) [DecidablePred p] : Decidable (∀ a ∈ t, p a) :=
  inferInstanceAs (Decidable (∀ a ∈ t.rows, p a))

instance (t : Table α) (p : α → Prop) [DecidablePred p] : Decidable (∃ a ∈ t, p a) :=
  inferInstanceAs (Decidable (∃ a ∈ t.rows, p a))

/-- `INSERT`; `none` when the row breaks a unique constraint. -/
def insert? [DecidableRel (Record.clash (α := α))] (t : Table α) (r : α) : Option (Table α) :=
  if h : ∀ a ∈ t, ¬ Record.clash a r then some (t.insert r h) else none

/-- `UPDATE`, row by row; `f` may not bring two rows to a clash. -/
def update (t : Table α) (f : α → α)
    (h : ∀ a ∈ t, ∀ b ∈ t, Record.clash (f a) (f b) → Record.clash a b) : Table α where
  rows := t.rows.map f
  unique := List.pairwise_map.mpr (t.unique.imp_of_mem fun ha hb hn hc => hn (h _ ha _ hb hc))

/-- `UPDATE … SET f WHERE p`, where `f` leaves the constrained columns alone. -/
def updateWhere (t : Table α) (p : α → Bool) (f : α → α)
    (h : ∀ a c, Record.clash (f a) c → Record.clash a c) : Table α :=
  t.update (fun a => if p a then f a else a) <| by
    have key : ∀ a c, Record.clash (if p a then f a else a) c → Record.clash a c := by
      intro a c hc
      split at hc
      · exact h a c hc
      · exact hc
    exact fun a _ b _ hc => Record.symm (key b a (Record.symm (key a _ hc)))

/-- `DELETE … WHERE p`. -/
def delete (t : Table α) (p : α → Bool) : Table α where
  rows := t.rows.filter fun a => !p a
  unique := t.unique.filter _

/-- `SELECT SUM(f) … WHERE p`, zero on no rows. -/
def sum (t : Table α) (p : α → Bool) (f : α → Int) : Int := ((t.select p).map f).sum

/-- `SELECT COUNT(*) … WHERE p`. -/
def count (t : Table α) (p : α → Bool) : Nat := (t.select p).length

variable {t t' : Table α} {a b r : α} {p q : α → Bool} {f : α → Int}

@[simp] theorem mem_select : a ∈ t.select p ↔ a ∈ t ∧ p a = true := List.mem_filter

@[simp] theorem mem_insert {h} : a ∈ t.insert r h ↔ a ∈ t ∨ a = r := by
  rw [← mem_rows, insert, List.mem_append, List.mem_singleton]; exact Iff.rfl

theorem mem_insert_of_mem (h : ∀ a ∈ t, ¬ Record.clash a r) (ha : a ∈ t) : a ∈ t.insert r h :=
  mem_insert.mpr (.inl ha)

theorem mem_insert_self (h : ∀ a ∈ t, ¬ Record.clash a r) : r ∈ t.insert r h :=
  mem_insert.mpr (.inr rfl)

@[simp] theorem mem_update {g : α → α} {h} : a ∈ t.update g h ↔ ∃ b ∈ t, g b = a := by
  rw [← mem_rows, update, List.mem_map]; exact Iff.rfl

@[simp] theorem mem_updateWhere {g : α → α} {h} :
    a ∈ t.updateWhere p g h ↔ ∃ b ∈ t, (if p b then g b else b) = a := mem_update

@[simp] theorem mem_delete : a ∈ t.delete p ↔ a ∈ t ∧ p a = false := by
  rw [← mem_rows, delete, List.mem_filter, Bool.not_eq_true']; exact Iff.rfl

/-- What holds of every row and of the new one. -/
theorem forall_insert {P : α → Prop} (h) (ht : ∀ a ∈ t, P a) (hr : P r) : ∀ a ∈ t.insert r h, P a := by
  intro a ha
  rcases mem_insert.mp ha with ha | rfl
  · exact ht a ha
  · exact hr

/-- What holds of every row and is kept by the `SET`. -/
theorem forall_updateWhere {P : α → Prop} (g : α → α) (h) (ht : ∀ a ∈ t, P a) (hg : ∀ a, P a → P (g a)) :
    ∀ a ∈ t.updateWhere p g h, P a := by
  intro a ha
  obtain ⟨b, hb, rfl⟩ := mem_updateWhere.mp ha
  split
  · exact hg b (ht b hb)
  · exact ht b hb

theorem find?_some (h : t.find? p = some a) : a ∈ t ∧ p a = true :=
  ⟨List.mem_of_find?_eq_some h, List.find?_some h⟩

theorem find?_none (h : t.find? p = none) (ha : a ∈ t) : p a = false := by
  simpa using List.find?_eq_none.mp h a ha

/-- A row the filter picks out up to a clash is the one `find?` returns. -/
theorem find?_eq (ha : a ∈ t) (hp : p a = true) (hu : ∀ b ∈ t, p b = true → Record.clash b a) :
    t.find? p = some a := by
  cases h : t.find? p with
  | none => exact absurd hp (by simp [find?_none h ha])
  | some b => rw [t.eq_of_clash (find?_some h).1 ha (hu b (find?_some h).1 (find?_some h).2)]

theorem insert?_eq_some [DecidableRel (Record.clash (α := α))] (h : t.insert? r = some t') :
    ∃ hr, t' = t.insert r hr := by
  unfold insert? at h
  split at h
  · rename_i hr; exact ⟨hr, (Option.some.inj h).symm⟩
  · cases h

/-! ## Filtered rows

Rows that `p` does not pick out may change without `p`'s rows noticing. -/

theorem select_congr (h : ∀ a ∈ t, p a = q a) : t.select p = t.select q := List.filter_congr h

theorem select_insert_of_not (h) (hr : p r = false) : (t.insert r h).select p = t.select p := by
  unfold select insert
  rw [List.filter_append, List.filter_singleton, hr]
  exact List.append_nil _

theorem select_updateWhere_of_not {g : α → α} (h) (hq : ∀ a ∈ t, q a = true → p a = false)
    (hg : ∀ a ∈ t, q a = true → p (g a) = false) : (t.updateWhere q g h).select p = t.select p := by
  have hrows : ∀ l : List α, (∀ a ∈ l, a ∈ t) →
      (l.map fun a => if q a then g a else a).filter p = l.filter p := by
    intro l
    induction l with
    | nil => exact fun _ => rfl
    | cons a l ih =>
      intro hl
      have hrest := ih fun b hb => hl b (List.mem_cons_of_mem _ hb)
      have ha := hl a List.mem_cons_self
      by_cases hqa : q a = true
      · rw [List.map_cons, if_pos hqa, List.filter_cons_of_neg (by rw [hg a ha hqa]; decide),
          List.filter_cons_of_neg (by rw [hq a ha hqa]; decide), hrest]
      · rw [List.map_cons, if_neg hqa, List.filter_cons, List.filter_cons, hrest]
  exact hrows t.rows fun _ ha => ha

theorem select_delete_of_not (hq : ∀ a ∈ t, q a = true → p a = false) :
    (t.delete q).select p = t.select p := by
  unfold select delete
  rw [List.filter_filter]
  refine List.filter_congr fun a ha => ?_
  cases hqa : q a with
  | false => simp
  | true => rw [hq a ha hqa, Bool.false_and]

/-! ## Aggregates -/

theorem sum_eq (t : Table α) (p : α → Bool) (f : α → Int) :
    t.sum p f = (t.rows.map fun a => if p a then f a else 0).sum := by
  unfold sum select
  induction t.rows with
  | nil => rfl
  | cons a l ih => by_cases h : p a <;> simp [h, ih]

@[simp] theorem sum_empty : (empty : Table α).sum p f = 0 := rfl

theorem sum_insert {h} : (t.insert r h).sum p f = t.sum p f + if p r then f r else 0 := by
  simp [sum_eq, insert]

theorem count_insert {h} : (t.insert r h).count p = t.count p + if p r then 1 else 0 := by
  unfold count select insert
  rw [List.filter_append, List.length_append]
  by_cases hp : p r <;> simp [hp]

theorem count_congr (h : ∀ a ∈ t, p a = q a) : t.count p = t.count q :=
  congrArg List.length (List.filter_congr h)

/-- An `UPDATE` of columns `p` does not read. -/
theorem count_updateWhere {g : α → α} {h} (hg : ∀ a ∈ t, p (g a) = p a) :
    (t.updateWhere q g h).count p = t.count p := by
  unfold count select updateWhere update
  rw [← List.countP_eq_length_filter, ← List.countP_eq_length_filter, List.countP_map]
  refine List.countP_congr fun a ha => ?_
  simp only [Function.comp]
  split
  · rw [hg a ha]
  · exact Iff.rfl

/-- Where nothing matches, nothing is deleted. -/
theorem delete_eq_self (h : ∀ a ∈ t, q a = false) : t.delete q = t := by
  have hrows : t.rows.filter (fun a => !q a) = t.rows :=
    List.filter_eq_self.mpr fun a ha => by rw [h a ha]; rfl
  cases t
  unfold delete
  simp only [hrows]

theorem count_delete : (t.delete q).count p = t.count fun a => p a && !q a :=
  congrArg List.length (List.filter_filter ..)

theorem count_le (t : Table α) (p : α → Bool) : t.count p ≤ t.rows.length := List.length_filter_le _ _

theorem count_eq_zero : t.count p = 0 ↔ ∀ a ∈ t, p a = false := by
  simp [count, select, mem_rows]

/-- A row the filter picks out up to a clash is the only one it counts. -/
theorem count_eq_one (ha : a ∈ t) (hp : p a = true) (hu : ∀ b ∈ t, p b = true → Record.clash b a) :
    t.count p = 1 := by
  have hmem : a ∈ t.select p := mem_select.mpr ⟨ha, hp⟩
  have hall : ∀ b ∈ t.select p, b = a := by
    intro b hb
    obtain ⟨hbt, hpb⟩ := mem_select.mp hb
    exact t.eq_of_clash hbt ha (hu b hbt hpb)
  have hnodup : (t.select p).Nodup := t.nodup.filter _
  rw [List.eq_replicate_of_mem hall, List.nodup_replicate] at hnodup
  have hpos := List.length_pos_of_mem hmem
  unfold count
  omega

theorem sum_congr {q : α → Bool} {g : α → Int}
    (h : ∀ a ∈ t, (if p a then f a else 0) = if q a then g a else 0) : t.sum p f = t.sum q g := by
  rw [sum_eq, sum_eq, List.map_congr_left h]

theorem sum_le_sum {q : α → Bool} {g : α → Int}
    (h : ∀ a ∈ t, (if p a then f a else 0) ≤ if q a then g a else 0) : t.sum p f ≤ t.sum q g := by
  rw [sum_eq, sum_eq]
  exact List.sum_le_sum h

theorem sum_nonneg (h : ∀ a ∈ t, p a = true → 0 ≤ f a) : 0 ≤ t.sum p f := by
  rw [sum_eq]
  refine List.sum_nonneg fun x hx => ?_
  obtain ⟨a, ha, rfl⟩ := List.mem_map.mp hx
  split
  · exact h a ha ‹_›
  · exact Int.le_refl 0

/-- Summands that differ at one row only. -/
theorem sum_map_one (t : Table α) {F G : α → Int} (ha : a ∈ t) (h : ∀ b ∈ t, b ≠ a → G b = F b) :
    (t.rows.map G).sum = (t.rows.map F).sum - F a + G a := by
  classical
  have hrest : (t.rows.erase a).map G = (t.rows.erase a).map F := by
    refine List.map_congr_left fun b hb => ?_
    obtain ⟨hne, hb⟩ := (List.Nodup.mem_erase_iff t.nodup).mp hb
    exact h b hb hne
  rw [← List.sum_map_erase F ha, ← List.sum_map_erase G ha, hrest]
  omega

/-- The rows an `UPDATE` leaves alone keep their part of a sum; the one row
it changes moves it by the difference. -/
theorem sum_update_one {g : α → α} {h} (ha : a ∈ t) (hother : ∀ b ∈ t, b ≠ a → g b = b) :
    (t.update g h).sum p f =
      t.sum p f - (if p a then f a else 0) + if p (g a) then f (g a) else 0 := by
  have hrows : (t.update g h).rows = t.rows.map g := rfl
  rw [sum_eq, sum_eq, hrows, List.map_map]
  exact sum_map_one t ha fun b hb hne => by simp only [Function.comp, hother b hb hne]

/-- A measure that changes on the row `a` only. -/
theorem sum_measure_one {g : α → Int} (ha : a ∈ t) (hother : ∀ b ∈ t, b ≠ a → g b = f b) :
    t.sum p g = t.sum p f + if p a then g a - f a else 0 := by
  have hone := sum_map_one t (F := fun b => if p b then f b else 0)
    (G := fun b => if p b then g b else 0) ha fun b hb hne => by simp only [hother b hb hne]
  rw [sum_eq, sum_eq, hone]
  split <;> omega

/-- An `UPDATE` that picks out the row `a` moves a sum by the change of that row. -/
theorem sum_updateWhere {g : α → α} {h} (ha : a ∈ t) (hq : ∀ b ∈ t, q b = true ↔ b = a) :
    (t.updateWhere q g h).sum p f =
      t.sum p f - (if p a then f a else 0) + if p (g a) then f (g a) else 0 := by
  have hqa : q a = true := (hq a ha).mpr rfl
  rw [updateWhere, sum_update_one ha fun b hb hne => by simp [mt (hq b hb).mp hne], if_pos hqa]

/-- A `DELETE` takes the parts of the rows it drops out of a sum. -/
theorem sum_delete : (t.delete q).sum p f = t.sum p f - t.sum (fun a => p a && q a) f := by
  rw [sum_eq, sum_eq, sum_eq]
  simp only [delete]
  induction t.rows with
  | nil => rfl
  | cons a l ih =>
    by_cases hq : q a <;> by_cases hp : p a <;> simp [hq, hp] at ih ⊢ <;> omega

/-- A `DELETE` that picks out the row `a` takes out the part of that row. -/
theorem sum_delete_one (ha : a ∈ t) (hq : ∀ b ∈ t, q b = true ↔ b = a) :
    (t.delete q).sum p f = t.sum p f - if p a then f a else 0 := by
  have hone := sum_map_one t (F := fun b => if p b && q b then f b else 0) (G := fun _ => 0) ha
    fun b hb hne => by simp [mt (hq b hb).mp hne]
  rw [sum_delete, sum_eq t (fun b => p b && q b)]
  have hzero : (t.rows.map fun _ => (0 : Int)).sum = 0 := by simp
  simp only [(hq a ha).mpr rfl, Bool.and_true, hzero] at hone
  omega

/-- Where distinct rows of `t` are covered by distinct rows of `u` of the same
measure, the one sum is within the other. -/
theorem sum_le_of_cover {β κ : Type} [Record β] {u : Table β} {c : β → Bool} {g : β → Int} {k : α → κ}
    {l : β → κ} (hcover : ∀ a ∈ t, p a = true → ∃ b ∈ u, c b = true ∧ l b = k a ∧ g b = f a)
    (hinj : ∀ a ∈ t, ∀ b ∈ t, p a = true → p b = true → k a = k b → a = b)
    (hnonneg : ∀ b ∈ u, c b = true → 0 ≤ g b) : t.sum p f ≤ u.sum c g := by
  classical
  have hsum : ∀ {γ : Type} [Record γ] (t : Table γ) (p : γ → Bool) (f : γ → Int),
      t.sum p f = ∑ a ∈ (t.select p).toFinset, f a := by
    intro γ _ t p f
    exact (List.sum_toFinset f (t.nodup.filter _)).symm
  have hmem : ∀ a : { a // a ∈ (t.select p).toFinset }, a.1 ∈ t ∧ p a.1 = true := fun a =>
    mem_select.mp (List.mem_toFinset.mp a.2)
  choose row hrow using fun a : { a // a ∈ (t.select p).toFinset } =>
    hcover a.1 (hmem a).1 (hmem a).2
  have hrows : Function.Injective row := by
    intro a b he
    obtain ⟨ha, hpa⟩ := hmem a
    obtain ⟨hb, hpb⟩ := hmem b
    refine Subtype.ext (hinj a.1 ha b.1 hb hpa hpb ?_)
    rw [← (hrow a).2.2.1, ← (hrow b).2.2.1, he]
  rw [hsum, hsum]
  calc ∑ a ∈ (t.select p).toFinset, f a
      = ∑ a ∈ (t.select p).toFinset.attach, g (row a) := by
        rw [← Finset.sum_attach]
        exact Finset.sum_congr rfl fun a _ => (hrow a).2.2.2.symm
    _ = ∑ b ∈ (t.select p).toFinset.attach.image row, g b := by
        rw [Finset.sum_image fun a _ b _ he => hrows he]
    _ ≤ ∑ b ∈ (u.select c).toFinset, g b := by
        refine Finset.sum_le_sum_of_subset_of_nonneg (fun b hb => ?_) fun b hb _ => ?_
        · obtain ⟨a, -, rfl⟩ := Finset.mem_image.mp hb
          exact List.mem_toFinset.mpr (mem_select.mpr ⟨(hrow a).1, (hrow a).2.1⟩)
        · obtain ⟨hb, hcb⟩ := mem_select.mp (List.mem_toFinset.mp hb)
          exact hnonneg b hb hcb

/-! ## Rows over time -/

/-- What became of a table: each row is related to the row it was, or is new;
no row is lost. -/
structure Evolves (R : α → α → Prop) (New : α → Prop) (t t' : Table α) : Prop where
  old : ∀ b ∈ t', (∃ a ∈ t, R a b) ∨ New b
  kept : ∀ a ∈ t, ∃ b ∈ t', R a b

namespace Evolves

variable {R : α → α → Prop} {New : α → Prop} {t'' : Table α}

theorem refl (hR : ∀ a, R a a) (t : Table α) : Evolves R New t t :=
  ⟨fun b hb => .inl ⟨b, hb, hR b⟩, fun a ha => ⟨a, ha, hR a⟩⟩

/-- What is new stays new while it is changed. -/
theorem trans (hR : ∀ {a b c}, R a b → R b c → R a c) (hnew : ∀ {a b}, New a → R a b → New b)
    (h : Evolves R New t t') (h' : Evolves R New t' t'') : Evolves R New t t'' where
  old c hc := by
    rcases h'.old c hc with ⟨b, hb, hbc⟩ | hc
    · rcases h.old b hb with ⟨a, ha, hab⟩ | hb
      · exact .inl ⟨a, ha, hR hab hbc⟩
      · exact .inr (hnew hb hbc)
    · exact .inr hc
  kept a ha := by
    obtain ⟨b, hb, hab⟩ := h.kept a ha
    obtain ⟨c, hc, hbc⟩ := h'.kept b hb
    exact ⟨c, hc, hR hab hbc⟩

theorem insert (hR : ∀ a, R a a) (h) (hr : New r) : Evolves R New t (t.insert r h) where
  old b hb := by
    rcases mem_insert.mp hb with hb | rfl
    · exact .inl ⟨b, hb, hR b⟩
    · exact .inr hr
  kept a ha := ⟨a, mem_insert.mpr (.inl ha), hR a⟩

theorem updateWhere (hR : ∀ a, R a a) (g : α → α) (h) (hg : ∀ a ∈ t, p a = true → R a (g a)) :
    Evolves R New t (t.updateWhere p g h) where
  old b hb := by
    obtain ⟨a, ha, rfl⟩ := mem_updateWhere.mp hb
    refine .inl ⟨a, ha, ?_⟩
    split
    · exact hg a ha ‹_›
    · exact hR a
  kept a ha := by
    refine ⟨_, mem_updateWhere.mpr ⟨a, ha, rfl⟩, ?_⟩
    split
    · exact hg a ha ‹_›
    · exact hR a

end Evolves

end Table
end SpikeHub.Core
