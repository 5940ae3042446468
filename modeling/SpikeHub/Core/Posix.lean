import Mathlib.Algebra.BigOperators.Group.Finset.Basic
import Mathlib.Algebra.BigOperators.Group.Finset.Piecewise
import SpikeHub.Core.Table

/-!
# A POSIX file volume

Directory entries name inodes; inodes hold bytes. There are no hard links,
so an inode has at most one name (part of `Dirent`'s unique constraint), and
an inode number is never handed out twice: a handle is an inode number, and
it keeps working whatever happens to the name.

* `openTrunc` is `open(path, "wb")`: the named file emptied, or a new one;
* `writeAt` writes at an offset, past the end after a run of zero bytes;
* `rename` replaces the target's entry, keeping the inode; it fails when the
  source has no entry;
* `unlink` removes the entry if there is one, never the inode.

`lookup_*` and `data_*` say what each call does to names and to contents, and
`read_*` what is then read under a name. `Rewrites fs p o fs'` is a change at
one name, and `Rewrites.usage` what it does to the space in use.
-/
namespace SpikeHub.Core

abbrev Bytes := List UInt8

structure Dirent (π : Type) where
  path : π
  ino : Nat

instance (π : Type) : Record (Dirent π) where
  clash a b := a.path = b.path ∨ a.ino = b.ino
  refl _ := .inl rfl
  symm h := h.imp Eq.symm Eq.symm

structure Fs (π : Type) where
  dir : Table (Dirent π)
  inodes : List Bytes
  bound : ∀ d ∈ dir, d.ino < inodes.length

namespace Fs

variable {π : Type}

def empty (π : Type) : Fs π := ⟨.empty, [], by simp⟩

/-- Contents of an inode. -/
def data (fs : Fs π) (i : Nat) : Bytes := fs.inodes[i]?.getD []

/-- Bytes held under any name. -/
def usage (fs : Fs π) : Int := fs.dir.sum (fun _ => true) fun d => (fs.data d.ino).length

def setData (fs : Fs π) (i : Nat) (bs : Bytes) : Fs π where
  dir := fs.dir
  inodes := fs.inodes.set i bs
  bound := by simpa using fs.bound

def splice (old : Bytes) (off : Nat) (bs : Bytes) : Bytes :=
  old.take off ++ List.replicate (off - old.length) 0 ++ bs ++ old.drop (off + bs.length)

/-- `write` on a handle standing at `off`. -/
def writeAt (fs : Fs π) (i off : Nat) (bs : Bytes) : Fs π :=
  fs.setData i (splice (fs.data i) off bs)

def create (fs : Fs π) (p : π) (h : ∀ d ∈ fs.dir, d.path ≠ p) : Fs π where
  dir := fs.dir.insert ⟨p, fs.inodes.length⟩ fun d hd =>
    not_or.mpr ⟨h d hd, Nat.ne_of_lt (fs.bound d hd)⟩
  inodes := fs.inodes ++ [[]]
  bound := by
    intro d hd
    rw [List.length_append, List.length_singleton]
    rcases Table.mem_insert.mp hd with hd | rfl
    · exact Nat.lt_succ_of_lt (fs.bound d hd)
    · exact Nat.lt_succ_self _

/-! ## Contents -/

section
variable {fs fs' : Fs π} {i j : Nat} {bs : Bytes}

theorem data_setData (hi : i < fs.inodes.length) :
    (fs.setData i bs).data j = if j = i then bs else fs.data j := by
  unfold data setData
  by_cases h : j = i
  · subst h; simp [hi]
  · simp [h, Ne.symm h]

@[simp] theorem length_setData : (fs.setData i bs).inodes.length = fs.inodes.length := by
  simp [setData]

@[simp] theorem setData_setData {cs : Bytes} :
    (fs.setData i bs).setData i cs = fs.setData i cs := by
  simp [setData]

/-- A sequential write appends. -/
theorem splice_end (old bs : Bytes) : splice old old.length bs = old ++ bs := by
  simp [splice]

theorem data_congr (h : fs'.inodes = fs.inodes) : fs'.data j = fs.data j := by
  unfold data; rw [h]

end

/-! ## Names -/

variable [DecidableEq π]

def lookup (fs : Fs π) (p : π) : Option Nat := (fs.dir.find? fun d => d.path = p).map Dirent.ino

/-- `path.exists()` -/
def present (fs : Fs π) (p : π) : Bool := (fs.lookup p).isSome

/-- Contents under a name. -/
def read (fs : Fs π) (p : π) : Option Bytes := (fs.lookup p).map fs.data

theorem path_ne_of_lookup {fs : Fs π} {p : π} (h : fs.lookup p = none) :
    ∀ d ∈ fs.dir, d.path ≠ p := by
  intro d hd
  simpa using Table.find?_none (Option.map_eq_none_iff.mp h) hd

/-- `path.open("wb")`: the volume and the handle's inode. -/
def openTrunc (fs : Fs π) (p : π) : Fs π × Nat :=
  match h : fs.lookup p with
  | some i => (fs.setData i [], i)
  | none => (fs.create p (path_ne_of_lookup h), fs.inodes.length)

/-- `path.unlink(missing_ok=True)` -/
def unlink (fs : Fs π) (p : π) : Fs π where
  dir := fs.dir.delete fun d => d.path = p
  inodes := fs.inodes
  bound d hd := fs.bound d (Table.mem_delete.mp hd).1

theorem lookup_eq_some {fs : Fs π} {p : π} {i : Nat} :
    fs.lookup p = some i ↔ (⟨p, i⟩ : Dirent π) ∈ fs.dir := by
  unfold lookup
  constructor
  · intro h
    obtain ⟨⟨q, j⟩, hd, rfl⟩ := Option.map_eq_some_iff.mp h
    obtain ⟨hm, hp⟩ := Table.find?_some hd
    simp only [decide_eq_true_eq] at hp
    exact hp ▸ hm
  · intro h
    rw [Table.find?_eq h (by simp) fun b _ hb => .inl (by simpa using hb)]
    rfl

theorem lookup_lt {fs : Fs π} {p : π} {i : Nat} (h : fs.lookup p = some i) :
    i < fs.inodes.length :=
  fs.bound _ (lookup_eq_some.mp h)

/-- An inode has one name. -/
theorem lookup_inj {fs : Fs π} {p q : π} {i : Nat} (hp : fs.lookup p = some i)
    (hq : fs.lookup q = some i) : p = q :=
  congrArg Dirent.path
    (fs.dir.eq_of_clash (lookup_eq_some.mp hp) (lookup_eq_some.mp hq) (.inr rfl))

/-- `os.replace(p, q)`; `none` when `p` has no entry. -/
def rename (fs : Fs π) (p q : π) : Option (Fs π) :=
  match h : fs.lookup p with
  | none => none
  | some i => some {
      dir := (fs.dir.delete fun d => d.path = p ∨ d.path = q).insert ⟨q, i⟩ <| by
        intro d hd
        obtain ⟨hd, hn⟩ := Table.mem_delete.mp hd
        simp only [decide_eq_false_iff_not, not_or] at hn
        rintro (he | he)
        · exact hn.2 he
        · exact hn.1 (lookup_inj (lookup_eq_some.mpr hd) (he ▸ h))
      inodes := fs.inodes
      bound := by
        intro d hd
        rcases Table.mem_insert.mp hd with hd | rfl
        · exact fs.bound d (Table.mem_delete.mp hd).1
        · exact lookup_lt h }

variable {fs fs' : Fs π} {p q : π} {i j : Nat} {bs : Bytes}

@[simp] theorem lookup_setData : (fs.setData i bs).lookup p = fs.lookup p := rfl

/-! ## `openTrunc` -/

theorem openTrunc_some (h : fs.lookup p = some i) : fs.openTrunc p = (fs.setData i [], i) := by
  unfold openTrunc
  split
  · rename_i j hj; rw [h] at hj; cases hj; rfl
  · rename_i hn; rw [h] at hn; cases hn

theorem openTrunc_none (h : fs.lookup p = none) :
    fs.openTrunc p = (fs.create p (path_ne_of_lookup h), fs.inodes.length) := by
  unfold openTrunc
  split
  · rename_i j hj; rw [h] at hj; cases hj
  · rfl

theorem lookup_create (h : ∀ d ∈ fs.dir, d.path ≠ p) :
    (fs.create p h).lookup q = if q = p then some fs.inodes.length else fs.lookup q := by
  split
  · rename_i he; subst he
    rw [lookup_eq_some, create, Table.mem_insert]
    exact .inr rfl
  · rename_i hne
    refine Option.ext fun k => ?_
    rw [lookup_eq_some, lookup_eq_some, create, Table.mem_insert]
    simp [hne]

theorem lookup_openTrunc :
    (fs.openTrunc p).1.lookup q = if q = p then some (fs.openTrunc p).2 else fs.lookup q := by
  cases h : fs.lookup p with
  | some k =>
    rw [openTrunc_some h, lookup_setData]
    split
    · rename_i he; subst he; exact h
    · rfl
  | none => rw [openTrunc_none h]; exact lookup_create (path_ne_of_lookup h)

theorem openTrunc_lt : (fs.openTrunc p).2 < (fs.openTrunc p).1.inodes.length :=
  lookup_lt (p := p) (by rw [lookup_openTrunc, if_pos rfl])

theorem data_openTrunc :
    (fs.openTrunc p).1.data j = if j = (fs.openTrunc p).2 then [] else fs.data j := by
  cases h : fs.lookup p with
  | some k => rw [openTrunc_some h]; exact data_setData (lookup_lt h)
  | none =>
    rw [openTrunc_none h]
    unfold data create
    dsimp only
    rcases Nat.lt_trichotomy j fs.inodes.length with hj | rfl | hj
    · rw [List.getElem?_append_left hj, if_neg (Nat.ne_of_lt hj)]
    · simp
    · rw [if_neg (Nat.ne_of_gt hj), List.getElem?_eq_none (by simp; omega),
        List.getElem?_eq_none (by omega)]

/-- The inode opened is the one `p` named, or one nothing named and no
handle can hold yet. -/
theorem openTrunc_ino :
    fs.lookup p = some (fs.openTrunc p).2 ∨
      (fs.lookup p = none ∧ (fs.openTrunc p).2 = fs.inodes.length) := by
  cases h : fs.lookup p with
  | some k => rw [openTrunc_some h]; exact .inl rfl
  | none => rw [openTrunc_none h]; exact .inr ⟨rfl, rfl⟩

theorem length_openTrunc : fs.inodes.length ≤ (fs.openTrunc p).1.inodes.length := by
  cases h : fs.lookup p with
  | some k => rw [openTrunc_some h, length_setData]
  | none => rw [openTrunc_none h]; simp [create]

/-! ## `unlink` and `rename` -/

theorem lookup_unlink : (fs.unlink p).lookup q = if q = p then none else fs.lookup q := by
  refine Option.ext fun k => ?_
  rw [lookup_eq_some, unlink, Table.mem_delete]
  split
  · rename_i he; simp [he]
  · rename_i hne; simp [hne, lookup_eq_some]

@[simp] theorem data_unlink : (fs.unlink p).data j = fs.data j := rfl

/-- What a `rename` that succeeds did. -/
theorem rename_spec (h : fs.rename p q = some fs') :
    ∃ i, fs.lookup p = some i ∧ fs'.inodes = fs.inodes ∧
      ∀ r, fs'.lookup r = if r = q then some i else if r = p then none else fs.lookup r := by
  unfold rename at h
  split at h
  · cases h
  · rename_i i hi
    cases h
    refine ⟨i, hi, rfl, fun r => Option.ext fun k => ?_⟩
    rw [lookup_eq_some, Table.mem_insert, Table.mem_delete]
    by_cases hq : r = q
    · subst hq; simp [eq_comm]
    · by_cases hp : r = p
      · subst hp; simp [hq]
      · simp [hq, hp, lookup_eq_some]

theorem rename_isSome (h : fs.lookup p = some i) : (fs.rename p q).isSome := by
  unfold rename
  split
  · rename_i hn; rw [h] at hn; cases hn
  · rfl

/-! ## What is read under a name -/

theorem read_eq_some {fs : Fs π} {p : π} {bs : Bytes} :
    fs.read p = some bs ↔ ∃ i, fs.lookup p = some i ∧ fs.data i = bs := Option.map_eq_some_iff

theorem present_iff {fs : Fs π} {p : π} : fs.present p = true ↔ ∃ bs, fs.read p = some bs := by
  unfold present read
  cases fs.lookup p <;> simp

theorem read_openTrunc : (fs.openTrunc p).1.read q = if q = p then some [] else fs.read q := by
  unfold read
  rw [lookup_openTrunc]
  split
  · simp [data_openTrunc]
  · rename_i hne
    cases hq : fs.lookup q with
    | none => rfl
    | some i =>
      have hi : i ≠ (fs.openTrunc p).2 := by
        intro he
        have hq' : (fs.openTrunc p).1.lookup q = some i := by rw [lookup_openTrunc, if_neg hne, hq]
        have hp' : (fs.openTrunc p).1.lookup p = some i := by rw [lookup_openTrunc, if_pos rfl, he]
        exact hne (lookup_inj hq' hp')
      simp [data_openTrunc, hi]

theorem read_unlink : (fs.unlink p).read q = if q = p then none else fs.read q := by
  unfold read
  rw [lookup_unlink]
  split
  · rfl
  · rfl

/-- A write shows under the handle's name only. -/
theorem read_writeAt_of_ne {off : Nat} (hi : i < fs.inodes.length) (hq : fs.lookup q ≠ some i) :
    (fs.writeAt i off bs).read q = fs.read q := by
  unfold read writeAt
  rw [lookup_setData]
  cases hl : fs.lookup q with
  | none => rfl
  | some j =>
    have hj : j ≠ i := fun he => hq (he ▸ hl)
    simp [data_setData hi, hj]

theorem read_rename (h : fs.rename p q = some fs') (hp : fs.read p = some bs) (r : π) :
    fs'.read r = if r = q then some bs else if r = p then none else fs.read r := by
  obtain ⟨i, hi, hino, hlookup⟩ := rename_spec h
  obtain ⟨j, hj, hdata⟩ := read_eq_some.mp hp
  rw [hi] at hj
  obtain rfl := Option.some.inj hj
  have hsame : fs'.data = fs.data := funext fun k => data_congr hino
  unfold read
  rw [hlookup, hsame]
  split
  · simp [hdata]
  · split <;> rfl

/-! ## Space in use -/

/-- Bytes under one name. -/
def size (fs : Fs π) (p : π) : Int := ((fs.read p).map fun bs => (bs.length : Int)).getD 0

theorem size_nonneg (fs : Fs π) (p : π) : 0 ≤ fs.size p := by
  unfold size
  cases fs.read p with
  | none => exact Int.le_refl 0
  | some bs => exact Int.natCast_nonneg bs.length

theorem size_eq_zero {fs : Fs π} {p : π} (h : fs.read p = none) : fs.size p = 0 := by
  unfold size; rw [h]; rfl

theorem size_eq {fs : Fs π} {p : π} {bs : Bytes} (h : fs.read p = some bs) :
    fs.size p = bs.length := by
  unfold size; rw [h]; rfl

def paths (fs : Fs π) : List π := fs.dir.rows.map Dirent.path

omit [DecidableEq π] in
theorem paths_nodup (fs : Fs π) : fs.paths.Nodup := by
  unfold paths List.Nodup
  rw [List.pairwise_map]
  exact fs.dir.unique.imp fun h he => h (.inl he)

theorem size_of_not_mem {fs : Fs π} {p : π} (h : p ∉ fs.paths) : fs.size p = 0 := by
  refine size_eq_zero ?_
  cases hr : fs.read p with
  | none => rfl
  | some bs =>
    obtain ⟨i, hi, -⟩ := read_eq_some.mp hr
    exact absurd (List.mem_map.mpr ⟨_, lookup_eq_some.mp hi, rfl⟩) h

/-- The space in use is the sum of what is under the names. -/
theorem usage_eq_sum (fs : Fs π) (S : Finset π) (hS : ∀ p ∈ fs.paths, p ∈ S) :
    fs.usage = ∑ p ∈ S, fs.size p := by
  have hrows : fs.usage = (fs.paths.map fs.size).sum := by
    unfold usage paths
    rw [Table.sum_eq, List.map_map]
    congr 1
    refine List.map_congr_left fun d hd => ?_
    have hl : fs.lookup d.path = some d.ino := lookup_eq_some.mpr hd
    exact (size_eq (read_eq_some.mpr ⟨_, hl, rfl⟩)).symm
  rw [hrows, ← List.sum_toFinset _ fs.paths_nodup]
  refine Finset.sum_subset (fun p hp => hS p (List.mem_toFinset.mp hp)) fun p _ hp => ?_
  exact size_of_not_mem fun hm => hp (List.mem_toFinset.mpr hm)

/-- `fs'` reads like `fs`, but for `o` under `p`. -/
def Rewrites (fs : Fs π) (p : π) (o : Option Bytes) (fs' : Fs π) : Prop :=
  ∀ q, fs'.read q = if q = p then o else fs.read q

variable {o : Option Bytes}

theorem Rewrites.at (h : Rewrites fs p o fs') : fs'.read p = o := by rw [h, if_pos rfl]

theorem Rewrites.other (h : Rewrites fs p o fs') (hq : q ≠ p) : fs'.read q = fs.read q := by
  rw [h, if_neg hq]

theorem Rewrites.size_other (h : Rewrites fs p o fs') (hq : q ≠ p) : fs'.size q = fs.size q := by
  unfold size; rw [h.other hq]

theorem Rewrites.trans {o' : Option Bytes} {fs'' : Fs π} (h : Rewrites fs p o fs')
    (h' : Rewrites fs' p o' fs'') : Rewrites fs p o' fs'' := by
  intro q
  rw [h' q, h q]
  split <;> rfl

/-- The space in use changes by what the one name changes by. -/
theorem Rewrites.usage (h : Rewrites fs p o fs') :
    fs'.usage = fs.usage - fs.size p + fs'.size p := by
  let S : Finset π := insert p (fs.paths.toFinset ∪ fs'.paths.toFinset)
  have hp : p ∈ S := Finset.mem_insert_self _ _
  have hS : fs.usage = ∑ q ∈ S, fs.size q := by
    refine usage_eq_sum fs S fun q hq => Finset.mem_insert_of_mem ?_
    exact Finset.mem_union_left _ (List.mem_toFinset.mpr hq)
  have hS' : fs'.usage = ∑ q ∈ S, fs'.size q := by
    refine usage_eq_sum fs' S fun q hq => Finset.mem_insert_of_mem ?_
    exact Finset.mem_union_right _ (List.mem_toFinset.mpr hq)
  have hrest : ∑ q ∈ S.erase p, fs'.size q = ∑ q ∈ S.erase p, fs.size q :=
    Finset.sum_congr rfl fun q hq => h.size_other (Finset.ne_of_mem_erase hq)
  rw [hS, hS', ← Finset.add_sum_erase S _ hp, ← Finset.add_sum_erase S fs.size hp, hrest]
  omega

theorem rewrites_openTrunc : Rewrites fs p (some []) (fs.openTrunc p).1 := fun _ => read_openTrunc

theorem rewrites_unlink : Rewrites fs p none (fs.unlink p) := fun _ => read_unlink

/-- A sequential write on the handle `p` names. -/
theorem rewrites_writeAt {cs : Bytes} (hl : fs.lookup p = some i) (hd : fs.data i = bs) :
    Rewrites fs p (some (bs ++ cs)) (fs.writeAt i bs.length cs) := by
  intro q
  split
  · rename_i he
    subst he
    refine read_eq_some.mpr ⟨i, hl, ?_⟩
    unfold writeAt
    rw [data_setData (lookup_lt hl), if_pos rfl, ← hd, splice_end]
  · rename_i hne
    exact read_writeAt_of_ne (lookup_lt hl) fun hq => hne (lookup_inj hq hl)

end Fs
end SpikeHub.Core
