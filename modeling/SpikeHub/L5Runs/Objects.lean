import SpikeHub.L5Runs.Interleave

/-!
# Objects and the transfers that write them

While one request at a time holds the staging file of an upload
(`exclusive`), what a request measured is what its staging file holds until
it is promoted. `Intact` is the invariant: every object is the bytes its key
names (`objects`); a streaming request's handle holds exactly what the
request received and has no name but the staging path, and a measured blob
describes the file under the staging path (`Kept`); no two requests share a
handle or an upload.

`intact_step` is kept by every step that meets the discipline, whatever else
runs: other uploads, commits, sweeps, failures at any point.
-/
namespace SpikeHub.L5.Interleave

open SpikeHub.Core SpikeHub.L1 SpikeHub.L2 SpikeHub.L3 SpikeHub.L4.Uploads

/-- The upload whose staged bytes the request relies on. -/
def Job.holds : Job → Option Uuid
  | .content _ id _ (.streaming ..) | .content _ id _ (.measured ..)
  | .content _ id _ (.promoting ..) | .content _ id _ (.replacing ..) => some id
  | _ => none

/-- The inode the request has open. -/
def Job.handle : Job → Option Nat
  | .content _ _ _ (.streaming _ ino _ _) => some ino
  | _ => none

/-- The upload whose staging file the request's next step opens. -/
def Job.opens : Job → Option Uuid
  | .content _ id _ (.opening _) => some id
  | _ => none

/-- A request opens a staging file only when no other request holds it. -/
def exclusive (s : Sys) : Lbl → Bool
  | .step r =>
    ((s.jobs[r]?).bind Job.opens).all fun id => s.jobs.all fun k => k.holds ≠ some id
  | _ => true

/-- What the volume owes a request. -/
def Kept (volume : Volume) : Job → Prop
  | .content _ id _ (.streaming _ ino got _) =>
    ino < volume.inodes.length ∧ volume.data ino = got ∧
      (∀ p, volume.lookup p = some ino → p = .staging id) ∧
      ∀ i, volume.lookup (.staging id) = some i → i = ino
  | .content _ id _ (.measured _ blob) | .content _ id _ (.promoting _ blob) =>
    ∀ i, volume.lookup (.staging id) = some i → blob = measure (volume.data i)
  | .content _ id _ (.replacing _ blob key) =>
    objectKey blob.sha256 = .ok key ∧
      ∀ i, volume.lookup (.staging id) = some i → blob = measure (volume.data i)
  | _ => True

structure Intact (s : Sys) : Prop where
  objects : ∀ key i, s.hub.volume.lookup (.artifact key) = some i →
    objectKey (sha256 (s.hub.volume.data i)) = .ok key
  kept : ∀ (r : Nat) (j : Job), s.jobs[r]? = some j → Kept s.hub.volume j
  handles : ∀ (q r : Nat) (j k : Job) (i : Nat), s.jobs[q]? = some j → s.jobs[r]? = some k →
    j.handle = some i → k.handle = some i → q = r
  alone : ∀ (q r : Nat) (j k : Job) (id : Uuid), s.jobs[q]? = some j → s.jobs[r]? = some k →
    j.holds = some id → k.holds = some id → q = r

/-! ## Requests that do not hold the upload see nothing of it -/

section
variable {volume volume' : Volume} {k : Job} {id : Uuid}

theorem kept_unlink {p : Path} (h : Kept volume k) : Kept (volume.unlink p) k := by
  have hl : ∀ {q i}, (volume.unlink p).lookup q = some i → volume.lookup q = some i := by
    intro q i hq
    rw [Fs.lookup_unlink] at hq
    split at hq
    · cases hq
    · exact hq
  unfold Kept at h ⊢
  split at h
  · exact ⟨h.1, h.2.1, fun q hq => h.2.2.1 q (hl hq), fun i hi => h.2.2.2 i (hl hi)⟩
  · exact fun i hi => h i (hl hi)
  · exact fun i hi => h i (hl hi)
  · exact ⟨h.1, fun i hi => h.2 i (hl hi)⟩
  · trivial

/-- The inode `openTrunc` hands out is no other request's handle. -/
theorem openTrunc_ne {ino : Nat} {id' : Uuid} (hne : id' ≠ id) (hlt : ino < volume.inodes.length)
    (hnames : ∀ p, volume.lookup p = some ino → p = .staging id') :
    ino ≠ (volume.openTrunc (.staging id)).2 := by
  intro he
  have hopen := @Fs.openTrunc_ino Path _ volume (.staging id)
  rw [← he] at hopen
  rcases hopen with h | ⟨-, h⟩
  · exact hne (Path.staging.inj (hnames _ h)).symm
  · omega

theorem data_openTrunc_of_lookup {p q : Path} {i : Nat} (hne : q ≠ p)
    (hi : (volume.openTrunc p).1.lookup q = some i) :
    volume.lookup q = some i ∧ (volume.openTrunc p).1.data i = volume.data i := by
  have hold : volume.lookup q = some i := by
    rwa [Fs.lookup_openTrunc, if_neg hne] at hi
  refine ⟨hold, ?_⟩
  rw [Fs.data_openTrunc, if_neg]
  rintro rfl
  exact hne (Fs.lookup_inj hi (by rw [Fs.lookup_openTrunc, if_pos rfl]))

theorem kept_open (h : Kept volume k) (hk : k.holds ≠ some id) :
    Kept (volume.openTrunc (.staging id)).1 k := by
  have hother : ∀ {id' : Uuid} {blob : StoredBlob}, id' ≠ id →
      (∀ i, volume.lookup (.staging id') = some i → blob = measure (volume.data i)) →
      ∀ i, (volume.openTrunc (.staging id)).1.lookup (.staging id') = some i →
        blob = measure ((volume.openTrunc (.staging id)).1.data i) := by
    intro id' blob hne hb i hi
    obtain ⟨hold, hdata⟩ := data_openTrunc_of_lookup (by simpa using hne) hi
    rw [hdata]; exact hb i hold
  unfold Kept at h ⊢
  split at h
  · rename_i user id' chunks v ino got rest
    have hne : id' ≠ id := fun he => hk (he ▸ rfl)
    obtain ⟨hlt, hgot, hnames, honly⟩ := h
    have hino := openTrunc_ne hne hlt hnames
    refine ⟨Nat.lt_of_lt_of_le hlt Fs.length_openTrunc, ?_, fun p hp => ?_, fun i hi => ?_⟩
    · rw [Fs.data_openTrunc, if_neg hino, hgot]
    · rw [Fs.lookup_openTrunc] at hp
      split at hp
      · exact absurd (Option.some.inj hp).symm hino
      · exact hnames p hp
    · exact honly i (data_openTrunc_of_lookup (by simpa using hne) hi).1
  · exact hother (fun he => hk (he ▸ rfl)) h
  · exact hother (fun he => hk (he ▸ rfl)) h
  · exact ⟨h.1, hother (fun he => hk (he ▸ rfl)) h.2⟩
  · trivial

/-- A write to a handle whose only name is the staging path of `id`. -/
theorem kept_write {ino : Nat} {bs : Bytes} {off : Nat} (h : Kept volume k)
    (hlt : ino < volume.inodes.length)
    (hnames : ∀ p, volume.lookup p = some ino → p = .staging id)
    (hk : k.holds ≠ some id) (hh : k.handle ≠ some ino) :
    Kept (volume.writeAt ino off bs) k := by
  have hother : ∀ {id' : Uuid} {blob : StoredBlob}, id' ≠ id →
      (∀ i, volume.lookup (.staging id') = some i → blob = measure (volume.data i)) →
      ∀ i, (volume.writeAt ino off bs).lookup (.staging id') = some i →
        blob = measure ((volume.writeAt ino off bs).data i) := by
    intro id' blob hne hb i hi
    have hi : volume.lookup (.staging id') = some i := hi
    unfold Fs.writeAt
    rw [Fs.data_setData hlt, if_neg]
    · exact hb i hi
    · rintro rfl
      exact hne (Path.staging.inj (hnames _ hi))
  unfold Kept at h ⊢
  split at h
  · rename_i user id' chunks v ino' got rest
    obtain ⟨hlt', hgot, hnames', honly⟩ := h
    refine ⟨by simpa [Fs.writeAt] using hlt', ?_, hnames', honly⟩
    unfold Fs.writeAt
    rw [Fs.data_setData hlt, if_neg, hgot]
    exact fun he => hh (he ▸ rfl)
  · exact hother (fun he => hk (he ▸ rfl)) h
  · exact hother (fun he => hk (he ▸ rfl)) h
  · exact ⟨h.1, hother (fun he => hk (he ▸ rfl)) h.2⟩
  · trivial

theorem kept_rename {key : String} (h : Kept volume k)
    (hr : volume.rename (.staging id) (.artifact key) = some volume') (hk : k.holds ≠ some id) :
    Kept volume' k := by
  obtain ⟨src, hsrc, hino, hlookup⟩ := Fs.rename_spec hr
  have hdata : ∀ i, volume'.data i = volume.data i := fun i => Fs.data_congr hino
  have hother : ∀ {id' : Uuid} {blob : StoredBlob}, id' ≠ id →
      (∀ i, volume.lookup (.staging id') = some i → blob = measure (volume.data i)) →
      ∀ i, volume'.lookup (.staging id') = some i → blob = measure (volume'.data i) := by
    intro id' blob hne hb i hi
    rw [hlookup, if_neg (by simp), if_neg (by simpa using hne)] at hi
    rw [hdata]; exact hb i hi
  unfold Kept at h ⊢
  split at h
  · rename_i user id' chunks v ino got rest
    have hne : id' ≠ id := fun he => hk (he ▸ rfl)
    obtain ⟨hlt, hgot, hnames, honly⟩ := h
    refine ⟨hino ▸ hlt, (hdata ino).trans hgot, fun p hp => ?_, fun i hi => ?_⟩
    · rw [hlookup] at hp
      split at hp
      · obtain rfl := Option.some.inj hp
        exact absurd (Path.staging.inj (hnames _ hsrc)).symm hne
      · split at hp
        · cases hp
        · exact hnames p hp
    · rw [hlookup, if_neg (by simp), if_neg (by simpa using hne)] at hi
      exact honly i hi
  · exact hother (fun he => hk (he ▸ rfl)) h
  · exact hother (fun he => hk (he ▸ rfl)) h
  · exact ⟨h.1, hother (fun he => hk (he ▸ rfl)) h.2⟩
  · trivial

end

/-! ## The invariant, step by step -/

variable {config : Settings} {s s' : Sys} {r : Nat} {j j' k : Job} {h' : Hub} {l : Lbl}

theorem Intact.handle_ne (h : Intact s) (hj : s.jobs[r]? = some j) {i : Nat}
    (hi : j.handle = some i) : ∀ q k, q ≠ r → s.jobs[q]? = some k → k.handle ≠ some i :=
  fun q k hne hk hki => hne (h.handles q r k j i hk hj hki hi)

theorem Intact.holds_ne (h : Intact s) (hj : s.jobs[r]? = some j) {id : Uuid}
    (hid : j.holds = some id) : ∀ q k, q ≠ r → s.jobs[q]? = some k → k.holds ≠ some id :=
  fun q k hne hk hki => hne (h.alone q r k j id hk hj hki hid)

/-- Request `r` moves on to `j'`. -/
theorem Intact.set (h : Intact s) (hj : s.jobs[r]? = some j)
    (hobj : ∀ key i, h'.volume.lookup (.artifact key) = some i →
      objectKey (sha256 (h'.volume.data i)) = .ok key)
    (hkept : Kept h'.volume j')
    (hrest : ∀ q k, q ≠ r → s.jobs[q]? = some k → Kept h'.volume k)
    (hhandle : ∀ i, j'.handle = some i → ∀ q k, q ≠ r → s.jobs[q]? = some k → k.handle ≠ some i)
    (hholds : ∀ id, j'.holds = some id → ∀ q k, q ≠ r → s.jobs[q]? = some k → k.holds ≠ some id) :
    Intact ⟨h', s.jobs.set r j'⟩ where
  objects := hobj
  kept q k hq := by
    rw [jobs_set hj] at hq
    split at hq
    · obtain rfl := Option.some.inj hq; exact hkept
    · rename_i hne; exact hrest q k hne hq
  handles p q k₁ k₂ i hp hq hi hi' := by
    rw [jobs_set hj] at hp hq
    split at hp <;> split at hq
    · rename_i hpr hqr; exact hpr.trans hqr.symm
    · rename_i hpr hqr
      obtain rfl := Option.some.inj hp
      exact absurd hi' (hhandle i hi q k₂ hqr hq)
    · rename_i hpr hqr
      obtain rfl := Option.some.inj hq
      exact absurd hi (hhandle i hi' p k₁ hpr hp)
    · exact h.handles p q k₁ k₂ i hp hq hi hi'
  alone p q k₁ k₂ id hp hq hi hi' := by
    rw [jobs_set hj] at hp hq
    split at hp <;> split at hq
    · rename_i hpr hqr; exact hpr.trans hqr.symm
    · rename_i hpr hqr
      obtain rfl := Option.some.inj hp
      exact absurd hi' (hholds id hi q k₂ hqr hq)
    · rename_i hpr hqr
      obtain rfl := Option.some.inj hq
      exact absurd hi (hholds id hi' p k₁ hpr hp)
    · exact h.alone p q k₁ k₂ id hp hq hi hi'

/-- The request keeps what it holds, or lets go of it. -/
def LetsGo (j j' : Job) : Prop :=
  (j'.handle = none ∨ j'.handle = j.handle) ∧ (j'.holds = none ∨ j'.holds = j.holds)

theorem Intact.set_letsGo (h : Intact s) (hj : s.jobs[r]? = some j) (hgo : LetsGo j j')
    (hobj : ∀ key i, h'.volume.lookup (.artifact key) = some i →
      objectKey (sha256 (h'.volume.data i)) = .ok key)
    (hkept : Kept h'.volume j')
    (hrest : ∀ q k, q ≠ r → s.jobs[q]? = some k → Kept h'.volume k) :
    Intact ⟨h', s.jobs.set r j'⟩ := by
  refine h.set hj hobj hkept hrest (fun i hi => ?_) fun id hid => ?_
  · rcases hgo.1 with he | he
    · rw [he] at hi; cases hi
    · exact h.handle_ne hj (he ▸ hi)
  · rcases hgo.2 with he | he
    · rw [he] at hid; cases hid
    · exact h.holds_ne hj (he ▸ hid)

/-- A step that leaves the volume alone. -/
theorem Intact.quiet (h : Intact s) (hj : s.jobs[r]? = some j) (hvol : h'.volume = s.hub.volume)
    (hgo : LetsGo j j') (hkept : Kept s.hub.volume j') : Intact ⟨h', s.jobs.set r j'⟩ :=
  h.set_letsGo hj hgo (hvol ▸ h.objects) (hvol ▸ hkept) fun q k _ hk => hvol ▸ h.kept q k hk

/-- A step that discards a staging file. -/
theorem Intact.unlinked (h : Intact s) (hj : s.jobs[r]? = some j) {id : Uuid}
    (hvol : h'.volume = s.hub.volume.unlink (.staging id)) (hgo : LetsGo j j')
    (hkept : Kept s.hub.volume j') : Intact ⟨h', s.jobs.set r j'⟩ := by
  refine h.set_letsGo hj hgo ?_ (hvol ▸ kept_unlink hkept) fun q k _ hk =>
    hvol ▸ kept_unlink (h.kept q k hk)
  intro key i hi
  rw [hvol, Fs.lookup_unlink, if_neg (by simp)] at hi
  rw [hvol]
  exact h.objects key i hi

/-- Opening a staging file nobody holds. -/
theorem Intact.opened (h : Intact s) {user id : Uuid} {chunks : List Bytes} {v : ModelVersion}
    (hj : s.jobs[r]? = some (.content user id chunks (.opening v)))
    (hx : exclusive s (.step r) = true)
    (hvol : h'.volume = (s.hub.volume.openTrunc (.staging id)).1) :
    Intact ⟨h', s.jobs.set r (.content user id chunks
      (.streaming v (s.hub.volume.openTrunc (.staging id)).2 [] chunks))⟩ := by
  have hfree : ∀ (q : Nat) (k : Job), s.jobs[q]? = some k → k.holds ≠ some id := by
    intro q k hk
    simp only [exclusive, hj, Option.bind_some, Job.opens, Option.all_some, List.all_eq_true,
      decide_eq_true_eq] at hx
    exact hx k (List.mem_of_getElem? hk)
  refine h.set hj ?_ ?_ (fun q k _ hk => ?_) (fun i hi q k _ hk => ?_) fun id' hid q k _ hk => ?_
  · intro key i hi
    rw [hvol] at hi ⊢
    obtain ⟨hold, hdata⟩ := data_openTrunc_of_lookup (by simp) hi
    rw [hdata]; exact h.objects key i hold
  · refine hvol ▸ ⟨Fs.openTrunc_lt, ?_, fun p hp => ?_, fun i hi => ?_⟩
    · rw [Fs.data_openTrunc, if_pos rfl]
    · exact Fs.lookup_inj hp (by rw [Fs.lookup_openTrunc, if_pos rfl])
    · rw [Fs.lookup_openTrunc, if_pos rfl] at hi; exact (Option.some.inj hi).symm
  · exact hvol ▸ kept_open (h.kept q k hk) (hfree q k hk)
  · -- a handle on the inode just opened would hold the upload
    intro hki
    cases hi
    have hkept := h.kept q k hk
    unfold Job.handle at hki
    split at hki
    · cases hki
      exact openTrunc_ne (fun he => hfree q _ hk (congrArg some he)) hkept.1 hkept.2.2.1 rfl
    · cases hki
  · cases hid; exact hfree q k hk

/-- A chunk lands at the end of what the request received. -/
theorem Intact.chunk (h : Intact s) {user id : Uuid} {chunks rest : List Bytes} {v : ModelVersion}
    {ino : Nat} {got c : Bytes}
    (hj : s.jobs[r]? = some (.content user id chunks (.streaming v ino got (c :: rest))))
    (hvol : h'.volume = s.hub.volume.writeAt ino got.length c) :
    Intact ⟨h', s.jobs.set r (.content user id chunks (.streaming v ino (got ++ c) rest))⟩ := by
  obtain ⟨hlt, hgot, hnames, honly⟩ := h.kept r _ hj
  refine h.set_letsGo hj ⟨.inr rfl, .inr rfl⟩ ?_ ?_ fun q k hne hk => ?_
  · intro key i hi
    rw [hvol] at hi ⊢
    have hi : s.hub.volume.lookup (.artifact key) = some i := hi
    unfold Fs.writeAt
    rw [Fs.data_setData hlt, if_neg]
    · exact h.objects key i hi
    · rintro rfl
      exact absurd (hnames _ hi) (by simp)
  · refine hvol ▸ ⟨by simpa [Fs.writeAt] using hlt, ?_, hnames, honly⟩
    unfold Fs.writeAt
    rw [Fs.data_setData hlt, if_pos rfl, ← hgot, Fs.splice_end]
  · exact hvol ▸ kept_write (h.kept q k hk) hlt hnames (h.holds_ne hj rfl q k hne hk)
      (h.handle_ne hj rfl q k hne hk)

/-- Promotion: the staged bytes are the measured ones, so the key is theirs. -/
theorem Intact.replaced (h : Intact s) {user id : Uuid} {chunks : List Bytes} {v : ModelVersion}
    {blob : StoredBlob} {key : String}
    (hj : s.jobs[r]? = some (.content user id chunks (.replacing v blob key)))
    (hr : s.hub.volume.rename (.staging id) (.artifact key) = some h'.volume)
    (hj' : j'.handle = none ∧ j'.holds = none) (hkept : Kept h'.volume j') :
    Intact ⟨h', s.jobs.set r j'⟩ := by
  obtain ⟨src, hsrc, hino, hlookup⟩ := Fs.rename_spec hr
  obtain ⟨hkey, hblob⟩ := h.kept r _ hj
  refine h.set_letsGo hj ⟨.inl hj'.1, .inl hj'.2⟩ ?_ hkept fun q k hne hk =>
    kept_rename (h.kept q k hk) hr (h.holds_ne hj rfl q k hne hk)
  intro key' i hi
  rw [Fs.data_congr hino]
  rw [hlookup] at hi
  split at hi
  · rename_i he
    cases he
    obtain rfl := Option.some.inj hi
    have hb := hblob src hsrc
    rw [hb] at hkey
    exact hkey
  · rw [if_neg (by simp)] at hi
    exact h.objects key' i hi

theorem Intact.contentStep (h : Intact s) {user id : Uuid} {chunks : List Bytes}
    {pc pc' : ContentPc} (hj : s.jobs[r]? = some (.content user id chunks pc))
    (hx : exclusive s (.step r) = true) (hs : ContentStep s.hub user id chunks pc h' pc') :
    Intact ⟨h', s.jobs.set r (.content user id chunks pc')⟩ := by
  have hk := h.kept r _ hj
  cases hs with
  | quit => exact h.quiet hj rfl ⟨.inl rfl, .inl rfl⟩ trivial
  | admitted hv => exact h.quiet hj rfl ⟨.inl rfl, .inl rfl⟩ trivial
  | opened => exact h.opened hj hx rfl
  | chunk hc => exact h.chunk hj rfl
  | capped => exact h.quiet hj rfl ⟨.inl rfl, .inl rfl⟩ trivial
  | ended =>
    obtain ⟨-, hgot, -, honly⟩ := hk
    refine h.quiet hj rfl ⟨.inl rfl, .inr rfl⟩ fun i hi => ?_
    rw [honly i hi, hgot]
  | dropped => exact h.unlinked hj rfl ⟨.inl rfl, .inl rfl⟩ trivial
  | verified hm => exact h.quiet hj rfl ⟨.inl rfl, .inr rfl⟩ hk
  | mismatch => exact h.quiet hj rfl ⟨.inl rfl, .inl rfl⟩ trivial
  | found hkey hp => exact h.quiet hj rfl ⟨.inl rfl, .inl rfl⟩ trivial
  | absent hkey hp => exact h.quiet hj rfl ⟨.inl rfl, .inr rfl⟩ ⟨hkey, hk⟩
  | reused => exact h.unlinked hj rfl ⟨.inl rfl, .inl rfl⟩ trivial
  | replaced hr => exact h.replaced hj hr ⟨rfl, rfl⟩ trivial
  | charged hc => exact h.quiet hj rfl ⟨.inl rfl, .inl rfl⟩ trivial

theorem Intact.jobStep (h : Intact s) (hj : s.jobs[r]? = some j)
    (hx : exclusive s (.step r) = true) (hs : JobStep config s.hub j h' j') :
    Intact ⟨h', s.jobs.set r j'⟩ := by
  cases hs with
  | content hc => exact h.contentStep hj hx hc
  | commitQuit => exact h.quiet hj rfl ⟨.inl rfl, .inl rfl⟩ trivial
  | committing => exact h.quiet hj rfl ⟨.inl rfl, .inl rfl⟩ trivial
  | committed => exact h.quiet hj rfl ⟨.inl rfl, .inl rfl⟩ trivial
  | selected => exact h.quiet hj rfl ⟨.inl rfl, .inl rfl⟩ trivial
  | discarded => exact h.unlinked hj rfl ⟨.inl rfl, .inl rfl⟩ trivial
  | swept => exact h.quiet hj rfl ⟨.inl rfl, .inl rfl⟩ trivial

theorem Intact.hub (h : Intact s) (hvol : h'.volume = s.hub.volume) : Intact { s with hub := h' } :=
  ⟨hvol ▸ h.objects, fun r j hj => hvol ▸ h.kept r j hj, h.handles, h.alone⟩

/-- A request before its first step, or after its last, holds nothing. -/
theorem holds_request (h : request l = some j) :
    j.handle = none ∧ j.holds = none ∧ ∀ volume, Kept volume j := by
  cases l <;> cases h <;> exact ⟨rfl, rfl, fun _ => trivial⟩

theorem holds_failed (j : Job) :
    j.failed.handle = none ∧ j.failed.holds = none ∧ ∀ volume, Kept volume j.failed := by
  cases j <;> exact ⟨rfl, rfl, fun _ => trivial⟩

theorem Intact.spawn (h : Intact s) (hr : request l = some j) : Intact (spawn s j) := by
  obtain ⟨hh, ho, hk⟩ := holds_request hr
  refine ⟨h.objects, fun q k hq => ?_, fun p q k₁ k₂ i hp hq hi hi' => ?_,
    fun p q k₁ k₂ id hp hq hi hi' => ?_⟩
  · rcases jobs_spawn hq with hq | rfl
    · exact h.kept q k hq
    · exact hk _
  · rcases jobs_spawn hp with hp | rfl
    · rcases jobs_spawn hq with hq | rfl
      · exact h.handles p q k₁ k₂ i hp hq hi hi'
      · rw [hh] at hi'; cases hi'
    · rw [hh] at hi; cases hi
  · rcases jobs_spawn hp with hp | rfl
    · rcases jobs_spawn hq with hq | rfl
      · exact h.alone p q k₁ k₂ id hp hq hi hi'
      · rw [ho] at hi'; cases hi'
    · rw [ho] at hi; cases hi

theorem intact_step (h : Intact s) (hx : exclusive s l = true)
    (hs : step config s l = some s') : Intact s' := by
  cases step_trans hs with
  | tick => exact h.hub rfl
  | granted hu hg => exact h.hub rfl
  | refused => exact h.hub rfl
  | spawned hr => exact h.spawn hr
  | stepped hj hf hjs => exact h.jobStep hj hx hjs
  | failed hj hf =>
    obtain ⟨hh, ho, hk⟩ := holds_failed _
    exact h.quiet hj rfl ⟨.inl hh, .inl ho⟩ (hk _)

theorem intact_start (users : Table User) (now : Time) : Intact (start users now) where
  objects key i h := by simp [start, Fs.lookup, Fs.empty, Table.find?, Table.empty] at h
  kept r j h := by simp [start] at h
  handles q r j k i h := by simp [start] at h
  alone q r j k id h := by simp [start] at h

theorem intact_inductive (config : Settings) :
    ((lts config).restrict fun s l => exclusive s l = true).Inductive Intact where
  init s h := by
    obtain ⟨users, now, rfl⟩ := h
    exact intact_start users now
  step s l s' h hs := intact_step h hs.1 hs.2

/-- Every object is the bytes its key names. -/
def ContentAddressed (volume : Volume) : Prop :=
  ∀ digest key bs, objectKey digest = .ok key → volume.read (.artifact key) = some bs →
    sha256 bs = digest

theorem Intact.contentAddressed (h : Intact s) : ContentAddressed s.hub.volume := by
  intro digest key bs hkey hread
  obtain ⟨i, hi, rfl⟩ := Option.map_eq_some_iff.mp hread
  exact objectKey_inj (h.objects key i hi) hkey

end SpikeHub.L5.Interleave
