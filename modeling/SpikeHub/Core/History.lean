import SpikeHub.Core.LTS

/-!
# What a run has come by

A property of a state that a step brings about, or takes away, is a fact about
the steps of the run: `Sometime Q` says that one of them was taken from a state
and under a label of which `Q` holds. `since` reads such a step off the state
the run ends in, and `records` is the exact form: what no other step brings
about holds at the end when it held at the start or its step was taken.
`InOrder` says it of several steps, one after the other.
`marks` is `records` for what stays and is marked, `counts` for a counter.
-/
namespace SpikeHub.Core.LTS

variable {S L : Type}

/-- Some step of the run is one of those of `Q`. -/
inductive Sometime (M : LTS S L) (Q : S → L → Prop) : S → List L → S → Prop
  | here {s s' s'' : S} {l : L} {ls : List L} :
      M.step s l s' → Q s l → M.Run s' ls s'' → Sometime M Q s (l :: ls) s''
  | later {s s' s'' : S} {l : L} {ls : List L} :
      M.step s l s' → Sometime M Q s' ls s'' → Sometime M Q s (l :: ls) s''

variable {M : LTS S L} {Q Q' : S → L → Prop} {I R : S → Prop} {s s' : S} {ls : List L}

theorem Sometime.run (h : M.Sometime Q s ls s') : M.Run s ls s' := by
  induction h with
  | here hs _ hr => exact .cons hs hr
  | later hs _ ih => exact .cons hs ih

theorem Sometime.mono (hQ : ∀ s l, Q s l → Q' s l) (h : M.Sometime Q s ls s') : M.Sometime Q' s ls s' := by
  induction h with
  | here hs hq hr => exact .here hs (hQ _ _ hq) hr
  | later hs _ ih => exact .later hs ih

/-- Where the step is, what came before it and what came after. -/
theorem Sometime.split (h : M.Sometime Q s ls s') : ∃ pre l post t t',
    ls = pre ++ l :: post ∧ M.Run s pre t ∧ Q t l ∧ M.step t l t' ∧ M.Run t' post s' := by
  induction h with
  | here hs hq hr => exact ⟨[], _, _, _, _, rfl, .nil _, hq, hs, hr⟩
  | later hs _ ih =>
    obtain ⟨pre, l, post, t, t', rfl, hpre, hrest⟩ := ih
    exact ⟨_ :: pre, l, post, t, t', rfl, .cons hs hpre, hrest⟩

/-- A step that is taken is taken whatever comes before it. -/
theorem Run.then_sometime {s₀ : S} {ls₀ : List L} (hr : M.Run s₀ ls₀ s) (h : M.Sometime Q s ls s') :
    M.Sometime Q s₀ (ls₀ ++ ls) s' := by
  induction hr with
  | nil => exact h
  | cons hs _ ih => exact .later hs (ih h)

/-- Or after it. -/
theorem Sometime.then_run {s'' : S} {ls' : List L} (h : M.Sometime Q s ls s') (hr : M.Run s' ls' s'') :
    M.Sometime Q s (ls ++ ls') s'' := by
  induction h with
  | here hs hq hrest => exact .here hs hq (hrest.append hr)
  | later hs _ ih => exact .later hs (ih hr)

/-- Steps of the run, one of each of the `Qs` in their order. -/
inductive InOrder (M : LTS S L) : List (S → L → Prop) → S → List L → S → Prop
  | done {s s' : S} {ls : List L} : M.Run s ls s' → InOrder M [] s ls s'
  | here {s s' s'' : S} {l : L} {ls : List L} {Q : S → L → Prop} {Qs : List (S → L → Prop)} :
      M.step s l s' → Q s l → InOrder M Qs s' ls s'' → InOrder M (Q :: Qs) s (l :: ls) s''
  | later {s s' s'' : S} {l : L} {ls : List L} {Qs : List (S → L → Prop)} :
      M.step s l s' → InOrder M Qs s' ls s'' → InOrder M Qs s (l :: ls) s''

theorem Run.in_order {Qs : List (S → L → Prop)} {s₀ : S} {ls₀ : List L} (hr : M.Run s₀ ls₀ s)
    (h : M.InOrder Qs s ls s') : M.InOrder Qs s₀ (ls₀ ++ ls) s' := by
  induction hr with
  | nil => exact h
  | cons hs _ ih => exact .later hs (ih h)

/-- One more step after them. -/
theorem InOrder.snoc {Qs : List (S → L → Prop)} {t t' : S} {l : L} {ls' : List L} (h : M.InOrder Qs s ls t)
    (hs : M.step t l t') (hq : Q t l) (hr : M.Run t' ls' s') :
    M.InOrder (Qs ++ [Q]) s (ls ++ l :: ls') s' := by
  induction h with
  | done hrun => exact hrun.in_order (.here hs hq (.done hr))
  | here hstep hq' _ ih => exact .here hstep hq' (ih hs hq)
  | later hstep _ ih => exact .later hstep (ih hs hq)

/-- A step that was taken, and one more after it. -/
theorem Sometime.then_step {t t' : S} {l : L} {ls' : List L} (h : M.Sometime Q s ls t) (hs : M.step t l t')
    (hq : Q' t l) (hr : M.Run t' ls' s') : M.InOrder [Q, Q'] s (ls ++ l :: ls') s' := by
  induction h with
  | here hstep hq' hrest => exact .here hstep hq' (hrest.in_order (.here hs hq (.done hr)))
  | later hstep _ ih => exact .later hstep (ih hs hq)

/-- What holds at the end held at the start, or came about. -/
theorem Run.since (hI : ∀ s l s', I s → M.step s l s' → I s')
    (hR : ∀ s l s', I s → M.step s l s' → R s' → R s ∨ Q s l)
    (hr : M.Run s ls s') (hi : I s) (h : R s') : R s ∨ M.Sometime Q s ls s' := by
  induction hr with
  | nil => exact .inl h
  | cons hs hrest ih =>
    rcases ih (hI _ _ _ hi hs) h with hmid | hlater
    · rcases hR _ _ _ hi hs hmid with hstart | hq
      · exact .inl hstart
      · exact .inr (.here hs hq hrest)
    · exact .inr (.later hs hlater)

/-- What certain steps bring about, and nothing takes away. -/
theorem Run.records (hI : ∀ s l s', I s → M.step s l s' → I s')
    (hR : ∀ s l s', I s → M.step s l s' → (R s' ↔ R s ∨ Q s l))
    (hr : M.Run s ls s') (hi : I s) : R s' ↔ R s ∨ M.Sometime Q s ls s' := by
  have hkeep : ∀ s l s', I s ∧ R s → M.step s l s' → I s' ∧ R s' := fun s l s' h hs =>
    ⟨hI s l s' h.1 hs, (hR s l s' h.1 hs).mpr (.inl h.2)⟩
  constructor
  · exact hr.since hI (fun s l s' hi hs => (hR s l s' hi hs).mp) hi
  · intro h
    rcases h with hstart | htaken
    · exact (hr.keeps hkeep ⟨hi, hstart⟩).2
    · obtain ⟨pre, l, post, t, t', rfl, hpre, hq, hs, hpost⟩ := htaken.split
      have ht : I t := hpre.keeps hI hi
      exact (hpost.keeps hkeep ⟨hI _ _ _ ht hs, (hR _ _ _ ht hs).mpr (.inr hq)⟩).2

/-- What is there all along, and bears a mark: it has it at the end when it had
it at the start or a step made it. -/
theorem Run.marks {K : Prop → S → Prop} (hunique : ∀ s b b', K b s → K b' s → (b ↔ b'))
    (hK : ∀ s l s' b, K b s → M.step s l s' → K (b ∨ Q s l) s')
    (hr : M.Run s ls s') {b : Prop} (h : K b s) : K (b ∨ M.Sometime Q s ls s') s' := by
  have hthere : ∀ s l s', (∃ b, K b s) → M.step s l s' → ∃ b, K b s' := by
    intro s l s' hk hs
    obtain ⟨b, hk⟩ := hk
    exact ⟨_, hK s l s' b hk hs⟩
  have hmark : ∀ {s b}, K b s → (K True s ↔ b) := by
    intro s b hk
    constructor
    · intro ht
      exact (hunique s _ _ ht hk).mp trivial
    · intro hb
      rwa [eq_true hb] at hk
  have hrecords : K True s' ↔ K True s ∨ M.Sometime Q s ls s' :=
    hr.records (R := K True) hthere (fun s l s' hk hs => by
      obtain ⟨b, hk⟩ := hk
      rw [hmark (hK s l s' b hk hs), hmark hk]) ⟨b, h⟩
  obtain ⟨b', hend⟩ : ∃ b', K b' s' := hr.keeps hthere ⟨b, h⟩
  rw [hmark hend, hmark h] at hrecords
  rwa [propext hrecords] at hend

/-- `n` of the steps are of `Q`. -/
inductive Times (M : LTS S L) (Q : S → L → Prop) : Nat → S → List L → S → Prop
  | nil (s : S) : Times M Q 0 s [] s
  | hit {n : Nat} {s s' s'' : S} {l : L} {ls : List L} :
      M.step s l s' → Q s l → Times M Q n s' ls s'' → Times M Q (n + 1) s (l :: ls) s''
  | miss {n : Nat} {s s' s'' : S} {l : L} {ls : List L} :
      M.step s l s' → ¬ Q s l → Times M Q n s' ls s'' → Times M Q n s (l :: ls) s''

theorem Times.run {n : Nat} (h : M.Times Q n s ls s') : M.Run s ls s' := by
  induction h with
  | nil => exact .nil _
  | hit hs _ _ ih => exact .cons hs ih
  | miss hs _ _ ih => exact .cons hs ih

theorem Run.times (hr : M.Run s ls s') (Q : S → L → Prop) : ∃ n, M.Times Q n s ls s' := by
  induction hr with
  | nil => exact ⟨0, .nil _⟩
  | @cons s _ _ l _ hs _ ih =>
    obtain ⟨n, hn⟩ := ih
    by_cases hq : Q s l
    · exact ⟨n + 1, .hit hs hq hn⟩
    · exact ⟨n, .miss hs hq hn⟩

/-- A counter that those steps move on by one, and no others, has their number. -/
theorem Times.counts {K : Nat → S → Prop} (hhit : ∀ n s l s', K n s → M.step s l s' → Q s l → K (n + 1) s')
    (hmiss : ∀ n s l s', K n s → M.step s l s' → ¬ Q s l → K n s') {n : Nat} (h : M.Times Q n s ls s')
    {m : Nat} (hk : K m s) : K (m + n) s' := by
  induction h generalizing m with
  | nil => exact hk
  | hit hs hq _ ih =>
    rw [Nat.add_comm _ 1, ← Nat.add_assoc]
    exact ih (hhit _ _ _ _ hk hs hq)
  | miss hs hq _ ih => exact ih (hmiss _ _ _ _ hk hs hq)

/-- Steps that are the same in this run, by where it ends. -/
theorem Times.congr (hI : ∀ s l s', I s → M.step s l s' → I s') {n : Nat} (h : M.Times Q n s ls s') (hi : I s)
    (hQ : ∀ t l t' ls, I t → M.step t l t' → M.Run t' ls s' → (Q t l ↔ Q' t l)) : M.Times Q' n s ls s' := by
  induction h with
  | nil => exact .nil _
  | hit hs hq hrest ih => exact .hit hs ((hQ _ _ _ _ hi hs hrest.run).mp hq) (ih (hI _ _ _ hi hs) hQ)
  | miss hs hq hrest ih => exact .miss hs (mt (hQ _ _ _ _ hi hs hrest.run).mpr hq) (ih (hI _ _ _ hi hs) hQ)

end SpikeHub.Core.LTS
