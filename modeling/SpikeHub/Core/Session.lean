import Mathlib.Tactic.Common

/-!
# Request-scoped database sessions

`Work D W ε` is what code holding a session does: it sees the session's view
`D` of the database, acts on the world `W` outside it (a file volume), and may
raise `ε`. What it did before raising stays done, in the view and outside.

A `Route` holds the session of one request. `Route.session` runs work on the
session's view and `Route.commit` makes the view the committed state;
`dbSession` opens the session and, whether the route returns or raises, keeps
only what was committed. World effects are kept either way.

`dbSession_commit` is the one rule the developments above use: work followed
by a commit persists exactly when the work returns.
-/
namespace SpikeHub.Core

/-- Work inside a session: `D` is rolled back on a raise, `W` is not. -/
abbrev Work (D W ε : Type) := ExceptT ε (StateM (D × W))

namespace Work

variable {D W ε α β : Type}

def exec (m : Work D W ε α) (d : D) (w : W) : Except ε α × D × W := m.run.run (d, w)

def query (f : D → α) : Work D W ε α := do return f (← get).1

def write (f : D → D) : Work D W ε Unit := modify fun s => (f s.1, s.2)

/-- A statement the database may refuse. -/
def statement (f : D → Except ε D) : Work D W ε Unit := do
  match f (← get).1 with
  | .ok d => modify fun s => (d, s.2)
  | .error e => throw e

/-- An effect outside the database. -/
def outside (f : W → W) : Work D W ε Unit := modify fun s => (s.1, f s.2)

/-- An effect outside that has an outcome. -/
def effect (f : W → Except ε α × W) : Work D W ε α := do
  let (r, w) := f (← get).2
  modify fun s => (s.1, w)
  ExceptT.mk (pure r)

def observe (f : W → α) : Work D W ε α := do return f (← get).2

def orRaise (r : Except ε α) : Work D W ε α := ExceptT.mk (pure r)

/-- A query whose answer may be a refusal. -/
def check (f : D → Except ε α) : Work D W ε α := do
  orRaise (f (← get).1)

variable {m : Work D W ε α} {f : α → Work D W ε β} {d : D} {w : W}

@[simp] theorem exec_pure (a : α) : (pure a : Work D W ε α).exec d w = (.ok a, d, w) := rfl

@[simp] theorem exec_throw (e : ε) : (throw e : Work D W ε α).exec d w = (.error e, d, w) := rfl

@[simp] theorem exec_query (g : D → α) : (query g : Work D W ε α).exec d w = (.ok (g d), d, w) := rfl

@[simp] theorem exec_write (g : D → D) : (write g : Work D W ε Unit).exec d w = (.ok (), g d, w) :=
  rfl

@[simp] theorem exec_outside (g : W → W) :
    (outside g : Work D W ε Unit).exec d w = (.ok (), d, g w) := rfl

@[simp] theorem exec_effect (g : W → Except ε α × W) :
    (effect g : Work D W ε α).exec d w = ((g w).1, d, (g w).2) := rfl

@[simp] theorem exec_observe (g : W → α) :
    (observe g : Work D W ε α).exec d w = (.ok (g w), d, w) := rfl

@[simp] theorem exec_orRaise (r : Except ε α) : (orRaise r : Work D W ε α).exec d w = (r, d, w) :=
  rfl

@[simp] theorem exec_check (g : D → Except ε α) :
    (check g : Work D W ε α).exec d w = (g d, d, w) := rfl

theorem exec_bind : (m >>= f).exec d w =
    match m.exec d w with
    | (.ok a, d', w') => (f a).exec d' w'
    | (.error e, d', w') => (.error e, d', w') := by
  show (ExceptT.bind m f).run (d, w) = _
  unfold ExceptT.bind ExceptT.mk exec
  simp only [ExceptT.run, StateT.run, bind, StateT.bind]
  rcases m (d, w) with ⟨r, d', w'⟩
  cases r <;> rfl

theorem exec_bind_ok {a : α} {d' : D} {w' : W} (h : m.exec d w = (.ok a, d', w')) :
    (m >>= f).exec d w = (f a).exec d' w' := by rw [exec_bind, h]

theorem exec_bind_error {e : ε} {d' : D} {w' : W} (h : m.exec d w = (.error e, d', w')) :
    (m >>= f).exec d w = (.error e, d', w') := by rw [exec_bind, h]

theorem exec_bind_eq_ok {b : β} {d' : D} {w' : W} (h : (m >>= f).exec d w = (.ok b, d', w')) :
    ∃ a d₁ w₁, m.exec d w = (.ok a, d₁, w₁) ∧ (f a).exec d₁ w₁ = (.ok b, d', w') := by
  rw [exec_bind] at h
  split at h
  · rename_i a d₁ w₁ h₁; exact ⟨a, d₁, w₁, h₁, h⟩
  · cases h

/-- The rest of the work after a check that must have passed. -/
theorem check_bind_eq_ok {g : D → Except ε α} {b : β} {d' : D} {w' : W}
    (h : (check g >>= f).exec d w = (.ok b, d', w')) :
    ∃ a, g d = .ok a ∧ (f a).exec d w = (.ok b, d', w') := by
  obtain ⟨a, d₁, w₁, h₁, h₂⟩ := exec_bind_eq_ok h
  simp only [exec_check, Prod.mk.injEq] at h₁
  obtain ⟨ha, rfl, rfl⟩ := h₁
  exact ⟨a, ha, h₂⟩

theorem orRaise_bind_eq_ok {r : Except ε α} {b : β} {d' : D} {w' : W}
    (h : (orRaise r >>= f).exec d w = (.ok b, d', w')) :
    ∃ a, r = .ok a ∧ (f a).exec d w = (.ok b, d', w') :=
  check_bind_eq_ok (g := fun _ => r) h

@[simp] theorem exec_statement (g : D → Except ε D) :
    (statement g : Work D W ε Unit).exec d w =
      match g d with
      | .ok d' => (.ok (), d', w)
      | .error e => (.error e, d, w) := by
  unfold statement
  show (match g d with
    | .ok d' => (modify fun s => (d', s.2) : Work D W ε Unit)
    | .error e => throw e).exec d w = _
  cases g d <;> rfl

theorem query_bind {g : D → α} : (query g >>= f).exec d w = (f (g d)).exec d w := by
  rw [exec_bind, exec_query]

theorem write_bind {g : D → D} {f : Unit → Work D W ε β} :
    (write g >>= f).exec d w = (f ()).exec (g d) w := by
  rw [exec_bind, exec_write]

/-- The rest of the work after a statement that must have gone through. -/
theorem statement_bind_eq_ok {g : D → Except ε D} {f : Unit → Work D W ε β} {b : β} {d' : D} {w' : W}
    (h : (statement g >>= f).exec d w = (.ok b, d', w')) :
    ∃ d₁, g d = .ok d₁ ∧ (f ()).exec d₁ w = (.ok b, d', w') := by
  rw [exec_bind, exec_statement] at h
  cases hg : g d with
  | ok d₁ => rw [hg] at h; exact ⟨d₁, rfl, h⟩
  | error e => rw [hg] at h; cases h

/-- `try m except e: h e` -/
@[simp] theorem exec_tryCatch (h : ε → Work D W ε α) : (tryCatch m h).exec d w =
    match m.exec d w with
    | (.ok a, d', w') => (.ok a, d', w')
    | (.error e, d', w') => (h e).exec d' w' := by
  show (ExceptT.tryCatch m h).run (d, w) = _
  unfold ExceptT.tryCatch ExceptT.mk exec
  simp only [ExceptT.run, StateT.run, bind, StateT.bind]
  rcases m (d, w) with ⟨r, d', w'⟩
  cases r <;> rfl

/-- Work that leaves the world alone, whether it returns or raises. -/
def KeepsWorld (m : Work D W ε α) : Prop := ∀ d w, (m.exec d w).2.2 = w

theorem KeepsWorld.bind (hm : KeepsWorld m) (hf : ∀ a, KeepsWorld (f a)) :
    KeepsWorld (m >>= f) := by
  intro d w
  have h := hm d w
  rw [exec_bind]
  rcases hx : m.exec d w with ⟨r, d', w'⟩
  rw [hx] at h
  cases r with
  | ok a => exact (hf a d' w').trans h
  | error e => exact h

theorem keepsWorld_pure (a : α) : KeepsWorld (pure a : Work D W ε α) := fun _ _ => rfl
theorem keepsWorld_query (g : D → α) : KeepsWorld (query g : Work D W ε α) := fun _ _ => rfl
theorem keepsWorld_check (g : D → Except ε α) : KeepsWorld (check g : Work D W ε α) :=
  fun _ _ => rfl
theorem keepsWorld_orRaise (r : Except ε α) : KeepsWorld (orRaise r : Work D W ε α) :=
  fun _ _ => rfl
theorem keepsWorld_write (g : D → D) : KeepsWorld (write g : Work D W ε Unit) := fun _ _ => rfl
theorem keepsWorld_throw (e : ε) : KeepsWorld (throw e : Work D W ε α) := fun _ _ => rfl
theorem keepsWorld_observe (g : W → α) : KeepsWorld (observe g : Work D W ε α) := fun _ _ => rfl
theorem keepsWorld_statement (g : D → Except ε D) :
    KeepsWorld (statement g : Work D W ε Unit) := by
  intro d w
  rw [exec_statement]
  cases g d <;> rfl

/-- What work leaves of the world, from this state, step by step. -/
theorem bind_world {R : W → W → Prop} (hR : ∀ {a b c}, R a b → R b c → R a c) (hm : R w (m.exec d w).2.2)
    (hf : ∀ a d' w', m.exec d w = (.ok a, d', w') → R w' ((f a).exec d' w').2.2) :
    R w ((m >>= f).exec d w).2.2 := by
  rw [exec_bind]
  rcases hx : m.exec d w with ⟨r, d', w'⟩
  rw [hx] at hm
  cases r with
  | ok a => exact hR hm (hf a d' w' hx)
  | error e => exact hm

/-- What a raise leaves of the session's view, and what any outcome does. -/
def Raises (R : D → D → Prop) (m : Work D W ε α) : Prop :=
  ∀ d w e, (m.exec d w).1 = .error e → R d (m.exec d w).2.1

def Changes (R : D → D → Prop) (m : Work D W ε α) : Prop := ∀ d w, R d (m.exec d w).2.1

/-- Work that leaves the session's view alone, whether it returns or raises. -/
def KeepsView (m : Work D W ε α) : Prop := ∀ d w, (m.exec d w).2.1 = d

/-- A raise, from this state, leaves the session's view as it was. -/
def RaisesClean (m : Work D W ε α) (d : D) (w : W) : Prop :=
  ∀ e, (m.exec d w).1 = .error e → (m.exec d w).2.1 = d

section

theorem RaisesClean.bind {a : α} {w' : W} (hm : m.exec d w = (.ok a, d, w'))
    (hf : (f a).RaisesClean d w') : (m >>= f).RaisesClean d w := by
  unfold RaisesClean
  rw [exec_bind_ok hm]
  exact hf

theorem check_clean {g : D → Except ε α} (hf : ∀ a, g d = .ok a → (f a).RaisesClean d w) :
    (check g >>= f).RaisesClean d w := by
  intro e
  rw [exec_bind, exec_check]
  cases hg : g d with
  | ok a => exact hf a hg e
  | error e => intro _; rfl

theorem orRaise_clean {r : Except ε α} (hf : ∀ a, r = .ok a → (f a).RaisesClean d w) :
    (orRaise r >>= f).RaisesClean d w :=
  check_clean (g := fun _ => r) hf

/-- A statement that fails has done nothing. -/
theorem statement_clean {g : D → Except ε D} {f : Unit → Work D W ε β}
    (hf : ∀ d' e, ((f ()).exec d' w).1 ≠ .error e) : (statement g >>= f).RaisesClean d w := by
  intro e
  rw [exec_bind, exec_statement]
  cases g d with
  | ok d' => exact fun he => absurd he (hf d' e)
  | error e => intro _; rfl

end

section
variable {P : ε → Prop}

/-- What work raises, from this state, is as `P` says. -/
def RaisesOnly (P : ε → Prop) (m : Work D W ε α) (d : D) (w : W) : Prop :=
  ∀ e, (m.exec d w).1 = .error e → P e

theorem RaisesOnly.bind (hm : m.RaisesOnly P d w)
    (hf : ∀ a d' w', m.exec d w = (.ok a, d', w') → (f a).RaisesOnly P d' w') :
    (m >>= f).RaisesOnly P d w := by
  intro e he
  rw [exec_bind] at he
  rcases hx : m.exec d w with ⟨r, d', w'⟩
  rw [hx] at he
  cases r with
  | ok a => exact hf a d' w' hx e he
  | error e' =>
    obtain rfl : e' = e := Except.error.inj he
    exact hm e' (congrArg Prod.fst hx)

theorem RaisesOnly.mono {Q : ε → Prop} (hm : m.RaisesOnly P d w) (hPQ : ∀ e, P e → Q e) :
    m.RaisesOnly Q d w := fun e he => hPQ e (hm e he)

theorem RaisesOnly.of_exec {r : Except ε α} {d' : D} {w' : W} (hx : m.exec d w = (r, d', w'))
    (hr : ∀ e, r = .error e → P e) : m.RaisesOnly P d w := by
  intro e he
  rw [hx] at he
  exact hr e he

theorem pure_raises (a : α) : (pure a : Work D W ε α).RaisesOnly P d w := fun _ => nofun

theorem throw_raises {e : ε} (he : P e) : (throw e : Work D W ε α).RaisesOnly P d w :=
  .of_exec (exec_throw e) fun _ h => Except.error.inj h ▸ he

/-- The rest of the work after a check, where the check may refuse. -/
theorem check_raises {g : D → Except ε α} (hg : ∀ e, g d = .error e → P e)
    (hf : ∀ a, g d = .ok a → (f a).RaisesOnly P d w) : (check g >>= f).RaisesOnly P d w := by
  refine RaisesOnly.bind (.of_exec (exec_check g) hg) fun a d' w' hx => ?_
  rw [exec_check, Prod.mk.injEq, Prod.mk.injEq] at hx
  obtain ⟨ha, rfl, rfl⟩ := hx
  exact hf a ha

theorem orRaise_bind_raises {r : Except ε α} (hr : ∀ e, r = .error e → P e)
    (hf : ∀ a, r = .ok a → (f a).RaisesOnly P d w) : (orRaise r >>= f).RaisesOnly P d w :=
  check_raises (g := fun _ => r) hr hf

theorem query_raises {g : D → α} (hf : (f (g d)).RaisesOnly P d w) :
    (query g >>= f).RaisesOnly P d w := by
  intro e he
  rw [query_bind] at he
  exact hf e he

theorem write_raises {g : D → D} {f : Unit → Work D W ε β} (hf : (f ()).RaisesOnly P (g d) w) :
    (write g >>= f).RaisesOnly P d w := by
  intro e he
  rw [write_bind] at he
  exact hf e he

theorem statement_raises {g : D → Except ε D} {f : Unit → Work D W ε β} (hg : ∀ e, g d = .error e → P e)
    (hf : ∀ d', g d = .ok d' → (f ()).RaisesOnly P d' w) : (statement g >>= f).RaisesOnly P d w := by
  intro e he
  rw [exec_bind, exec_statement] at he
  cases hx : g d with
  | ok d' => rw [hx] at he; exact hf d' hx e he
  | error e' =>
    rw [hx] at he
    obtain rfl : e' = e := Except.error.inj he
    exact hg e' hx

end

section
variable {R : D → D → Prop}

/-- What work leaves of the session's view, step by step, from the view it runs on. -/
theorem bind_view (hR : ∀ {a b c}, R a b → R b c → R a c) (hm : R d (m.exec d w).2.1)
    (hf : ∀ a d' w', m.exec d w = (.ok a, d', w') → R d' ((f a).exec d' w').2.1) :
    R d ((m >>= f).exec d w).2.1 := by
  rw [exec_bind]
  rcases hx : m.exec d w with ⟨r, d', w'⟩
  rw [hx] at hm
  cases r with
  | ok a => exact hR hm (hf a d' w' hx)
  | error e => exact hm

theorem check_view {g : D → Except ε α} (hrefl : R d d)
    (hf : ∀ a, g d = .ok a → R d ((f a).exec d w).2.1) : R d ((check g >>= f).exec d w).2.1 := by
  rw [exec_bind, exec_check]
  cases hg : g d with
  | ok a => exact hf a hg
  | error e => exact hrefl

theorem orRaise_view {r : Except ε α} (hrefl : R d d) (hf : ∀ a, r = .ok a → R d ((f a).exec d w).2.1) :
    R d ((orRaise r >>= f).exec d w).2.1 :=
  check_view (g := fun _ => r) hrefl hf

theorem statement_view {g : D → Except ε D} (hrefl : R d d) (hg : ∀ d', g d = .ok d' → R d d') :
    R d ((statement g : Work D W ε Unit).exec d w).2.1 := by
  rw [exec_statement]
  cases h : g d with
  | ok d' => exact hg d' h
  | error e => exact hrefl

/-- A last step that only returns. -/
theorem return_view {g : α → β} (hm : R d (m.exec d w).2.1) :
    R d ((m >>= fun a => pure (g a)).exec d w).2.1 := by
  rw [exec_bind]
  rcases hx : m.exec d w with ⟨r, d', w'⟩
  rw [hx] at hm
  cases r with
  | ok a => exact hm
  | error e => exact hm

/-- Work that leaves the view alone, and the rest. -/
theorem KeepsView.bind_view (hm : KeepsView m) (hrefl : R d d)
    (hf : ∀ a w', R d ((f a).exec d w').2.1) : R d ((m >>= f).exec d w).2.1 := by
  have h := hm d w
  rw [exec_bind]
  rcases hx : m.exec d w with ⟨r, d', w'⟩
  rw [hx] at h
  obtain rfl : d' = d := h
  cases r with
  | ok a => exact hf a w'
  | error e => exact hrefl

theorem Changes.bind (hR : ∀ {a b c}, R a b → R b c → R a c) (hm : Changes R m)
    (hf : ∀ a, Changes R (f a)) : Changes R (m >>= f) := fun d w =>
  Work.bind_view hR (hm d w) fun a d' w' _ => hf a d' w'

theorem Changes.raises (hR : ∀ {a b c}, R a b → R b c → R a c) (hm : Changes R m)
    (hf : ∀ a, Raises R (f a)) : Raises R (m >>= f) := by
  intro d w e
  have h := hm d w
  rw [exec_bind]
  rcases hx : m.exec d w with ⟨r, d', w'⟩
  rw [hx] at h
  cases r with
  | ok a => intro he; exact hR h (hf a d' w' e he)
  | error e => intro _; exact h

theorem Changes.tryCatch {h : ε → Work D W ε α} (hR : ∀ {a b c}, R a b → R b c → R a c)
    (hm : Changes R m) (hh : ∀ e, Changes R (h e)) : Changes R (tryCatch m h) := by
  intro d w
  have hd := hm d w
  rw [exec_tryCatch]
  rcases hx : m.exec d w with ⟨r, d', w'⟩
  rw [hx] at hd
  cases r with
  | ok a => exact hd
  | error e => exact hR hd (hh e d' w')

theorem changes_statement {g : D → Except ε D} (hR : ∀ a, R a a)
    (hg : ∀ d d', g d = .ok d' → R d d') : Changes R (statement g : Work D W ε Unit) := fun d _ =>
  statement_view (hR d) (hg d)

theorem changes_view (hR : ∀ a, R a a) (h : KeepsView m) : Changes R m := by
  intro d w; rw [h]; exact hR d

end

theorem KeepsView.bind (hm : KeepsView m) (hf : ∀ a, KeepsView (f a)) : KeepsView (m >>= f) :=
  Changes.bind (R := fun d d' => d' = d) (fun h h' => h'.trans h) hm hf

theorem KeepsView.tryCatch {h : ε → Work D W ε α} (hm : KeepsView m) (hh : ∀ e, KeepsView (h e)) :
    KeepsView (tryCatch m h) :=
  Changes.tryCatch (R := fun d d' => d' = d) (fun h h' => h'.trans h) hm hh

end Work

structure Txn (D W : Type) where
  committed : D
  view : D
  world : W

/-- What a route does with the session it was given. -/
abbrev Route (D W ε : Type) := ExceptT ε (StateM (Txn D W))

namespace Route

variable {D W ε α β : Type}

def session (m : Work D W ε α) : Route D W ε α := ExceptT.mk fun t =>
  let (r, d, w) := m.exec t.view t.world
  (r, { t with view := d, world := w })

def commit : Route D W ε Unit := modify fun t => { t with committed := t.view }

end Route

open Route in
/-- Work that is committed when it returns. -/
def committing {D W ε α : Type} (m : Work D W ε α) : Route D W ε α := do
  let a ← session m
  commit
  return a

/-- Opens a session on the committed state and runs the route: what the route
did not commit is rolled back. -/
def dbSession {D W ε α : Type} (r : Route D W ε α) (d : D) (w : W) : Except ε α × D × W :=
  let (res, t) := r.run.run ⟨d, d, w⟩
  (res, t.committed, t.world)

/-- Work that ends in a commit persists exactly when it returns. -/
theorem dbSession_commit {D W ε α : Type} (m : Work D W ε α) (d : D) (w : W) :
    dbSession (committing m) d w =
      match m.exec d w with
      | (.ok a, d', w') => (.ok a, d', w')
      | (.error e, _, w') => (.error e, d, w') := by
  unfold dbSession committing Route.session Route.commit
  simp only [bind, ExceptT.bind, ExceptT.mk, ExceptT.run, StateT.run, StateT.bind, pure]
  rcases m.exec d w with ⟨r, d', w'⟩
  cases r <;> rfl

/-- Work that raises before its commit leaves nothing. -/
theorem dbSession_raises {D W ε α : Type} {m : Work D W ε α} {e : ε} {d d' : D} {w w' : W}
    (h : m.exec d w = (.error e, d', w')) : dbSession (committing m) d w = (.error e, d, w') := by
  rw [dbSession_commit, h]

/-- Work that is not committed leaves nothing. -/
theorem dbSession_session {D W ε α : Type} (m : Work D W ε α) (d : D) (w : W) :
    dbSession (Route.session m) d w = ((m.exec d w).1, d, (m.exec d w).2.2) := by
  unfold dbSession Route.session
  simp only [ExceptT.mk, ExceptT.run, StateT.run]

/-- World effects are kept, committed or not. -/
theorem dbSession_world {D W ε α : Type} (m : Work D W ε α) (d : D) (w : W) :
    (dbSession (committing m) d w).2.2 = (m.exec d w).2.2 := by
  rw [dbSession_commit]
  rcases m.exec d w with ⟨r, d', w'⟩
  cases r <;> rfl

/-- A commit raises nothing of its own. -/
theorem committing_raises {D W ε α : Type} {P : ε → Prop} {m : Work D W ε α} {d : D} {w : W}
    (h : m.RaisesOnly P d w) {e : ε} (he : (dbSession (committing m) d w).1 = .error e) : P e := by
  rw [dbSession_commit] at he
  rcases hx : m.exec d w with ⟨r, d', w'⟩
  rw [hx] at he
  cases r with
  | ok a => cases he
  | error e' => exact h e ((congrArg Prod.fst hx).trans he)

theorem session_raises {D W ε α : Type} {P : ε → Prop} {m : Work D W ε α} {d : D} {w : W}
    (h : m.RaisesOnly P d w) {e : ε} (he : (dbSession (Route.session m) d w).1 = .error e) : P e := by
  rw [dbSession_session] at he
  exact h e he

/-- The session's view when the route ended, committed or not. -/
def viewAfter {D W ε α : Type} (r : Route D W ε α) (d : D) (w : W) : D := (r.run.run ⟨d, d, w⟩).2.view

theorem viewAfter_commit {D W ε α : Type} (m : Work D W ε α) (d : D) (w : W) :
    viewAfter (committing m) d w = (m.exec d w).2.1 := by
  unfold viewAfter committing Route.session Route.commit
  simp only [bind, ExceptT.bind, ExceptT.mk, ExceptT.run, StateT.run, StateT.bind, pure]
  rcases m.exec d w with ⟨r, d', w'⟩
  cases r <;> rfl

/-- Committed is what the view was at the start, or at the end. -/
theorem dbSession_view {D W ε α : Type} (m : Work D W ε α) (d : D) (w : W) :
    (dbSession (committing m) d w).2.1 = d ∨ (dbSession (committing m) d w).2.1 = (m.exec d w).2.1 := by
  rw [dbSession_commit]
  rcases m.exec d w with ⟨r, d', w'⟩
  cases r with
  | ok a => exact .inr rfl
  | error e => exact .inl rfl

/-- What a session that ended in a commit left: nothing of the database when
it raised. -/
theorem committing_cases {D W ε α : Type} {m : Work D W ε α} {d d' : D} {w w' : W}
    {res : Except ε α} (h : dbSession (committing m) d w = (res, d', w')) :
    (∃ e, res = .error e ∧ d' = d) ∨ ∃ a, res = .ok a ∧ m.exec d w = (.ok a, d', w') := by
  rw [dbSession_commit] at h
  rcases hx : m.exec d w with ⟨r, d₁, w₁⟩
  rw [hx] at h
  cases r with
  | ok a =>
    simp only [Prod.mk.injEq] at h
    obtain ⟨rfl, rfl, rfl⟩ := h
    exact .inr ⟨a, rfl, rfl⟩
  | error e =>
    simp only [Prod.mk.injEq] at h
    obtain ⟨rfl, rfl, rfl⟩ := h
    exact .inl ⟨e, rfl, rfl⟩

end SpikeHub.Core
