import SpikeHub.Core.Window
import SpikeHub.L4Uploads.Ledger
import SpikeHub.L5Runs.Calls

/-!
# A deleted reservation is an upload not started

Behaviour (hub_api/quota/limits.py:66-90): `check_daily_uploads` counts the
version rows created in the last day. `sweep` deletes the row of a reservation
that expired (uploads/janitor.py:32-35), fifteen minutes after it was granted,
and `_abandon` the row of a transfer whose bytes were refused
(uploads/receive.py:125-132). The uploads they belonged to are no longer
counted as started.

What the code says: "Refuse an upload once today's count is spent. … a
thousand tiny uploads is a pattern worth slowing down" (limits.py:69-73);
"this account has started as many uploads today as it may" (limits.py:87).

Counterexample: one upload a day. A reservation is granted and left to expire,
the janitor sweeps it, and a second is granted sixteen minutes after the first.

When it does hold: in every run in which no row is swept or abandoned within a
day of its creation (`dropsAged`).
-/
namespace SpikeHub.Bugs.DailyLimit

open SpikeHub.Core SpikeHub.L1 SpikeHub.L2 SpikeHub.L3 SpikeHub.L4.Uploads
open SpikeHub.L5.Interleave (Hub alice)
open SpikeHub.L5.Calls (Host Call Tidy Outcome asked settle)
open SpikeHub.L5

/-- The service, and when each account was granted a reservation, newest first. -/
structure Sys where
  hub : Hub
  grants : Uuid → List Time

/-- The call is a reserve, and is granted to `user`. -/
def grantsTo (host : Host) (h : Hub) (user : Uuid) : Call → Bool
  | .reserve u intent _ => u = user ∧ (h.db.user? u).any fun account =>
      ((Calls.asked host h account intent).exec h.db h.volume).1.isOk
  | _ => false

def noted (host : Host) (s : Sys) (c : Call) (user : Uuid) : List Time :=
  if grantsTo host s.hub user c then s.hub.now :: s.grants user else s.grants user

def step (host : Host) (s : Sys) (c : Call) : Option Sys :=
  (Calls.step host s.hub c).map fun h => ⟨h, noted host s c⟩

def lts (host : Host) : LTS Sys Call :=
  LTS.ofFn (fun s => (Calls.lts host).init s.hub ∧ s.grants = fun _ => []) (step host)

/-- The rows the call deletes are more than a day old. -/
def dropsAged (s : Sys) : Call → Bool
  | .sweep => (expired s.hub.db s.hub.now).all fun v => v.createdAt < s.hub.now - day
  | .receive user upload body keep => ∀ v ∈ s.hub.db.versions,
      reservedSlot s.hub.db s.hub.now upload user = .ok v → Mismatch v body → keep = true →
        v.createdAt < s.hub.now - day
  | _ => true

/-- Reservations granted to `user` in the day up to `t` are at most the limit;
a negative limit admits none. -/
def Limited (host : Host) (s : Sys) (user : Uuid) (t : Time) : Prop :=
  Window.count (s.grants user) (t - day) t ≤ host.config.maxUploadsPerDay.toNat

/-- In the last day no grant is missing from the rows. -/
structure Inv (host : Host) (s : Sys) : Prop where
  tidy : Tidy s.hub
  bounded : ∀ u, Window.Bounded day host.config.maxUploadsPerDay.toNat s.hub.now (s.grants u)
  counted : ∀ u a, s.hub.now - day ≤ a → Window.since (s.grants u) a ≤ startedSince s.hub.db u a

variable {host : Host} {s s' : Sys} {c : Call} {h : Hub}

/-! ## A call that is no reserve -/

theorem noted_of_not (hc : ∀ u, grantsTo host s.hub u c = false) : noted host s c = s.grants := by
  funext u
  unfold noted
  rw [hc u]
  rfl

theorem Inv.quiet (i : Inv host s) (ht : Tidy h) (hnow : s.hub.now ≤ h.now)
    (hrows : ∀ u a, h.now - day ≤ a → startedSince h.db u a = startedSince s.hub.db u a) :
    Inv host ⟨h, s.grants⟩ where
  tidy := ht
  bounded u := (i.bounded u).later hnow
  counted u a ha := by
    have hback : s.hub.now - day ≤ a := Int.le_trans (Int.sub_le_sub_right hnow day) ha
    rw [hrows u a ha]
    exact i.counted u a hback

theorem now_le (ho : Outcome host s.hub c h) : s.hub.now ≤ h.now := by
  cases ho with
  | tick => exact Int.le_add_of_nonneg_right (Int.natCast_nonneg _)
  | _ => exact Int.le_refl _

theorem kept_of_outcome (hc : dropsAged s c = true)
    (hnot : ∀ user intent keep, c ≠ .reserve user intent keep) (ho : Outcome host s.hub c h) (u : Uuid)
    (a : Time) (ha : h.now - day ≤ a) : startedSince h.db u a = startedSince s.hub.db u a := by
  cases ho with
  | tick => rfl
  | granted => exact absurd rfl (hnot _ _ _)
  | quiet hm => exact hm.startedSince
  | received hslot hlen hrw hp hst => exact (storedUpload hst).startedSince
  | interrupted => rfl
  | abandoned hslot hmis hkeep =>
    obtain ⟨hv, -⟩ := reservedSlot_ok hslot
    simp only [dropsAged, decide_eq_true_eq] at hc
    have haged := hc _ hv hslot hmis hkeep
    refine startedSince_delete fun w hw hid => ?_
    rw [version_eq hw hv (List.mem_singleton.mp hid)]
    exact Int.lt_of_lt_of_le haged ha
  | published =>
    exact startedSince_setVersion (movedOn_keys s.hub.now host.config) fun v => movedOn_createdAt
  | swept hd =>
    refine startedSince_delete fun v hv hid => ?_
    obtain ⟨w, hw, he⟩ := List.mem_map.mp hid
    have haged := List.all_eq_true.mp hc w hw
    rw [decide_eq_true_eq] at haged
    rw [version_eq hv (Table.mem_select.mp hw).1 he.symm]
    exact Int.lt_of_lt_of_le haged ha

theorem inv_other (i : Inv host s) (hc : dropsAged s c = true)
    (hnot : ∀ user intent keep, c ≠ .reserve user intent keep) (hs : step host s c = some s') :
    Inv host s' := by
  obtain ⟨h, hcall, rfl⟩ := Option.map_eq_some_iff.mp hs
  have ho := i.tidy.outcome hcall
  have hnone : noted host s c = s.grants := noted_of_not fun u => by
    unfold grantsTo
    split
    · exact absurd rfl (hnot _ _ _)
    · rfl
  rw [hnone]
  exact i.quiet (Calls.tidy_step i.tidy hcall) (now_le ho) (kept_of_outcome hc hnot ho)

/-! ## A reserve -/

theorem Inv.granted {db : Db} {u : User} {v : ModelVersion} {ids : Nat} (i : Inv host s)
    (ht : Tidy (Calls.after s.hub (db, s.hub.volume) ids))
    (hdaily : (startedSince s.hub.db u.id (s.hub.now - day) : Int) < host.config.maxUploadsPerDay)
    (ha : AddedReservation u.id v s.hub.db db) (hv : v.createdAt = s.hub.now) :
    Inv host ⟨Calls.after s.hub (db, s.hub.volume) ids,
      fun w => if w = u.id then s.hub.now :: s.grants w else s.grants w⟩ where
  tidy := ht
  bounded w := by
    have hold := i.bounded w
    dsimp only
    split
    · rename_i hw
      have hcounted := i.counted w (s.hub.now - day) (Int.le_refl _)
      rw [← hw] at hdaily
      exact hold.admitted (by omega)
    · exact hold
  counted w a hback := by
    have hold := i.counted w a hback
    dsimp only [Calls.after_db]
    rw [ha.startedSince, hv]
    by_cases hw : w = u.id
    · subst hw
      rw [if_pos rfl, Window.since_cons]
      simp only [true_and]
      omega
    · rw [if_neg hw, if_neg fun h => hw h.1]
      exact hold

theorem inv_reserve {user : Uuid} {intent : UploadIntent} {keep : Bool} (i : Inv host s)
    (hs : step host s (.reserve user intent keep) = some s') : Inv host s' := by
  obtain ⟨h', hcall, rfl⟩ := Option.map_eq_some_iff.mp hs
  have ht : Tidy h' := Calls.tidy_step i.tidy hcall
  obtain ⟨u, hu, rfl⟩ := Option.map_eq_some_iff.mp hcall
  obtain ⟨-, hid⟩ := user?_eq_some.mp hu
  obtain ⟨db, hset, hr⟩ := Calls.reserve_settled host s.hub u intent keep
  change Tidy (Calls.after s.hub (settle keep s.hub (asked host s.hub u intent)) 2) at ht
  show Inv host ⟨Calls.after s.hub (settle keep s.hub (asked host s.hub u intent)) 2, _⟩
  rw [hset] at ht ⊢
  split at hr
  · rename_i hok
    obtain ⟨_, ha⟩ := hr.added
    have hnoted : noted host s (.reserve user intent keep) =
        fun w => if w = u.id then s.hub.now :: s.grants w else s.grants w := by
      funext w
      unfold noted grantsTo
      simp [hu, hid, hok, eq_comm]
    rw [hnoted]
    exact i.granted ht hr.daily ha rfl
  · rename_i hno
    have hnoted : noted host s (.reserve user intent keep) = s.grants :=
      noted_of_not fun w => by simp [grantsTo, hu, hno]
    rw [hnoted]
    exact i.quiet ht (Int.le_refl _) fun w a _ => hr.startedSince

/-! ## The invariant -/

theorem inv_step (i : Inv host s) (hc : dropsAged s c = true) (hs : step host s c = some s') :
    Inv host s' := by
  by_cases hres : ∃ user intent keep, c = .reserve user intent keep
  · obtain ⟨user, intent, keep, rfl⟩ := hres
    exact inv_reserve i hs
  · exact inv_other i hc (fun user intent keep he => hres ⟨user, intent, keep, he⟩) hs

theorem inv_inductive (host : Host) :
    ((lts host).restrict fun s c => dropsAged s c = true).Inductive (Inv host) where
  init s h := by
    obtain ⟨hinit, hnone⟩ := h
    refine ⟨(Calls.tidy_inductive host).init _ hinit, fun u => ?_, fun u a _ => ?_⟩
    · rw [hnone]
      exact .nil
    · rw [hnone]
      exact Nat.zero_le _
  step _ _ _ h hs := inv_step h hs.1 hs.2

theorem limited_of_dropsAged (host : Host) (s : Sys)
    (h : ((lts host).restrict fun s c => dropsAged s c = true).Reachable s) (user : Uuid) (t : Time) :
    Limited host s user t :=
  (((inv_inductive host).reachable s h).bounded user).window t

/-! ## Traces -/

open SpikeHub.L5.Calls (start reserving)

/-- A disk with room to spare, and one upload a day. -/
def oneADay : Host := ⟨{ maxUploadsPerDay := 1 }, 1024 * GIB⟩

def abc (version : String) : Call := reserving version [97, 98, 99] (by decide)

/-- A reservation lives 900 seconds; sixteen minutes, and a day and a minute. -/
def sixteenMinutes : Call := .tick 960000000

def dayAndMinute : Call := .tick 86460000000

theorem reachable_of_trace (C : Sys → Call → Prop) [∀ s c, Decidable (C s c)] (cs : List Call)
    (p : Sys → Bool) (hx : (LTS.exec (step oneADay) C ⟨start, fun _ => []⟩ cs).any p = true) :
    ∃ s, ((lts oneADay).restrict C).Reachable s ∧ p s = true := by
  have hstart : (lts oneADay).init ⟨start, fun _ => []⟩ := ⟨⟨Calls.empty_start, by decide⟩, rfl⟩
  exact LTS.reachable_of_exec hstart hx

/-- Swept after a day, the first no longer counts when the second is granted. -/
theorem limited_after_a_day : ∃ s : Sys, (s.grants alice.id).length = 2 ∧
    Limited oneADay s alice.id s.hub.now := by
  obtain ⟨s, hr, hp⟩ := reachable_of_trace (fun s c => dropsAged s c = true)
    [abc "1.0", dayAndMinute, .sweep, abc "2.0"] (fun s => (s.grants alice.id).length = 2)
    (by decide +kernel)
  exact ⟨s, by simpa using hp, limited_of_dropsAged oneADay s hr alice.id s.hub.now⟩

theorem not_limited : ¬ ∀ s, (lts oneADay).Reachable s → ∀ user t, Limited oneADay s user t := by
  intro h
  obtain ⟨s, hr, hp⟩ := reachable_of_trace (fun _ _ => True)
    [abc "1.0", sixteenMinutes, .sweep, abc "2.0"]
    (fun s => Window.count (s.grants alice.id) (s.hub.now - day) s.hub.now = 2) (by decide +kernel)
  have htwo : Window.count (s.grants alice.id) (s.hub.now - day) s.hub.now = 2 := by simpa using hp
  have hone := h s hr.of_restrict alice.id s.hub.now
  unfold Limited at hone
  rw [htwo] at hone
  exact absurd hone (by decide)

end SpikeHub.Bugs.DailyLimit
