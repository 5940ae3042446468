import SpikeHub.L1Data.Schema

/-!
# What an account has stored, and what it has in flight

Model of hub_api/quota/usage.py. `storedBytes` sums the ledger, `pendingBytes`
the reservations that have not expired (`ModelVersion.live`).
-/
namespace SpikeHub.L3

open SpikeHub.Core SpikeHub.L1

/-- A reservation that still holds its allowance at `now`. -/
def live (now : Time) (v : ModelVersion) : Bool :=
  v.state = .reserved && v.expiresAt.any fun t => t > now

/-- mirrors hub_api/quota/usage.py:35-41 -/
def storedBytes (db : Db) (userId : Uuid) : Int :=
  db.entries.sum (fun e => e.userId = userId) QuotaEntry.deltaBytes

/-- mirrors hub_api/quota/usage.py:44-59 -/
def pendingBytes (db : Db) (now : Time) (userId : Uuid) : Int :=
  db.versions.sum (fun v => db.ownedBy userId v && live now v) ModelVersion.sizeBytes

/-- mirrors hub_api/quota/usage.py:15-32 -/
structure Usage where
  usedBytes : Int
  reservedBytes : Int
  limitBytes : Int
deriving DecidableEq, Repr

def Usage.availableBytes (u : Usage) : Int := max 0 (u.limitBytes - u.usedBytes - u.reservedBytes)

def Usage.canFit (u : Usage) (sizeBytes : Int) : Bool := sizeBytes ≤ u.availableBytes

/-- mirrors hub_api/quota/usage.py:62-70 -/
def usageFor (db : Db) (now : Time) (userId : Uuid) (limitBytes : Int) : Usage :=
  ⟨storedBytes db userId, pendingBytes db now userId, limitBytes⟩

section
variable {db : Db} {now : Time} {v : ModelVersion}

theorem live_iff : live now v = true ↔ v.state = .reserved ∧ ∃ t, v.expiresAt = some t ∧ now < t := by
  unfold live
  cases v.expiresAt <;> simp

theorem not_live_of_state (hv : v.state ≠ .reserved) : live now v = false :=
  Bool.eq_false_iff.mpr fun hl => hv (live_iff.mp hl).1

theorem live_tick {d : Nat} (hl : live (now + d) v = true) : live now v = true := by
  obtain ⟨hres, t, ht, hlt⟩ := live_iff.mp hl
  have hle : now ≤ now + d := Int.le_add_of_nonneg_right (Int.natCast_nonneg d)
  exact live_iff.mpr ⟨hres, t, ht, Int.lt_of_le_of_lt hle hlt⟩

/-- Time only ends reservations: what the live ones count for shrinks. -/
theorem sum_tick {q : ModelVersion → Bool} {f : ModelVersion → Int} (d : Nat)
    (hf : ∀ v ∈ db.versions, q v = true → live now v = true → 0 ≤ f v) :
    db.versions.sum (fun v => q v && live (now + d) v) f ≤
      db.versions.sum (fun v => q v && live now v) f := by
  refine Table.sum_le_sum fun v hv => ?_
  cases hq : q v with
  | false => simp
  | true =>
    cases hl : live (now + d) v with
    | true => simp [live_tick hl]
    | false =>
      cases hl' : live now v with
      | true => simpa using hf v hv hq hl'
      | false => simp

theorem pendingBytes_tick (d : Nat) (u : Uuid) (h : ∀ v ∈ db.versions, 0 < v.sizeBytes) :
    pendingBytes db (now + d) u ≤ pendingBytes db now u :=
  sum_tick d fun v hv _ _ => Int.le_of_lt (h v hv)

end

/-- The less is used and held, the more is available. -/
theorem availableBytes_anti {u u' : Usage} (hlimit : u'.limitBytes = u.limitBytes)
    (hused : u'.usedBytes ≤ u.usedBytes) (hreserved : u'.reservedBytes ≤ u.reservedBytes) :
    u.availableBytes ≤ u'.availableBytes := by
  unfold Usage.availableBytes
  rw [hlimit]
  omega

/-- An upload of positive size that fits leaves the account within its limit. -/
theorem canFit_iff {u : Usage} {n : Int} (hn : 0 < n) :
    u.canFit n = true ↔ u.usedBytes + u.reservedBytes + n ≤ u.limitBytes := by
  unfold Usage.canFit Usage.availableBytes
  rw [decide_eq_true_eq]
  omega

end SpikeHub.L3
