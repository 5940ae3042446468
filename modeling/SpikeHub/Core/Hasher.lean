import SpikeHub.Core.Sha256

/-!
# SHA-256 of a message fed in pieces

A `hashlib.sha256()` object: it compresses each block once it is full and keeps
the bytes of the one that is not. `update` feeds it more bytes, and `hexdigest`
pads what is pending as the standard pads the end of the message.

`Holds h m` says that `h` was fed `m`, in whatever pieces. An update keeps it
(`Holds.update`), and the digest then is that of `m` (`Holds.hexdigest`): only
the bytes count, not where they were cut.
-/
namespace SpikeHub.Core
namespace Sha256

/-! ## Whole blocks -/

/-- The first `n` blocks of 64 bytes, compressed into `s`. -/
def absorb : Nat → List UInt8 → HState → HState
  | 0, _, s => s
  | n + 1, bs, s => absorb n (bs.drop 64) (compress s (toWords (bs.take 64)))

variable {m m' bs : List UInt8} {n k : Nat} {s : HState}

theorem toWords_take : ∀ (k : Nat) (bs : List UInt8), toWords (bs.take (4 * k)) = (toWords bs).take k
  | 0, bs => by rw [Nat.mul_zero, List.take_zero, List.take_zero]; rfl
  | k + 1, a :: b :: c :: d :: rest => by
    rw [Nat.mul_succ]
    simp only [List.take_succ_cons, toWords, toWords_take k rest]
  | k + 1, [] | k + 1, [_] | k + 1, [_, _] | k + 1, [_, _, _] => by simp [Nat.mul_succ, toWords]

theorem toWords_drop : ∀ (k : Nat) (bs : List UInt8), toWords (bs.drop (4 * k)) = (toWords bs).drop k
  | 0, bs => by rw [Nat.mul_zero, List.drop_zero, List.drop_zero]
  | k + 1, a :: b :: c :: d :: rest => by
    rw [Nat.mul_succ]
    simp only [List.drop_succ_cons, toWords, toWords_drop k rest]
  | k + 1, [] | k + 1, [_] | k + 1, [_, _] | k + 1, [_, _, _] => by simp [Nat.mul_succ, toWords]

theorem toWords_length : ∀ bs : List UInt8, (toWords bs).length = bs.length / 4
  | a :: b :: c :: d :: rest => by
    simp only [toWords, List.length_cons, toWords_length rest]
    omega
  | [] | [_] | [_, _] | [_, _, _] => by simp [toWords]

/-- `blocks` reads the same blocks, as words. -/
theorem blocks_eq_absorb : ∀ (n : Nat) (bs : List UInt8) (s : HState),
    blocks n (toWords bs) s = absorb n bs s
  | 0, _, _ => rfl
  | n + 1, bs, s => by
    unfold blocks absorb
    rw [← toWords_take 16, ← toWords_drop 16, blocks_eq_absorb n]

theorem absorb_add : ∀ (n k : Nat) (bs : List UInt8) (s : HState),
    absorb (n + k) bs s = absorb k (bs.drop (64 * n)) (absorb n bs s)
  | 0, k, bs, s => by rw [Nat.zero_add, Nat.mul_zero, List.drop_zero]; rfl
  | n + 1, k, bs, s => by
    rw [Nat.succ_add]
    simp only [absorb]
    rw [absorb_add n k, List.drop_drop, Nat.mul_succ, Nat.add_comm 64]

/-- What comes after the blocks is not read. -/
theorem absorb_append : ∀ (n : Nat) (m bs : List UInt8) (s : HState), 64 * n ≤ m.length →
    absorb n (m ++ bs) s = absorb n m s
  | 0, _, _, _, _ => rfl
  | n + 1, m, bs, s, h => by
    have hblock : 64 ≤ m.length := by omega
    simp only [absorb]
    rw [List.take_append_of_le_length hblock, List.drop_append_of_le_length hblock]
    refine absorb_append n _ bs _ ?_
    rw [List.length_drop]
    omega

/-- What `pad` puts behind a message of `n` bytes. -/
def padding (n : Nat) : List UInt8 :=
  (0x80 : UInt8) :: List.replicate ((119 - n % 64) % 64) 0 ++
    [56, 48, 40, 32, 24, 16, 8, 0].map fun k => UInt8.ofNat ((8 * n) >>> k)

theorem pad_eq (m : List UInt8) : pad m = m ++ padding m.length := by
  simp [pad, padding, bitLength]

/-- The eight words, as `hexdigest` prints them. -/
def HState.hex (s : HState) : String :=
  String.ofList ([s.a, s.b, s.c, s.d, s.e, s.f, s.g, s.h].flatMap hexWord)

theorem sha256_eq (m : List UInt8) : sha256 m = (absorb ((pad m).length / 64) (pad m) H0).hex := by
  have hcount : (toWords (pad m)).length / 16 = (pad m).length / 64 := by
    rw [toWords_length, Nat.div_div_eq_div_mul]
  unfold sha256
  dsimp only
  rw [hcount, blocks_eq_absorb]
  rfl

/-! ## The object -/

structure Hasher where
  state : HState
  pending : List UInt8
  fed : Nat

namespace Hasher

/-- `hashlib.sha256()` -/
def new : Hasher := ⟨H0, [], 0⟩

def update (h : Hasher) (bs : List UInt8) : Hasher :=
  let all := h.pending ++ bs
  let full := all.length / 64
  ⟨absorb full all h.state, all.drop (64 * full), h.fed + bs.length⟩

def hexdigest (h : Hasher) : String :=
  let last := h.pending ++ padding h.fed
  (absorb (last.length / 64) last h.state).hex

/-- Fed `m`: its whole blocks are compressed, and the rest is pending. -/
structure Holds (h : Hasher) (m : List UInt8) : Prop where
  state : h.state = absorb (m.length / 64) m H0
  pending : h.pending = m.drop (64 * (m.length / 64))
  fed : h.fed = m.length

variable {h : Hasher}

theorem holds_new : new.Holds [] := ⟨rfl, rfl, rfl⟩

/-- What is pending is the rest of the message. -/
theorem Holds.length_pending (hh : h.Holds m) : m.length = 64 * (m.length / 64) + h.pending.length := by
  rw [hh.pending, List.length_drop]
  omega

/-- More of the message: the blocks full by then are those of the whole. -/
theorem Holds.blocks (hh : h.Holds m) (bs : List UInt8) :
    absorb ((h.pending ++ bs).length / 64) (h.pending ++ bs) h.state =
        absorb ((m ++ bs).length / 64) (m ++ bs) H0 ∧
      (h.pending ++ bs).drop (64 * ((h.pending ++ bs).length / 64)) =
        (m ++ bs).drop (64 * ((m ++ bs).length / 64)) := by
  have hlen := hh.length_pending
  have hbefore : 64 * (m.length / 64) ≤ m.length := Nat.mul_div_le _ _
  have hrest : h.pending ++ bs = (m ++ bs).drop (64 * (m.length / 64)) := by
    rw [List.drop_append_of_le_length hbefore, hh.pending]
  have hcount : (m ++ bs).length / 64 = m.length / 64 + (h.pending ++ bs).length / 64 := by
    rw [List.length_append, List.length_append]
    omega
  constructor
  · rw [hcount, absorb_add, ← hrest, absorb_append _ _ _ _ hbefore, ← hh.state]
  · rw [hcount, hrest, List.drop_drop, Nat.mul_add]

theorem Holds.update (hh : h.Holds m) (bs : List UInt8) : (h.update bs).Holds (m ++ bs) where
  state := (hh.blocks bs).1
  pending := (hh.blocks bs).2
  fed := by
    rw [List.length_append, ← hh.fed]
    rfl

/-- The digest is that of the whole message. -/
theorem Holds.hexdigest (hh : h.Holds m) : h.hexdigest = sha256 m := by
  rw [sha256_eq, pad_eq, ← hh.fed, ← (hh.blocks (padding h.fed)).1]
  rfl

/-- `"abc"` again, in three pieces. -/
example : (((new.update [97]).update []).update [98, 99]).hexdigest =
    "ba7816bf8f01cfea414140de5dae2223b00361a396177a9cb410ff61f20015ad" := by decide +kernel

end Hasher
end Sha256
end SpikeHub.Core
