import Mathlib.Data.List.Basic
import Mathlib.Tactic.Common

/-!
# SHA-256

The digest of FIPS 180-4 on a list of bytes, as `hashlib.sha256(m).hexdigest()`
prints it: 64 lowercase hexadecimal digits (`sha256_length`, `sha256_hex`).
The definition is executable, so digests of short messages are computed by
the kernel.
-/
namespace SpikeHub.Core
namespace Sha256

/-- First 32 bits of the fractional parts of the cube roots of the first 64 primes. -/
def K : List UInt32 := [
  0x428a2f98, 0x71374491, 0xb5c0fbcf, 0xe9b5dba5, 0x3956c25b, 0x59f111f1, 0x923f82a4, 0xab1c5ed5,
  0xd807aa98, 0x12835b01, 0x243185be, 0x550c7dc3, 0x72be5d74, 0x80deb1fe, 0x9bdc06a7, 0xc19bf174,
  0xe49b69c1, 0xefbe4786, 0x0fc19dc6, 0x240ca1cc, 0x2de92c6f, 0x4a7484aa, 0x5cb0a9dc, 0x76f988da,
  0x983e5152, 0xa831c66d, 0xb00327c8, 0xbf597fc7, 0xc6e00bf3, 0xd5a79147, 0x06ca6351, 0x14292967,
  0x27b70a85, 0x2e1b2138, 0x4d2c6dfc, 0x53380d13, 0x650a7354, 0x766a0abb, 0x81c2c92e, 0x92722c85,
  0xa2bfe8a1, 0xa81a664b, 0xc24b8b70, 0xc76c51a3, 0xd192e819, 0xd6990624, 0xf40e3585, 0x106aa070,
  0x19a4c116, 0x1e376c08, 0x2748774c, 0x34b0bcb5, 0x391c0cb3, 0x4ed8aa4a, 0x5b9cca4f, 0x682e6ff3,
  0x748f82ee, 0x78a5636f, 0x84c87814, 0x8cc70208, 0x90befffa, 0xa4506ceb, 0xbef9a3f7, 0xc67178f2]

def rotr (x n : UInt32) : UInt32 := (x >>> n) ||| (x <<< (32 - n))

structure HState where
  (a b c d e f g h : UInt32)

/-- First 32 bits of the fractional parts of the square roots of the first 8 primes. -/
def H0 : HState :=
  ⟨0x6a09e667, 0xbb67ae85, 0x3c6ef372, 0xa54ff53a, 0x510e527f, 0x9b05688c, 0x1f83d9ab, 0x5be0cd19⟩

def toWords : List UInt8 → List UInt32
  | a :: b :: c :: d :: rest =>
    ((a.toUInt32 <<< 24) ||| (b.toUInt32 <<< 16) ||| (c.toUInt32 <<< 8) ||| d.toUInt32) ::
      toWords rest
  | _ => []

/-- The first `n` words of the schedule whose next 16 words are `w`. -/
def schedule : Nat → List UInt32 → List UInt32
  | n + 1, w0 :: rest =>
    let w1 := rest.getD 0 0
    let w9 := rest.getD 8 0
    let w14 := rest.getD 13 0
    let s0 := rotr w1 7 ^^^ rotr w1 18 ^^^ (w1 >>> 3)
    let s1 := rotr w14 17 ^^^ rotr w14 19 ^^^ (w14 >>> 10)
    w0 :: schedule n (rest ++ [w0 + s0 + w9 + s1])
  | _, _ => []

def round (s : HState) (kw : UInt32 × UInt32) : HState :=
  let s1 := rotr s.e 6 ^^^ rotr s.e 11 ^^^ rotr s.e 25
  let ch := (s.e &&& s.f) ^^^ ((~~~s.e) &&& s.g)
  let t1 := s.h + s1 + ch + kw.1 + kw.2
  let s0 := rotr s.a 2 ^^^ rotr s.a 13 ^^^ rotr s.a 22
  let maj := (s.a &&& s.b) ^^^ (s.a &&& s.c) ^^^ (s.b &&& s.c)
  ⟨t1 + (s0 + maj), s.a, s.b, s.c, s.d + t1, s.e, s.f, s.g⟩

def compress (s : HState) (block : List UInt32) : HState :=
  let r := (K.zip (schedule 64 block)).foldl round s
  ⟨s.a + r.a, s.b + r.b, s.c + r.c, s.d + r.d, s.e + r.e, s.f + r.f, s.g + r.g, s.h + r.h⟩

def blocks : Nat → List UInt32 → HState → HState
  | 0, _, s => s
  | n + 1, ws, s => blocks n (ws.drop 16) (compress s (ws.take 16))

/-- Bit length of the message, big-endian in 64 bits. -/
def bitLength (m : List UInt8) : List UInt8 :=
  [56, 48, 40, 32, 24, 16, 8, 0].map fun k => UInt8.ofNat ((8 * m.length) >>> k)

/-- The message, a one bit, zeros to 56 mod 64 bytes, and the bit length. -/
def pad (m : List UInt8) : List UInt8 :=
  m ++ (0x80 :: List.replicate ((119 - m.length % 64) % 64) 0) ++ bitLength m

def hexDigit (n : Nat) : Char := if n < 10 then Char.ofNat (48 + n) else Char.ofNat (87 + n)

def hexWord (w : UInt32) : List Char :=
  [28, 24, 20, 16, 12, 8, 4, 0].map fun k => hexDigit ((w.toNat >>> k) % 16)

/-- A lowercase hexadecimal digit, the class `[0-9a-f]`. -/
def isHex (c : Char) : Bool := ('0' ≤ c && c ≤ '9') || ('a' ≤ c && c ≤ 'f')

theorem hexDigit_hex : ∀ n, n < 16 → isHex (hexDigit n) = true := by decide

theorem hexWord_hex (w : UInt32) : ∀ c ∈ hexWord w, isHex c = true := by
  intro c hc
  obtain ⟨k, -, rfl⟩ := List.mem_map.mp hc
  exact hexDigit_hex _ (Nat.mod_lt _ (by decide))

theorem hexWord_length (w : UInt32) : (hexWord w).length = 8 := rfl

end Sha256

open Sha256 in
/-- `hashlib.sha256(m).hexdigest()` -/
def sha256 (m : List UInt8) : String :=
  let ws := toWords (pad m)
  let s := blocks (ws.length / 16) ws H0
  String.ofList ([s.a, s.b, s.c, s.d, s.e, s.f, s.g, s.h].flatMap hexWord)

theorem sha256_length (m : List UInt8) : (sha256 m).toList.length = 64 := by
  simp [sha256, Sha256.hexWord_length]

theorem sha256_hex (m : List UInt8) : ∀ c ∈ (sha256 m).toList, Sha256.isHex c = true := by
  intro c hc
  simp only [sha256, String.toList_ofList, List.mem_flatMap] at hc
  obtain ⟨w, -, hw⟩ := hc
  exact Sha256.hexWord_hex w c hw

/-- The standard's one-block example, `"abc"`. -/
example : sha256 [97, 98, 99] =
    "ba7816bf8f01cfea414140de5dae2223b00361a396177a9cb410ff61f20015ad" := by decide +kernel

end SpikeHub.Core
