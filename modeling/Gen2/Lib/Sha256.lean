import Mathlib.Algebra.Group.Nat.Defs

/-!
# SHA-256

The digest of a list of bytes.  The message is padded to whole blocks of 64 bytes, and each block is
folded into a state of eight words: its sixteen words are extended to a schedule of 64, one for each
round.

Nothing is proved about how hard a collision is to find; a result that rests on it exhibits one
(`Collision`).
-/

namespace Gen2
namespace Sha256

/-! ## Rounds -/

/-- The constants of the 64 rounds. -/
def roundConstants : List UInt32 :=
  [0x428a2f98, 0x71374491, 0xb5c0fbcf, 0xe9b5dba5, 0x3956c25b, 0x59f111f1, 0x923f82a4, 0xab1c5ed5,
    0xd807aa98, 0x12835b01, 0x243185be, 0x550c7dc3, 0x72be5d74, 0x80deb1fe, 0x9bdc06a7, 0xc19bf174,
    0xe49b69c1, 0xefbe4786, 0x0fc19dc6, 0x240ca1cc, 0x2de92c6f, 0x4a7484aa, 0x5cb0a9dc, 0x76f988da,
    0x983e5152, 0xa831c66d, 0xb00327c8, 0xbf597fc7, 0xc6e00bf3, 0xd5a79147, 0x06ca6351, 0x14292967,
    0x27b70a85, 0x2e1b2138, 0x4d2c6dfc, 0x53380d13, 0x650a7354, 0x766a0abb, 0x81c2c92e, 0x92722c85,
    0xa2bfe8a1, 0xa81a664b, 0xc24b8b70, 0xc76c51a3, 0xd192e819, 0xd6990624, 0xf40e3585, 0x106aa070,
    0x19a4c116, 0x1e376c08, 0x2748774c, 0x34b0bcb5, 0x391c0cb3, 0x4ed8aa4a, 0x5b9cca4f, 0x682e6ff3,
    0x748f82ee, 0x78a5636f, 0x84c87814, 0x8cc70208, 0x90befffa, 0xa4506ceb, 0xbef9a3f7, 0xc67178f2]

def rotateRight (x n : UInt32) : UInt32 := x >>> n ||| x <<< (32 - n)

/-- The eight words a message is folded into. -/
structure State where
  a : UInt32
  b : UInt32
  c : UInt32
  d : UInt32
  e : UInt32
  f : UInt32
  g : UInt32
  h : UInt32

def State.initial : State :=
  ⟨0x6a09e667, 0xbb67ae85, 0x3c6ef372, 0xa54ff53a, 0x510e527f, 0x9b05688c, 0x1f83d9ab, 0x5be0cd19⟩

/-- One round, with the sum of its constant and its word of the schedule. -/
def State.round (s : State) (kw : UInt32) : State :=
  let s1 := rotateRight s.e 6 ^^^ rotateRight s.e 11 ^^^ rotateRight s.e 25
  let t1 := s.h + s1 + (s.e &&& s.f ^^^ ~~~s.e &&& s.g) + kw
  let s0 := rotateRight s.a 2 ^^^ rotateRight s.a 13 ^^^ rotateRight s.a 22
  let t2 := s0 + (s.a &&& s.b ^^^ s.a &&& s.c ^^^ s.b &&& s.c)
  ⟨t1 + t2, s.a, s.b, s.c, s.d + t1, s.e, s.f, s.g⟩

def State.add (s t : State) : State :=
  ⟨s.a + t.a, s.b + t.b, s.c + t.c, s.d + t.d, s.e + t.e, s.f + t.f, s.g + t.g, s.h + t.h⟩

/-! ## Blocks -/

/-- The big-endian words of a block. -/
def words : List UInt8 → List UInt32
  | x :: y :: z :: w :: rest =>
    (x.toUInt32 <<< 24 ||| y.toUInt32 <<< 16 ||| z.toUInt32 <<< 8 ||| w.toUInt32) :: words rest
  | _ => []

/-- The next `n` words of a schedule, whose words so far are given last to first. -/
def extend : Nat → List UInt32 → List UInt32
  | 0, schedule => schedule
  | n + 1, schedule =>
    let w15 := schedule.getD 14 0
    let w2 := schedule.getD 1 0
    let s0 := rotateRight w15 7 ^^^ rotateRight w15 18 ^^^ w15 >>> 3
    let s1 := rotateRight w2 17 ^^^ rotateRight w2 19 ^^^ w2 >>> 10
    extend n ((schedule.getD 15 0 + s0 + schedule.getD 6 0 + s1) :: schedule)

/-- Fold one block into the state. -/
def compress (s : State) (block : List UInt8) : State :=
  let schedule := (extend 48 (words block).reverse).reverse
  s.add ((List.zipWith (· + ·) roundConstants schedule).foldl State.round s)

/-- The message, a one bit, zeros, and the length in bits. -/
def pad (message : List UInt8) : List UInt8 :=
  message ++ 0x80 :: List.replicate ((119 - message.length % 64) % 64) 0 ++
    ((List.range 8).map fun i => (8 * message.length / 256 ^ (7 - i)).toUInt8)

def blocks (message : List UInt8) : List (List UInt8) :=
  (List.range ((pad message).length / 64)).map fun i => ((pad message).drop (64 * i)).take 64

/-- A word as its four bytes, the highest first. -/
def bigEndian (w : UInt32) : List UInt8 :=
  [(w >>> 24).toUInt8, (w >>> 16).toUInt8, (w >>> 8).toUInt8, w.toUInt8]

def State.bytes (s : State) : List UInt8 :=
  [s.a, s.b, s.c, s.d, s.e, s.f, s.g, s.h].flatMap bigEndian

theorem State.bytes_length (s : State) : s.bytes.length = 32 := rfl

end Sha256

/-- A digest: 32 bytes. -/
abbrev Digest := Vector UInt8 32

/-- **SHA-256.** -/
def sha256 (message : List UInt8) : Digest :=
  let bytes := ((Sha256.blocks message).foldl Sha256.compress .initial).bytes
  ⟨bytes.toArray, by rw [List.size_toArray, Sha256.State.bytes_length]⟩

example : (sha256 [0x61, 0x62, 0x63]).toList.take 4 = [0xba, 0x78, 0x16, 0xbf] := by
  decide +kernel

/-- Two different messages with one digest. -/
def Collision (x y : List UInt8) : Prop := x ≠ y ∧ sha256 x = sha256 y

theorem digest_toList_length (d : Digest) : d.toList.length = 32 := by simp

end Gen2
