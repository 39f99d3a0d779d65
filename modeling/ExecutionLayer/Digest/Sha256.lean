import ExecutionLayer.Bytes

/-!
# SHA-256

The compression function over 64-byte blocks and the padding that ends a
message by a one bit and its bit length.
-/

set_option autoImplicit false

namespace ExecutionLayer.Sha256

structure State where
  a : UInt32
  b : UInt32
  c : UInt32
  d : UInt32
  e : UInt32
  f : UInt32
  g : UInt32
  h : UInt32
deriving DecidableEq

def State.start : State :=
  ⟨0x6a09e667, 0xbb67ae85, 0x3c6ef372, 0xa54ff53a, 0x510e527f, 0x9b05688c, 0x1f83d9ab, 0x5be0cd19⟩

def roundConstants : List UInt32 :=
  [0x428a2f98, 0x71374491, 0xb5c0fbcf, 0xe9b5dba5, 0x3956c25b, 0x59f111f1, 0x923f82a4, 0xab1c5ed5,
    0xd807aa98, 0x12835b01, 0x243185be, 0x550c7dc3, 0x72be5d74, 0x80deb1fe, 0x9bdc06a7, 0xc19bf174,
    0xe49b69c1, 0xefbe4786, 0x0fc19dc6, 0x240ca1cc, 0x2de92c6f, 0x4a7484aa, 0x5cb0a9dc, 0x76f988da,
    0x983e5152, 0xa831c66d, 0xb00327c8, 0xbf597fc7, 0xc6e00bf3, 0xd5a79147, 0x06ca6351, 0x14292967,
    0x27b70a85, 0x2e1b2138, 0x4d2c6dfc, 0x53380d13, 0x650a7354, 0x766a0abb, 0x81c2c92e, 0x92722c85,
    0xa2bfe8a1, 0xa81a664b, 0xc24b8b70, 0xc76c51a3, 0xd192e819, 0xd6990624, 0xf40e3585, 0x106aa070,
    0x19a4c116, 0x1e376c08, 0x2748774c, 0x34b0bcb5, 0x391c0cb3, 0x4ed8aa4a, 0x5b9cca4f, 0x682e6ff3,
    0x748f82ee, 0x78a5636f, 0x84c87814, 0x8cc70208, 0x90befffa, 0xa4506ceb, 0xbef9a3f7, 0xc67178f2]

@[inline]
def rotate (word : UInt32) (amount : UInt32) : UInt32 :=
  (word >>> amount) ||| (word <<< (32 - amount))

/-- Word `16 + i` of the schedule from the sixteen words before it. -/
private def nextWord (window : Array UInt32) (i : Nat) : UInt32 :=
  let early := window.getD (i + 1) 0
  let late := window.getD (i + 14) 0
  let low := rotate early 7 ^^^ rotate early 18 ^^^ (early >>> 3)
  let high := rotate late 17 ^^^ rotate late 19 ^^^ (late >>> 10)
  window.getD i 0 + low + window.getD (i + 9) 0 + high

/-- The 64 round words of a block of sixteen words. -/
def schedule (block : List UInt32) : List UInt32 :=
  ((List.range 48).foldl (fun words i => words.push (nextWord words i)) block.toArray).toList

def State.round (s : State) (input : UInt32) : State :=
  let choice := (s.e &&& s.f) ^^^ (~~~s.e &&& s.g)
  let mixedE := rotate s.e 6 ^^^ rotate s.e 11 ^^^ rotate s.e 25
  let first := s.h + mixedE + choice + input
  let majority := (s.a &&& s.b) ^^^ (s.a &&& s.c) ^^^ (s.b &&& s.c)
  let mixedA := rotate s.a 2 ^^^ rotate s.a 13 ^^^ rotate s.a 22
  ⟨first + mixedA + majority, s.a, s.b, s.c, s.d + first, s.e, s.f, s.g⟩

def words (block : Bytes) : List UInt32 :=
  (Bytes.chunks 4 block).map fun bytes => UInt32.ofNat (Bytes.toNat bytes)

def State.compress (s : State) (block : Bytes) : State :=
  let inputs := List.zipWith (· + ·) roundConstants (schedule (words block))
  let t := inputs.foldl State.round s
  ⟨s.a + t.a, s.b + t.b, s.c + t.c, s.d + t.d, s.e + t.e, s.f + t.f, s.g + t.g, s.h + t.h⟩

/-- The message, a one bit, zeros, and the bit length in eight bytes: whole blocks. -/
def pad (message : Bytes) : Bytes :=
  let zeros := 63 - (message.length + 8) % 64
  message ++ 0x80 :: List.replicate zeros 0 ++ Bytes.ofNatWidth 8 (message.length * 8)

end ExecutionLayer.Sha256

namespace ExecutionLayer

def sha256 (message : Bytes) : Bytes :=
  let s := (Bytes.chunks 64 (Sha256.pad message)).foldl Sha256.State.compress .start
  [s.a, s.b, s.c, s.d, s.e, s.f, s.g, s.h].flatMap fun word => Bytes.ofNatWidth 4 word.toNat

end ExecutionLayer
