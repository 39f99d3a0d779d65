import ExecutionLayer.Address

/-!
# Keccak-256

The sponge with a rate of 136 bytes over the 1600-bit permutation, with the
padding that ends a message by a one byte.
-/

set_option autoImplicit false

namespace ExecutionLayer.Keccak

/-- Five 64-bit lanes with one `y` coordinate. -/
structure Plane where
  x0 : UInt64
  x1 : UInt64
  x2 : UInt64
  x3 : UInt64
  x4 : UInt64
deriving DecidableEq

structure State where
  y0 : Plane
  y1 : Plane
  y2 : Plane
  y3 : Plane
  y4 : Plane
deriving DecidableEq

@[inline]
def rotate (lane : UInt64) (amount : UInt64) : UInt64 :=
  (lane <<< amount) ||| (lane >>> (64 - amount))

namespace Plane

def zero : Plane := ⟨0, 0, 0, 0, 0⟩

@[inline]
def xor (a b : Plane) : Plane :=
  ⟨a.x0 ^^^ b.x0, a.x1 ^^^ b.x1, a.x2 ^^^ b.x2, a.x3 ^^^ b.x3, a.x4 ^^^ b.x4⟩

/-- Each lane is flipped where its next lane is clear and the one after is set. -/
@[inline]
def chi (p : Plane) : Plane :=
  ⟨p.x0 ^^^ (~~~p.x1 &&& p.x2), p.x1 ^^^ (~~~p.x2 &&& p.x3), p.x2 ^^^ (~~~p.x3 &&& p.x4),
    p.x3 ^^^ (~~~p.x4 &&& p.x0), p.x4 ^^^ (~~~p.x0 &&& p.x1)⟩

end Plane

namespace State

def zero : State := ⟨.zero, .zero, .zero, .zero, .zero⟩

/-- Adds to each lane the parities of two neighbouring columns. -/
def theta (a : State) : State :=
  let c := ((a.y0.xor a.y1).xor (a.y2.xor a.y3)).xor a.y4
  let d : Plane :=
    ⟨c.x4 ^^^ rotate c.x1 1, c.x0 ^^^ rotate c.x2 1, c.x1 ^^^ rotate c.x3 1,
      c.x2 ^^^ rotate c.x4 1, c.x3 ^^^ rotate c.x0 1⟩
  ⟨a.y0.xor d, a.y1.xor d, a.y2.xor d, a.y3.xor d, a.y4.xor d⟩

/-- Rotates each lane by its own amount and moves it to its new place. -/
def rhoPi (a : State) : State :=
  ⟨⟨a.y0.x0, rotate a.y1.x1 44, rotate a.y2.x2 43, rotate a.y3.x3 21, rotate a.y4.x4 14⟩,
    ⟨rotate a.y0.x3 28, rotate a.y1.x4 20, rotate a.y2.x0 3, rotate a.y3.x1 45,
      rotate a.y4.x2 61⟩,
    ⟨rotate a.y0.x1 1, rotate a.y1.x2 6, rotate a.y2.x3 25, rotate a.y3.x4 8,
      rotate a.y4.x0 18⟩,
    ⟨rotate a.y0.x4 27, rotate a.y1.x0 36, rotate a.y2.x1 10, rotate a.y3.x2 15,
      rotate a.y4.x3 56⟩,
    ⟨rotate a.y0.x2 62, rotate a.y1.x3 55, rotate a.y2.x4 39, rotate a.y3.x0 41,
      rotate a.y4.x1 2⟩⟩

/-- The nonlinear step on every plane, then the round constant on the first lane. -/
def chiIota (a : State) (constant : UInt64) : State :=
  let y0 := a.y0.chi
  ⟨{ y0 with x0 := y0.x0 ^^^ constant }, a.y1.chi, a.y2.chi, a.y3.chi, a.y4.chi⟩

def round (a : State) (constant : UInt64) : State :=
  a.theta.rhoPi.chiIota constant

end State

def roundConstants : List UInt64 :=
  [0x0000000000000001, 0x0000000000008082, 0x800000000000808A, 0x8000000080008000,
    0x000000000000808B, 0x0000000080000001, 0x8000000080008081, 0x8000000000008009,
    0x000000000000008A, 0x0000000000000088, 0x0000000080008009, 0x000000008000000A,
    0x000000008000808B, 0x800000000000008B, 0x8000000000008089, 0x8000000000008003,
    0x8000000000008002, 0x8000000000000080, 0x000000000000800A, 0x800000008000000A,
    0x8000000080008081, 0x8000000000008080, 0x0000000080000001, 0x8000000080008008]

def permute (state : State) : State :=
  roundConstants.foldl State.round state

/-- The number of bytes absorbed by each permutation. -/
def rate : Nat := 136

/-- A message followed by a one byte and zeros up to a multiple of the rate, with
the top bit of the last byte set. -/
def pad (message : Bytes) : Bytes :=
  let missing := rate - message.length % rate
  if missing = 1 then message ++ [0x81]
  else message ++ 0x01 :: List.replicate (missing - 2) 0 ++ [0x80]

def lanes (block : Bytes) : List UInt64 :=
  (Bytes.chunks 8 block).map fun bytes =>
    bytes.foldr (fun byte lane => (lane <<< 8) ||| byte.toUInt64) 0

def State.absorb (a : State) (block : Bytes) : State :=
  match lanes block with
  | [l0, l1, l2, l3, l4, l5, l6, l7, l8, l9, l10, l11, l12, l13, l14, l15, l16] =>
      ⟨a.y0.xor ⟨l0, l1, l2, l3, l4⟩, a.y1.xor ⟨l5, l6, l7, l8, l9⟩,
        a.y2.xor ⟨l10, l11, l12, l13, l14⟩, a.y3.xor ⟨l15, l16, 0, 0, 0⟩, a.y4⟩
  | _ => a

def sponge (message : Bytes) : State :=
  (Bytes.chunks rate (pad message)).foldl (fun state block => permute (state.absorb block)) .zero

/-- The 32 bytes of the digest: the first four lanes, least significant byte first. -/
def digestBytes (message : Bytes) : Bytes :=
  let plane := (sponge message).y0
  [plane.x0, plane.x1, plane.x2, plane.x3].flatMap fun lane =>
    Bytes.ofNatLittleEndian 8 lane.toNat

end ExecutionLayer.Keccak

namespace ExecutionLayer

def keccak256 (message : Bytes) : Hash :=
  Hash.ofBytes (Keccak.digestBytes message)

end ExecutionLayer
