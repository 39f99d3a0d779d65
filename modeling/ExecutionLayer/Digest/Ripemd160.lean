import ExecutionLayer.Bytes

/-!
# RIPEMD-160

Two parallel lines of eighty steps over 64-byte blocks, added crosswise to the
chaining words.
-/

set_option autoImplicit false

namespace ExecutionLayer.Ripemd160

structure State where
  a : UInt32
  b : UInt32
  c : UInt32
  d : UInt32
  e : UInt32
deriving DecidableEq

def State.start : State :=
  ⟨0x67452301, 0xefcdab89, 0x98badcfe, 0x10325476, 0xc3d2e1f0⟩

@[inline]
def rotate (word : UInt32) (amount : UInt32) : UInt32 :=
  (word <<< amount) ||| (word >>> (32 - amount))

/-- The boolean function of rounds 0 to 4. -/
def mix (round : Nat) (x y z : UInt32) : UInt32 :=
  match round with
  | 0 => x ^^^ y ^^^ z
  | 1 => (x &&& y) ||| (~~~x &&& z)
  | 2 => (x ||| ~~~y) ^^^ z
  | 3 => (x &&& z) ||| (y &&& ~~~z)
  | _ => x ^^^ (y ||| ~~~z)

/-- One round of sixteen steps: which word each step reads and how far it rotates. -/
structure Round where
  mixing : Nat
  constant : UInt32
  order : List Nat
  rotations : List UInt32

def leftLine : List Round :=
  [⟨0, 0x00000000, [0, 1, 2, 3, 4, 5, 6, 7, 8, 9, 10, 11, 12, 13, 14, 15],
      [11, 14, 15, 12, 5, 8, 7, 9, 11, 13, 14, 15, 6, 7, 9, 8]⟩,
    ⟨1, 0x5a827999, [7, 4, 13, 1, 10, 6, 15, 3, 12, 0, 9, 5, 2, 14, 11, 8],
      [7, 6, 8, 13, 11, 9, 7, 15, 7, 12, 15, 9, 11, 7, 13, 12]⟩,
    ⟨2, 0x6ed9eba1, [3, 10, 14, 4, 9, 15, 8, 1, 2, 7, 0, 6, 13, 11, 5, 12],
      [11, 13, 6, 7, 14, 9, 13, 15, 14, 8, 13, 6, 5, 12, 7, 5]⟩,
    ⟨3, 0x8f1bbcdc, [1, 9, 11, 10, 0, 8, 12, 4, 13, 3, 7, 15, 14, 5, 6, 2],
      [11, 12, 14, 15, 14, 15, 9, 8, 9, 14, 5, 6, 8, 6, 5, 12]⟩,
    ⟨4, 0xa953fd4e, [4, 0, 5, 9, 7, 12, 2, 10, 14, 1, 3, 8, 11, 6, 15, 13],
      [9, 15, 5, 11, 6, 8, 13, 12, 5, 12, 13, 14, 11, 8, 5, 6]⟩]

def rightLine : List Round :=
  [⟨4, 0x50a28be6, [5, 14, 7, 0, 9, 2, 11, 4, 13, 6, 15, 8, 1, 10, 3, 12],
      [8, 9, 9, 11, 13, 15, 15, 5, 7, 7, 8, 11, 14, 14, 12, 6]⟩,
    ⟨3, 0x5c4dd124, [6, 11, 3, 7, 0, 13, 5, 10, 14, 15, 8, 12, 4, 9, 1, 2],
      [9, 13, 15, 7, 12, 8, 9, 11, 7, 7, 12, 7, 6, 15, 13, 11]⟩,
    ⟨2, 0x6d703ef3, [15, 5, 1, 3, 7, 14, 6, 9, 11, 8, 12, 2, 10, 0, 4, 13],
      [9, 7, 15, 11, 8, 6, 6, 14, 12, 13, 5, 14, 13, 13, 7, 5]⟩,
    ⟨1, 0x7a6d76e9, [8, 6, 4, 1, 3, 11, 15, 0, 5, 12, 2, 13, 9, 7, 10, 14],
      [15, 5, 8, 11, 14, 14, 6, 14, 6, 9, 12, 9, 12, 5, 15, 8]⟩,
    ⟨0, 0x00000000, [12, 15, 10, 4, 1, 5, 8, 7, 6, 2, 13, 14, 0, 3, 9, 11],
      [8, 5, 12, 9, 12, 5, 14, 6, 8, 13, 6, 5, 15, 13, 11, 11]⟩]

def State.step (round : Round) (block : Array UInt32) (s : State) (place : Nat × UInt32) : State :=
  let sum := s.a + mix round.mixing s.b s.c s.d + block.getD place.1 0 + round.constant
  ⟨s.e, rotate sum place.2 + s.e, s.b, rotate s.c 10, s.d⟩

def State.runLine (block : Array UInt32) (s : State) (line : List Round) : State :=
  line.foldl
    (fun s round => (round.order.zip round.rotations).foldl (State.step round block) s) s

def words (block : Bytes) : Array UInt32 :=
  ((Bytes.chunks 4 block).map fun bytes => UInt32.ofNat (Bytes.toNatLittleEndian bytes)).toArray

def State.compress (s : State) (block : Bytes) : State :=
  let left := s.runLine (words block) leftLine
  let right := s.runLine (words block) rightLine
  ⟨s.b + left.c + right.d, s.c + left.d + right.e, s.d + left.e + right.a,
    s.e + left.a + right.b, s.a + left.b + right.c⟩

/-- The message, a one bit, zeros, and the bit length in eight bytes: whole blocks. -/
def pad (message : Bytes) : Bytes :=
  let zeros := 63 - (message.length + 8) % 64
  message ++ 0x80 :: List.replicate zeros 0 ++
    Bytes.ofNatLittleEndian 8 (message.length * 8)

end ExecutionLayer.Ripemd160

namespace ExecutionLayer

def ripemd160 (message : Bytes) : Bytes :=
  let s := (Bytes.chunks 64 (Ripemd160.pad message)).foldl Ripemd160.State.compress .start
  [s.a, s.b, s.c, s.d, s.e].flatMap fun word => Bytes.ofNatLittleEndian 4 word.toNat

end ExecutionLayer
