import ExecutionLayer.Bytes

/-!
# The BLAKE2b compression function

A chosen number of rounds over eight chaining words, a block of sixteen words,
an offset counter of two words and the flag of the final block.
-/

set_option autoImplicit false

namespace ExecutionLayer.Blake2b

structure Row where
  w0 : UInt64
  w1 : UInt64
  w2 : UInt64
  w3 : UInt64
deriving DecidableEq

/-- The sixteen working words as four rows. -/
structure State where
  a : Row
  b : Row
  c : Row
  d : Row
deriving DecidableEq

/-- The eight chaining words as two rows. -/
structure Chain where
  low : Row
  high : Row
deriving DecidableEq

/-- The initial values of the last eight working words. -/
def initialValues : Chain :=
  ⟨⟨0x6a09e667f3bcc908, 0xbb67ae8584caa73b, 0x3c6ef372fe94f82b, 0xa54ff53a5f1d36f1⟩,
    ⟨0x510e527fade682d1, 0x9b05688c2b3e6c1f, 0x1f83d9abfb41bd6b, 0x5be0cd19137e2179⟩⟩

/-- The order in which each of ten successive rounds reads the block. -/
def orders : Array (List Nat) :=
  #[[0, 1, 2, 3, 4, 5, 6, 7, 8, 9, 10, 11, 12, 13, 14, 15],
    [14, 10, 4, 8, 9, 15, 13, 6, 1, 12, 0, 2, 11, 7, 5, 3],
    [11, 8, 12, 0, 5, 2, 15, 13, 10, 14, 3, 6, 7, 1, 9, 4],
    [7, 9, 3, 1, 13, 12, 11, 14, 2, 6, 5, 10, 4, 0, 15, 8],
    [9, 0, 5, 7, 2, 4, 10, 15, 14, 1, 11, 12, 6, 8, 3, 13],
    [2, 12, 6, 10, 0, 11, 8, 3, 4, 13, 7, 5, 15, 14, 1, 9],
    [12, 5, 1, 15, 14, 13, 4, 10, 0, 7, 6, 3, 9, 2, 8, 11],
    [13, 11, 7, 14, 12, 1, 3, 9, 5, 0, 15, 4, 8, 6, 2, 10],
    [6, 15, 14, 9, 11, 3, 0, 8, 12, 2, 13, 7, 1, 4, 10, 5],
    [10, 2, 8, 4, 7, 6, 1, 5, 15, 11, 9, 14, 3, 12, 13, 0]]

@[inline]
def rotate (word : UInt64) (amount : UInt64) : UInt64 :=
  (word >>> amount) ||| (word <<< (64 - amount))

namespace Row

@[inline]
def add (p q : Row) : Row := ⟨p.w0 + q.w0, p.w1 + q.w1, p.w2 + q.w2, p.w3 + q.w3⟩

@[inline]
def xor (p q : Row) : Row := ⟨p.w0 ^^^ q.w0, p.w1 ^^^ q.w1, p.w2 ^^^ q.w2, p.w3 ^^^ q.w3⟩

@[inline]
def rotateBy (p : Row) (amount : UInt64) : Row :=
  ⟨rotate p.w0 amount, rotate p.w1 amount, rotate p.w2 amount, rotate p.w3 amount⟩

/-- The row moved one place to the left, cyclically. -/
@[inline]
def turn (p : Row) : Row := ⟨p.w1, p.w2, p.w3, p.w0⟩

end Row

namespace State

/-- Mixes the four columns, each with its own two block words. -/
def mixColumns (v : State) (x y : Row) : State :=
  let a := (v.a.add v.b).add x
  let d := (v.d.xor a).rotateBy 32
  let c := v.c.add d
  let b := (v.b.xor c).rotateBy 24
  let a := (a.add b).add y
  let d := (d.xor a).rotateBy 16
  let c := c.add d
  let b := (b.xor c).rotateBy 63
  ⟨a, b, c, d⟩

/-- Turns the rows so that the diagonals become columns. -/
def diagonalize (v : State) : State :=
  ⟨v.a, v.b.turn, v.c.turn.turn, v.d.turn.turn.turn⟩

def undiagonalize (v : State) : State :=
  ⟨v.a, v.b.turn.turn.turn, v.c.turn.turn, v.d.turn⟩

def round (block : Array UInt64) (v : State) (index : Nat) : State :=
  match orders.getD (index % 10) [] with
  | [s0, s1, s2, s3, s4, s5, s6, s7, s8, s9, s10, s11, s12, s13, s14, s15] =>
      let m := fun i => block.getD i 0
      let v := v.mixColumns ⟨m s0, m s2, m s4, m s6⟩ ⟨m s1, m s3, m s5, m s7⟩
      (v.diagonalize.mixColumns ⟨m s8, m s10, m s12, m s14⟩ ⟨m s9, m s11, m s13, m s15⟩).undiagonalize
  | _ => v

/-- The given number of rounds, beginning with round `index`. -/
def rounds (block : Array UInt64) (v : State) (index : Nat) : Nat → State
  | 0 => v
  | count + 1 => rounds block (v.round block index) (index + 1) count

end State

def compress (count : Nat) (chain : Chain) (block : Array UInt64) (offsetLow offsetHigh : UInt64)
    (isFinal : Bool) : Chain :=
  let tail := initialValues.high
  let d : Row :=
    ⟨tail.w0 ^^^ offsetLow, tail.w1 ^^^ offsetHigh,
      if isFinal then ~~~tail.w2 else tail.w2, tail.w3⟩
  let v := State.rounds block ⟨chain.low, chain.high, initialValues.low, d⟩ 0 count
  ⟨chain.low.xor (v.a.xor v.c), chain.high.xor (v.b.xor v.d)⟩

end ExecutionLayer.Blake2b
