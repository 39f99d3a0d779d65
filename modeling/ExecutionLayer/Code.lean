import ExecutionLayer.Digest.Keccak

/-!
# Contract code

Bytecode with its digest and its jump destinations. A byte that belongs to a
push instruction's immediate data is never a destination.
-/

set_option autoImplicit false

namespace ExecutionLayer

namespace Code

def jumpDestOpcode : UInt8 := 0x5B

/-- The number of immediate bytes after an opcode: 1 to 32 for the push
instructions from 0x60 to 0x7F, none for all others. -/
def immediateLength (opcode : UInt8) : Nat :=
  if 0x60 ≤ opcode ∧ opcode ≤ 0x7F then (opcode - 0x5F).toNat else 0

def bit (position : Nat) : UInt64 :=
  1 <<< UInt64.ofNat (position % 64)

def mark (bitmap : Array UInt64) (position : Nat) : Array UInt64 :=
  bitmap.modify (position / 64) (· ||| bit position)

def isMarked (bitmap : Array UInt64) (position : Nat) : Bool :=
  match bitmap[position / 64]? with
  | some word => word &&& bit position != 0
  | none => false

/-- Marks the jump destinations among the bytes that stand from `position` on. The first
`skip` of them still belong to the instruction before. -/
def markDestinations (bitmap : Array UInt64) (position skip : Nat) : Bytes → Array UInt64
  | [] => bitmap
  | byte :: rest =>
      match skip with
      | skip + 1 => markDestinations bitmap (position + 1) skip rest
      | 0 =>
          markDestinations (if byte = jumpDestOpcode then mark bitmap position else bitmap)
            (position + 1) (immediateLength byte) rest

/-- One bit for each byte: whether an instruction starts there and is a jump
destination. -/
def destinationBitmap (bytes : Bytes) : Array UInt64 :=
  markDestinations (Array.replicate ((bytes.length + 63) / 64) 0) 0 0 bytes

end Code

/-- Bytecode. The digest and the jump destinations are determined by the bytes and
computed once. -/
structure Code where
  bytes : Array UInt8
  hash : Hash
  destinations : Array UInt64
  hash_eq : hash = keccak256 bytes.toList
  destinations_eq : destinations = Code.destinationBitmap bytes.toList

namespace Code

def ofBytes (bytes : Bytes) : Code where
  bytes := bytes.toArray
  hash := keccak256 bytes
  destinations := destinationBitmap bytes
  hash_eq := by simp
  destinations_eq := by simp

def emptyHash : Hash :=
  0xc5d2460186f7233c927e7db2dcc703c0e500b653ca82273b7bfad8045d85a470

theorem emptyHash_eq : emptyHash = keccak256 [] := by
  decide +kernel

/-- The code of accounts without a contract. -/
def empty : Code where
  bytes := #[]
  hash := emptyHash
  destinations := #[]
  hash_eq := emptyHash_eq
  destinations_eq := rfl

instance : Inhabited Code := ⟨empty⟩

def toBytes (code : Code) : Bytes :=
  code.bytes.toList

def size (code : Code) : Nat :=
  code.bytes.size

def isEmpty (code : Code) : Bool :=
  code.bytes.isEmpty

def isJumpDestination (code : Code) (position : Nat) : Bool :=
  isMarked code.destinations position

/-- The opcode at `position`; past the end of the code every byte reads as zero. -/
def opcodeAt (code : Code) (position : Nat) : UInt8 :=
  code.bytes.getD position 0

/-- The `length` bytes at `position` in the code followed by infinitely many zeros. -/
def window (code : Code) (position length : Nat) : Bytes :=
  Bytes.padRight (code.bytes.extract position (position + length)).toList length

@[ext]
theorem ext {left right : Code} (same : left.bytes = right.bytes) : left = right := by
  obtain ⟨bytes, hash, destinations, hash_eq, destinations_eq⟩ := left
  obtain ⟨bytes', hash', destinations', hash_eq', destinations_eq'⟩ := right
  subst same hash_eq destinations_eq hash_eq' destinations_eq'
  rfl

theorem empty_eq_ofBytes : empty = ofBytes [] :=
  ext rfl

instance : DecidableEq Code := fun left right =>
  if same : left.bytes = right.bytes then .isTrue (ext same)
  else .isFalse (fun equal => same (congrArg Code.bytes equal))

end Code

end ExecutionLayer
