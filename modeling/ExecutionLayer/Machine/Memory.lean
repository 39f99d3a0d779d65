import ExecutionLayer.Gas
import ExecutionLayer.Machine.Halt

/-!
# Frame memory

Byte-addressable memory of zeros that grows by whole words, and the windows in
it that instructions name.
-/

set_option autoImplicit false

namespace ExecutionLayer

/-- A window of memory. A window without length touches nothing, wherever it is. -/
structure MemoryRange where
  offset : Nat
  length : Nat
deriving DecidableEq, Repr, Inhabited

namespace MemoryRange

/-- The greatest end of a window. Memory up to there costs more gas than any block has. -/
def limit : Nat := 0xFFFFFFFF

def empty : MemoryRange := ⟨0, 0⟩

/-- The window two stack words name. A window that ends beyond the limit is one that
no gas pays for. -/
def ofWords (offset length : Word) : Except Halt MemoryRange :=
  if length = 0 then .ok empty
  else if offset.toNat + length.toNat > limit then .error .insufficientGas
  else .ok ⟨offset.toNat, length.toNat⟩

def sized (offset : Word) (length : Nat) : Except Halt MemoryRange :=
  ofWords offset (BitVec.ofNat 256 length)

def stop (range : MemoryRange) : Nat :=
  range.offset + range.length

def isEmpty (range : MemoryRange) : Bool :=
  range.length == 0

/-- Of two windows the one that ends further out. An empty one counts only beside
another empty one. -/
def furthest (left right : MemoryRange) : MemoryRange :=
  if left.isEmpty then right
  else if right.isEmpty then left
  else if right.stop > left.stop then right
  else left

end MemoryRange

/-- Memory as the bytes that exist so far, always whole words. -/
structure Memory where
  bytes : Array UInt8 := #[]
  aligned : bytes.size % 32 = 0 := by decide
deriving DecidableEq

namespace Memory

def empty : Memory := {}

instance : Inhabited Memory := ⟨empty⟩

def size (memory : Memory) : Nat :=
  memory.bytes.size

def wordSize (memory : Memory) : Nat :=
  memory.size / 32

def wordsFor (stop : Nat) : Nat :=
  (stop + 31) / 32

def expansionCost (memory : Memory) (range : MemoryRange) : UInt64 :=
  if range.isEmpty then 0
  else Gas.memoryExpansionCost memory.wordSize (wordsFor range.stop)

/-- Grows by zeros to the words that cover a window. -/
def expand (memory : Memory) (range : MemoryRange) : Memory :=
  if range.isEmpty ∨ range.stop ≤ memory.size then memory
  else
    ⟨memory.bytes ++ Array.replicate (wordsFor range.stop * 32 - memory.bytes.size) 0, by
      have whole := memory.aligned
      simp only [Array.size_append, Array.size_replicate]
      omega⟩

/-- The bytes of a window; beyond the end of memory they are zeros. -/
def read (memory : Memory) (range : MemoryRange) : Bytes :=
  Bytes.padRight (memory.bytes.extract range.offset range.stop).toList range.length

def readWord (memory : Memory) (offset : Nat) : Word :=
  Word.ofBytes (memory.read ⟨offset, 32⟩)

/-- Replaces the bytes from `offset` on; what would lie outside the array is dropped. -/
def overwriteBytes (bytes : Array UInt8) (offset : Nat) : Bytes → Array UInt8
  | [] => bytes
  | byte :: rest => overwriteBytes (bytes.setIfInBounds offset byte) (offset + 1) rest

theorem size_overwriteBytes (bytes : Array UInt8) (offset : Nat) (data : Bytes) :
    (overwriteBytes bytes offset data).size = bytes.size := by
  induction data generalizing bytes offset with
  | nil => rfl
  | cons byte rest ih => simp only [overwriteBytes, ih, Array.size_setIfInBounds]

/-- Writes data at an offset and grows as far as it needs. -/
def write (memory : Memory) (offset : Nat) (data : Bytes) : Memory :=
  let grown := memory.expand ⟨offset, data.length⟩
  ⟨overwriteBytes grown.bytes offset data, by
    rw [size_overwriteBytes]
    exact grown.aligned⟩

def writeWord (memory : Memory) (offset : Nat) (word : Word) : Memory :=
  memory.write offset word.toBytes

def writeByte (memory : Memory) (offset : Nat) (byte : UInt8) : Memory :=
  memory.write offset [byte]

/-- Fills a window from a position in a source that zeros follow. -/
def writePadded (memory : Memory) (range : MemoryRange) (source : Bytes) (position : Nat) :
    Memory :=
  memory.write range.offset (Bytes.window source position range.length)

end Memory

end ExecutionLayer
