/-!
# Byte strings

Byte strings with their big-endian values and the zero-extended windows that
call data, code and native contracts read.
-/

set_option autoImplicit false

namespace ExecutionLayer

abbrev Bytes := List UInt8

namespace Bytes

/-- The number a byte string denotes, most significant byte first. -/
def toNat (bytes : Bytes) : Nat :=
  bytes.foldl (fun value byte => value * 256 + byte.toNat) 0

/-- The last `width` bytes of `value`, put in front of `suffix`. -/
private def prependBytes (suffix : Bytes) : Nat → Nat → Bytes
  | 0, _ => suffix
  | width + 1, value => prependBytes (UInt8.ofNat value :: suffix) width (value / 256)

/-- The `width` low bytes of `value`, most significant first. -/
def ofNatWidth (width value : Nat) : Bytes :=
  prependBytes [] width value

/-- The shortest big-endian form of `value`. Zero has no byte at all. -/
def ofNat (value : Nat) : Bytes :=
  if value = 0 then [] else ofNatWidth (value.log2 / 8 + 1) value

def toNatLittleEndian (bytes : Bytes) : Nat :=
  bytes.foldr (fun byte value => value * 256 + byte.toNat) 0

def ofNatLittleEndian : Nat → Nat → Bytes
  | 0, _ => []
  | width + 1, value => UInt8.ofNat value :: ofNatLittleEndian width (value / 256)

/-- Exactly `length` bytes: the front of the string, then zeros. -/
def padRight (bytes : Bytes) (length : Nat) : Bytes :=
  let kept := bytes.take length
  kept ++ List.replicate (length - kept.length) 0

/-- Exactly `length` bytes: zeros, then the string. Longer strings are kept whole. -/
def padLeft (bytes : Bytes) (length : Nat) : Bytes :=
  List.replicate (length - bytes.length) 0 ++ bytes

/-- The window of `length` bytes at `offset` in the string followed by infinitely many zeros. -/
def window (bytes : Bytes) (offset length : Nat) : Bytes :=
  padRight (bytes.drop offset) length

/-- Consecutive groups of `size` bytes; a shorter last group is kept. -/
def chunks (size : Nat) : Bytes → List Bytes
  | [] => []
  | first :: rest =>
      if size = 0 then [first :: rest]
      else (first :: rest).take size :: chunks size ((first :: rest).drop size)
termination_by bytes => bytes.length
decreasing_by
  simp only [List.length_drop, List.length_cons]
  omega

theorem length_padRight (bytes : Bytes) (length : Nat) :
    (padRight bytes length).length = length := by
  simp only [padRight, List.length_append, List.length_take, List.length_replicate]
  omega

theorem length_window (bytes : Bytes) (offset length : Nat) :
    (window bytes offset length).length = length :=
  length_padRight _ _

private theorem length_prependBytes (suffix : Bytes) (width value : Nat) :
    (prependBytes suffix width value).length = width + suffix.length := by
  induction width generalizing suffix value with
  | zero => simp [prependBytes]
  | succ width ih =>
      rw [prependBytes, ih]
      simp only [List.length_cons]
      omega

private theorem prependBytes_eq (suffix : Bytes) (width value : Nat) :
    prependBytes suffix width value = prependBytes [] width value ++ suffix := by
  induction width generalizing suffix value with
  | zero => rfl
  | succ width ih =>
      simp only [prependBytes]
      rw [ih (_ :: suffix), ih [_], List.append_assoc, List.singleton_append]

theorem ofNatWidth_succ (width value : Nat) :
    ofNatWidth (width + 1) value = ofNatWidth width (value / 256) ++ [UInt8.ofNat value] :=
  prependBytes_eq [UInt8.ofNat value] width (value / 256)

theorem length_ofNatWidth (width value : Nat) : (ofNatWidth width value).length = width := by
  simp [ofNatWidth, length_prependBytes]

end Bytes

end ExecutionLayer
