import ExecutionLayer.Curve.Secp256k1
import ExecutionLayer.Digest.Blake2b
import ExecutionLayer.Digest.Ripemd160
import ExecutionLayer.Digest.Sha256
import ExecutionLayer.Precompile.Basic

/-!
# Digests and signatures as native contracts

The copy of the input, the two digests of a whole input, single applications of
a compression function, and the recovery of signers.
-/

set_option autoImplicit false

namespace ExecutionLayer.Precompile

def identity : Precompile :=
  ofDigest 15 3 id

def sha256 : Precompile :=
  ofDigest 60 12 ExecutionLayer.sha256

def ripemd160 : Precompile :=
  ofDigest 600 120 fun input => Bytes.padLeft (ExecutionLayer.ripemd160 input) 32

/-- The signer of 128 bytes of input: digest, mark of the parity (27 or 28), `r`, `s`. -/
def signer? (input : Bytes) : Option Address :=
  let word := fun index => Word.ofBytes (Bytes.window input (32 * index) 32)
  let mark := word 1
  if mark = 27 then Secp256k1.recoverSigner? (word 0) (word 2) (word 3) 0
  else if mark = 28 then Secp256k1.recoverSigner? (word 0) (word 2) (word 3) 1
  else none

/-- The signer's address as a word, or nothing for a signature that has no signer. -/
def ecrecover : Precompile := fun input limit => do
  requireGas 3000 limit
  match signer? input with
  | some address => return ⟨3000, Bytes.padLeft address.toBytes 32⟩
  | none => return ⟨3000, []⟩

private def words64 (bytes : Bytes) : Array UInt64 :=
  ((Bytes.chunks 8 bytes).map fun group =>
    UInt64.ofNat (Bytes.toNatLittleEndian group)).toArray

private def rowAt (words : Array UInt64) (first : Nat) : Blake2b.Row :=
  ⟨words.getD first 0, words.getD (first + 1) 0, words.getD (first + 2) 0,
    words.getD (first + 3) 0⟩

private def rowBytes (row : Blake2b.Row) : Bytes :=
  [row.w0, row.w1, row.w2, row.w3].flatMap fun word => Bytes.ofNatLittleEndian 8 word.toNat

/-- The chaining words after compressing a block: round count, chaining words, block,
offset and final flag are parts of an input of 213 bytes. -/
private def compressInput (rounds : Nat) (input : Bytes) (isFinal : Bool) : Bytes :=
  let chain := words64 (Bytes.window input 4 64)
  let block := words64 (Bytes.window input 68 128)
  let offsets := words64 (Bytes.window input 196 16)
  let result := Blake2b.compress rounds ⟨rowAt chain 0, rowAt chain 4⟩ block (offsets.getD 0 0)
    (offsets.getD 1 0) isFinal
  rowBytes result.low ++ rowBytes result.high

/-- One application of the BLAKE2b compression function. Each round costs one gas. -/
def blake2f : Precompile := fun input limit => do
  if input.length ≠ 213 then
    throw (.invalidInput ("expected 213 bytes, got " ++ toString input.length))
  let rounds := Bytes.toNat (input.take 4)
  requireGas (UInt64.ofNat rounds) limit
  match (input.getD 212 0).toNat with
  | 0 => return ⟨UInt64.ofNat rounds, compressInput rounds input false⟩
  | 1 => return ⟨UInt64.ofNat rounds, compressInput rounds input true⟩
  | flag => throw (.invalidInput ("final block flag " ++ toString flag))

end ExecutionLayer.Precompile
