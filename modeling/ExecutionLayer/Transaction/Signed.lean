import ExecutionLayer.Curve.Secp256k1
import ExecutionLayer.Hex
import ExecutionLayer.Rlp.Encoded
import ExecutionLayer.Transaction.Basic

/-!
# Signed transactions on the wire

Opaque bytes read as a transaction. The signature is checked first, over the
unsigned fields exactly as they came, and the other fields are read after that.
-/

set_option autoImplicit false

namespace ExecutionLayer.Transaction

inductive DecodeError where
  | empty
  | unsupportedType (typeByte : UInt8)
  | notAList
  | trailingBytes
  | fieldCount (expected actual : Nat)
  | rlp (error : Rlp.DecodeError)
  | invalidAddressLength (length : Nat)
  | zeroSignature
  | highS
  | invalidV (value : UInt64)
  | invalidSignature
deriving DecidableEq, Repr, Inhabited

def DecodeError.message : DecodeError → String
  | .empty => "empty transaction"
  | .unsupportedType typeByte =>
      "unsupported transaction type: " ++ Hex.ofBytes [typeByte]
  | .notAList => "transaction must be an RLP list"
  | .trailingBytes => "trailing bytes after transaction"
  | .fieldCount expected actual =>
      "expected " ++ toString expected ++ " fields, got " ++ toString actual
  | .rlp error => "rlp: " ++ error.message
  | .invalidAddressLength length => "invalid address length: " ++ toString length
  | .zeroSignature => "signature value is zero"
  | .highS => "signature s value too high"
  | .invalidV value => "invalid signature v value: " ++ toString value.toNat
  | .invalidSignature => "signature does not recover a sender"

/-- A read of one item is a step of reading a transaction. -/
instance : MonadLift (Except Rlp.DecodeError) (Except DecodeError) where
  monadLift read := read.mapError .rlp

/-! ## Signatures -/

/-- Which of the two nonce points was used, and the two halves of the signature. -/
structure Signature where
  yIsOdd : Bool
  r : Word
  s : Word
deriving DecidableEq

def readSignature (yIsOdd : Bool) (r s : Bytes) : Except DecodeError Signature := do
  let r ← Rlp.readWord r
  let s ← Rlp.readWord s
  if r = 0 ∨ s = 0 then .error .zeroSignature
  else if s.toNat > Secp256k1.halfOrder then .error .highS
  else .ok ⟨yIsOdd, r, s⟩

def recoverSender (message : Bytes) (signature : Signature) : Except DecodeError Address :=
  match Secp256k1.recoverSigner? (keccak256 message) signature.r signature.s
      signature.yIsOdd.toNat with
  | some sender => .ok sender
  | none => .error .invalidSignature

/-- The parity, and the chain that the transaction was signed for, from the value that
carries both: 27 and 28 name no chain, from 35 on every chain has two values. -/
def splitV (v : UInt64) : Except DecodeError (Bool × Option UInt64) :=
  if v = 27 then .ok (false, none)
  else if v = 28 then .ok (true, none)
  else if v ≥ 35 then .ok ((v - 35) % 2 = 1, some ((v - 35) / 2))
  else .error (.invalidV v)

def parityOf (value : UInt64) : Except DecodeError Bool :=
  if value = 0 then .ok false else if value = 1 then .ok true else .error (.invalidV value)

/-- What a legacy transaction's sender signed: its first six fields, and the chain
with two zeros where there is one. -/
def legacySigningMessage (unsigned : List Bytes) (chainId : Option UInt64) : Bytes :=
  let suffix :=
    match chainId with
    | none => []
    | some chainId => (Rlp.Item.ofUInt64 chainId).encode ++ Rlp.encodeData [] ++ Rlp.encodeData []
  Rlp.encodeList (unsigned.flatten ++ suffix)

def typedSigningMessage (kind : Transaction.Kind) (unsigned : List Bytes) : Bytes :=
  kind.typeByte :: Rlp.encodeList unsigned.flatten

/-! ## Fields -/

/-- The recipient: nothing for a creation, else an address. Only the payload counts. -/
def readRecipient (item : Bytes) : Except DecodeError (Option Address) := do
  let bytes ← Rlp.payload item
  if bytes.isEmpty then .ok none
  else if bytes.length = 20 then .ok (some (Address.ofBytes bytes))
  else .error (.invalidAddressLength bytes.length)

def readAccessListEntry (item : Bytes) : Except Rlp.DecodeError AccessListEntry :=
  if Rlp.isList item then
    match Rlp.items item with
    | [address, slots] => do
        let slots ← (Rlp.items slots).mapM Rlp.readHash
        let address ← Rlp.readAddress address
        return ⟨address, slots⟩
    | _ => .error .wrongItemCount
  else .error .expectedList

def readAccessList (item : Bytes) : Except DecodeError (List AccessListEntry) :=
  if Rlp.isList item then ((Rlp.items item).mapM readAccessListEntry).mapError .rlp
  else .error .notAList

def ofLegacyFields (raw : Bytes) : List Bytes → Except DecodeError Transaction
  | [nonce, gasPrice, gasLimit, recipient, value, data, v, r, s] => do
      let price ← Rlp.readWord gasPrice
      let (yIsOdd, chainId) ← splitV (← Rlp.readUInt64 v)
      let signature ← readSignature yIsOdd r s
      let sender ← recoverSender
        (legacySigningMessage [nonce, gasPrice, gasLimit, recipient, value, data] chainId)
        signature
      return {
        kind := .legacy, chainId
        nonce := ← Rlp.readUInt64 nonce
        maxPriorityFee := price, maxFee := price
        gasLimit := ← Rlp.readUInt64 gasLimit
        recipient := ← readRecipient recipient
        value := ← Rlp.readWord value
        data := ← Rlp.readData data
        sender, hash := keccak256 raw }
  | fields => .error (.fieldCount Kind.legacy.fieldCount fields.length)

def ofAccessListFields (raw : Bytes) : List Bytes → Except DecodeError Transaction
  | [chainId, nonce, gasPrice, gasLimit, recipient, value, data, accessList, yParity, r, s] => do
      let yIsOdd ← parityOf (← Rlp.readUInt64 yParity)
      let signature ← readSignature yIsOdd r s
      let sender ← recoverSender
        (typedSigningMessage .accessList
          [chainId, nonce, gasPrice, gasLimit, recipient, value, data, accessList])
        signature
      let price ← Rlp.readWord gasPrice
      return {
        kind := .accessList
        chainId := some (← Rlp.readUInt64 chainId)
        nonce := ← Rlp.readUInt64 nonce
        maxPriorityFee := price, maxFee := price
        gasLimit := ← Rlp.readUInt64 gasLimit
        recipient := ← readRecipient recipient
        value := ← Rlp.readWord value
        data := ← Rlp.readData data
        accessList := ← readAccessList accessList
        sender, hash := keccak256 raw }
  | fields => .error (.fieldCount Kind.accessList.fieldCount fields.length)

def ofDynamicFeeFields (raw : Bytes) : List Bytes → Except DecodeError Transaction
  | [chainId, nonce, maxPriorityFee, maxFee, gasLimit, recipient, value, data, accessList,
      yParity, r, s] => do
      let yIsOdd ← parityOf (← Rlp.readUInt64 yParity)
      let signature ← readSignature yIsOdd r s
      let sender ← recoverSender
        (typedSigningMessage .dynamicFee
          [chainId, nonce, maxPriorityFee, maxFee, gasLimit, recipient, value, data, accessList])
        signature
      let maxPriorityFee ← Rlp.readWord maxPriorityFee
      let maxFee ← Rlp.readWord maxFee
      return {
        kind := .dynamicFee
        chainId := some (← Rlp.readUInt64 chainId)
        nonce := ← Rlp.readUInt64 nonce
        maxPriorityFee, maxFee
        gasLimit := ← Rlp.readUInt64 gasLimit
        recipient := ← readRecipient recipient
        value := ← Rlp.readWord value
        data := ← Rlp.readData data
        accessList := ← readAccessList accessList
        sender, hash := keccak256 raw }
  | fields => .error (.fieldCount Kind.dynamicFee.fieldCount fields.length)

/-- The encoded fields of a body that must be one list and nothing else. -/
def fieldsOf (body : Bytes) : Except DecodeError (List Bytes) := do
  if Rlp.isList body then
    let extent ← Rlp.extent body
    if extent.size = body.length then .ok (Rlp.items body) else .error .trailingBytes
  else .error .notAList

/-- The transaction that opaque bytes denote. A first byte of a list starts a legacy
transaction, any other one is a type in front of the list. -/
def decode (raw : Bytes) : Except DecodeError Transaction :=
  match raw with
  | [] => .error .empty
  | first :: body =>
      if first ≥ 0xC0 then do ofLegacyFields raw (← fieldsOf raw)
      else if first = 1 then do ofAccessListFields raw (← fieldsOf body)
      else if first = 2 then do ofDynamicFeeFields raw (← fieldsOf body)
      else .error (.unsupportedType first)

/-- Decodes transactions in order. A failure comes with the place of the transaction. -/
def decodeAll (raws : List Bytes) : Except (Nat × DecodeError) (List Transaction) :=
  raws.zipIdx.mapM fun (raw, index) => (decode raw).mapError (index, ·)

end ExecutionLayer.Transaction
