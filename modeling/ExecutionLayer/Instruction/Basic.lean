import ExecutionLayer.Gas

/-!
# Instructions

The operations of the machine as data: which opcode names which operation under
a schedule, its mnemonic, and how many stack words it takes and leaves.
-/

set_option autoImplicit false

namespace ExecutionLayer

inductive UnaryOp where
  | isZero
  | not
deriving DecidableEq, Repr

inductive BinaryOp where
  | add | mul | sub | div | sdiv | mod | smod | signExtend
  | lt | gt | slt | sgt | eq | and | or | xor
  | byte | shl | shr | sar
deriving DecidableEq, Repr

inductive TernaryOp where
  | addMod
  | mulMod
deriving DecidableEq, Repr

/-- Values that are pushed without any operand. -/
inductive Query where
  | address | origin | caller | callValue | callDataSize | codeSize | gasPrice | returnDataSize
  | coinbase | timestamp | number | difficulty | gasLimit | chainId | selfBalance | baseFee
  | pc | memorySize | gas
deriving DecidableEq, Repr

inductive AccountQuery where
  | balance
  | codeSize
  | codeHash
deriving DecidableEq, Repr

inductive CopySource where
  | callData
  | code
  | returnData
deriving DecidableEq, Repr

/-- Ways to call: on the target's account, on the caller's account, on the caller's
account with its sender and value, or without value and read-only. -/
inductive CallKind where
  | call
  | callCode
  | delegateCall
  | staticCall
deriving DecidableEq, Repr

/-- Ways to derive a new contract's address: from the creator's nonce, or from a salt
and the init code. -/
inductive CreateKind where
  | create
  | create2
deriving DecidableEq, Repr

/-- One instruction. Immediate data is read from the code when it runs. -/
inductive Instruction where
  | stop
  | unary (op : UnaryOp)
  | binary (op : BinaryOp)
  | ternary (op : TernaryOp)
  | exp
  | keccak
  | query (what : Query)
  | accountQuery (what : AccountQuery)
  | callDataLoad
  | copy (source : CopySource)
  | extCodeCopy
  | blockHash
  | pop
  | mload
  | mstore
  | mstore8
  | sload
  | sstore
  | jump
  | jumpIf
  | jumpDest
  | push (size : Fin 33)
  | dup (depth : Fin 16)
  | swap (depth : Fin 16)
  | log (topics : Fin 5)
  | create (kind : CreateKind)
  | call (kind : CallKind)
  | return
  | revert
  | invalid
  | selfDestruct
deriving DecidableEq, Repr

namespace CallKind

def hasValueOperand : CallKind → Bool
  | .call | .callCode => true
  | .delegateCall | .staticCall => false

def operandCount (kind : CallKind) : Nat :=
  if kind.hasValueOperand then 7 else 6

/-- The depth of the first operand that names a memory window. -/
def memoryOperandsAt (kind : CallKind) : Nat :=
  if kind.hasValueOperand then 3 else 2

end CallKind

def CreateKind.operandCount : CreateKind → Nat
  | .create => 3
  | .create2 => 4

namespace Instruction

def ofOpcode? (schedule : GasSchedule) (opcode : UInt8) : Option Instruction :=
  match opcode.toNat with
  | 0x00 => some .stop
  | 0x01 => some (.binary .add)
  | 0x02 => some (.binary .mul)
  | 0x03 => some (.binary .sub)
  | 0x04 => some (.binary .div)
  | 0x05 => some (.binary .sdiv)
  | 0x06 => some (.binary .mod)
  | 0x07 => some (.binary .smod)
  | 0x08 => some (.ternary .addMod)
  | 0x09 => some (.ternary .mulMod)
  | 0x0A => some .exp
  | 0x0B => some (.binary .signExtend)
  | 0x10 => some (.binary .lt)
  | 0x11 => some (.binary .gt)
  | 0x12 => some (.binary .slt)
  | 0x13 => some (.binary .sgt)
  | 0x14 => some (.binary .eq)
  | 0x15 => some (.unary .isZero)
  | 0x16 => some (.binary .and)
  | 0x17 => some (.binary .or)
  | 0x18 => some (.binary .xor)
  | 0x19 => some (.unary .not)
  | 0x1A => some (.binary .byte)
  | 0x1B => some (.binary .shl)
  | 0x1C => some (.binary .shr)
  | 0x1D => some (.binary .sar)
  | 0x20 => some .keccak
  | 0x30 => some (.query .address)
  | 0x31 => some (.accountQuery .balance)
  | 0x32 => some (.query .origin)
  | 0x33 => some (.query .caller)
  | 0x34 => some (.query .callValue)
  | 0x35 => some .callDataLoad
  | 0x36 => some (.query .callDataSize)
  | 0x37 => some (.copy .callData)
  | 0x38 => some (.query .codeSize)
  | 0x39 => some (.copy .code)
  | 0x3A => some (.query .gasPrice)
  | 0x3B => some (.accountQuery .codeSize)
  | 0x3C => some .extCodeCopy
  | 0x3D => some (.query .returnDataSize)
  | 0x3E => some (.copy .returnData)
  | 0x3F => some (.accountQuery .codeHash)
  | 0x40 => some .blockHash
  | 0x41 => some (.query .coinbase)
  | 0x42 => some (.query .timestamp)
  | 0x43 => some (.query .number)
  | 0x44 => some (.query .difficulty)
  | 0x45 => some (.query .gasLimit)
  | 0x46 => some (.query .chainId)
  | 0x47 => some (.query .selfBalance)
  | 0x48 => if schedule.hasBaseFee then some (.query .baseFee) else none
  | 0x50 => some .pop
  | 0x51 => some .mload
  | 0x52 => some .mstore
  | 0x53 => some .mstore8
  | 0x54 => some .sload
  | 0x55 => some .sstore
  | 0x56 => some .jump
  | 0x57 => some .jumpIf
  | 0x58 => some (.query .pc)
  | 0x59 => some (.query .memorySize)
  | 0x5A => some (.query .gas)
  | 0x5B => some .jumpDest
  | 0x5F => if schedule.hasPush0 then some (.push 0) else none
  | 0xF0 => some (.create .create)
  | 0xF1 => some (.call .call)
  | 0xF2 => some (.call .callCode)
  | 0xF3 => some .return
  | 0xF4 => some (.call .delegateCall)
  | 0xF5 => some (.create .create2)
  | 0xFA => some (.call .staticCall)
  | 0xFD => some .revert
  | 0xFE => some .invalid
  | 0xFF => some .selfDestruct
  | code =>
      if push : 0x60 ≤ code ∧ code ≤ 0x7F then some (.push ⟨code - 0x5F, by omega⟩)
      else if dup : 0x80 ≤ code ∧ code ≤ 0x8F then some (.dup ⟨code - 0x80, by omega⟩)
      else if swap : 0x90 ≤ code ∧ code ≤ 0x9F then some (.swap ⟨code - 0x90, by omega⟩)
      else if log : 0xA0 ≤ code ∧ code ≤ 0xA4 then some (.log ⟨code - 0xA0, by omega⟩)
      else none

/-- The instructions of a schedule by ascending opcode. -/
def table (schedule : GasSchedule) : List (UInt8 × Instruction) :=
  (List.range 256).filterMap fun code =>
    (ofOpcode? schedule (UInt8.ofNat code)).map fun instruction =>
      (UInt8.ofNat code, instruction)

def consumed : Instruction → Nat
  | .stop | .query _ | .jumpDest | .push _ | .invalid => 0
  | .unary _ | .accountQuery _ | .callDataLoad | .blockHash | .pop | .mload | .sload | .jump
  | .selfDestruct => 1
  | .binary _ | .exp | .keccak | .mstore | .mstore8 | .sstore | .jumpIf | .return | .revert => 2
  | .ternary _ | .copy _ => 3
  | .extCodeCopy => 4
  | .dup depth => depth.val + 1
  | .swap depth => depth.val + 2
  | .log topics => topics.val + 2
  | .create kind => kind.operandCount
  | .call kind => kind.operandCount

def produced : Instruction → Nat
  | .stop | .copy _ | .extCodeCopy | .pop | .mstore | .mstore8 | .sstore | .jump | .jumpIf
  | .jumpDest | .log _ | .return | .revert | .invalid | .selfDestruct => 0
  | .unary _ | .binary _ | .ternary _ | .exp | .keccak | .query _ | .accountQuery _
  | .callDataLoad | .blockHash | .mload | .sload | .push _ | .create _ | .call _ => 1
  | .dup depth => depth.val + 2
  | .swap depth => depth.val + 2

def size : Instruction → Nat
  | .push size => size.val + 1
  | _ => 1

end Instruction

def UnaryOp.name : UnaryOp → String
  | .isZero => "ISZERO"
  | .not => "NOT"

def BinaryOp.name : BinaryOp → String
  | .add => "ADD"
  | .mul => "MUL"
  | .sub => "SUB"
  | .div => "DIV"
  | .sdiv => "SDIV"
  | .mod => "MOD"
  | .smod => "SMOD"
  | .signExtend => "SIGNEXTEND"
  | .lt => "LT"
  | .gt => "GT"
  | .slt => "SLT"
  | .sgt => "SGT"
  | .eq => "EQ"
  | .and => "AND"
  | .or => "OR"
  | .xor => "XOR"
  | .byte => "BYTE"
  | .shl => "SHL"
  | .shr => "SHR"
  | .sar => "SAR"

def TernaryOp.name : TernaryOp → String
  | .addMod => "ADDMOD"
  | .mulMod => "MULMOD"

def Query.name : Query → String
  | .address => "ADDRESS"
  | .origin => "ORIGIN"
  | .caller => "CALLER"
  | .callValue => "CALLVALUE"
  | .callDataSize => "CALLDATASIZE"
  | .codeSize => "CODESIZE"
  | .gasPrice => "GASPRICE"
  | .returnDataSize => "RETURNDATASIZE"
  | .coinbase => "COINBASE"
  | .timestamp => "TIMESTAMP"
  | .number => "NUMBER"
  | .difficulty => "DIFFICULTY"
  | .gasLimit => "GASLIMIT"
  | .chainId => "CHAINID"
  | .selfBalance => "SELFBALANCE"
  | .baseFee => "BASEFEE"
  | .pc => "PC"
  | .memorySize => "MSIZE"
  | .gas => "GAS"

def AccountQuery.name : AccountQuery → String
  | .balance => "BALANCE"
  | .codeSize => "EXTCODESIZE"
  | .codeHash => "EXTCODEHASH"

def CopySource.name : CopySource → String
  | .callData => "CALLDATACOPY"
  | .code => "CODECOPY"
  | .returnData => "RETURNDATACOPY"

def CallKind.name : CallKind → String
  | .call => "CALL"
  | .callCode => "CALLCODE"
  | .delegateCall => "DELEGATECALL"
  | .staticCall => "STATICCALL"

def CreateKind.name : CreateKind → String
  | .create => "CREATE"
  | .create2 => "CREATE2"

def Instruction.name : Instruction → String
  | .stop => "STOP"
  | .unary op => op.name
  | .binary op => op.name
  | .ternary op => op.name
  | .exp => "EXP"
  | .keccak => "KECCAK256"
  | .query what => what.name
  | .accountQuery what => what.name
  | .callDataLoad => "CALLDATALOAD"
  | .copy source => source.name
  | .extCodeCopy => "EXTCODECOPY"
  | .blockHash => "BLOCKHASH"
  | .pop => "POP"
  | .mload => "MLOAD"
  | .mstore => "MSTORE"
  | .mstore8 => "MSTORE8"
  | .sload => "SLOAD"
  | .sstore => "SSTORE"
  | .jump => "JUMP"
  | .jumpIf => "JUMPI"
  | .jumpDest => "JUMPDEST"
  | .push size => "PUSH" ++ toString size.val
  | .dup depth => "DUP" ++ toString (depth.val + 1)
  | .swap depth => "SWAP" ++ toString (depth.val + 1)
  | .log topics => "LOG" ++ toString topics.val
  | .create kind => kind.name
  | .call kind => kind.name
  | .return => "RETURN"
  | .revert => "REVERT"
  | .invalid => "INVALID"
  | .selfDestruct => "SELFDESTRUCT"

end ExecutionLayer
