import ExecutionLayer.Account

/-!
# Log blooms

A filter over the addresses and topics of logs: each of them sets up to three of
2048 bits, so that a missing bit proves that something was not logged.
-/

set_option autoImplicit false

namespace ExecutionLayer

abbrev Bloom := BitVec 2048

namespace Bloom

/-- The places of three bits: the low eleven bits of the first three pairs of bytes of
the digest. -/
def places (input : Bytes) : List Nat :=
  let digest := Hash.toBytes (keccak256 input)
  [0, 2, 4].map fun offset => Bytes.toNat ((digest.drop offset).take 2) % 2048

def add (bloom : Bloom) (input : Bytes) : Bloom :=
  (places input).foldl (fun bloom place => bloom ||| (1 <<< place)) bloom

def addLog (bloom : Bloom) (log : Log) : Bloom :=
  (log.topics.map Hash.toBytes).foldl add (bloom.add log.address.toBytes)

def ofLogs (logs : List Log) : Bloom :=
  logs.foldl addLog 0

def toBytes (bloom : Bloom) : Bytes :=
  Bytes.ofNatWidth 256 bloom.toNat

end Bloom

end ExecutionLayer
