import ExecutionLayer.Code
import ExecutionLayer.Rlp.Item

/-!
# Accounts and logs

What the world state stores for an address, what contracts emit, and the
addresses that new contracts get.
-/

set_option autoImplicit false

namespace ExecutionLayer

/-- An account: a count of transactions or creations, a balance, and code that is
empty for externally owned accounts. -/
structure Account where
  nonce : UInt64 := 0
  balance : Word := 0
  code : Code := Code.empty
deriving DecidableEq, Inhabited

namespace Account

def isEmpty (account : Account) : Bool :=
  account.nonce == 0 && account.balance == 0 && account.code.isEmpty

def blocksDeployment (account : Account) : Bool :=
  account.nonce > 0 || !account.code.isEmpty

def item (account : Account) (storageRoot : Hash) : Rlp.Item :=
  .list [.ofUInt64 account.nonce, .ofWord account.balance, .ofHash storageRoot,
    .ofHash account.code.hash]

end Account

/-- An event that a contract emitted: up to four indexed topics and unindexed data. -/
structure Log where
  address : Address := 0
  topics : List Hash := []
  data : Bytes := []
deriving DecidableEq, Inhabited

def Log.item (log : Log) : Rlp.Item :=
  .list [.ofAddress log.address, .list (log.topics.map .ofHash), .data log.data]

namespace Address

def created (creator : Address) (nonce : UInt64) : Address :=
  Hash.toAddress (keccak256 (Rlp.Item.list [.ofAddress creator, .ofUInt64 nonce]).encode)

def createdWithSalt (creator : Address) (salt : Hash) (initCode : Bytes) : Address :=
  Hash.toAddress
    (keccak256 (0xFF :: creator.toBytes ++ Hash.toBytes salt ++
      Hash.toBytes (keccak256 initCode)))

end Address

end ExecutionLayer
