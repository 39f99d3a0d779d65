import ExecutionLayer.Config.Chain
import ExecutionLayer.Header.BaseFee
import ExecutionLayer.Json.Reader
import ExecutionLayer.World.InMemory

/-!
# Genesis

The accounts that a chain starts with and the fields of its first block, as a
document, and the world and the header that follow from them.
-/

set_option autoImplicit false

namespace ExecutionLayer

structure GenesisAccount where
  balance : Word := 0
  nonce : UInt64 := 0
  code : Bytes := []
  storage : Std.ExtTreeMap Word Word := ∅

structure Genesis where
  accounts : Std.ExtTreeMap Address GenesisAccount := ∅
  gasLimit : UInt64 := 30000000
  timestamp : UInt64 := 0
  /-- The base fee of the first block, used only where blocks have one from the start. -/
  baseFee : Option Word := none
  coinbase : Address := 0
  extraData : Bytes := []

instance : Inhabited Genesis := ⟨{}⟩

namespace GenesisAccount

def ofJson? (document : Json) : Option GenesisAccount := do
  match ← Json.fields? [["balance"], ["nonce"], ["code"], ["storage"]] document with
  | [balance, nonce, code, storage] =>
      return {
        balance := ← Json.optional 0 Json.word? balance
        nonce := ← Json.optional 0 Json.quantity? nonce
        code := ← Json.optional [] Json.bytes? code
        storage := .ofList (← Json.optional [] (Json.entries? Json.word? Json.word?) storage) }
  | _ => none

def toJson (account : GenesisAccount) : Json :=
  .record [("balance", .ofWord account.balance), ("nonce", .ofQuantity account.nonce),
    ("code", .ofBytes account.code),
    ("storage", .record (account.storage.toList.map fun (slot, value) =>
      (Hex.ofNat slot.toNat, .ofWord value)))]

end GenesisAccount

namespace Genesis

/-- The genesis in a document. Every field has a default. Of two keys for one address
or slot the later one counts. -/
def ofJson? (document : Json) : Option Genesis := do
  match ← Json.fields?
      [["alloc"], ["gasLimit"], ["timestamp"], ["baseFeePerGas"], ["coinbase"], ["extraData"]]
      document with
  | [accounts, gasLimit, timestamp, baseFee, coinbase, extraData] =>
      let default : Genesis := {}
      return {
        accounts := .ofList
          (← Json.optional [] (Json.entries? Json.address? GenesisAccount.ofJson?) accounts)
        gasLimit := ← Json.optional default.gasLimit Json.quantity? gasLimit
        timestamp := ← Json.optional default.timestamp Json.quantity? timestamp
        baseFee := ← Json.optional none (Json.nullable Json.word?) baseFee
        coinbase := ← Json.optional 0 Json.address? coinbase
        extraData := ← Json.optional [] Json.bytes? extraData }
  | _ => none

def parse? (text : String) : Option Genesis :=
  (Json.parse? text).bind ofJson?

def toJson (genesis : Genesis) : Json :=
  .record
    [("alloc", .record (genesis.accounts.toList.map fun (address, account) =>
        (Hex.ofNatWidth 20 address.toNat, account.toJson))),
      ("gasLimit", .ofQuantity genesis.gasLimit), ("timestamp", .ofQuantity genesis.timestamp),
      ("baseFeePerGas", genesis.baseFee.elim .null Json.ofWord),
      ("coinbase", .ofAddress genesis.coinbase), ("extraData", .ofBytes genesis.extraData)]

def allocate (world : World) (address : Address) (account : GenesisAccount) : World :=
  account.storage.toList.foldl (fun world (slot, value) => world.insertStorage address slot value)
    (world.insertAccount address
      { nonce := account.nonce, balance := account.balance, code := Code.ofBytes account.code })

def world (genesis : Genesis) : World :=
  genesis.accounts.toList.foldl (fun world (address, account) => allocate world address account) {}

/-- The header of the first block. It has a base fee if London is active from the start. -/
def header (genesis : Genesis) (chain : ChainConfig) : Header where
  ommersHash := Header.emptyOmmersHash
  coinbase := genesis.coinbase
  stateRoot := genesis.world.root
  difficulty := Header.blockDifficulty
  gasLimit := genesis.gasLimit
  timestamp := genesis.timestamp
  extraData := genesis.extraData
  baseFee :=
    if chain.londonBlock = some 0 then some (genesis.baseFee.getD Header.initialBaseFee) else none

end Genesis

end ExecutionLayer
