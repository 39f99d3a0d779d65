import ExecutionLayer.Engine
import ExecutionLayer.Proofs.Blockchain

/-!
# Runs of the engine

An engine with its world in memory receives payloads one after another. A payload either
changes nothing or is imported, and only imports count for what the engine becomes.
-/

set_option autoImplicit false

namespace ExecutionLayer.Engine

/-- The verdict on a payload, if the engine can answer. -/
def verdict (engine : Engine World) (payload : Payload) : Except EngineError PayloadStatus :=
  (engine.newPayload payload).map (·.1)

/-- The engine after a payload, unchanged where it cannot answer. -/
def receive (engine : Engine World) (payload : Payload) : Engine World :=
  match engine.newPayload payload with
  | .ok (_, next) => next
  | .error _ => engine

/-- The engine after payloads, first to last. -/
def run (engine : Engine World) (payloads : List Payload) : Engine World :=
  payloads.foldl receive engine

/-- The payloads that are imported, first to last. -/
def imported (engine : Engine World) : List Payload → List Payload
  | [] => []
  | payload :: rest =>
      match engine.verdict payload with
      | .ok .valid => payload :: imported (engine.receive payload) rest
      | _ => imported (engine.receive payload) rest

/-- The headers of the blocks that are imported, first to last. -/
def importedHeaders (engine : Engine World) (payloads : List Payload) : List Header :=
  (engine.imported payloads).map Payload.header

theorem ofGenesis_ok {config : EngineConfig} {genesis : Genesis} {engine : Engine World}
    (built : ofGenesis config genesis = .ok engine) :
    engine = ⟨config.chain, genesis.world, .ofGenesis (genesis.header config.chain)⟩ := by
  unfold ofGenesis new at built
  cases checked : config.validate.mapError EngineError.config with
  | error error =>
      rw [checked] at built
      cases built
  | ok passed =>
      rw [checked] at built
      exact (Except.ok.inj built).symm

/-! ## One payload -/

/-- The payload's block passes every check, with a result. -/
structure Accepts (engine : Engine World) (payload : Payload) (block : Block)
    (result : Block.Result) : Prop where
  unknown : engine.chain.contains payload.blockHash = false
  header : block.header = payload.header
  claimed : block.hash = payload.blockHash
  validated : block.validate (engine.config.rulesAt block.header.number) engine.store
    engine.chain = .ok result

/-- The engine after a block was imported with a result. -/
def extend (engine : Engine World) (block : Block) (result : Block.Result) : Engine World :=
  { engine with
    store := engine.store.apply result.effects
    chain := engine.chain.insert block result.receipts }

theorem importBlock_ok {engine : Engine World} {block : Block} {result : Block.Result}
    (validated : block.validate (engine.config.rulesAt block.header.number) engine.store
      engine.chain = .ok result) (hashMatches : Bool) :
    engine.importBlock hashMatches block =
      if hashMatches then .ok (.valid, engine.extend block result) else .ok (.invalid, engine) := by
  rw [importBlock, validated]
  cases hashMatches <;> rfl

theorem importBlock_error {engine : Engine World} {block : Block} {error : ImportError}
    (failed : block.validate (engine.config.rulesAt block.header.number) engine.store
      engine.chain = .error error) (hashMatches : Bool) :
    (∃ cause, error = .state cause ∧
        engine.importBlock hashMatches block = .error (.state cause)) ∨
      ∃ status, status ≠ .valid ∧ engine.importBlock hashMatches block = .ok (status, engine) := by
  rw [importBlock, failed]
  cases error with
  | state cause => exact .inl ⟨cause, rfl, rfl⟩
  | unknownParent parent => exact .inr ⟨.syncing, nofun, rfl⟩
  | header error => exact .inr ⟨.invalid, nofun, rfl⟩
  | transaction index reason => exact .inr ⟨.invalid, nofun, rfl⟩
  | gasUsed claimed computed => exact .inr ⟨.invalid, nofun, rfl⟩
  | receiptsRoot claimed computed => exact .inr ⟨.invalid, nofun, rfl⟩
  | logsBloom => exact .inr ⟨.invalid, nofun, rfl⟩
  | stateRoot claimed computed => exact .inr ⟨.invalid, nofun, rfl⟩

/-- The verdict on a block that came out of validation with a result or an error. -/
def judge (hashMatches : Bool) : Except ImportError Block.Result → Except EngineError PayloadStatus
  | .ok _ => .ok (if hashMatches then .valid else .invalid)
  | .error (.unknownParent _) => .ok .syncing
  | .error (.state error) => .error (.state error)
  | .error _ => .ok .invalid

theorem map_importBlock (engine : Engine World) (hashMatches : Bool) (block : Block) :
    (engine.importBlock hashMatches block).map (·.1) =
      judge hashMatches
        (block.validate (engine.config.rulesAt block.header.number) engine.store engine.chain) := by
  unfold importBlock
  cases block.validate (engine.config.rulesAt block.header.number) engine.store engine.chain with
  | ok result => cases hashMatches <;> rfl
  | error error => cases error <;> rfl

theorem verdict_of_contains {engine : Engine World} {payload : Payload}
    (known : engine.chain.contains payload.blockHash = true) :
    engine.verdict payload = .ok .known := by
  rw [verdict, newPayload, if_pos known]
  rfl

theorem verdict_of_undecodable {engine : Engine World} {payload : Payload}
    (unknown : engine.chain.contains payload.blockHash = false) {error : Nat × Transaction.DecodeError}
    (failed : Transaction.decodeAll payload.transactions = .error error) :
    engine.verdict payload = .ok .invalid := by
  rw [verdict, newPayload, unknown, failed]
  rfl

theorem verdict_of_decoded {engine : Engine World} {payload : Payload}
    (unknown : engine.chain.contains payload.blockHash = false) {transactions : List Transaction}
    (decoded : Transaction.decodeAll payload.transactions = .ok transactions) :
    engine.verdict payload =
      judge payload.claimsOwnHash
        (Block.validate (engine.config.rulesAt payload.number) engine.store engine.chain
          ⟨payload.header, transactions⟩) := by
  rw [verdict, newPayload, unknown, decoded]
  exact engine.map_importBlock payload.claimsOwnHash ⟨payload.header, transactions⟩

/-- A payload is imported, or the engine stays as it is. -/
theorem newPayload_cases (engine : Engine World) (payload : Payload) :
    (∃ block result, engine.Accepts payload block result ∧
        engine.newPayload payload = .ok (.valid, engine.extend block result)) ∨
      (∃ status, status ≠ .valid ∧ engine.newPayload payload = .ok (status, engine)) ∨
      ∃ error, engine.newPayload payload = .error error := by
  unfold newPayload
  by_cases known : engine.chain.contains payload.blockHash = true
  · rw [if_pos known]
    exact .inr (.inl ⟨.known, nofun, rfl⟩)
  · rw [if_neg known]
    cases Transaction.decodeAll payload.transactions with
    | error error => exact .inr (.inl ⟨.invalid, nofun, rfl⟩)
    | ok transactions =>
        let block : Block := ⟨payload.header, transactions⟩
        cases validated : block.validate (engine.config.rulesAt block.header.number) engine.store
            engine.chain with
        | error error =>
            rcases importBlock_error validated payload.claimsOwnHash with
              ⟨cause, _, failed⟩ | ⟨status, notValid, answered⟩
            · exact .inr (.inr ⟨_, failed⟩)
            · exact .inr (.inl ⟨status, notValid, answered⟩)
        | ok result =>
            have answered := importBlock_ok validated payload.claimsOwnHash
            by_cases claimed : payload.claimsOwnHash = true
            · rw [if_pos claimed] at answered
              refine .inl ⟨block, result, ⟨by simpa using known, rfl, ?_, validated⟩, answered⟩
              exact (of_decide_eq_true claimed).symm
            · rw [if_neg claimed] at answered
              exact .inr (.inl ⟨.invalid, nofun, answered⟩)

theorem receive_cases (engine : Engine World) (payload : Payload) :
    (engine.verdict payload = .ok .valid ∧ ∃ block result,
        engine.Accepts payload block result ∧ engine.receive payload = engine.extend block result) ∨
      (engine.verdict payload ≠ .ok .valid ∧ engine.receive payload = engine) := by
  unfold verdict receive
  rcases engine.newPayload_cases payload with
    ⟨block, result, accepts, answered⟩ | ⟨status, notValid, answered⟩ | ⟨error, failed⟩
  · rw [answered]
    exact .inl ⟨rfl, block, result, accepts, rfl⟩
  · rw [answered]
    refine .inr ⟨?_, rfl⟩
    intro same
    exact notValid (Except.ok.inj same)
  · rw [failed]
    exact .inr ⟨nofun, rfl⟩

/-! ## Runs -/

@[simp] theorem run_nil (engine : Engine World) : engine.run [] = engine := rfl

@[simp] theorem run_cons (engine : Engine World) (payload : Payload) (rest : List Payload) :
    engine.run (payload :: rest) = (engine.receive payload).run rest := rfl

theorem imported_of_valid {engine : Engine World} {payload : Payload}
    (valid : engine.verdict payload = .ok .valid) (rest : List Payload) :
    engine.imported (payload :: rest) = payload :: (engine.receive payload).imported rest := by
  rw [imported, valid]

theorem imported_of_not_valid {engine : Engine World} {payload : Payload}
    (notValid : engine.verdict payload ≠ .ok .valid) (rest : List Payload) :
    engine.imported (payload :: rest) = (engine.receive payload).imported rest := by
  rw [imported]
  split
  · rename_i valid
    exact absurd valid notValid
  · rfl

theorem imported_subset (engine : Engine World) (payloads : List Payload) :
    engine.imported payloads ⊆ payloads := by
  induction payloads generalizing engine with
  | nil => exact List.nil_subset _
  | cons payload rest ih =>
      rcases engine.receive_cases payload with ⟨valid, _⟩ | ⟨notValid, _⟩
      · rw [imported_of_valid valid]
        exact List.cons_subset_cons payload (ih _)
      · rw [imported_of_not_valid notValid]
        exact List.subset_cons_of_subset payload (ih _)

/-- Payloads that are not imported leave no trace. -/
theorem run_imported (engine : Engine World) (payloads : List Payload) :
    engine.run (engine.imported payloads) = engine.run payloads := by
  induction payloads generalizing engine with
  | nil => rfl
  | cons payload rest ih =>
      rcases engine.receive_cases payload with ⟨valid, _⟩ | ⟨notValid, same⟩
      · rw [imported_of_valid valid, run_cons, run_cons, ih]
      · rw [imported_of_not_valid notValid, run_cons, same, ih]

@[simp] theorem config_receive (engine : Engine World) (payload : Payload) :
    (engine.receive payload).config = engine.config := by
  rcases engine.receive_cases payload with ⟨_, block, result, _, extended⟩ | ⟨_, same⟩
  · rw [extended]
    rfl
  · rw [same]

@[simp] theorem config_run (engine : Engine World) (payloads : List Payload) :
    (engine.run payloads).config = engine.config := by
  induction payloads generalizing engine with
  | nil => rfl
  | cons payload rest ih => rw [run_cons, ih, config_receive]

/-- What imports preserve holds after every run. -/
theorem run_induction {motive : Engine World → Prop} {engine : Engine World}
    (start : motive engine)
    (extend : ∀ {engine : Engine World} {payload : Payload} {block : Block}
      {result : Block.Result}, engine.Accepts payload block result → motive engine →
        motive (engine.extend block result))
    (payloads : List Payload) : motive (engine.run payloads) := by
  induction payloads generalizing engine with
  | nil => exact start
  | cons payload rest ih =>
      rw [run_cons]
      apply ih
      rcases engine.receive_cases payload with ⟨_, block, result, accepts, extended⟩ | ⟨_, same⟩
      · rw [extended]
        exact extend accepts start
      · rw [same]
        exact start

/-! ## Two blocks over one parent -/

namespace Siblings

/-- A chain under the oldest rules. -/
def config : EngineConfig := { chain := { londonBlock := none, shanghaiBlock := none } }

/-- One account with funds. -/
def genesis : Genesis where
  accounts := .ofList
    [((0x7e5f4552091a69125d5dfcb7b8c2659029395bdf : Address),
      ({ balance := 1000000000000000000 } : GenesisAccount))]

def start : Engine World :=
  ⟨config.chain, genesis.world, .ofGenesis (genesis.header config.chain)⟩

theorem ofGenesis_eq : ofGenesis config genesis = .ok start := rfl

/-- A child of the first block, without transactions. -/
def idle : Payload where
  parentHash := 0xcc2a606ceaa153a481d159d0d2566c72921cce4782892672cab3caa66778ca6e
  feeRecipient := 0xc0
  stateRoot := 0x2ab493e5c5c640553fccd8cc97678ca81fe3fa9a70302c04e9af9d9182c417a3
  receiptsRoot := 0x56e81f171bcc55a6ff8345e692c0f86e5b48e01b996cadc001622fb5e363b421
  number := 1
  gasLimit := 30000000
  timestamp := 1
  blockHash := 0x344741535db5504cfaed9ca585811dc3b40de6ace7a3b9763d1f5fe43ffb83d8

/-- A child of the first block in which the account pays one unit. -/
def payment : Payload where
  parentHash := 0xcc2a606ceaa153a481d159d0d2566c72921cce4782892672cab3caa66778ca6e
  feeRecipient := 0xc0
  stateRoot := 0xfca6a66ede68766cae76cc41f36494180152016d51fe74da66509a96517a0671
  receiptsRoot := 0x056b23fbba480696b65fe5a59b8f2148a1299103c4f57df839233af2cf4ca2d2
  number := 1
  gasLimit := 30000000
  gasUsed := 21000
  timestamp := 1
  blockHash := 0x8f725b4d96a600a0a7e650e97fd6e60a6cb7569ef75b273be43b1b9eead1e683
  transactions := [Rlp.Item.encode (.list
    [.ofNat 0, .ofNat 0, .ofNat 21000, .ofAddress 0xaa, .ofNat 1, .data [], .ofNat 38,
      .ofNat 0x689769a1ecb3b60718535ce047db342b90828e2f504facf470aedee99a044fb8,
      .ofNat 0x746081c88729fd14270714bbf0dbb9843e4981d4371031ea02ce28771636a00c])]

/-- A child of the block without transactions, itself without any. -/
def next : Payload where
  parentHash := idle.blockHash
  feeRecipient := 0xc0
  stateRoot := idle.stateRoot
  receiptsRoot := idle.receiptsRoot
  number := 2
  gasLimit := 30000000
  timestamp := 2
  blockHash := 0x6616a094f6643e05ee859ba41028dc76611830ead9612817ef3fb0663245ccd9

/-- Both children of the first block are imported. Their worlds differ in what a child of
the first of them is worth. -/
theorem run_evaluated :
    let node := start.run [idle, payment]
    let beside : Engine World := { start.run [idle] with store := node.store }
    start.imported [idle, payment] = [idle, payment] ∧
      node.chain.contains next.blockHash = false ∧
      node.chain.contains next.parentHash = true ∧
      (beside.verdict next).toOption = some .invalid ∧
      ((start.run [idle]).verdict next).toOption = some .valid := by
  decide +kernel

end Siblings

end ExecutionLayer.Engine
