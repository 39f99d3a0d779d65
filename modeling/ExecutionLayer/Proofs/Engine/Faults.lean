import ExecutionLayer.Proofs.Block.Conservation
import ExecutionLayer.Proofs.Engine.Runs

/-!
# Faults of the engine

An engine with its world in memory cannot answer a payload only for two reasons: a valid
transaction would count a nonce beyond the greatest, or a balance would become more than a
word can hold. The second needs a genesis that holds that much already.
-/

set_option autoImplicit false

namespace ExecutionLayer.Engine

def rulesFor (engine : Engine World) (payload : Payload) : BlockRules :=
  engine.config.rulesAt payload.number

/-- What code learns about the block of a payload. -/
def contextFor (engine : Engine World) (payload : Payload) : BlockContext :=
  payload.header.context (engine.rulesFor payload).chainId

/-- A payload's block comes as far as a transaction: its hash is new, its header follows a
known parent, and the transactions before were executed. -/
structure Attempts (engine : Engine World) (payload : Payload) (transaction : Transaction)
    (progress : Block.Progress) : Prop where
  unknown : engine.chain.contains payload.blockHash = false
  parent : ∃ parent, engine.chain.header? payload.parentHash = some parent ∧
    Header.validate (engine.rulesFor payload).schedule.hasBaseFee payload.header parent = .ok ()
  reaches : ∃ transactions index,
    Transaction.decodeAll payload.transactions = .ok transactions ∧
      Block.Reaches (engine.rulesFor payload) (engine.contextFor payload)
        (engine.chain.ancestorHash? payload.parentHash) engine.store transactions index transaction
        progress

/-- What the attempted transaction comes to on top of those before it. -/
def attempt (engine : Engine World) (payload : Payload) (transaction : Transaction)
    (progress : Block.Progress) : Except Transaction.Failure Transaction.Outcome :=
  transaction.apply (engine.rulesFor payload) progress.overlay.view (engine.contextFor payload)
    (engine.chain.ancestorHash? payload.parentHash)
    (Block.remainingGas payload.gasLimit progress.gasUsed)

/-- The attempted transaction passes every check. -/
def Admits (engine : Engine World) (payload : Payload) (transaction : Transaction)
    (progress : Block.Progress) : Prop :=
  transaction.Passes (engine.rulesFor payload) progress.overlay.view
    (engine.contextFor payload).baseFee (Block.remainingGas payload.gasLimit progress.gasUsed)

theorem judge_eq_error_iff {hashMatches : Bool} {validated : Except ImportError Block.Result}
    {error : EngineError} :
    judge hashMatches validated = .error error ↔
      ∃ cause, validated = .error (.state cause) ∧ error = .state cause := by
  constructor
  · intro failed
    cases validated with
    | ok result => cases failed
    | error raised =>
        cases raised with
        | state cause =>
            cases failed
            exact ⟨cause, rfl, rfl⟩
        | _ => cases failed
  · rintro ⟨cause, rfl, rfl⟩
    rfl

theorem newPayload_eq_error_iff_verdict {engine : Engine World} {payload : Payload}
    {error : EngineError} :
    engine.newPayload payload = .error error ↔ engine.verdict payload = .error error := by
  unfold verdict
  cases engine.newPayload payload with
  | ok answer => exact ⟨nofun, nofun⟩
  | error raised =>
      constructor
      · rintro ⟨⟩
        rfl
      · rintro ⟨⟩
        rfl

/-- An engine cannot answer a payload where an attempted transaction is a fault. -/
theorem newPayload_eq_error_iff {engine : Engine World} {payload : Payload} {error : EngineError} :
    engine.newPayload payload = .error error ↔
      ∃ transaction progress cause, engine.Attempts payload transaction progress ∧
        engine.attempt payload transaction progress = .error (.state cause) ∧
        error = .state cause := by
  rw [newPayload_eq_error_iff_verdict]
  constructor
  · intro failed
    cases unknown : engine.chain.contains payload.blockHash with
    | true =>
        rw [verdict_of_contains unknown] at failed
        cases failed
    | false =>
        cases decoded : Transaction.decodeAll payload.transactions with
        | error error =>
            rw [verdict_of_undecodable unknown decoded] at failed
            cases failed
        | ok transactions =>
            rw [verdict_of_decoded unknown decoded, judge_eq_error_iff] at failed
            obtain ⟨cause, invalid, same⟩ := failed
            obtain ⟨parent, known, follows, executed⟩ :=
              Block.validate_eq_state_error_iff.mp invalid
            obtain ⟨index, transaction, progress, reaches, stopped⟩ :=
              Block.execute_eq_state_error_iff.mp executed
            exact ⟨transaction, progress, cause,
              ⟨unknown, ⟨parent, known, follows⟩, transactions, index, decoded, reaches⟩,
              stopped, same⟩
  · rintro ⟨transaction, progress, cause, ⟨unknown, parent, reached⟩, stopped, same⟩
    obtain ⟨parent, known, follows⟩ := parent
    obtain ⟨transactions, index, decoded, reaches⟩ := reached
    rw [verdict_of_decoded unknown decoded, judge_eq_error_iff]
    refine ⟨cause, Block.validate_eq_state_error_iff.mpr ⟨parent, known, follows, ?_⟩, same⟩
    exact Block.execute_eq_state_error_iff.mpr ⟨index, transaction, progress, reaches, stopped⟩

/-! ## What all accounts hold -/

theorem supply_run_le (engine : Engine World) (payloads : List Payload) :
    (engine.run payloads).store.view.supply ≤ engine.store.view.supply := by
  apply run_induction (motive := fun later => later.store.view.supply ≤ engine.store.view.supply)
  · exact Nat.le_refl _
  · intro later payload block result accepts below
    exact (Block.validate_supply_le accepts.validated).trans below

theorem Attempts.holds {engine : Engine World} {payload : Payload} {transaction : Transaction}
    {progress : Block.Progress} (attempts : engine.Attempts payload transaction progress) :
    progress.Holds engine.store.view.supply := by
  obtain ⟨_, _, _, before⟩ := attempts.reaches
  exact (Block.executeAll_holds before.2).1

/-- Which payloads a node cannot answer, after any run from its genesis. Each of them comes
as far as a transaction that passes every check; either the transaction's nonce is the
greatest there is, or a balance overflows while it is executed. -/
theorem run_newPayload_eq_error_iff {config : EngineConfig} {genesis : Genesis}
    {engine : Engine World} (built : ofGenesis config genesis = .ok engine)
    (payloads : List Payload) (payload : Payload) (error : EngineError) :
    (engine.run payloads).newPayload payload = .error error ↔
      ∃ transaction progress cause,
        (engine.run payloads).Attempts payload transaction progress ∧
        (engine.run payloads).Admits payload transaction progress ∧
        error = .state cause ∧
        (transaction.nonce.toNat + 1 = UInt64.size ∧
            cause = .inconsistent transaction.sender "nonce overflow" ∨
          transaction.nonce.toNat + 1 < UInt64.size ∧
            Overflows genesis.world.view.supply cause ∧
            (engine.run payloads).attempt payload transaction progress =
              .error (.state cause)) := by
  have supply := supply_run_le engine payloads
  have store : engine.store = genesis.world := by
    rw [ofGenesis_ok built]
  rw [store] at supply
  rw [newPayload_eq_error_iff]
  constructor
  · rintro ⟨transaction, progress, cause, attempts, failed, same⟩
    have faultFree := Overlay.faultFree_view attempts.holds.faultFree
    obtain ⟨admits, fault⟩ := (Transaction.apply_eq_state_error_iff faultFree).mp failed
    refine ⟨transaction, progress, cause, attempts, admits, same, ?_⟩
    rcases fault with greatest | ⟨below, full, _⟩
    · exact .inl greatest
    · -- What the accounts hold at the fault is bounded along the block and the run.
      exact .inr ⟨below, full.mono (attempts.holds.supply.trans supply), failed⟩
  · rintro ⟨transaction, progress, cause, attempts, admits, same, fault⟩
    refine ⟨transaction, progress, cause, attempts, ?_, same⟩
    rcases fault with ⟨greatest, rfl⟩ | ⟨_, _, failed⟩
    · exact Transaction.apply_of_greatest _ admits greatest
    · exact failed

namespace Exhausted

/-- One account with funds that has used up its nonces. -/
def genesis : Genesis where
  accounts := .ofList
    [((0x7e5f4552091a69125d5dfcb7b8c2659029395bdf : Address),
      ({ balance := 1000000000000000000, nonce := 0xffffffffffffffff } : GenesisAccount))]

def start : Engine World :=
  ⟨Siblings.config.chain, genesis.world, .ofGenesis (genesis.header Siblings.config.chain)⟩

theorem ofGenesis_eq : ofGenesis Siblings.config genesis = .ok start := rfl

/-- A child of the first block in which the account pays one unit. -/
def payment : Payload where
  parentHash := 0x46d7e3d71d37f385917594afcda62abdbcccacfb246bd42c8c42695c652a5756
  feeRecipient := 0xc0
  stateRoot := 0
  receiptsRoot := 0
  number := 1
  gasLimit := 30000000
  gasUsed := 21000
  timestamp := 1
  blockHash := 0x09b6c2919883ebbfef5878f2649cb6142796e565a2656a009cbaac196dd477d9
  transactions := [Rlp.Item.encode (.list
    [.ofNat 0xffffffffffffffff, .ofNat 0, .ofNat 21000, .ofAddress 0xaa, .ofNat 1, .data [],
      .ofNat 37, .ofNat 0x691ed85f32813dffd5d592bea89e4bcd75d526c6dcec268ef36fe43af2b03670,
      .ofNat 0x0b696250f33be76f10f209c89819403abb9dea1ece8c5dbae9c5155973b373d8])]

def fault : StateError :=
  .inconsistent 0x7e5f4552091a69125d5dfcb7b8c2659029395bdf "nonce overflow"

theorem newPayload_evaluated : start.newPayload payment = .error (.state fault) := by
  have evaluated : (match start.verdict payment with
      | .ok _ => none
      | .error error => some error) = some (.state fault) := by
    decide +kernel
  rw [newPayload_eq_error_iff_verdict]
  cases verdict : start.verdict payment with
  | ok status =>
      rw [verdict] at evaluated
      cases evaluated
  | error error =>
      rw [verdict] at evaluated
      rw [Option.some.inj evaluated]

end Exhausted

/-- The payment is not answered, and the nonce of its transaction is why. -/
theorem exhausted_newPayload_eq_error :
    ofGenesis Siblings.config Exhausted.genesis = .ok Exhausted.start ∧
      Exhausted.start.newPayload Exhausted.payment = .error (.state Exhausted.fault) ∧
      ∃ transaction progress,
        Exhausted.start.Attempts Exhausted.payment transaction progress ∧
        Exhausted.start.Admits Exhausted.payment transaction progress ∧
        transaction.nonce.toNat + 1 = UInt64.size := by
  have failed := Exhausted.newPayload_evaluated
  refine ⟨Exhausted.ofGenesis_eq, failed, ?_⟩
  obtain ⟨transaction, progress, cause, attempts, admits, same, fault⟩ :=
    (run_newPayload_eq_error_iff Exhausted.ofGenesis_eq [] Exhausted.payment _).mp failed
  cases same
  rcases fault with ⟨greatest, _⟩ | ⟨_, ⟨_, _, overflow⟩, _⟩
  · exact ⟨transaction, progress, attempts, admits, greatest⟩
  · have texts := (StateError.inconsistent.inj overflow).2
    exact absurd texts (by decide)

end ExecutionLayer.Engine
