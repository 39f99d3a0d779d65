import ExecutionLayer.Proofs.Block.Validation
import ExecutionLayer.Proofs.Engine.Runs

/-!
# Side branches

What the verdict on a payload owes to blocks that are not its ancestors. The chain shows
a block its ancestors alone, whatever else it holds, but the world is the one after the
last import. An engine that was fed only the ancestors gives the same verdict exactly
where it took them all and the two worlds lead to the same verdict.
-/

set_option autoImplicit false

namespace ExecutionLayer

/-! ## Ancestors among imports -/

namespace Payload

/-- The payloads of a block and its ancestors, first to last, among those that were
imported, last to first. -/
def lineage : List Payload → Hash → List Payload
  | [], _ => []
  | payload :: earlier, hash =>
      if payload.blockHash = hash then lineage earlier payload.parentHash ++ [payload]
      else lineage earlier hash

/-- Payloads each the parent of the next, from a child of the first hash up to the second. -/
def Links : Hash → List Payload → Hash → Prop
  | first, [], last => first = last
  | first, payload :: rest, last => payload.parentHash = first ∧ Links payload.blockHash rest last

theorem Links.append {first last : Hash} {payloads : List Payload} {payload : Payload}
    (links : Links first payloads payload.parentHash) (last_eq : payload.blockHash = last) :
    Links first (payloads ++ [payload]) last := by
  induction payloads generalizing first with
  | nil => exact ⟨links.symm, last_eq⟩
  | cons head rest ih => exact ⟨links.1, ih links.2⟩

theorem lineage_subset (log : List Payload) (hash : Hash) : lineage log hash ⊆ log := by
  induction log generalizing hash with
  | nil => exact List.nil_subset _
  | cons payload earlier ih =>
      rw [lineage]
      split
      · apply List.append_subset.mpr
        refine ⟨List.subset_cons_of_subset payload (ih _), ?_⟩
        exact List.cons_subset_cons payload (List.nil_subset _)
      · exact List.subset_cons_of_subset payload (ih _)

end Payload

/-- A chain that holds a first block and the blocks of a log, last import first. -/
structure Blockchain.Records (first : Header) (chain : Blockchain) (log : List Payload) :
    Prop where
  grounded : chain.Grounded
  known : ∀ {hash}, chain.contains hash = true →
    hash = first.hash ∨ ∃ payload ∈ log, payload.blockHash = hash
  base : chain.header? first.hash = some first
  header : ∀ payload ∈ log, chain.header? payload.blockHash = some payload.header
  links : ∀ {hash}, chain.contains hash = true →
    Payload.Links first.hash (Payload.lineage log hash) hash

namespace Engine

open Payload Blockchain

/-- The payloads of a block and its ancestors among those that an engine imports. -/
def ancestors (engine : Engine World) (payloads : List Payload) (hash : Hash) : List Payload :=
  lineage (engine.imported payloads).reverse hash

theorem records_extend {engine : Engine World} {first : Header} {log : List Payload}
    {payload : Payload} {block : Block} {result : Block.Result}
    (records : engine.chain.Records first log) (accepts : engine.Accepts payload block result) :
    (engine.extend block result).chain.Records first (payload :: log) := by
  have unknown : engine.chain.contains block.hash = false := by
    rw [accepts.claimed]
    exact accepts.unknown
  obtain ⟨parent, foundParent, number, timestamp, _⟩ := Block.validate_ok accepts.validated
  have lookup (hash : Hash) : (engine.extend block result).chain.header? hash =
      if payload.blockHash = hash then some payload.header else engine.chain.header? hash := by
    rw [extend, header?, block?_insert, accepts.claimed]
    split
    · rw [Option.map_some, stored, accepts.header]
    · rfl
  have kept {hash : Hash} {header : Header} (found : engine.chain.header? hash = some header) :
      payload.blockHash ≠ hash := by
    rintro rfl
    rw [header?, (block?_eq_none_iff _ _).mpr accepts.unknown] at found
    cases found
  have member (hash : Hash) : (engine.extend block result).chain.contains hash = true →
      payload.blockHash = hash ∨ engine.chain.contains hash = true := by
    rw [contains_iff, contains_iff, extend, block?_insert, accepts.claimed]
    rintro ⟨other, found⟩
    split at found
    · rename_i same
      exact .inl same
    · exact .inr ⟨other, found⟩
  constructor
  · exact records.grounded.insert block result.receipts unknown foundParent number timestamp
  · intro hash added
    rcases member hash added with rfl | old
    · exact .inr ⟨payload, List.mem_cons_self, rfl⟩
    · rcases records.known old with atFirst | ⟨earlier, logged, same⟩
      · exact .inl atFirst
      · exact .inr ⟨earlier, List.mem_cons_of_mem _ logged, same⟩
  · rw [lookup, if_neg (kept records.base)]
    exact records.base
  · intro other logged
    rcases List.mem_cons.mp logged with rfl | logged
    · rw [lookup, if_pos rfl]
    · rw [lookup, if_neg (kept (records.header other logged))]
      exact records.header other logged
  · intro hash added
    rw [lineage]
    split
    · rename_i same
      have parentKnown : engine.chain.contains payload.parentHash = true := by
        rw [accepts.header] at foundParent
        obtain ⟨stored, found, _⟩ := Option.map_eq_some_iff.mp foundParent
        exact (contains_iff _ _).mpr ⟨stored, found⟩
      exact (records.links parentKnown).append same
    · rename_i other
      exact records.links ((member hash added).resolve_left other)

theorem records_run {engine : Engine World} {first : Header} {log : List Payload}
    (records : engine.chain.Records first log) (payloads : List Payload) :
    (engine.run payloads).chain.Records first ((engine.imported payloads).reverse ++ log) := by
  induction payloads generalizing engine log with
  | nil => exact records
  | cons payload rest ih =>
      rw [run_cons]
      rcases engine.receive_cases payload with
        ⟨valid, block, result, accepts, extended⟩ | ⟨notValid, same⟩
      · rw [imported_of_valid valid, List.reverse_cons, List.append_assoc]
        apply ih
        rw [extended]
        exact records_extend records accepts
      · rw [imported_of_not_valid notValid]
        apply ih
        rw [same]
        exact records

theorem records_ofGenesis {config : EngineConfig} {genesis : Genesis} {engine : Engine World}
    (built : ofGenesis config genesis = .ok engine) :
    engine.chain.Records (genesis.header config.chain) [] := by
  rw [ofGenesis_ok built]
  have only {hash : Hash}
      (known : (Blockchain.ofGenesis (genesis.header config.chain)).contains hash = true) :
      hash = (genesis.header config.chain).hash := by
    obtain ⟨stored, found⟩ := (contains_iff _ _).mp known
    rw [block?_ofGenesis] at found
    split at found
    · rename_i same
      exact same.symm
    · cases found
  constructor
  · exact .ofGenesis _ rfl
  · intro hash known
    exact .inl (only known)
  · rw [header?, block?_ofGenesis, if_pos rfl]
    rfl
  · intro payload logged
    cases logged
  · intro hash known
    exact (only known).symm

/-- Of two chains over one first block, the one with fewer blocks recorded lies in the other. -/
theorem within_of_records {first : Header} {smaller larger : Blockchain}
    {log largerLog : List Payload} (records : smaller.Records first log)
    (recordsLarger : larger.Records first largerLog) (fewer : log ⊆ largerLog) :
    Within smaller larger := by
  intro hash block found
  have header : smaller.header? hash = some block.header := by
    rw [header?, found]
    rfl
  have same : larger.header? hash = smaller.header? hash := by
    rcases records.known ((contains_iff _ _).mpr ⟨block, found⟩) with rfl | ⟨payload, logged, rfl⟩
    · rw [records.base, recordsLarger.base]
    · rw [records.header payload logged, recordsLarger.header payload (fewer logged)]
  rw [header] at same
  exact Option.map_eq_some_iff.mp same

/-! ## Verdicts -/

/-- Engines that differ in blocks other than the ancestors of a payload give the same verdict. -/
theorem verdict_eq_of_within {smaller larger : Engine World} {payload : Payload}
    (config : smaller.config = larger.config) (store : smaller.store = larger.store)
    (within : Within smaller.chain larger.chain) (grounded : smaller.chain.Grounded)
    (groundedLarger : larger.chain.Grounded)
    (unknown : larger.chain.contains payload.blockHash = false)
    (parentKnown : smaller.chain.contains payload.parentHash = true) :
    larger.verdict payload = smaller.verdict payload := by
  have unknownSmaller := within.contains_eq_false unknown
  cases decoded : Transaction.decodeAll payload.transactions with
  | error error =>
      rw [verdict_of_undecodable unknown decoded, verdict_of_undecodable unknownSmaller decoded]
  | ok transactions =>
      let block : Block := ⟨payload.header, transactions⟩
      have validated :
          block.validate (larger.config.rulesAt payload.number) larger.store larger.chain =
            block.validate (larger.config.rulesAt payload.number) larger.store smaller.chain :=
        Block.validate_congr (within.header?_eq parentKnown)
          (within.ancestorHash?_eq grounded groundedLarger parentKnown)
      rw [verdict_of_decoded unknown decoded, verdict_of_decoded unknownSmaller decoded, validated,
        config, store]

theorem verdict_of_unknown_parent {engine : Engine World} {payload : Payload}
    {transactions : List Transaction} (unknown : engine.chain.contains payload.blockHash = false)
    (decoded : Transaction.decodeAll payload.transactions = .ok transactions)
    (parentUnknown : engine.chain.contains payload.parentHash = false) :
    engine.verdict payload = .ok .syncing := by
  rw [verdict_of_decoded unknown decoded, Block.validate_of_unknown parentUnknown]
  rfl

theorem verdict_ne_syncing {engine : Engine World} {payload : Payload}
    {transactions : List Transaction} (unknown : engine.chain.contains payload.blockHash = false)
    (decoded : Transaction.decodeAll payload.transactions = .ok transactions)
    (parentKnown : engine.chain.contains payload.parentHash = true) :
    engine.verdict payload ≠ .ok .syncing := by
  rw [verdict_of_decoded unknown decoded]
  cases validated : Block.validate (engine.config.rulesAt payload.number) engine.store engine.chain
      ⟨payload.header, transactions⟩ with
  | ok result => cases payload.claimsOwnHash <;> exact nofun
  | error error =>
      cases error with
      | unknownParent parent =>
          exact absurd validated (Block.validate_ne_unknownParent parentKnown parent)
      | _ => exact nofun

/-- A payload of a known parent gets the verdict that an engine fed only its ancestors gives
exactly where the payload is malformed, or that engine took the ancestors and would give the
same verdict on the world after the last import. It does so wherever no other block was
imported. -/
theorem verdict_run_eq_iff {config : EngineConfig} {genesis : Genesis} {engine : Engine World}
    (built : ofGenesis config genesis = .ok engine) (payloads : List Payload) (payload : Payload)
    (unknown : (engine.run payloads).chain.contains payload.blockHash = false)
    (parentKnown : (engine.run payloads).chain.contains payload.parentHash = true) :
    let node := engine.run payloads
    let ancestors := engine.ancestors payloads payload.parentHash
    let fresh := engine.run ancestors
    Links (genesis.header config.chain).hash ancestors payload.parentHash ∧
      (node.verdict payload = fresh.verdict payload ↔
        (∃ error, Transaction.decodeAll payload.transactions = .error error) ∨
          (fresh.chain.contains payload.parentHash = true ∧
            ({ fresh with store := node.store } : Engine World).verdict payload =
              fresh.verdict payload)) ∧
      (ancestors = engine.imported payloads → node.verdict payload = fresh.verdict payload) := by
  intro node ancestors fresh
  have records : node.chain.Records (genesis.header config.chain)
      ((engine.imported payloads).reverse ++ []) := records_run (records_ofGenesis built) payloads
  have recordsFresh : fresh.chain.Records (genesis.header config.chain)
      ((engine.imported ancestors).reverse ++ []) := records_run (records_ofGenesis built) ancestors
  have fewer : (engine.imported ancestors).reverse ++ [] ⊆
      (engine.imported payloads).reverse ++ [] := by
    intro taken member
    rw [List.append_nil, List.mem_reverse] at member
    rw [List.append_nil]
    exact lineage_subset _ _ (imported_subset engine ancestors member)
  have within := within_of_records recordsFresh records fewer
  have unknownFresh := within.contains_eq_false unknown
  have sameConfig : fresh.config = node.config := by
    rw [config_run, config_run]
  refine ⟨?_, ?_, ?_⟩
  · have links := records.links parentKnown
    rw [List.append_nil] at links
    exact links
  · cases decoded : Transaction.decodeAll payload.transactions with
    | error error =>
        rw [verdict_of_undecodable unknown decoded, verdict_of_undecodable unknownFresh decoded]
        exact ⟨fun _ => .inl ⟨error, rfl⟩, fun _ => rfl⟩
    | ok transactions =>
        by_cases taken : fresh.chain.contains payload.parentHash = true
        · have moved : node.verdict payload =
              ({ fresh with store := node.store } : Engine World).verdict payload :=
            verdict_eq_of_within sameConfig rfl within recordsFresh.grounded records.grounded
              unknown taken
          rw [moved]
          simp [taken]
        · have parentUnknown : fresh.chain.contains payload.parentHash = false := by
            simpa using taken
          rw [verdict_of_unknown_parent unknownFresh decoded parentUnknown]
          have differs : node.verdict payload ≠ .ok .syncing :=
            verdict_ne_syncing unknown decoded parentKnown
          simp [taken, differs]
  · intro linear
    have sameEngine : fresh = node := by
      rw [show fresh = engine.run (engine.imported payloads) from congrArg engine.run linear]
      exact run_imported engine payloads
    rw [sameEngine]

section Siblings

open Siblings

/-- A child of the highest block is valid on its parent, but not once a sibling of that
parent was imported. -/
theorem siblings_verdict_ne :
    ∃ engine, ofGenesis Siblings.config genesis = .ok engine ∧
      engine.ancestors [idle, payment] next.parentHash = [idle] ∧
      (engine.run [idle, payment]).verdict next ≠ (engine.run [idle]).verdict next := by
  obtain ⟨imported, unknown, parentKnown, beside, alone⟩ := run_evaluated
  have parent : start.ancestors [idle, payment] next.parentHash = [idle] := by
    have apart : payment.blockHash ≠ next.parentHash := by decide
    simp only [ancestors, imported, List.reverse_cons, List.reverse_nil, List.nil_append,
      List.cons_append, lineage, if_neg apart]
    exact if_pos rfl
  refine ⟨start, ofGenesis_eq, parent, ?_⟩
  have exactly :=
    (verdict_run_eq_iff ofGenesis_eq [idle, payment] next unknown parentKnown).2.1
  rw [parent] at exactly
  intro same
  rcases exactly.mp same with ⟨error, undecodable⟩ | ⟨_, agrees⟩
  · cases undecodable
  · have answers := congrArg Except.toOption agrees
    rw [beside, alone] at answers
    cases answers

end Siblings

end Engine

end ExecutionLayer
