import ExecutionLayer.Proofs.Block.Owners
import ExecutionLayer.Proofs.Engine.Runs

/-!
# Owners of slots after a run

In every world that an engine comes to, what is stored belongs to an account and is not zero, so
the root covers it.
-/

set_option autoImplicit false

namespace ExecutionLayer

/-- What the root of a world commits to: each account under its address, with the root of its
own slots. -/
def World.leaves (world : World) : List (Bytes × Bytes) :=
  world.accounts.toList.map fun (address, account) =>
    (address.toBytes, (account.item (Trie.storageRoot (world.slots address))).encode)

namespace World

variable {world : World} {address : Address}

theorem slots_of_kept {slots : Std.ExtTreeMap Word Word}
    (kept : world.storage[address]? = some slots) : world.slots address = slots := by
  rw [World.slots, Std.ExtTreeMap.getD_eq_getD_getElem?, kept, Option.getD_some]

theorem mem_leaves {account : Account} (present : world.account? address = some account) :
    (address.toBytes, (account.item (Trie.storageRoot (world.slots address))).encode) ∈
      world.leaves := by
  apply List.mem_map.mpr
  exact ⟨(address, account), Std.ExtTreeMap.mem_toList_iff_getElem?_eq_some.mpr present, rfl⟩

end World

namespace Engine

theorem owned_run {config : EngineConfig} {genesis : Genesis} {engine : Engine World}
    (built : ofGenesis config genesis = .ok engine) (payloads : List Payload) :
    (engine.run payloads).store.Owned := by
  apply run_induction (motive := fun node => node.store.Owned)
  · rw [ofGenesis_ok built]
    exact World.owned_genesis genesis
  · intro node payload block result accepts owned
    exact Block.validate_owned owned accepts.validated

/-- After any run no stored slot is zero, and every slot that reads as something else is stored
for an account whose slots enter the root with it. -/
theorem run_owned {config : EngineConfig} {genesis : Genesis} {engine : Engine World}
    (built : ofGenesis config genesis = .ok engine) (payloads : List Payload) :
    let world := (engine.run payloads).store
    world.root = Trie.secureRoot world.leaves ∧
      (∀ address slot, world.slot address slot ≠ 0 →
        ∃ account slots, world.account? address = some account ∧
          world.storage[address]? = some slots ∧
          slots[slot]? = some (world.slot address slot) ∧
          (address.toBytes, (account.item (Trie.storageRoot slots)).encode) ∈ world.leaves) ∧
      ∀ (address : Address) (slots : Std.ExtTreeMap Word Word) (slot value : Word),
        world.storage[address]? = some slots → slots[slot]? = some value → value ≠ 0 := by
  intro world
  have owned : world.Owned := owned_run built payloads
  refine ⟨rfl, fun address slot nonzero => ?_, fun address slots slot value kept held => ?_⟩
  · cases kept : world.storage[address]? with
    | none =>
        rw [World.slot_eq, World.slots, Std.ExtTreeMap.getD_eq_getD_getElem?, kept] at nonzero
        simp at nonzero
    | some slots =>
        have same := World.slots_of_kept kept
        have read := world.slot_eq address slot
        rw [same] at read
        cases held : slots[slot]? with
        | none =>
            rw [read, held] at nonzero
            exact absurd rfl nonzero
        | some value =>
            obtain ⟨_, account, present⟩ := owned address slot value (by rw [same, held])
            refine ⟨account, slots, present, rfl, by rw [read, held]; rfl, ?_⟩
            exact same ▸ World.mem_leaves present
  · exact (owned address slot value (by rw [World.slots_of_kept kept, held])).1

namespace Storeroom

/-- An account with funds, and a contract that empties its first slot and fills its second. -/
def genesis : Genesis where
  accounts := .ofList
    [((0x7e5f4552091a69125d5dfcb7b8c2659029395bdf : Address), ({ balance := 1 } : GenesisAccount)),
      ((0xaa : Address),
        ({ code := [0x60, 0, 0x60, 0, 0x55, 0x60, 5, 0x60, 1, 0x55]
           storage := .ofList [((0 : Word), (7 : Word))] } : GenesisAccount))]

def start : Engine World :=
  ⟨Siblings.config.chain, genesis.world, .ofGenesis (genesis.header Siblings.config.chain)⟩

theorem ofGenesis_eq : ofGenesis Siblings.config genesis = .ok start := rfl

/-- A child of the first block in which the account calls the contract. -/
def visit : Payload where
  parentHash := 0x6c15ff56778c71ac9696bfda38b75d8c24b5a73a26a6184e907b1d9380a15d6e
  feeRecipient := 0xc0
  stateRoot := 0xa7d3c85a4ad7878b3ffea3265f9ba8eb84e3a0bfcd7521db0e090b1bc401665f
  receiptsRoot := 0x2276898a1ace77a0e5534bf9569451dedcb4f79c2907561cf420c723b5398078
  number := 1
  gasLimit := 30000000
  gasUsed := 33112
  timestamp := 1
  blockHash := 0x791db9e97c5508cf529633382b8363117992965f35ed980431fd01248953ee13
  transactions := [Rlp.Item.encode (.list
    [.ofNat 0, .ofNat 0, .ofNat 60000, .ofAddress 0xaa, .ofNat 0, .data [], .ofNat 38,
      .ofNat 0x5cbdf0646e5db4eaa398f365f2ea7a0e3d419b7e0330e39ce92bddedcac4f9bc,
      .ofNat 0x2e765cc1e43a6f861ddc666cc32a5ff4d0bf9a8816bd8cf8eeeef45e67fe32fb])]

end Storeroom

open Storeroom in
/-- The second slot is stored for the contract and enters the root with it. The first slot is
not stored any more. -/
theorem storeroom_owned :
    ∃ engine account, ∃ slots : Std.ExtTreeMap Word Word,
      ofGenesis Siblings.config genesis = .ok engine ∧
      (engine.run [visit]).store.account? 0xaa = some account ∧
      (engine.run [visit]).store.storage[(0xaa : Address)]? = some slots ∧
      slots[(1 : Word)]? = some (5 : Word) ∧ slots[(0 : Word)]? = none ∧
      (Address.toBytes 0xaa, (account.item (Trie.storageRoot slots)).encode) ∈
        (engine.run [visit]).store.leaves := by
  have evaluated : (start.run [visit]).store.slot 0xaa 1 = 5 ∧
      (start.run [visit]).store.slot 0xaa 0 = 0 := by
    decide +kernel
  obtain ⟨_, covered, stored⟩ := run_owned ofGenesis_eq [visit]
  obtain ⟨account, slots, present, kept, held, entered⟩ :=
    covered 0xaa 1 (by rw [evaluated.1]; decide)
  rw [evaluated.1] at held
  refine ⟨start, account, slots, ofGenesis_eq, present, kept, held, ?_, entered⟩
  cases found : slots[(0 : Word)]? with
  | none => rfl
  | some value =>
      have read := World.slot_eq (start.run [visit]).store 0xaa 0
      rw [World.slots_of_kept kept, found, evaluated.2] at read
      exact absurd read.symm (stored 0xaa slots 0 value kept found)

end Engine

end ExecutionLayer
