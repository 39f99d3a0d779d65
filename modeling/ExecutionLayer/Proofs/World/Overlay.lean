import ExecutionLayer.Proofs.World.Effects
import ExecutionLayer.Proofs.World.Supply
import ExecutionLayer.World.InMemory
import ExecutionLayer.World.Overlay

/-!
# Effects laid over a world

The accounts that are read after effects, be they pending in an overlay or applied to a
world in memory.
-/

set_option autoImplicit false

namespace ExecutionLayer

/-! ## Writing the entries of a map -/

section Entries

variable {Key Value State Answer : Type} {step : State → Key × Value → State}
  {read : State → Answer} {key : Key} {written : Value → Answer → Answer}

private theorem read_foldl_of_absent {entries : List (Key × Value)}
    (elsewhere : ∀ state other value, other ≠ key →
      read (step state (other, value)) = read state)
    (absent : ∀ value, (key, value) ∉ entries) (start : State) :
    read (entries.foldl step start) = read start := by
  induction entries generalizing start with
  | nil => rfl
  | cons entry rest ih =>
      obtain ⟨other, value⟩ := entry
      have different : other ≠ key := by
        rintro rfl
        exact absent value (.head _)
      rw [List.foldl_cons, ih fun value member => absent value (.tail _ member),
        elsewhere start other value different]

private theorem read_foldl_of_mem {entries : List (Key × Value)} {value : Value}
    (here : ∀ state value, read (step state (key, value)) = written value (read state))
    (elsewhere : ∀ state other value, other ≠ key →
      read (step state (other, value)) = read state)
    (distinct : entries.Pairwise fun left right => left.1 ≠ right.1)
    (member : (key, value) ∈ entries) (start : State) :
    read (entries.foldl step start) = written value (read start) := by
  induction entries generalizing start with
  | nil => exact nomatch member
  | cons entry rest ih =>
      rw [List.pairwise_cons] at distinct
      rw [List.foldl_cons]
      rcases List.mem_cons.mp member with rfl | later
      · have absent : ∀ other, (key, other) ∉ rest := fun other again =>
          distinct.1 _ again rfl
        rw [read_foldl_of_absent elsewhere absent, here]
      · obtain ⟨other, earlier⟩ := entry
        have different : other ≠ key := distinct.1 _ later
        rw [ih distinct.2 later, elsewhere start other earlier different]

theorem distinct_toList [Ord Key] [Std.TransOrd Key] [Std.LawfulEqOrd Key]
    (map : Std.ExtTreeMap Key Value) :
    map.toList.Pairwise fun left right => left.1 ≠ right.1 :=
  map.distinct_keys_toList.imp fun different same =>
    different (Std.LawfulEqCmp.compare_eq_iff_eq.mpr same)

/-- Writing the entries of a map one after another: each is read where it was written. -/
theorem read_foldl_toList [Ord Key] [Std.TransOrd Key] [Std.LawfulEqOrd Key]
    (step : State → Key × Value → State) (read : State → Answer)
    (written : Value → Answer → Answer) (key : Key) (map : Std.ExtTreeMap Key Value)
    (here : ∀ state value, read (step state (key, value)) = written value (read state))
    (elsewhere : ∀ state other value, other ≠ key →
      read (step state (other, value)) = read state) (start : State) :
    read (map.toList.foldl step start) =
      match map[key]? with
      | some value => written value (read start)
      | none => read start := by
  cases found : map[key]? with
  | some value =>
      have member := Std.ExtTreeMap.mem_toList_iff_getElem?_eq_some.mpr found
      exact read_foldl_of_mem here elsewhere (distinct_toList map) member start
  | none =>
      apply read_foldl_of_absent elsewhere
      intro value member
      rw [Std.ExtTreeMap.mem_toList_iff_getElem?_eq_some, found] at member
      cases member

end Entries

theorem getElem?_overwrite {Key Value : Type} [Ord Key] [Std.TransOrd Key] [Std.LawfulEqOrd Key]
    (earlier later : Std.ExtTreeMap Key Value) (key : Key) :
    (overwrite earlier later)[key]? = later[key]?.or earlier[key]? := by
  rw [overwrite, Std.ExtTreeMap.insertMany_list_eq_foldl]
  refine (read_foldl_toList (fun map entry => map.insert entry.1 entry.2)
    (fun map : Std.ExtTreeMap Key Value => map[key]?) (fun value _ => some value) key later
    ?_ ?_ earlier).trans ?_
  · intro map value
    exact Std.ExtTreeMap.getElem?_insert_self
  · intro map other value different
    rw [Std.ExtTreeMap.getElem?_insert, if_neg]
    rwa [Std.LawfulEqCmp.compare_eq_iff_eq]
  · cases later[key]? <;> rfl

namespace StateEffects

theorem account?_merge (earlier later : StateEffects) (address : Address) :
    (earlier.merge later).account? address =
      (later.account? address).or (earlier.account? address) :=
  getElem?_overwrite earlier.accounts later.accounts address

end StateEffects

/-! ## Overlays -/

namespace Overlay

theorem account_view (overlay : Overlay) (address : Address) :
    overlay.view.account address =
      match overlay.effects.account? address with
      | some account => .ok account
      | none => overlay.base.account address := rfl

theorem storage_view (overlay : Overlay) (address : Address) (slot : Word) :
    overlay.view.storage address slot =
      match overlay.effects.slot? address slot with
      | some value => .ok value
      | none => overlay.base.storage address slot := rfl

theorem faultFree_view {overlay : Overlay} (faultFree : overlay.base.FaultFree) :
    overlay.view.FaultFree := by
  constructor
  · intro address
    rw [account_view]
    cases overlay.effects.account? address with
    | some account => exact ⟨account, rfl⟩
    | none => exact faultFree.account address
  · intro address slot
    rw [storage_view]
    cases overlay.effects.slot? address slot with
    | some value => exact ⟨value, rfl⟩
    | none => exact faultFree.storage address slot

theorem supply_view_base (base : WorldView) : (view { base }).supply = base.supply := by
  have same (address : Address) : (view { base }).account address = base.account address := by
    have nothing : StateEffects.account? {} address = none := Std.ExtTreeMap.getElem?_empty
    rw [account_view]
    dsimp only
    rw [nothing]
  unfold WorldView.supply
  simp only [same]

theorem account_view_apply (overlay : Overlay) (effects : StateEffects) (address : Address) :
    (overlay.apply effects).view.account address =
      match effects.account? address with
      | some account => .ok account
      | none => overlay.view.account address := by
  have merged : (overlay.apply effects).effects.account? address =
      (effects.account? address).or (overlay.effects.account? address) :=
    StateEffects.account?_merge overlay.effects effects address
  rw [account_view, merged]
  cases effects.account? address <;> rfl

/-- An overlay with the effects of a world over its view shows the accounts of that world. -/
theorem account_view_effects {overlay : Overlay} {world : JournaledWorld}
    (written : ∀ address, world.readings.account address =
      match world.readings.writtenAccount address with
      | some account => .ok account
      | none => world.readings.base.account address)
    (based : world.base = overlay.view) (address : Address) :
    (overlay.apply world.effects).view.account address = world.readings.account address := by
  rw [account_view_apply, JournaledWorld.account?_effects, written]
  cases world.readings.writtenAccount address with
  | some account => rfl
  | none => rw [JournaledWorld.readings_base, based]

theorem supply_view_effects {overlay : Overlay} {world : JournaledWorld}
    (lawful : world.readings.Lawful) (based : world.base = overlay.view) :
    (overlay.apply world.effects).view.supply = world.readings.supply := by
  unfold WorldView.supply Readings.supply Readings.balance
  simp only [account_view_effects lawful.account based]

end Overlay

/-! ## Worlds in memory -/

namespace World

theorem faultFree_view (world : World) : world.view.FaultFree :=
  ⟨fun address => ⟨world.account? address, rfl⟩, fun address slot => ⟨world.slot address slot, rfl⟩⟩

theorem account?_applyAccount_self (world : World) (address : Address) (account : Option Account) :
    (world.applyAccount address account).account? address = account := by
  cases account with
  | none => exact Std.ExtTreeMap.getElem?_erase_self
  | some account => exact Std.ExtTreeMap.getElem?_insert_self

theorem account?_applyAccount_of_ne {address other : Address} (different : other ≠ address)
    (world : World) (account : Option Account) :
    (world.applyAccount other account).account? address = world.account? address := by
  have unequal : ¬compare other address = .eq := by
    rwa [Std.LawfulEqCmp.compare_eq_iff_eq]
  cases account with
  | none => exact (Std.ExtTreeMap.getElem?_erase).trans (if_neg unequal)
  | some account => exact (Std.ExtTreeMap.getElem?_insert).trans (if_neg unequal)

private theorem accounts_foldl {Entry : Type} {step : World → Entry → World}
    (keeps : ∀ world entry, (step world entry).accounts = world.accounts) (entries : List Entry)
    (start : World) : (entries.foldl step start).accounts = start.accounts := by
  induction entries generalizing start with
  | nil => rfl
  | cons entry rest ih => rw [List.foldl_cons, ih, keeps]

theorem accounts_applyStorage (world : World) (address : Address) (delta : StorageDelta) :
    (world.applyStorage address delta).accounts = world.accounts := by
  unfold applyStorage
  dsimp only
  rw [accounts_foldl]
  · split <;> rfl
  · intro world entry
    rfl

theorem account?_apply (world : World) (effects : StateEffects) (address : Address) :
    (world.apply effects).account? address =
      (effects.account? address).getD (world.account? address) := by
  have accounts : (world.apply effects).accounts =
      (effects.accounts.toList.foldl
        (fun world entry => world.applyAccount entry.1 entry.2) world).accounts := by
    unfold apply
    dsimp only
    rw [accounts_foldl]
    intro world entry
    exact accounts_applyStorage world entry.1 entry.2
  have read := read_foldl_toList
    (fun world (entry : Address × Option Account) => world.applyAccount entry.1 entry.2)
    (fun world : World => world.account? address) (fun account _ => account) address
    effects.accounts
    (fun world account => world.account?_applyAccount_self address account)
    (fun world _ account different => account?_applyAccount_of_ne different world account) world
  rw [account?, accounts]
  refine Eq.trans read ?_
  rw [StateEffects.account?]
  cases effects.accounts[address]? <;> rfl

theorem supply_apply (world : World) (effects : StateEffects) :
    (world.apply effects).view.supply = (Overlay.view ⟨world.view, effects⟩).supply := by
  have same (address : Address) : (world.apply effects).view.account address =
      (Overlay.view ⟨world.view, effects⟩).account address := by
    rw [Overlay.account_view]
    change Except.ok ((world.apply effects).account? address) = _
    rw [account?_apply]
    cases effects.account? address <;> rfl
  unfold WorldView.supply
  simp only [same]

/-- A world in memory with the effects of a journaled world over it holds what that one does. -/
theorem supply_apply_effects {world : World} {journaled : JournaledWorld}
    (lawful : journaled.readings.Lawful) (based : journaled.base = world.view) :
    (world.apply journaled.effects).view.supply = journaled.readings.supply := by
  have same (address : Address) : (world.apply journaled.effects).view.account address =
      journaled.readings.account address := by
    change Except.ok ((world.apply journaled.effects).account? address) = _
    rw [account?_apply, JournaledWorld.account?_effects, lawful.account]
    cases journaled.readings.writtenAccount address with
    | some account => rfl
    | none =>
        rw [JournaledWorld.readings_base, based]
        rfl
  unfold WorldView.supply Readings.supply Readings.balance
  simp only [same]

end World

end ExecutionLayer
