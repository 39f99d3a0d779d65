import ExecutionLayer.Json.Record
import ExecutionLayer.Json.Scalar
import ExecutionLayer.Proofs.Json.Text
import ExecutionLayer.Proofs.Quantity
import Mathlib.Data.List.Nodup

/-!
# Values and records read back

Every scalar is read back from its node, and so is every list. A record is given by its fields with
the names that each may have: if no name belongs to two fields, each field is found under its own
names, or found missing if it was left out.
-/

set_option autoImplicit false

namespace ExecutionLayer.Json

/-! ## Scalars -/

theorem toNatExact?_ofNatWidth_toNat (width : Nat) (bits : BitVec (8 * width)) :
    Hex.toNatExact? (2 * width) (Hex.ofNatWidth width bits.toNat) = some bits.toNat := by
  have fits : bits.toNat < (2 ^ 8) ^ width := by
    rw [← Nat.pow_mul]
    exact bits.isLt
  exact Hex.toNatExact?_ofNatWidth fits

@[simp] theorem address?_ofAddress (address : Address) :
    address? (ofAddress address) = some address := by
  have read := toNatExact?_ofNatWidth_toNat 20 address
  simp [address?, ofAddress, text, text?, read]

@[simp] theorem hash?_ofHash (hash : Hash) : hash? (ofHash hash) = some hash := by
  have read := toNatExact?_ofNatWidth_toNat 32 hash
  simp [hash?, ofHash, text, text?, read]

@[simp] theorem bloom?_ofBloom (bloom : Bloom) : bloom? (ofBloom bloom) = some bloom := by
  have read := toNatExact?_ofNatWidth_toNat 256 bloom
  simp [bloom?, ofBloom, text, text?, read]

@[simp] theorem word?_ofWord (word : Word) : word? (ofWord word) = some word := by
  have read : Hex.toNatUpTo? 64 (Hex.ofNat word.toNat) = some word.toNat :=
    Hex.toNatUpTo?_ofNat (by decide) word.isLt
  simp [word?, ofWord, text, text?, read]

@[simp] theorem bytes?_ofBytes (bytes : Bytes) : bytes? (ofBytes bytes) = some bytes :=
  Hex.toBytes?_ofBytes bytes

@[simp] theorem quantity?_ofQuantity (value : UInt64) :
    quantity? (ofQuantity value) = some value := by
  simp [quantity?, ofQuantity, text, text?, Quantity.parse_format, Except.toOption]

/-! ## Lists -/

theorem mapM_map_eq_some {Source Value Result : Type} {write : Source → Value}
    {read : Value → Option Result} {result : Source → Result} {sources : List Source}
    (each : ∀ source ∈ sources, read (write source) = some (result source)) :
    (sources.map write).mapM read = some (sources.map result) := by
  induction sources with
  | nil => rfl
  | cons source rest ih =>
      obtain ⟨here, others⟩ := List.forall_mem_cons.mp each
      rw [List.map_cons, List.mapM_cons, here, ih others]
      rfl

theorem list?_map {Value : Type} {read : Json → Option Value} {write : Value → Json}
    (readBack : ∀ value, read (write value) = some value) (values : List Value) :
    list? read (.array (values.map write)) = some values := by
  have each : (values.map write).mapM read = some (values.map id) :=
    mapM_map_eq_some fun value _ => readBack value
  rwa [List.map_id] at each

/-! ## Records -/

/-- A field of a record: the name it is written under, the other names it may be read under, and
its value if it is not left out. -/
structure Slot where
  name : String
  aliases : List String
  value : Option Json

/-- The names that a member for the field may have. -/
def Slot.names (slot : Slot) : List String :=
  slot.name :: slot.aliases

/-- The member that is written for the field. -/
def Slot.member? (slot : Slot) : Option (String × Json) :=
  slot.value.map fun value => (slot.name, value)

/-- The members of a record with the fields. -/
def members (slots : List Slot) : List (String × Json) :=
  slots.filterMap Slot.member?

theorem Slot.name_of_member? {slot : Slot} {member : String × Json}
    (written : slot.member? = some member) : member.1 ∈ slot.names := by
  obtain ⟨value, -, rfl⟩ := Option.map_eq_some_iff.mp written
  exact List.mem_cons_self

/-- Members of other fields have other names. -/
theorem filter_members_eq_nil {names : List String} {slots : List Slot}
    (apart : names.Disjoint (slots.flatMap Slot.names)) :
    (members slots).filter (fun (name, _) => names.contains name) = [] := by
  rw [List.filter_eq_nil_iff]
  intro member listed named
  obtain ⟨slot, slotListed, written⟩ := List.mem_filterMap.mp listed
  have other : member.1 ∈ slots.flatMap Slot.names :=
    List.mem_flatMap.mpr ⟨slot, slotListed, Slot.name_of_member? written⟩
  exact apart (List.contains_iff_mem.mp named) other

theorem uniqueMember?_members {slots : List Slot} (distinct : (slots.flatMap Slot.names).Nodup)
    {slot : Slot} (listed : slot ∈ slots) :
    uniqueMember? (members slots) slot.names = some slot.value := by
  obtain ⟨front, back, rfl⟩ := List.append_of_mem listed
  rw [List.flatMap_append, List.flatMap_cons] at distinct
  obtain ⟨-, others, fromFront⟩ := List.nodup_append'.mp distinct
  have fromBack := (List.nodup_append'.mp others).2.2
  have noneBefore := filter_members_eq_nil (List.disjoint_symm (List.disjoint_append_right.mp fromFront).1)
  have noneAfter := filter_members_eq_nil fromBack
  have own : (members [slot]).filter (fun (name, _) => slot.names.contains name) =
      slot.member?.toList := by
    cases written : slot.value <;> simp [members, Slot.member?, Slot.names, written]
  have found : (members (front ++ slot :: back)).filter
      (fun (name, _) => slot.names.contains name) = slot.member?.toList := by
    rw [members, List.filterMap_append, ← List.singleton_append, List.filterMap_append,
      List.filter_append, List.filter_append]
    change (members front).filter _ ++ ((members [slot]).filter _ ++ (members back).filter _) = _
    rw [noneBefore, noneAfter, own, List.nil_append, List.append_nil]
  rw [uniqueMember?, found, Slot.member?]
  cases slot.value <;> rfl

/-- Every field of a record is read back, those that were left out included. -/
theorem fields?_record_members {slots : List Slot}
    (distinct : (slots.flatMap Slot.names).Nodup) :
    fields? (slots.map Slot.names) (record (members slots)) = some (slots.map Slot.value) := by
  have named : ((members slots).map fun member => (some member.1, member.2)).mapM
      (fun member => member.1.map fun name => (name, member.2)) = some (members slots) := by
    rw [← List.map_id (members slots), List.map_map]
    exact mapM_map_eq_some fun _ _ => rfl
  have found := mapM_map_eq_some fun (slot : Slot) (listed : slot ∈ slots) =>
    uniqueMember?_members distinct listed
  change Option.bind (((members slots).map fun member => (some member.1, member.2)).mapM
    fun member => member.1.map fun name => (name, member.2)) _ = _
  rw [named, Option.bind_some]
  exact found

@[simp] theorem wellFormed_text (value : String) : WellFormed (text value) :=
  .string

theorem wellFormed_record_members {slots : List Slot}
    (values : ∀ slot ∈ slots, ∀ value ∈ slot.value, WellFormed value) :
    WellFormed (record (members slots)) := by
  refine .object fun member listed => ?_
  obtain ⟨written, inRecord, rfl⟩ := List.mem_map.mp listed
  obtain ⟨slot, slotListed, fromSlot⟩ := List.mem_filterMap.mp inRecord
  obtain ⟨value, present, rfl⟩ := Option.map_eq_some_iff.mp fromSlot
  exact values slot slotListed value present

end ExecutionLayer.Json
