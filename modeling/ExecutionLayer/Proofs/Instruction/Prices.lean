import ExecutionLayer.Instruction.Call
import ExecutionLayer.Proofs.Instruction.Ordinary
import ExecutionLayer.Proofs.Machine.Windows

/-!
# Prices of windows

The prices that grow with the length of a window. Up to the limit of memory none of them wraps
around.
-/

set_option autoImplicit false

namespace ExecutionLayer

open ExecutionLayer.Action (toNat_add_of_lt toNat_add_add_of_lt)

variable {length : Nat}

namespace Gas

theorem toNat_wordCount (le : length ≤ MemoryRange.limit) :
    (wordCount length).toNat = Memory.wordsFor length := by
  unfold MemoryRange.limit at le
  unfold wordCount Memory.wordsFor
  rw [UInt64.toNat_ofNat', Nat.mod_eq_of_lt (by omega)]

theorem toNat_mul_wordCount {each : UInt64} (few : each.toNat ≤ 6)
    (le : length ≤ MemoryRange.limit) :
    (each * wordCount length).toNat = each.toNat * Memory.wordsFor length ∧
      (each * wordCount length).toNat ≤ 6 * 134217728 := by
  have words := Action.wordCount_le le
  have product := Nat.mul_le_mul few words
  rw [UInt64.toNat_mul, Nat.mod_eq_of_lt (by omega), ← toNat_wordCount le]
  exact ⟨rfl, product⟩

theorem toNat_copyCost (le : length ≤ MemoryRange.limit) {base : UInt64}
    (small : base.toNat ≤ 2600) :
    (base + copyCost length).toNat = base.toNat + 3 * Memory.wordsFor length := by
  obtain ⟨product, bound⟩ := @toNat_mul_wordCount length copyWord (by decide) le
  rw [copyCost, toNat_add_of_lt (by omega), product]
  rfl

theorem toNat_keccakCost (le : length ≤ MemoryRange.limit) :
    (keccakCost length).toNat = 30 + 6 * Memory.wordsFor length := by
  obtain ⟨product, bound⟩ := @toNat_mul_wordCount length keccakWord (by decide) le
  have base : keccak.toNat = 30 := rfl
  rw [keccakCost, toNat_add_of_lt (by omega), product]
  rfl

theorem toNat_logCost (le : length ≤ MemoryRange.limit) (topics : Fin 5) :
    (logCost length topics).toNat = 375 + 375 * topics + 8 * length := by
  unfold MemoryRange.limit at le
  have few := topics.isLt
  have count : (UInt64.ofNat topics).toNat = topics := Nat.mod_eq_of_lt (by omega)
  have bytes : (UInt64.ofNat length).toNat = length := Nat.mod_eq_of_lt (by omega)
  have base : log.toNat = 375 := rfl
  have forTopics : (logTopic * UInt64.ofNat topics).toNat = 375 * topics := by
    rw [UInt64.toNat_mul, count]
    exact Nat.mod_eq_of_lt (by change 375 * _ < _; omega)
  have forBytes : (logByte * UInt64.ofNat length).toNat = 8 * length := by
    rw [UInt64.toNat_mul, bytes]
    exact Nat.mod_eq_of_lt (by change 8 * _ < _; omega)
  rw [logCost, toNat_add_add_of_lt (by omega), base, forTopics, forBytes]

end Gas

theorem CreateKind.toNat_cost (fork : Fork) (kind : CreateKind) (le : length ≤ MemoryRange.limit) :
    (kind.cost (.ofFork fork) length).toNat =
      32000 + (if kind = .create2 then 6 * Memory.wordsFor length else 0) +
        (GasSchedule.ofFork fork).initCodeWordCost.toNat * Memory.wordsFor length := by
  have base : Gas.create.toNat = 32000 := rfl
  have each : (GasSchedule.ofFork fork).initCodeWordCost.toNat ≤ 6 := by
    unfold GasSchedule.ofFork
    dsimp only
    split <;> decide
  obtain ⟨initCode, initBound⟩ := Gas.toNat_mul_wordCount each le
  unfold cost GasSchedule.initCodeCost
  cases kind with
  | create =>
      have none : (0 : UInt64).toNat = 0 := rfl
      dsimp only
      rw [toNat_add_add_of_lt (by omega), initCode, base, none]
      rfl
  | create2 =>
      obtain ⟨hashing, hashBound⟩ := @Gas.toNat_mul_wordCount length Gas.keccakWord (by decide) le
      dsimp only
      rw [toNat_add_add_of_lt (by omega), initCode, base, hashing]
      rfl

end ExecutionLayer
