import ExecutionLayer.Proofs.Execution.Gas
import ExecutionLayer.Proofs.Execution.Memory
import ExecutionLayer.Proofs.Instruction.Prices
import ExecutionLayer.Proofs.Instruction.Solvency
import ExecutionLayer.Proofs.Machine.Charging

/-!
# The limit of memory

The gas of all frames of a run and what their memories cost never grow in sum. So a run that begins
with less gas than a memory up to the limit costs cannot tell the limit from prices that go on
without end.
-/

set_option autoImplicit false

namespace ExecutionLayer

namespace Frame

/-- What a frame comes to while it runs an instruction. It pays prices, it pays for windows that
gas may pay for, and all else leaves its gas and the size of its memory as they are. -/
inductive Spends (frame : Frame) : Frame → Prop where
  | here : Spends frame frame
  | pays {payer after : Frame} {amount : UInt64} (spends : Spends frame payer)
      (paid : payer.useGas amount = .ok after) : Spends frame after
  | grows {payer after : Frame} {range : MemoryRange} (spends : Spends frame payer)
      (fits : range.Fits) (charged : payer.chargeMemory range = .ok after) : Spends frame after
  | works {worker after : Frame} (spends : Spends frame worker) (gas : after.gas = worker.gas)
      (size : after.memory.size = worker.memory.size) : Spends frame after

/-- The gas of the frame and what its memory costs. -/
def assets (frame : Frame) : Nat :=
  frame.gas.toNat + Memory.exactCost frame.memory.wordSize

theorem assets_of_empty {frame : Frame} (memory : frame.memory = .empty) :
    frame.assets = frame.gas.toNat := by
  rw [assets, memory]
  rfl

theorem assets_le_worth (frame : Frame) : frame.assets ≤ frame.worth :=
  Nat.add_le_add_right frame.gas_le_funds _

theorem Spends.assets_le {frame seen : Frame} (spends : frame.Spends seen) :
    seen.assets ≤ frame.assets := by
  induction spends with
  | here => exact Nat.le_refl _
  | pays _ paid ih =>
      obtain ⟨_, exactly⟩ := useGas_eq_ok paid
      have same := Action.memory_useGas paid
      unfold assets at *
      rw [same]
      omega
  | @grows payer after range _ fits charged ih =>
      obtain ⟨exactly, memory⟩ := chargeMemory_eq_ok fits charged
      have cost := payer.memory.exactCost_expand range
      unfold assets at *
      rw [memory]
      omega
  | works _ gas size ih =>
      unfold assets at *
      rw [gas, Memory.wordSize, size]
      exact ih

end Frame

/-! ## Windows beyond the limit -/

/-- As many words as no window below the limit has, at a price of more than 2^45. -/
theorem Memory.le_exactCost {words : Nat} (many : Memory.maxWords ≤ words) :
    2 ^ 45 ≤ Memory.exactCost words :=
  Nat.le_trans (by decide) (Memory.exactCost_mono many)

theorem Memory.le_maxWords {words : Nat} (cheap : Memory.exactCost words < 2 ^ 45) :
    words ≤ Memory.maxWords := by
  by_contra many
  have price := Memory.le_exactCost (Nat.le_of_not_le many)
  omega

namespace MemoryRange

variable {offset length : Word} {range : MemoryRange}

theorem ofWords_eq_error {reason : Halt} (refused : ofWords offset length = .error reason) :
    reason = .insufficientGas ∧
      Memory.maxWords ≤ MemoryRange.words ⟨offset.toNat, length.toNat⟩ := by
  unfold ofWords at refused
  split at refused
  · cases refused
  · rename_i some
    split at refused
    · rename_i far
      cases refused
      have positive : length.toNat ≠ 0 := fun zero => some (BitVec.eq_of_toNat_eq zero)
      have nonempty : ¬(⟨offset.toNat, length.toNat⟩ : MemoryRange).isEmpty = true := by
        simpa [isEmpty] using positive
      refine ⟨rfl, ?_⟩
      unfold limit at far
      unfold Memory.maxWords
      rw [words, if_neg nonempty, Memory.wordsFor, stop]
      dsimp only
      omega
    · cases refused

theorem ofWords_eq_ok (named : ofWords offset length = .ok range) :
    range.length = length.toNat ∧
      range.words = MemoryRange.words ⟨offset.toNat, length.toNat⟩ := by
  unfold ofWords at named
  split at named
  · rename_i none
    cases named
    rw [none]
    exact ⟨rfl, rfl⟩
  · split at named
    · cases named
    · cases named
      exact ⟨rfl, rfl⟩

end MemoryRange

/-- What a window costs, by any of the price lists, is what it costs in integers. -/
structure GasSchedule.PricesExactly (schedule : GasSchedule) (memory : Memory)
    (range : MemoryRange) : Prop where
  paid : (Gas.memoryCost memory.wordSize).toNat = Memory.exactCost memory.wordSize
  whole : (Gas.memoryCost range.words).toNat = Memory.exactCost range.words
  expansion : (memory.expansionCost range).toNat = memory.exactExpansion range
  copy : ∀ base : UInt64, base.toNat ≤ 2600 →
    (base + Gas.copyCost range.length).toNat = base.toNat + 3 * Memory.wordsFor range.length
  keccak : (Gas.keccakCost range.length).toNat = 30 + 6 * Memory.wordsFor range.length
  log : ∀ topics : Fin 5,
    (Gas.logCost range.length topics).toNat = 375 + 375 * topics + 8 * range.length
  create : ∀ kind : CreateKind, (kind.cost schedule range.length).toNat =
    32000 + (if kind = .create2 then 6 * Memory.wordsFor range.length else 0) +
      schedule.initCodeWordCost.toNat * Memory.wordsFor range.length

theorem GasSchedule.PricesExactly.ofFork (fork : Fork) {memory : Memory} {offset length : Word}
    {range : MemoryRange} (bounded : memory.wordSize ≤ Memory.maxWords)
    (named : MemoryRange.ofWords offset length = .ok range) :
    (GasSchedule.ofFork fork).PricesExactly memory range := by
  have fits := MemoryRange.fits_ofWords named
  have short := Action.length_le_of_ofWords named
  exact {
    paid := Memory.toNat_memoryCost_eq bounded
    whole := Memory.toNat_memoryCost_eq (MemoryRange.words_le fits)
    expansion := memory.toNat_expansionCost_eq fits
    copy := fun _ small => Gas.toNat_copyCost short small
    keccak := Gas.toNat_keccakCost short
    log := Gas.toNat_logCost short
    create := fun kind => kind.toNat_cost fork short }

/-! ## Runs -/

namespace Frame

theorem worth_of_awake {frame : Frame} (awake : frame.status ≠ .codeSuspended) :
    frame.worth = frame.assets := by
  rw [worth, funds_of_awake awake, assets]

/-- A frame whose memory stays does not come to be worth more if its gas does not grow. -/
theorem worth_le {before after : Frame} (awake : after.status ≠ .codeSuspended)
    (gas : after.gas.toNat ≤ before.gas.toNat) (size : after.memory.size = before.memory.size) :
    after.worth ≤ before.worth := by
  have held := before.assets_le_worth
  have words : after.memory.wordSize = before.memory.wordSize := congrArg (· / 32) size
  rw [worth_of_awake awake]
  unfold assets at *
  rw [words]
  omega

theorem worth_of_handedOver {frame : Frame} (pendingChild : frame.pendingChild = none) :
    frame.worth = frame.assets := by
  have none : frame.lent = 0 := by
    unfold lent
    rw [pendingChild]
    exact ite_self 0
  rw [worth, funds, none]
  rfl

theorem Prepared.worth_resume {schedule : GasSchedule} {parent : Frame}
    (prepared : parent.Prepared schedule) (pendingChild : parent.pendingChild = none)
    (child : Frame) :
    (parent.resume schedule child).worth ≤ parent.worth + child.gas.toNat := by
  have size := prepared.size_resume child
  have words : (parent.resume schedule child).memory.wordSize = parent.memory.wordSize :=
    congrArg (· / 32) size
  have held : (parent.resume schedule child).heldGas ≤ _ := heldGas_resume pendingChild child
  have gas := (parent.resume schedule child).gas_le_heldGas
  have asked : (parent.resume schedule child).pendingChild = none := by
    rcases resume_cases schedule parent child with resumed | ⟨_, unchanged⟩
    · exact resumed.pendingChild.trans pendingChild
    · rw [unchanged, pendingChild]
  rw [worth_of_handedOver asked, worth_of_handedOver pendingChild, assets, assets, words]
  omega

end Frame

namespace Configuration

def worth (configuration : Configuration) : Nat :=
  ((configuration.current :: configuration.parents).map Frame.worth).sum

theorem worth_eq (configuration : Configuration) :
    configuration.worth =
      configuration.current.worth + (configuration.parents.map Frame.worth).sum := by
  rw [worth, List.map_cons, List.sum_cons]

theorem worth_le_of_mem {configuration : Configuration} {frame : Frame}
    (member : frame ∈ configuration.current :: configuration.parents) :
    frame.worth ≤ configuration.worth :=
  List.single_le_sum (fun _ _ => Nat.zero_le _) _ (List.mem_map_of_mem member)

section

variable {schedule : GasSchedule} {context : Context} {before after : Configuration}

theorem worth_le_of_parents (parents : after.parents = before.parents)
    (current : after.current.worth ≤ before.current.worth) : after.worth ≤ before.worth := by
  rw [worth_eq, worth_eq, parents]
  omega

theorem Transition.worth_le (transition : Transition schedule context before after)
    (handedOver : before.HandedOver) (poised : Poised schedule before)
    (bounded : before.current.memory.wordSize ≤ Memory.maxWords) :
    after.worth ≤ before.worth := by
  cases transition with
  | starts status ran parents =>
      have started := Frame.start_ok ran
      refine worth_le_of_parents parents (Frame.worth_le ?_ started.ages.gas ?_)
      · rcases started.status with status | status | status <;> rw [status] <;> decide
      · rw [Frame.memory_start ran]
  | steps status ran parents =>
      exact worth_le_of_parents parents (Machine.worth_step status bounded ran)
  | enters child status pendingChild current parents _ =>
      have lends : before.current.worth = before.current.assets + child.gas.toNat := by
        rw [Frame.worth, Frame.funds_of_waiting status pendingChild, Frame.assets]
        omega
      have entered : after.current.worth = child.gas.toNat := by
        rw [current, Frame.worth_of_awake (by simp [Frame.ofMessage]), Frame.assets_of_empty rfl]
        rfl
      have waits : Frame.worth { before.current with pendingChild := none } =
          before.current.assets :=
        Frame.worth_of_handedOver rfl
      rw [worth_eq, worth_eq, parents, List.map_cons, List.sum_cons, waits]
      omega
  | commits _ ran parents =>
      have committed := Frame.commit_ok ran
      refine worth_le_of_parents parents (Frame.worth_le ?_ committed.ages.gas ?_)
      · rcases committed.status with status | status <;> rw [status] <;> decide
      · rw [Frame.memory_commit ran]
  | rollsBack _ ran parents =>
      have rolled := Frame.rollBack_ok ran
      refine worth_le_of_parents parents (Frame.worth_le ?_ ?_ ?_) <;> rw [rolled]
      simp
  | leaves parent _ parents current _ =>
      obtain ⟨_, none⟩ := handedOver parent (by simp [parents])
      have prepared := poised.waiting parent (by simp [parents])
      have returns : after.current.worth ≤ parent.worth + before.current.gas.toNat := by
        rw [current]
        exact prepared.worth_resume none before.current
      have left : before.current.gas.toNat ≤ before.current.worth :=
        Nat.le_trans before.current.gas_le_funds (Nat.le_add_right _ _)
      rw [worth_eq, worth_eq, parents, List.map_cons, List.sum_cons]
      omega

theorem Reaches.worth_le {depth : Nat} {first last : Configuration}
    (reached : Reaches schedule context depth first last) (handedOver : first.HandedOver)
    (poised : Poised schedule first) (poor : first.worth < 2 ^ 45) : last.worth ≤ first.worth := by
  induction reached with
  | start => exact Nat.le_refl _
  | @advance middle next earlier advanced _ ih =>
      have current : middle.current.worth ≤ middle.worth :=
        worth_le_of_mem List.mem_cons_self
      have price : Memory.exactCost middle.current.memory.wordSize ≤ middle.current.worth :=
        Nat.le_add_left ..
      have bounded : middle.current.memory.wordSize ≤ Memory.maxWords :=
        Memory.le_maxWords (by omega)
      have transition := transition_of_advance advanced
      exact (transition.worth_le (earlier.handedOver handedOver) (earlier.poised poised)
        bounded).trans ih

end

/-- A run that begins with empty memory and less than 2^45 gas never meets the limit of memory.
Take any frame of it, also on its way through an instruction, and any two words for a window. If the
window is refused, the frame has less gas than the window costs in integers. If not, charging for
the window works if and only if the frame has that much, and takes just that. No price of the
window wraps around. -/
theorem memory_limit_invisible (fork : Fork) {context : Context} {root : Frame}
    {world : JournaledWorld} {last : Configuration} (status : root.status = .notStarted)
    (memory : root.memory = .empty) (gas : root.gas.toNat < 2 ^ 45)
    (reached : Reaches (.ofFork fork) context 0 ⟨root, [], world⟩ last) :
    ∀ frame ∈ last.current :: last.parents, ∀ seen, frame.Spends seen →
      ∀ offset length : Word,
        (∀ reason, MemoryRange.ofWords offset length = .error reason →
          reason = .insufficientGas ∧
            seen.gas.toNat < seen.memory.exactExpansion ⟨offset.toNat, length.toNat⟩) ∧
        ∀ range, MemoryRange.ofWords offset length = .ok range →
          ((∃ charged, seen.chargeMemory range = .ok charged) ↔
            seen.memory.exactExpansion ⟨offset.toNat, length.toNat⟩ ≤ seen.gas.toNat) ∧
          (∀ charged, seen.chargeMemory range = .ok charged →
            charged.gas.toNat + seen.memory.exactExpansion ⟨offset.toNat, length.toNat⟩ =
              seen.gas.toNat) ∧
          range.length = length.toNat ∧
          (GasSchedule.ofFork fork).PricesExactly seen.memory range := by
  have awake : root.status ≠ .codeSuspended := by simp [status]
  have total : worth ⟨root, [], world⟩ = root.gas.toNat := by
    rw [worth_eq, Frame.worth_of_awake awake, Frame.assets_of_empty memory]
    rfl
  intro frame member seen spends offset length
  have bound := reached.worth_le (handedOver_of_root root world)
    (poised_of_notStarted status world) (by omega)
  have whole := worth_le_of_mem member
  have held := frame.assets_le_worth
  have spent := spends.assets_le
  have poor : seen.assets < 2 ^ 45 := by omega
  unfold Frame.assets at poor
  refine ⟨fun reason refused => ?_, fun range named => ?_⟩
  · obtain ⟨rfl, many⟩ := MemoryRange.ofWords_eq_error refused
    have price := Memory.le_exactCost many
    refine ⟨rfl, ?_⟩
    unfold Memory.exactExpansion
    omega
  · have fits := MemoryRange.fits_ofWords named
    obtain ⟨short, words⟩ := MemoryRange.ofWords_eq_ok named
    have bounded : seen.memory.wordSize ≤ Memory.maxWords := Memory.le_maxWords (by omega)
    rw [← seen.memory.exactExpansion_congr words]
    refine ⟨?_, fun charged paid => (Frame.chargeMemory_eq_ok fits paid).1, short,
      .ofFork fork bounded named⟩
    rw [seen.chargeMemory_eq fits]
    split
    · rename_i enough
      exact iff_of_true ⟨_, rfl⟩ enough
    · rename_i poor
      exact iff_of_false (fun ⟨_, paid⟩ => nomatch paid) poor

open Windows in
/-- The child of a call is refused a window behind the limit, which costs more than the gas it has,
and for one word more it pays three. -/
theorem call_meets_no_limit :
    ∃ during charged,
      Reaches (.ofFork .berlin) context 0 ⟨.ofMessage message ∅ ∅, [], { base := view }⟩ during ∧
      MemoryRange.ofWords 0x100000000 1 = .error .insufficientGas ∧
      during.current.gas.toNat <
        during.current.memory.exactExpansion ⟨0x100000000, 1⟩ ∧
      MemoryRange.ofWords 288 32 = .ok ⟨288, 32⟩ ∧
      during.current.chargeMemory ⟨288, 32⟩ = .ok charged ∧
      charged.gas.toNat + 3 = during.current.gas.toNat := by
  have evaluated : (iterate (.ofFork .berlin) context 17
      ⟨.ofMessage message ∅ ∅, [], { base := view }⟩).any (fun during =>
        during.current.memory.wordSize == 9 && decide (3 ≤ during.current.gas.toNat)) = true := by
    decide +kernel
  obtain ⟨during, ran, holds⟩ := (Option.any_eq_true _ _).mp evaluated
  rw [Bool.and_eq_true, beq_iff_eq, decide_eq_true_eq] at holds
  obtain ⟨words, enough⟩ := holds
  have reached := Reaches.of_iterate ran
  have limits := memory_limit_invisible .berlin rfl rfl (by decide) reached during.current
    List.mem_cons_self during.current .here
  have refused : MemoryRange.ofWords 0x100000000 1 = .error .insufficientGas := by decide
  have named : MemoryRange.ofWords 288 32 = .ok ⟨288, 32⟩ := by decide
  have price : during.current.memory.exactExpansion ⟨288, 32⟩ = 3 := by
    rw [Memory.exactExpansion, words]
    decide
  obtain ⟨pays, takes, -⟩ := (limits 288 32).2 _ named
  obtain ⟨charged, paid⟩ := pays.mpr (price ▸ enough)
  exact ⟨during, charged, reached, refused, ((limits 0x100000000 1).1 _ refused).2, named, paid,
    price ▸ takes charged paid⟩

end Configuration

end ExecutionLayer
