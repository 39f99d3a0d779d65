import ExecutionLayer.Instruction.Storage

/-!
# Net metering

Writing a slot again and again within a transaction is charged write by write, with refunds that
are granted and taken back. What is paid in the end depends only on the number of writes, the value
before the transaction and the last value: each write costs the warm price and the difference of
what its slot owes after it and before it.
-/

set_option autoImplicit false

namespace ExecutionLayer.StoreCharge

/-- The charges for writing values one after another over a current one. -/
def history (original : Word) (clearRefund : Int) : Word → List Word → List StoreCharge
  | _, [] => []
  | current, value :: rest =>
      of original current value clearRefund :: history original clearRefund value rest

/-- What charges come to, with the refunds taken off. -/
def net (charges : List StoreCharge) : Int :=
  (charges.map fun charge => (charge.cost.toNat : Int)).foldr (· + ·) 0 -
    (charges.map (·.refund)).foldr (· + ·) 0

/-- What a slot that holds a value owes beyond the warm price of each write. -/
def owed (original value : Word) (clearRefund : Int) : Int :=
  if value = original then 0
  else if original = 0 then 19900
  else if value = 0 then 2800 - clearRefund
  else 2800

@[simp] theorem net_nil : net [] = 0 := rfl

@[simp] theorem net_cons (charge : StoreCharge) (rest : List StoreCharge) :
    net (charge :: rest) = charge.cost.toNat - charge.refund + net rest := by
  simp only [net, List.map_cons, List.foldr_cons]
  omega

@[simp] theorem owed_self (value : Word) (clearRefund : Int) : owed value value clearRefund = 0 :=
  if_pos rfl

/-- One write pays the warm price and moves what its slot owes. -/
theorem cost_sub_refund (original current value : Word) (clearRefund : Int) :
    ((of original current value clearRefund).cost.toNat : Int) -
        (of original current value clearRefund).refund =
      100 + owed original value clearRefund - owed original current clearRefund := by
  have warm : (Gas.warmSlot.toNat : Int) = 100 := rfl
  have set : (Gas.storeSet.toNat : Int) = 20000 := rfl
  have reset : (Gas.storeReset.toNat : Int) = 2900 := rfl
  unfold of
  by_cases same : value = current
  · rw [if_pos same, same]
    simp only [warm]
    omega
  rw [if_neg same]
  by_cases first : original = current
  · -- The first change pays in full for what the slot owes from then on.
    subst first
    rw [if_pos rfl, owed_self]
    by_cases empty : original = 0
    · rw [if_pos empty, owed, if_neg same, if_pos empty]
      simp only [set]
      omega
    · rw [if_neg empty, owed, if_neg same, if_neg empty]
      simp only [reset]
      split <;> omega
  · -- Later changes are settled by the refund alone.
    have moved : ¬current = original := Ne.symm first
    rw [if_neg first]
    simp only [owed, warm, set, reset, moved, eq_comm (a := original) (b := value), ite_not]
    by_cases empty : original = 0
    · subst empty
      simp only [↓reduceIte]
      split <;> omega
    simp only [empty, ↓reduceIte]
    by_cases restores : value = original
    · -- The way back to what was there; over a cleared slot the grant is taken back.
      simp only [restores, empty, ↓reduceIte]
      split <;> omega
    · simp only [restores, ↓reduceIte]
      by_cases cleared : current = 0
      · -- What fills a cleared slot is not zero.
        have filled : ¬value = 0 := fun none => same (none.trans cleared.symm)
        simp only [cleared, filled, ↓reduceIte]
        omega
      · simp only [cleared, ↓reduceIte]
        split <;> omega

/-- The potentials in between cancel. -/
theorem net_history_from (original current : Word) (clearRefund : Int) (values : List Word) :
    net (history original clearRefund current values) =
      100 * values.length + owed original (values.getLastD current) clearRefund -
        owed original current clearRefund := by
  induction values generalizing current with
  | nil => simp [history]
  | cons value rest ih =>
      have step := cost_sub_refund original current value clearRefund
      rw [history, net_cons, ih, List.length_cons, List.getLastD_cons]
      push_cast
      omega

/-- Writes to a slot, from its value before the transaction on, come to the warm price for each of
them and to what the last value owes. So writes of as many values with the same last one come to
the same, whatever the values in between. -/
theorem net_history (original : Word) (clearRefund : Int) (values : List Word) :
    net (history original clearRefund original values) =
        100 * values.length + owed original (values.getLastD original) clearRefund ∧
      ∀ others : List Word, others.length = values.length →
        others.getLastD original = values.getLastD original →
        net (history original clearRefund original others) =
          net (history original clearRefund original values) := by
  have total (values : List Word) : net (history original clearRefund original values) =
      100 * values.length + owed original (values.getLastD original) clearRefund := by
    rw [net_history_from, owed_self, Int.sub_zero]
  refine ⟨total values, fun others length last => ?_⟩
  rw [total others, total values, length, last]

/-- A slot that is emptied, filled and emptied again is refunded once. -/
example : net (history 5 4800 5 [0, 3, 0]) = 300 + (2800 - 4800) := by decide

end ExecutionLayer.StoreCharge
