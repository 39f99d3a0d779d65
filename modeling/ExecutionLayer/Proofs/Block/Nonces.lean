import ExecutionLayer.Proofs.Block.Execution
import ExecutionLayer.Proofs.Transaction.Nonces

/-!
# Replayed transactions

A transaction that was applied cannot be applied again on top of itself: its sender's nonce went
past it, and nothing that runs later in the block takes it back.
-/

set_option autoImplicit false

namespace ExecutionLayer

/-- From one sender, the earlier of two transactions has the smaller nonce. -/
def Transaction.Precedes (earlier later : Transaction) : Prop :=
  earlier.sender = later.sender → earlier.nonce < later.nonce

theorem Overlay.standing_view_apply {overlay : Overlay} {shown : JournaledWorld}
    {address : Address} {count : UInt64}
    (shows : shown.readings.Shows overlay.view address count) :
    (Readings.ofView (overlay.apply shown.effects).view).standing address =
      .ok (count, Code.empty) := by
  obtain ⟨coherent, based, stands⟩ := shows
  have same : (Readings.ofView (overlay.apply shown.effects).view).account address =
      shown.readings.account address :=
    Overlay.account_view_effects coherent.account based address
  unfold Readings.standing at stands ⊢
  rw [same]
  exact stands

namespace Block

variable {rules : BlockRules} {context : BlockContext} {blockHash : UInt64 → Option Hash}

/-- The nonces of all their senders went past the transactions. -/
def Progress.Past (spent : List Transaction) (progress : Progress) : Prop :=
  ∀ transaction ∈ spent, ∃ count, transaction.nonce < count ∧
    (Readings.ofView progress.overlay.view).standing transaction.sender = .ok (count, Code.empty)

theorem Progress.past_execute {spent : List Transaction} {progress next : Progress} {index : Nat}
    {transaction : Transaction} (past : progress.Past spent)
    (executed : progress.execute rules context blockHash index transaction = .ok next) :
    next.Past (transaction :: spent) ∧ ∀ earlier ∈ spent, earlier.Precedes transaction := by
  obtain ⟨outcome, applied, rfl⟩ := execute_eq_ok executed
  obtain ⟨final, same, sender, others⟩ := Transaction.apply_shows applied
  rw [same]
  refine ⟨fun other member => ?_, fun earlier member fromSame => ?_⟩
  · rcases List.mem_cons.mp member with rfl | earlier
    · obtain ⟨next, _, raised, shows⟩ := others _ _ sender (.inl rfl)
      rw [Transaction.raise, if_pos rfl] at raised
      exact ⟨next, UInt64.lt_iff_toNat_lt.mpr (by omega), Overlay.standing_view_apply shows⟩
    · obtain ⟨count, above, stands⟩ := past other earlier
      have counted : count ≠ 0 := by
        rintro rfl
        exact absurd above UInt64.not_lt_zero
      obtain ⟨next, _, raised, shows⟩ := others _ _ stands (.inr counted)
      rw [UInt64.lt_iff_toNat_lt] at above
      exact ⟨next, UInt64.lt_iff_toNat_lt.mpr (by omega), Overlay.standing_view_apply shows⟩
  · obtain ⟨count, above, stands⟩ := past earlier member
    rw [fromSame, sender] at stands
    cases stands
    exact above

theorem executeFrom_ordered {spent : List Transaction} {offset : Nat} {start finished : Progress}
    {transactions : List Transaction} (past : start.Past spent)
    (executed : executeFrom rules context blockHash offset start transactions = .ok finished) :
    transactions.Pairwise Transaction.Precedes ∧
      ∀ earlier ∈ spent, ∀ later ∈ transactions, earlier.Precedes later := by
  induction transactions generalizing offset start spent with
  | nil => exact ⟨.nil, by simp⟩
  | cons first rest ih =>
      rw [executeFrom_cons] at executed
      obtain ⟨next, step, executed⟩ := bind_eq_ok executed
      obtain ⟨pastNext, precedes⟩ := Progress.past_execute past step
      obtain ⟨ordered, after⟩ := ih pastNext executed
      refine ⟨List.pairwise_cons.mpr ⟨after first (.head _), ordered⟩, ?_⟩
      intro earlier member later listed
      rcases List.mem_cons.mp listed with rfl | listed
      · exact precedes earlier member
      · exact after earlier (.tail _ member) later listed

/-- After every transaction that is applied to a world in memory, its sender is there with the
next nonce. So in a block that is executed the nonces from one sender rise, and no two
transactions share both. -/
theorem nonces_rise {rules : BlockRules} {blockHash : UInt64 → Option Hash} :
    (∀ {world : World} {block : BlockContext} {remaining : UInt64} {transaction : Transaction}
      {outcome : Transaction.Outcome},
      transaction.apply rules world.view block blockHash remaining = .ok outcome →
      ∃ account, (world.apply outcome.effects).account? transaction.sender = some account ∧
        account.nonce.toNat = transaction.nonce.toNat + 1) ∧
    ∀ {Store : Type} [WorldStore Store] {store : Store} {block : Block} {result : Result},
      block.execute rules store blockHash = .ok result →
      block.transactions.Pairwise Transaction.Precedes ∧
        (block.transactions.map fun transaction =>
          (transaction.sender, transaction.nonce)).Nodup := by
  constructor
  · intro world block remaining transaction outcome applied
    obtain ⟨final, same, sender, others⟩ := Transaction.apply_shows applied
    obtain ⟨next, counted, raised, shows⟩ := others _ _ sender (.inl rfl)
    obtain ⟨account, read, rfl⟩ := shows.exists_account counted
    rw [Transaction.raise, if_pos rfl] at raised
    refine ⟨account, ?_, raised⟩
    rw [same]
    exact Except.ok.inj (((World.view_apply shows.coherent shows.based).1 _).trans read)
  · intro Store _ store block result executed
    obtain ⟨finished, ran, _⟩ := bind_eq_ok executed
    have nothing : Progress.Past [] { overlay := { base := WorldStore.view store } } := by
      simp [Progress.Past]
    obtain ⟨ordered, _⟩ := executeFrom_ordered nothing ran
    refine ⟨ordered, List.pairwise_map.mpr (ordered.imp fun precedes same => ?_)⟩
    rw [Prod.mk.injEq] at same
    obtain ⟨sender, nonce⟩ := same
    have below := precedes sender
    rw [nonce] at below
    exact UInt64.lt_irrefl _ below

namespace Visits

/-- Gives one unit back to its caller and the rest at its end. -/
def giver : Code :=
  .ofBytes [0x60, 0, 0x60, 0, 0x60, 0, 0x60, 0, 0x60, 1, 0x33, 0x5A, 0xF1, 0x33, 0xFF]

def world : World :=
  (World.insertAccount {} 10 { balance := 1000000 }).insertAccount 11
    { balance := 100, code := giver }

def visit : Transaction :=
  { sender := 10, recipient := some 11, maxFee := 9, maxPriorityFee := 1, gasLimit := 60000 }

def payment : Transaction :=
  { visit with nonce := 1, recipient := some 12, value := 5, gasLimit := 21000 }

def block : Block :=
  { header := { ommersHash := Header.emptyOmmersHash, gasLimit := 100000, baseFee := some 7 },
    transactions := [visit, payment] }

end Visits

open Visits in
/-- The sender is called back by an account that is destroyed, and goes on with its next nonce. -/
theorem visits_rise :
    ∃ result outcome account, block.execute ⟨.london, 1⟩ world (fun _ => none) = .ok result ∧
      visit.apply ⟨.london, 1⟩ world.view (block.header.context 1) (fun _ => none) 100000 =
        .ok outcome ∧
      outcome.success = true ∧ (world.apply outcome.effects).account? 10 = some account ∧
      account.nonce.toNat = 1 ∧ block.transactions.Pairwise Transaction.Precedes ∧
      [((10 : Address), (0 : UInt64)), (10, 1)].Nodup := by
  have accepted : (block.execute ⟨.london, 1⟩ world (fun _ => none)).toOption.isSome = true := by
    decide +kernel
  have succeeds : (visit.apply ⟨.london, 1⟩ world.view (block.header.context 1) (fun _ => none)
      100000).toOption.any (·.success) = true := by
    decide +kernel
  obtain ⟨applications, blocks⟩ := @nonces_rise ⟨.london, 1⟩ (fun _ => none)
  cases executed : block.execute ⟨.london, 1⟩ world (fun _ => none) with
  | error error =>
      rw [executed] at accepted
      cases accepted
  | ok result =>
      cases applied : visit.apply ⟨.london, 1⟩ world.view (block.header.context 1)
          (fun _ => none) 100000 with
      | error failure =>
          rw [applied] at succeeds
          cases succeeds
      | ok outcome =>
          rw [applied] at succeeds
          obtain ⟨account, found, nonce⟩ := applications applied
          obtain ⟨rising, distinct⟩ := blocks executed
          exact ⟨result, outcome, account, rfl, rfl, succeeds, found, nonce, rising, distinct⟩

end Block

end ExecutionLayer
