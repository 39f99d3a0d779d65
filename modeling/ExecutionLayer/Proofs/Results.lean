import ExecutionLayer.World.Journal

/-!
# Results of sequences

What the parts of a sequence came to, given what the sequence came to.
-/

set_option autoImplicit false

namespace ExecutionLayer

variable {Error Value Result : Type}

theorem ok_bind (value : Value) (next : Value → Except Error Result) :
    (Except.ok value >>= next) = next value :=
  rfl

theorem throw_eq (error : Error) : (throw error : Except Error Value) = .error error :=
  rfl

theorem error_bind (error : Error) (next : Value → Except Error Result) :
    (Except.error error >>= next) = .error error :=
  rfl

theorem bind_eq_ok {first : Except Error Value} {next : Value → Except Error Result}
    {result : Result} (finished : first >>= next = .ok result) :
    ∃ value, first = .ok value ∧ next value = .ok result := by
  cases first with
  | error error => cases finished
  | ok value => exact ⟨value, rfl, finished⟩

theorem bind_eq_error {first : Except Error Value} {next : Value → Except Error Result}
    {error : Error} (failed : first >>= next = .error error) :
    first = .error error ∨ ∃ value, first = .ok value ∧ next value = .error error := by
  cases first with
  | error earlier => exact .inl (by cases failed; rfl)
  | ok value => exact .inr ⟨value, rfl, failed⟩

theorem mapError_eq_ok {Raised : Type} {raise : Error → Raised}
    {computation : Except Error Value} {value : Value}
    (finished : computation.mapError raise = .ok value) : computation = .ok value := by
  cases computation with
  | error error => cases finished
  | ok found => exact congrArg Except.ok (Except.ok.inj finished)

/-- A check that throws, given that what it guards came to a result. -/
theorem guard_eq_ok {broken : Prop} [Decidable broken] {error : Error}
    {failed : Value → Except Error Result} {rest : Except Error Result} {result : Result}
    (finished : (if broken then throw error >>= failed else rest) = .ok result) :
    ¬broken ∧ rest = .ok result := by
  by_cases holds : broken
  · rw [if_pos holds] at finished
    cases finished
  · rw [if_neg holds] at finished
    exact ⟨holds, finished⟩

theorem guard_eq_error {broken : Prop} [Decidable broken]
    {error raised : Error} {failed : Value → Except Error Result} {rest : Except Error Result}
    (stopped : (if broken then throw error >>= failed else rest) = .error raised) :
    error = raised ∨ rest = .error raised := by
  by_cases holds : broken
  · rw [if_pos holds] at stopped
    exact .inl (Except.error.inj stopped)
  · rw [if_neg holds] at stopped
    exact .inr stopped

/-- What both parts of a sequence with a state came to. -/
theorem sequence_eq_ok {State : Type} {first : EStateM Error State Value}
    {next : Value → EStateM Error State Result} {result : Result} {start after : State}
    (finished : (first >>= next) start = .ok result after) :
    ∃ value middle, first start = .ok value middle ∧ next value middle = .ok result after := by
  simp only [Bind.bind, EStateM.bind] at finished
  cases ran : first start with
  | error error middle =>
      rw [ran] at finished
      cases finished
  | ok value middle =>
      rw [ran] at finished
      exact ⟨value, middle, rfl, finished⟩

namespace Journaled

theorem run_bind_ok {first : Journaled Value} {next : Value → Journaled Result} {value : Value}
    {world middle : JournaledWorld} (ran : first world = .ok value middle) :
    (first >>= next) world = next value middle := by
  simp only [Bind.bind, EStateM.bind, ran]

theorem run_bind_error {first : Journaled Value} {next : Value → Journaled Result}
    {error : StateError} {world after : JournaledWorld} (failed : first world = .error error after) :
    (first >>= next) world = .error error after := by
  simp only [Bind.bind, EStateM.bind, failed]

theorem bind_eq_ok {first : Journaled Value} {next : Value → Journaled Result}
    {result : Result} {world after : JournaledWorld}
    (finished : (first >>= next) world = .ok result after) :
    ∃ value middle, first world = .ok value middle ∧ next value middle = .ok result after :=
  sequence_eq_ok finished

end Journaled

end ExecutionLayer
