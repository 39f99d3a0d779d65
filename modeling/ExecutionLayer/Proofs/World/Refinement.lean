import ExecutionLayer.Proofs.World.Readings

/-!
# Journaled worlds by their readings

Every operation on a journaled world acts on its readings as the operation of the same
name on readings does, and leaves a journal that leads back to where it began. Reads
fill the caches without a journal entry, so the way back restores readings, not caches.
-/

set_option autoImplicit false

namespace ExecutionLayer

/-! ## Readings of a world -/

/-- What an account reads as, given what is cached of it. -/
def readAccount (view : WorldView) (address : Address) :
    Option CachedAccount → Except StateError (Option Account)
  | some cached => .ok cached.account
  | none => view.account address

/-- What a slot reads as, given what is cached of it. -/
def readSlot (original : Except StateError Word) : Option CachedSlot → Except StateError Word
  | some cached => .ok cached.value
  | none => original

def CachedAccount.written? (cached : CachedAccount) : Option (Option Account) :=
  if cached.dirty then some cached.account else none

def CachedSlot.written? (cached : CachedSlot) : Option Word :=
  if cached.dirty then some cached.value else none

namespace JournaledWorld

def cachedSlot? (world : JournaledWorld) (address : Address) (slot : Word) : Option CachedSlot :=
  (world.storage.getD address ∅)[slot]?

/-- What a slot held before the transaction; zero once the account was cleared. -/
def original (world : JournaledWorld) (address : Address) (slot : Word) :
    Except StateError Word :=
  if world.cleared.contains address then .ok 0 else world.base.storage address slot

/-- What the world answers to reads, and what it would change. -/
def readings (world : JournaledWorld) : Readings where
  base := world.base
  account address := readAccount world.base address world.accounts[address]?
  slot address slot := readSlot (world.original address slot) (world.cachedSlot? address slot)
  writtenAccount address := world.accounts[address]?.bind CachedAccount.written?
  writtenSlot address slot := (world.cachedSlot? address slot).bind CachedSlot.written?
  cleared := world.cleared
  touched := world.touched

@[simp] theorem readings_base (world : JournaledWorld) : world.readings.base = world.base := rfl

@[simp] theorem readings_journal (world : JournaledWorld) (journal : List JournalEntry) :
    { world with journal }.readings = world.readings := rfl

@[simp] theorem readings_ofView (view : WorldView) :
    ({ base := view } : JournaledWorld).readings = .ofView view := by
  simp [readings, Readings.ofView, cachedSlot?, original, readAccount, readSlot]

end JournaledWorld

/-! ## Undoing -/

/-- The readings after one write was undone, given what it replaced. -/
def Readings.undo (readings : Readings) : JournalEntry → Readings
  | .account address previous =>
      { readings with
        account := fun other =>
          if address = other then readAccount readings.base other previous
          else readings.account other
        writtenAccount := fun other =>
          if address = other then previous.bind CachedAccount.written?
          else readings.writtenAccount other }
  | .slot address slot previous =>
      { readings with
        slot := fun other otherSlot =>
          if address = other ∧ slot = otherSlot then
            readSlot (readings.original other otherSlot) previous
          else readings.slot other otherSlot
        writtenSlot := fun other otherSlot =>
          if address = other ∧ slot = otherSlot then previous.bind CachedSlot.written?
          else readings.writtenSlot other otherSlot }
  | .cleared address wasCleared slots =>
      let cleared := if wasCleared then readings.cleared else readings.cleared.erase address
      { readings with
        cleared
        slot := fun other slot =>
          if address = other then
            readSlot (if cleared.contains other then .ok 0 else readings.base.storage other slot)
              (slots.getD ∅)[slot]?
          else readings.slot other slot
        writtenSlot := fun other slot =>
          if address = other then ((slots.getD ∅)[slot]?).bind CachedSlot.written?
          else readings.writtenSlot other slot }
  | .touched address => { readings with touched := readings.touched.erase address }

section Restore

variable {Key Value : Type} [Ord Key] [Std.TransOrd Key] [Std.LawfulEqOrd Key]

theorem JournaledWorld.getElem?_restore [DecidableEq Key] (values : Std.ExtTreeMap Key Value)
    (key other : Key) (previous : Option Value) :
    (restore values key previous)[other]? = if key = other then previous else values[other]? := by
  cases previous <;> simp [restore, Std.ExtTreeMap.getElem?_insert, Std.ExtTreeMap.getElem?_erase]

theorem JournaledWorld.getD_restore [DecidableEq Key] (values : Std.ExtTreeMap Key Value)
    (key other : Key) (previous : Option Value) (fallback : Value) :
    (restore values key previous).getD other fallback =
      if key = other then previous.getD fallback else values.getD other fallback := by
  rw [Std.ExtTreeMap.getD_eq_getD_getElem?, getElem?_restore]
  split
  · rfl
  · rw [Std.ExtTreeMap.getD_eq_getD_getElem?]

end Restore

namespace JournaledWorld

theorem getElem?_getD_insert (storage : Std.ExtTreeMap Address (Std.ExtTreeMap Word CachedSlot))
    (address other : Address) (slots : Std.ExtTreeMap Word CachedSlot) (slot : Word) :
    ((storage.insert address slots).getD other ∅)[slot]? =
      if address = other then slots[slot]? else (storage.getD other ∅)[slot]? := by
  rw [Std.ExtTreeMap.getD_insert]
  by_cases same : address = other <;> simp [same]

/-- A cached slot changes what is cached of that slot alone. -/
theorem cachedSlot?_insert (world : JournaledWorld) (address other : Address)
    (slot otherSlot : Word) (cached : CachedSlot) (journal : List JournalEntry) :
    ({ world with
        storage := world.storage.insert address
          ((world.storage.getD address ∅).insert slot cached)
        journal } : JournaledWorld).cachedSlot? other otherSlot =
      if address = other ∧ slot = otherSlot then some cached
      else world.cachedSlot? other otherSlot := by
  simp only [cachedSlot?, getElem?_getD_insert, Std.ExtTreeMap.getElem?_insert]
  by_cases here : address = other
  · subst here
    by_cases hereSlot : slot = otherSlot <;> simp [hereSlot]
  · simp [here]

theorem readings_undo (world : JournaledWorld) (entry : JournalEntry) :
    (world.undo entry).readings = world.readings.undo entry := by
  cases entry with
  | account address previous =>
      simp only [undo, readings, Readings.undo, cachedSlot?, original, getElem?_restore]
      congr 1 <;> funext other <;> split <;> rfl
  | slot address slot previous =>
      simp only [undo, readings, Readings.undo, cachedSlot?, original, Readings.original,
        getElem?_getD_insert, getElem?_restore]
      congr 1 <;> funext other otherSlot <;> by_cases same : address = other <;>
        by_cases sameSlot : slot = otherSlot <;> simp [same, sameSlot]
  | cleared address wasCleared slots =>
      simp only [undo, readings, Readings.undo, cachedSlot?, original, getD_restore]
      congr 1 <;> funext other slot <;> by_cases same : address = other
      · simp [same]
      · cases wasCleared <;> simp [same, Std.ExtTreeSet.contains_erase]
      · simp [same]
      · simp [same]
  | touched address => rfl

@[simp] theorem journal_undo (world : JournaledWorld) (entry : JournalEntry) :
    (world.undo entry).journal = world.journal := by
  cases entry <;> rfl

theorem base_undo (world : JournaledWorld) (entry : JournalEntry) :
    (world.undo entry).base = world.base := by
  cases entry <;> rfl

theorem base_undoLast (world : JournaledWorld) (count : Nat) :
    (world.undoLast count).base = world.base := by
  induction count generalizing world with
  | zero => rfl
  | succ count ih =>
      unfold undoLast
      split
      · rfl
      · rw [ih, base_undo]

theorem undoLast_add (world : JournaledWorld) (first second : Nat) :
    world.undoLast (first + second) = (world.undoLast first).undoLast second := by
  induction first generalizing world with
  | zero => rw [Nat.zero_add]; rfl
  | succ first ih =>
      rw [Nat.succ_add]
      cases written : world.journal with
      | nil =>
          have exhausted : world.undoLast (first + 1) = world := by simp [undoLast, written]
          rw [exhausted]
          cases second <;> simp [undoLast, written]
      | cons entry rest =>
          simp only [undoLast, written]
          exact ih _

theorem length_journal_undoLast (world : JournaledWorld) (count : Nat) :
    (world.undoLast count).journal.length = world.journal.length - count := by
  induction count generalizing world with
  | zero => rfl
  | succ count ih =>
      cases written : world.journal with
      | nil => simp [undoLast, written]
      | cons entry rest => simp [undoLast, written, ih]

/-! ## Worlds that only caches tell apart -/

/-- Two worlds with the same readings and the same writes to undo. -/
structure Alike (left right : JournaledWorld) : Prop where
  readings : left.readings = right.readings
  journal : left.journal = right.journal

namespace Alike

variable {left middle right : JournaledWorld}

theorem refl (world : JournaledWorld) : Alike world world := ⟨rfl, rfl⟩

theorem trans (first : Alike left middle) (second : Alike middle right) : Alike left right :=
  ⟨first.readings.trans second.readings, first.journal.trans second.journal⟩

/-- Undoing does not look at what was only read. -/
theorem undoLast (alike : Alike left right) (count : Nat) :
    Alike (left.undoLast count) (right.undoLast count) := by
  induction count generalizing left right with
  | zero => exact alike
  | succ count ih =>
      cases written : right.journal with
      | nil =>
          have leftWritten := alike.journal.trans written
          simpa [JournaledWorld.undoLast, written, leftWritten] using alike
      | cons entry rest =>
          have leftWritten := alike.journal.trans written
          simp only [JournaledWorld.undoLast, written, leftWritten]
          apply ih
          constructor
          · simp only [readings_undo, readings_journal, alike.readings]
          · simp only [journal_undo]

end Alike

/-! ## Ways back -/

/-- The later world's journal leads back to the earlier one. -/
def Continues (before after : JournaledWorld) : Prop :=
  ∃ writes, after.journal.length = before.journal.length + writes ∧
    Alike (after.undoLast writes) before

namespace Continues

variable {before middle after : JournaledWorld}

theorem of_alike (alike : Alike after before) : Continues before after :=
  ⟨0, by rw [alike.journal, Nat.add_zero], alike⟩

theorem refl (world : JournaledWorld) : Continues world world :=
  of_alike (.refl world)

theorem trans (first : Continues before middle) (second : Continues middle after) :
    Continues before after := by
  obtain ⟨earlier, earlierLength, toBefore⟩ := first
  obtain ⟨later, laterLength, toMiddle⟩ := second
  refine ⟨later + earlier, by omega, ?_⟩
  rw [undoLast_add]
  exact (toMiddle.undoLast earlier).trans toBefore

/-- One write with its entry on the journal. -/
theorem of_write {entry : JournalEntry} (written : after.journal = entry :: before.journal)
    (undone : after.readings.undo entry = before.readings) : Continues before after := by
  refine ⟨1, by rw [written]; rfl, ?_⟩
  have rolledBack :
      after.undoLast 1 = ({ after with journal := before.journal } : JournaledWorld).undo entry := by
    simp [undoLast, written]
  constructor
  · rw [rolledBack, readings_undo, readings_journal, undone]
  · rw [rolledBack, journal_undo]

theorem length_le (continues : Continues before after) :
    before.journal.length ≤ after.journal.length := by
  obtain ⟨writes, length, _⟩ := continues
  omega

theorem base_eq (continues : Continues before after) : after.base = before.base := by
  obtain ⟨writes, _, toBefore⟩ := continues
  have same := congrArg Readings.base toBefore.readings
  rwa [readings_base, readings_base, base_undoLast] at same

/-- Going back to where the earlier world ended. -/
theorem rollback (continues : Continues before after) :
    Alike (after.undoLast (after.journal.length - before.journal.length)) before := by
  obtain ⟨writes, length, toBefore⟩ := continues
  have all : after.journal.length - before.journal.length = writes := by omega
  rw [all]
  exact toBefore

/-- Going back to a later place than where the earlier world ended. -/
theorem revert (continues : Continues before after) {checkpoint : Nat}
    (later : before.journal.length ≤ checkpoint) :
    Continues before (after.undoLast (after.journal.length - checkpoint)) := by
  obtain ⟨writes, length, toBefore⟩ := continues
  refine ⟨writes - (after.journal.length - checkpoint), ?_, ?_⟩
  · rw [length_journal_undoLast]
    omega
  · rw [← undoLast_add, Nat.add_sub_cancel' (by omega)]
    exact toBefore

end Continues

end JournaledWorld

/-! ## Operations -/

namespace Journaled

open JournaledWorld

/-- The operation acts on the readings of every world as the model does, and what it
wrote can be undone. -/
def Follows {Value : Type} (operation : Journaled Value) (model : Observed Value) : Prop :=
  ∀ world, match model world.readings with
    | .ok value readings => ∃ after, operation world = .ok value after ∧
        after.readings = readings ∧ Continues world after
    | .error error readings => ∃ after, operation world = .error error after ∧
        after.readings = readings ∧ Continues world after

namespace Follows

variable {Value Result : Type}

theorem pure (value : Value) : Follows (Pure.pure value) (Pure.pure value) := fun world =>
  ⟨world, rfl, rfl, .refl world⟩

theorem bind {operation : Journaled Value} {model : Observed Value}
    {next : Value → Journaled Result} {nextModel : Value → Observed Result}
    (first : Follows operation model) (second : ∀ value, Follows (next value) (nextModel value)) :
    Follows (operation >>= next) (model >>= nextModel) := by
  intro world
  have ran := first world
  simp only [Bind.bind, EStateM.bind]
  cases answer : model world.readings with
  | error error readings =>
      rw [answer] at ran
      obtain ⟨after, failed, same, continues⟩ := ran
      exact ⟨after, by rw [failed], same, continues⟩
  | ok value readings =>
      rw [answer] at ran
      obtain ⟨middle, succeeded, rfl, continues⟩ := ran
      have ranNext := second value middle
      simp only [succeeded]
      cases nextAnswer : nextModel value middle.readings with
      | ok result readings =>
          rw [nextAnswer] at ranNext
          obtain ⟨after, finished, same, later⟩ := ranNext
          exact ⟨after, finished, same, continues.trans later⟩
      | error error readings =>
          rw [nextAnswer] at ranNext
          obtain ⟨after, failed, same, later⟩ := ranNext
          exact ⟨after, failed, same, continues.trans later⟩

theorem ite {condition : Prop} [Decidable condition] {left right : Journaled Value}
    {leftModel rightModel : Observed Value} (whenTrue : Follows left leftModel)
    (whenFalse : Follows right rightModel) :
    Follows (if condition then left else right) (if condition then leftModel else rightModel) := by
  by_cases holds : condition
  · simpa only [if_pos holds] using whenTrue
  · simpa only [if_neg holds] using whenFalse

/-- One write with the entry that undoes it. -/
theorem write {change : JournaledWorld → JournaledWorld} {model : Readings → Readings}
    (entry : JournaledWorld → JournalEntry)
    (written : ∀ world, (change world).journal = entry world :: world.journal)
    (changed : ∀ world, (change world).readings = model world.readings)
    (undone : ∀ world, (model world.readings).undo (entry world) = world.readings) :
    Follows (modify change) (modify model) := fun world =>
  ⟨change world, rfl, changed world,
    .of_write (written world) (by rw [changed, undone])⟩

theorem run_ok {operation : Journaled Value} {model : Observed Value}
    (follows : Follows operation model) {world after : JournaledWorld} {value : Value}
    (ran : operation world = .ok value after) :
    model world.readings = .ok value after.readings ∧ Continues world after := by
  have followed := follows world
  cases answer : model world.readings with
  | error error readings =>
      rw [answer] at followed
      obtain ⟨_, failed, _⟩ := followed
      cases ran.symm.trans failed
  | ok result readings =>
      rw [answer] at followed
      obtain ⟨_, succeeded, rfl, continues⟩ := followed
      cases ran.symm.trans succeeded
      exact ⟨rfl, continues⟩

theorem ask_eq_ok {operation : Journaled Value}
    {question : Readings → Except StateError Value} (follows : Follows operation (.ask question))
    {world after : JournaledWorld} {value : Value} (ran : operation world = .ok value after) :
    question world.readings = .ok value ∧ after.readings = world.readings ∧
      Continues world after := by
  obtain ⟨asked, continues⟩ := follows.run_ok ran
  obtain ⟨answer, same⟩ := Observed.ask_eq_ok asked
  exact ⟨answer, same, continues⟩

theorem modify_eq_ok {operation : Journaled Unit} {change : Readings → Readings}
    (follows : Follows operation (modify change)) {world after : JournaledWorld}
    (ran : operation world = .ok () after) : after.readings = change world.readings := by
  obtain ⟨changed, _⟩ := follows.run_ok ran
  injection changed with _ same
  exact same.symm

end Follows

private theorem insert_eq_of_mem {addresses : Std.ExtTreeSet Address} {address : Address}
    (member : address ∈ addresses) : addresses.insert address = addresses := by
  apply Std.ExtTreeSet.ext_mem
  intro other
  rw [Std.ExtTreeSet.mem_insert, Std.compare_eq_iff_eq]
  refine ⟨?_, .inr⟩
  rintro (rfl | already)
  · exact member
  · exact already

private theorem erase_insert_of_not_mem {addresses : Std.ExtTreeSet Address} {address : Address}
    (fresh : address ∉ addresses) : (addresses.insert address).erase address = addresses := by
  apply Std.ExtTreeSet.ext_mem
  intro other
  simp only [Std.ExtTreeSet.mem_erase, Std.ExtTreeSet.mem_insert, ne_eq, Std.compare_eq_iff_eq]
  constructor
  · rintro ⟨different, same | already⟩
    · exact absurd same different
    · exact already
  · intro already
    refine ⟨?_, .inr already⟩
    rintro rfl
    exact fresh already

private theorem get_bind_apply {Value : Type} (next : JournaledWorld → Journaled Value)
    (world : JournaledWorld) : (get >>= next : Journaled Value) world = next world world := rfl

theorem follows_lift {Value : Type} (result : Except StateError Value) :
    Follows (lift result) (Observed.ask fun _ => result) := by
  cases result <;> exact fun world => ⟨world, rfl, rfl, .refl world⟩

/-! ### Reads -/

/-- Remembering what the base holds for an account changes no reading. -/
theorem readings_rememberAccount (world : JournaledWorld) (address : Address)
    (found : Option Account) (uncached : world.accounts[address]? = none)
    (loaded : world.base.account address = .ok found) :
    ({ world with accounts := world.accounts.insert address ⟨found, false⟩ } :
      JournaledWorld).readings = world.readings := by
  simp only [readings, cachedSlot?, original, Std.ExtTreeMap.getElem?_insert]
  congr 1 <;> funext other <;> by_cases here : address = other
  · subst here
    simp [readAccount, uncached, loaded]
  · simp [here]
  · subst here
    simp [CachedAccount.written?, uncached]
  · simp [here]

theorem follows_account (address : Address) :
    Follows (account address) (Observed.account address) := by
  intro world
  have answer : world.readings.account address =
      readAccount world.base address world.accounts[address]? := rfl
  simp only [Observed.account, Observed.ask]
  cases cached : world.accounts[address]? with
  | some entry =>
      rw [answer, cached]
      have ran : account address world = .ok entry.account world := by
        simp only [account, get_bind_apply, cached]
        rfl
      exact ⟨world, ran, rfl, .refl world⟩
  | none =>
      rw [answer, cached]
      simp only [readAccount]
      cases loaded : world.base.account address with
      | error error =>
          have ran : account address world = .error error world := by
            simp only [account, get_bind_apply, cached, loaded]
            rfl
          exact ⟨world, ran, rfl, .refl world⟩
      | ok found =>
          have ran : account address world =
              .ok found
                { world with accounts := world.accounts.insert address ⟨found, false⟩ } := by
            simp only [account, get_bind_apply, cached, loaded]
            rfl
          have same := readings_rememberAccount world address found cached loaded
          exact ⟨_, ran, same, .of_alike ⟨same, rfl⟩⟩

/-- Any question that the account alone answers. -/
theorem follows_question {Value : Type} (question : Option Account → Value) (address : Address) :
    Follows (do return question (← account address))
      (do return question (← Observed.account address)) :=
  (follows_account address).bind fun _ => .pure _

theorem follows_balance (address : Address) :
    Follows (balance address) (Observed.balance address) :=
  follows_question (fun account => (account.getD {}).balance) address

/-- Remembering what the base holds for a slot, or that it was cleared, changes no reading. -/
theorem readings_rememberSlot (world : JournaledWorld) (address : Address) (slot value : Word)
    (uncached : world.cachedSlot? address slot = none)
    (loaded : world.original address slot = .ok value) :
    ({ world with
        storage := world.storage.insert address
          ((world.storage.getD address ∅).insert slot ⟨value, false⟩) } :
      JournaledWorld).readings = world.readings := by
  simp only [readings, cachedSlot?_insert]
  congr 1 <;> funext other otherSlot <;> by_cases here : address = other ∧ slot = otherSlot
  · obtain ⟨rfl, rfl⟩ := here
    simp only [and_self, ↓reduceIte, readSlot, uncached, loaded]
  · simp only [if_neg here]
    rfl
  · obtain ⟨rfl, rfl⟩ := here
    simp [CachedSlot.written?, uncached]
  · simp only [if_neg here]

theorem follows_storage (address : Address) (slot : Word) :
    Follows (storage address slot) (Observed.ask (·.slot address slot)) := by
  intro world
  have answer : world.readings.slot address slot =
      readSlot (world.original address slot) (world.cachedSlot? address slot) := rfl
  simp only [Observed.ask]
  cases cached : world.cachedSlot? address slot with
  | some entry =>
      rw [answer, cached]
      have ran : storage address slot world = .ok entry.value world := by
        simp only [cachedSlot?] at cached
        simp only [storage, get_bind_apply, cached]
        rfl
      exact ⟨world, ran, rfl, .refl world⟩
  | none =>
      rw [answer, cached]
      simp only [readSlot]
      have start : storage address slot world = 
        (do
          let value ← lift (world.original address slot)
          modify fun world =>
            { world with
              storage := world.storage.insert address
                ((world.storage.getD address ∅).insert slot ⟨value, false⟩) }
          return value : Journaled Word) world := by
        simp only [cachedSlot?] at cached
        simp only [storage, get_bind_apply, cached, original]
        split <;> rfl
      cases loaded : world.original address slot with
      | error error =>
          exact ⟨world, by rw [start, loaded]; rfl, rfl, .refl world⟩
      | ok value =>
          have same := readings_rememberSlot world address slot value cached loaded
          exact ⟨_, by rw [start, loaded]; rfl, same, .of_alike ⟨same, rfl⟩⟩

theorem follows_originalStorage (address : Address) (slot : Word) :
    Follows (originalStorage address slot) (Observed.ask (·.original address slot)) := by
  intro world
  have ran : originalStorage address slot world =
      lift (world.readings.original address slot) world := by
    by_cases cleared : world.cleared.contains address <;>
      simp only [originalStorage, get_bind_apply, Readings.original, readings, cleared,
        ↓reduceIte] <;>
      rfl
  simp only [Observed.ask, ran]
  cases world.readings.original address slot <;> exact ⟨world, rfl, rfl, .refl world⟩

/-! ### Writes -/

theorem follows_touch (address : Address) :
    Follows (touch address) (modify (·.touch address)) := by
  intro world
  have ran : touch address world =
      .ok ()
        (if world.touched.contains address then world
        else
          { world with
            touched := world.touched.insert address
            journal := .touched address :: world.journal }) := rfl
  by_cases already : address ∈ world.touched
  · rw [if_pos (Std.ExtTreeSet.contains_iff_mem.mpr already)] at ran
    have same : world.readings = world.readings.touch address := by
      simp only [Readings.touch, readings, insert_eq_of_mem already]
    exact ⟨world, ran, same, .refl world⟩
  · rw [if_neg (mt Std.ExtTreeSet.contains_iff_mem.mp already)] at ran
    have undone : (world.readings.touch address).undo (.touched address) = world.readings := by
      simp only [Readings.undo, Readings.touch, readings, erase_insert_of_not_mem already]
    exact ⟨_, ran, rfl, .of_write rfl undone⟩

/-- Replacing an account without touching it. -/
theorem follows_replaceAccount (address : Address) (account : Option Account) :
    Follows
      (modify fun world =>
        { world with
          accounts := world.accounts.insert address ⟨account, true⟩
          journal := .account address world.accounts[address]? :: world.journal })
      (modify fun readings =>
        { readings.writeAccount address account with touched := readings.touched }) := by
  apply Follows.write fun world => .account address world.accounts[address]?
  · intro world
    rfl
  · intro world
    simp only [readings, Readings.writeAccount, cachedSlot?, original,
      Std.ExtTreeMap.getElem?_insert, Std.compare_eq_iff_eq]
    congr 1 <;> funext other <;> by_cases here : address = other
    · simp only [here, ↓reduceIte, readAccount]
    · simp only [if_neg here]
    · simp only [here, ↓reduceIte, Option.bind_some, CachedAccount.written?]
    · simp only [if_neg here]
  · intro world
    simp only [readings, Readings.writeAccount, Readings.undo]
    congr 1 <;> funext other <;> by_cases here : address = other <;> simp [here]

theorem follows_writeAccount (address : Address) (account : Option Account) :
    Follows (writeAccount address account) (modify (·.writeAccount address account)) :=
  (follows_replaceAccount address account).bind fun _ => follows_touch address

theorem follows_modifyAccount (address : Address)
    (change : Account → Except StateError Account) :
    Follows (modifyAccount address change) (Observed.modifyAccount address change) :=
  (follows_account address).bind fun _ =>
    (follows_lift _).bind fun changed => follows_writeAccount address (some changed)

theorem follows_transfer (sender recipient : Address) (value : Word) :
    Follows (transfer sender recipient value) (Observed.transfer sender recipient value) :=
  .ite (follows_touch recipient)
    ((follows_modifyAccount sender _).bind fun _ => follows_modifyAccount recipient _)

theorem follows_clearStorage (address : Address) :
    Follows (clearStorage address) (modify (·.clearStorage address)) := by
  apply Follows.write fun world =>
    .cleared address (world.cleared.contains address) world.storage[address]?
  · intro world
    rfl
  · intro world
    simp only [readings, Readings.clearStorage, cachedSlot?, original,
      Std.ExtTreeMap.getD_erase, Std.ExtTreeSet.contains_insert]
    congr 1 <;> funext other slot <;> by_cases here : address = other <;> simp [here, readSlot]
  · intro world
    have restored : (if world.cleared.contains address then world.cleared.insert address
        else (world.cleared.insert address).erase address) = world.cleared := by
      split
      case isTrue already => exact insert_eq_of_mem already
      case isFalse fresh => exact erase_insert_of_not_mem fresh
    have slots (slot : Word) : (world.storage[address]?.getD ∅)[slot]? =
        world.cachedSlot? address slot := by
      rw [cachedSlot?, Std.ExtTreeMap.getD_eq_getD_getElem?]
    simp only [readings, Readings.clearStorage, Readings.undo, restored, slots, original]
    congr 1 <;> funext other slot <;> by_cases here : address = other
    · subst here
      simp only [↓reduceIte]
    · simp only [if_neg here]
    · subst here
      simp only [↓reduceIte]
    · simp only [if_neg here]

theorem follows_createContract (address : Address) :
    Follows (createContract address) (Observed.createContract address) :=
  (follows_balance address).bind fun balance =>
    (follows_clearStorage address).bind fun _ =>
      follows_writeAccount address (some { nonce := 1, balance })

theorem follows_setStorage (address : Address) (slot value : Word) :
    Follows (setStorage address slot value) (modify (·.setStorage address slot value)) := by
  apply Follows.write fun world => .slot address slot (world.cachedSlot? address slot)
  · intro world
    rfl
  · intro world
    simp only [readings, cachedSlot?_insert, Readings.setStorage]
    congr 1 <;> funext other otherSlot <;> by_cases here : address = other ∧ slot = otherSlot
    · simp only [here, and_self, ↓reduceIte, readSlot]
    · simp only [if_neg here, original]
    · simp only [here, and_self, ↓reduceIte, Option.bind_some, CachedSlot.written?]
    · simp only [if_neg here]
  · intro world
    simp only [readings, Readings.setStorage, Readings.undo, Readings.original]
    congr 1 <;> funext other otherSlot <;> by_cases here : address = other ∧ slot = otherSlot
    · obtain ⟨rfl, rfl⟩ := here
      simp [original]
    · simp only [if_neg here]
    · obtain ⟨rfl, rfl⟩ := here
      simp
    · simp only [if_neg here]

theorem follows_deleteAccount (address : Address) :
    Follows (deleteAccount address) (modify (·.deleteAccount address)) :=
  (follows_clearStorage address).bind fun _ => follows_writeAccount address none

/-! ### The end of a transaction -/

theorem follows_deleteAccounts (addresses : List Address) :
    Follows (deleteAccounts addresses) (modify (addresses.foldl Readings.deleteAccount)) := by
  induction addresses with
  | nil => exact .pure ()
  | cons address rest ih => exact (follows_deleteAccount address).bind fun _ => ih

theorem follows_deleteEmptyAccounts (addresses : List Address) :
    Follows (deleteEmptyAccounts addresses) (Observed.deleteEmptyAccounts addresses) := by
  induction addresses with
  | nil => exact .pure ()
  | cons address rest ih =>
      apply (follows_account address).bind
      intro account
      exact Follows.ite ((follows_deleteAccount address).bind fun _ => ih) ih

theorem follows_finalize (destroyed : Std.ExtTreeSet Address) :
    Follows (finalize destroyed) (Observed.finalize destroyed) := by
  apply (follows_deleteAccounts destroyed.toList).bind
  exact fun _ world => follows_deleteEmptyAccounts world.touched.toList world

end Journaled

end ExecutionLayer
