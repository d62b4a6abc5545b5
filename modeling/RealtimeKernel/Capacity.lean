/-!
Table sizes of the kernel, and the handles that index those tables. Every table has a fixed
size, so a handle is a bounded number.
-/
namespace RealtimeKernel

/-- Threads, the boot thread and the idle thread among them. -/
abbrev maxThreads : Nat := 16
/-- Semaphores; each mailbox takes two of them. -/
abbrev maxSemaphores : Nat := 24
abbrev maxMutexes : Nat := 8
abbrev maxCondVars : Nat := 8
abbrev maxMailboxes : Nat := 4
/-- The largest capacity of a mailbox, in messages. -/
abbrev maxMessages : Nat := 16
/-- Timers that applications may have armed at one time. -/
abbrev maxTimers : Nat := 8
/-- One timeout timer for each thread slot, followed by the application timers. -/
abbrev timerSlots : Nat := maxThreads + maxTimers

/-! No table is empty. The zero is the one that numerals of `Fin` refer to. -/

instance : @NeZero Nat Zero.ofOfNat0 maxThreads := ⟨by decide⟩
instance : @NeZero Nat Zero.ofOfNat0 maxSemaphores := ⟨by decide⟩
instance : @NeZero Nat Zero.ofOfNat0 maxMutexes := ⟨by decide⟩
instance : @NeZero Nat Zero.ofOfNat0 maxMailboxes := ⟨by decide⟩
instance : @NeZero Nat Zero.ofOfNat0 timerSlots := ⟨by decide⟩

abbrev ThreadId := Fin maxThreads
abbrev SemaphoreId := Fin maxSemaphores
abbrev MutexId := Fin maxMutexes
abbrev CondVarId := Fin maxCondVars
abbrev MailboxId := Fin maxMailboxes
abbrev TimerSlot := Fin timerSlots

/-- The timer slot that bounds the waits of a thread. -/
def timeoutSlot (t : ThreadId) : TimerSlot := t.castLE (by decide)

/-- An armed application timer. The generation counts the times its slot was armed, so a
handle outlives its timer without naming the next one in the slot, until the count comes
round. -/
structure TimerId where
  slot : TimerSlot
  generation : UInt16
  deriving DecidableEq, Repr

/-- Message word of mailboxes and of exiting threads. -/
abbrev Msg := Int32

/-- The name of a piece of application code: a thread body or a timer callback. -/
abbrev Routine := String

end RealtimeKernel
