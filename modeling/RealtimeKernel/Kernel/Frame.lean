import RealtimeKernel.Kernel.Basic

/-!
Blocking without a stack of its own. An operation runs until it is through or until the
processor passes to another thread; what it still has to do then is a list of frames, first
things first, that wait with the thread. So an operation is a function to a `Step`: the
kernel it leaves, and the rest of it for the thread that called it.
-/
namespace RealtimeKernel

/-- What an operation answers to its caller. -/
inductive Answer where
  | unit
  | flag (b : Bool)
  | thread (r : Except KernelError ThreadId)
  | semaphore (r : Except KernelError SemaphoreId)
  | mutex (r : Except KernelError MutexId)
  | condVar (r : Except KernelError CondVarId)
  | mailbox (r : Except KernelError MailboxId)
  | timer (r : Except KernelError TimerId)
  | wakeup (r : WakeupResult)
  | posted (r : Except WaitError Unit)
  | fetched (r : Except WaitError Msg)
  | exitMessage (msg : Msg)
  | priority (p : Priority)

/-- One thing left to do, by a thread once it runs. -/
inductive Frame where
  /-- Begin the thread's code: it never ran so far. -/
  | start
  /-- Return from the operation. -/
  | answer (a : Answer)
  /-- Return with the reason for which the thread was woken. -/
  | answerWakeup
  /-- Check that no timeout of the thread is pending after a bounded wait. -/
  | awake
  /-- Collect the exit message of a thread that ended. -/
  | collect (t : ThreadId)
  /-- Check that a mutex was handed over. -/
  | locked (m : MutexId)
  /-- Lock a mutex again, then return with the reason for which the thread was woken. -/
  | relock (m : MutexId)
  /-- Put a message into a mailbox whose epoch was this. -/
  | store (b : MailboxId) (epoch : UInt32) (msg : Msg) (ahead : Bool)
  /-- Take a message from a mailbox whose epoch was this. -/
  | fetch (b : MailboxId) (epoch : UInt32)
  /-- Handle the timers that are due. -/
  | fire
  /-- Give way if another thread has to run. -/
  | preempt
  /-- The code of a timer callback, which may have been entered already. -/
  | callback (r : Routine) (entered : Bool)

abbrev Step := Kernel × List Frame

/-- A wait as far as the calling thread gets at once. -/
inductive Wait where
  /-- The wait is over already. -/
  | over (result : WakeupResult) (k : Kernel)
  /-- Another thread runs; these checks come first when the caller runs again. -/
  | blocked (checks : List Frame) (k : Kernel)

namespace Wait

/-- Return the result of the wait. -/
def thenAnswer : Wait → Step
  | .over r k => (k, [.answer (.wakeup r)])
  | .blocked checks k => (k, checks ++ [.answerWakeup])

/-- Go on with `now` if the wait is over, else leave the frame `later`. -/
def thenDo (w : Wait) (now : WakeupResult → Kernel → Outcome Step) (later : Frame) :
    Outcome Step :=
  match w with
  | .over r k => now r k
  | .blocked checks k => .ok (k, checks ++ [later])

end Wait

end RealtimeKernel
