import RealtimeKernel.Capacity
import RealtimeKernel.Text.Quoted

/-!
Faults: misuse of the kernel by its callers, and the internal checks that no caller should
be able to trip. A fault ends the run; it is not an answer.
-/
namespace RealtimeKernel

inductive Fault where
  /-- A priority argument that belongs to the idle thread. -/
  | idlePriorityReserved
  | notInitialized
  /-- A suspended thread can be resumed, no other. -/
  | notSuspended
  | idleThreadBlocks
  | joinsItself
  | joinsFreeSlot
  | hasJoiner (t : ThreadId)
  | exitHoldingMutexes (name : String)
  | semaphoreCountRange
  /-- A counter cannot take the value that it should. -/
  | counterOverflow
  /-- A span of time would become less than none. -/
  | counterUnderflow
  | mutexNotRecursive (m : MutexId)
  | mutexNotOwned (m : MutexId)
  | waitWithoutMutex (m : MutexId)
  | timerStale (id : TimerId)
  | timerArmed (slot : Nat)
  | timerNotArmed (slot : Nat)
  | expiredTimerAtHead
  | removeFromEmptyQueue
  | alreadyQueued (t : ThreadId)
  | alreadyRunnable (t : ThreadId)
  | noReadyThread
  /-- Control handed from a thread to itself. -/
  | switchToSelf
  | timeoutLeftArmed
  | heldMutexOverflow
  | inheritanceCycle
  /-- A thread woken from a mutex that is not its own. -/
  | mutexNotHandedOver
  deriving DecidableEq, Repr

/-- A handle as messages show it. -/
def handleText (kind : String) (n : Nat) : String := kind ++ "(" ++ toString n ++ ")"

def threadText (t : ThreadId) : String := handleText "ThreadId" t

def mutexText (m : MutexId) : String := handleText "MutexId" m

def TimerId.text (id : TimerId) : String :=
  "TimerId \x7b slot: " ++ toString id.slot.val ++ ", generation: "
    ++ toString id.generation.toNat ++ " \x7d"

def Fault.message : Fault → String
  | .idlePriorityReserved => "the idle priority is reserved"
  | .notInitialized => "kernel not initialized"
  | .notSuspended => "resuming a thread that is not suspended"
  | .idleThreadBlocks => "the idle thread must not block"
  | .joinsItself => "a thread cannot join itself"
  | .joinsFreeSlot => "joining a free slot"
  | .hasJoiner t => "thread " ++ threadText t ++ " already has a joiner"
  | .exitHoldingMutexes name => "thread " ++ Text.quoted name ++ " exited holding mutexes"
  | .semaphoreCountRange => "semaphore count out of range"
  | .counterOverflow => "attempt to add with overflow"
  | .counterUnderflow => "attempt to subtract with overflow"
  | .mutexNotRecursive m => "mutex " ++ mutexText m ++ " is not recursive"
  | .mutexNotOwned m => "mutex " ++ mutexText m ++ " not owned by the caller"
  | .waitWithoutMutex m => "condition wait without holding " ++ mutexText m
  | .timerStale id => "timer " ++ id.text ++ " already fired or was reset"
  | .timerArmed slot => "timer slot " ++ toString slot ++ " already armed"
  | .timerNotArmed slot => "timer slot " ++ toString slot ++ " is not armed"
  | .expiredTimerAtHead => "expired timer left at the head"
  | .removeFromEmptyQueue => "remove from an empty queue"
  | .alreadyQueued t => "thread " ++ threadText t ++ " is already queued"
  | .alreadyRunnable t => "thread " ++ threadText t ++ " is already runnable"
  | .noReadyThread =>
    "internal error: entered unreachable code: ready list empty: the idle thread never blocks"
  | .switchToSelf => "assertion `left != right` failed"
  | .timeoutLeftArmed => "timeout left armed after wakeup"
  | .heldMutexOverflow => "held-mutex list overflow"
  | .inheritanceCycle => "priority inheritance cycle"
  | .mutexNotHandedOver => "assertion `left == right` failed"

end RealtimeKernel
