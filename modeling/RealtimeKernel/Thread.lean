import RealtimeKernel.Capacity
import RealtimeKernel.Error
import RealtimeKernel.Priority

/-!
Thread records: what the kernel keeps for each of its thread slots.
-/
namespace RealtimeKernel

inductive ThreadState where
  /-- The slot is free. -/
  | inactive
  | ready
  | running
  /-- Parked until it is resumed; also a thread just created. -/
  | suspended
  | waitingSemaphore
  | waitingMutex
  | waitingCondVar
  | waitingMailbox
  /-- Waiting for another thread to end. -/
  | waitingExit
  | sleeping
  /-- Ended, but its exit message is not collected yet. -/
  | final
  deriving DecidableEq, Repr

namespace ThreadState

def all : List ThreadState :=
  [.inactive, .ready, .running, .suspended, .waitingSemaphore, .waitingMutex,
    .waitingCondVar, .waitingMailbox, .waitingExit, .sleeping, .final]

def name : ThreadState → String
  | .inactive => "Inactive"
  | .ready => "Ready"
  | .running => "Running"
  | .suspended => "Suspended"
  | .waitingSemaphore => "WaitingSemaphore"
  | .waitingMutex => "WaitingMutex"
  | .waitingCondVar => "WaitingCondVar"
  | .waitingMailbox => "WaitingMailbox"
  | .waitingExit => "WaitingExit"
  | .sleeping => "Sleeping"
  | .final => "Final"

/-- Parked on a kernel object, on another thread or on a timeout. -/
def isBlocked : ThreadState → Bool
  | .suspended | .waitingSemaphore | .waitingMutex | .waitingCondVar | .waitingMailbox
  | .waitingExit | .sleeping => true
  | .inactive | .ready | .running | .final => false

/-- Ready to run, or running. -/
def isRunnable : ThreadState → Bool
  | .ready | .running => true
  | _ => false

end ThreadState

/-- Why a blocked thread was made ready. -/
inductive WakeupResult where
  /-- Its event happened. -/
  | ok
  | timeout
  /-- The object was reset, or all its waiters were released together. -/
  | reset
  deriving DecidableEq, Repr

def WakeupResult.isOk : WakeupResult → Bool
  | .ok => true
  | .timeout | .reset => false

def WakeupResult.toExcept : WakeupResult → Except WaitError Unit
  | .ok => .ok ()
  | .timeout => .error .timeout
  | .reset => .error .reset

/-- The queues of the kernel. -/
inductive QueueId where
  | ready
  | semaphore (s : SemaphoreId)
  | mutex (m : MutexId)
  | condVar (c : CondVarId)
  /-- Waiting for this thread to end. -/
  | exit (t : ThreadId)
  deriving DecidableEq, Repr

/-- What a thread runs when it is given the processor for the first time. -/
inductive Entry where
  | idle
  | routine (r : Routine)
  deriving DecidableEq, Repr

/-- The record of a thread slot; as it stands, that of a free slot. -/
structure Thread where
  name : String := ""
  /-- Effective priority: the base priority, or what waiters on its mutexes lend. -/
  priority : Priority := .idle
  base : Priority := .idle
  state : ThreadState := .inactive
  /-- Set by whoever makes the thread ready. -/
  wakeup : WakeupResult := .ok
  /-- The queue that the thread stands in. -/
  queue : Option QueueId := none
  /-- Mutexes that the thread owns, in the order of locking. -/
  held : List MutexId := []
  exitMsg : Msg := 0
  /-- Someone asked the thread to end. -/
  terminate : Bool := false
  /-- Times that the thread was given the processor. -/
  dispatches : UInt32 := 0
  /-- Code not started yet. -/
  entry : Option Entry := none
  deriving DecidableEq, Repr

namespace Thread

/-- The record of a thread just created. -/
def create (name : String) (priority : Priority) (entry : Option Entry) : Thread :=
  { name, priority, base := priority, state := .suspended, entry }

def isActive (t : Thread) : Bool := t.state != .inactive

end Thread

end RealtimeKernel
