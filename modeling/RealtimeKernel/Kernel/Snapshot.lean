import RealtimeKernel.Kernel.CondVar
import RealtimeKernel.Kernel.Mailbox
import RealtimeKernel.Kernel.Timer

/-!
What can be seen of a kernel from outside: a snapshot of all of it, and short readings.
-/
namespace RealtimeKernel

/-- A used thread slot and the threads that wait for its thread to end. -/
structure ThreadSnapshot where
  id : ThreadId
  thread : Thread
  joiners : List ThreadId
  deriving DecidableEq, Repr

structure Snapshot where
  clock : Clock
  current : ThreadId
  idle : Option ThreadId
  quantumLeft : Nat
  preemptionRequired : Bool
  contextSwitches : UInt32
  ready : List ThreadId
  threads : List ThreadSnapshot
  /-- Count and waiters of each semaphore. -/
  semaphores : List (Int × List ThreadId)
  /-- Owner and waiters of each mutex. -/
  mutexes : List (Option ThreadId × List ThreadId)
  /-- Waiters of each condition variable. -/
  condVars : List (List ThreadId)
  /-- Used and free cells of each mailbox. -/
  mailboxes : List (Nat × Nat)
  armed : Nat
  /-- The armed timers by slot, each with the ticks it has left. -/
  timers : List (TimerSlot × Nat)
  deriving DecidableEq, Repr

/-- Key figures of a run. -/
structure Stats where
  now : Ticks
  contextSwitches : UInt32
  /-- Thread slots in use. -/
  liveThreads : Nat
  armedTimers : Nat
  deriving DecidableEq, Repr

namespace Kernel

/-- The thread slots in use. -/
def activeThreads (k : Kernel) : List ThreadId :=
  (List.finRange maxThreads).filter fun t => (k.thread t).isActive

def stats (k : Kernel) : Stats where
  now := k.clock.now
  contextSwitches := k.contextSwitches
  liveThreads := k.activeThreads.length
  armedTimers := k.timers.armed

def snapshot (k : Kernel) : Snapshot where
  clock := k.clock
  current := k.current
  idle := k.idle
  quantumLeft := k.quantumLeft
  preemptionRequired := k.isPreemptionRequired
  contextSwitches := k.contextSwitches
  ready := k.members .ready
  threads := k.activeThreads.map fun t => ⟨t, k.thread t, k.members (.exit t)⟩
  semaphores := k.semaphores.handles.map fun s => (k.semaphoreCount s, k.members (.semaphore s))
  mutexes := k.mutexes.handles.map fun m => (k.owner? m, k.members (.mutex m))
  condVars := k.condVars.handles.map fun c => k.members (.condVar c)
  mailboxes := k.mailboxes.handles.map fun b => (k.mailboxUsed b, k.mailboxFree b)
  armed := k.timers.armed
  timers := k.timers.bySlot

end Kernel

end RealtimeKernel
