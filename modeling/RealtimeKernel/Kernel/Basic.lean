import RealtimeKernel.Config
import RealtimeKernel.LogRecord
import RealtimeKernel.Pool
import RealtimeKernel.Ring
import RealtimeKernel.ThreadQueue
import RealtimeKernel.TimerQueue

/-!
The kernel as one value: threads, queues, timers and objects. An operation maps a kernel to
its successor or to a `Halt`, the kernel as a fault left it.

This module holds the state and what moves a thread between queues. The queue that a thread
stands in is written in its record, so to take a thread out of its queue it is enough to
name the thread.
-/
namespace RealtimeKernel

/-- Every queue of the kernel, over one table of links. -/
structure Queues where
  links : Links maxThreads := .empty maxThreads
  ready : ThreadQueue maxThreads := {}
  semaphores : Vector (ThreadQueue maxThreads) maxSemaphores := .replicate _ {}
  mutexes : Vector (ThreadQueue maxThreads) maxMutexes := .replicate _ {}
  condVars : Vector (ThreadQueue maxThreads) maxCondVars := .replicate _ {}
  exits : Vector (ThreadQueue maxThreads) maxThreads := .replicate _ {}
  deriving DecidableEq, Repr

namespace Queues

def get (qs : Queues) : QueueId → ThreadQueue maxThreads
  | .ready => qs.ready
  | .semaphore s => qs.semaphores.get s
  | .mutex m => qs.mutexes.get m
  | .condVar c => qs.condVars.get c
  | .exit t => qs.exits.get t

def set (qs : Queues) (id : QueueId) (q : ThreadQueue maxThreads) : Queues :=
  match id with
  | .ready => { qs with ready := q }
  | .semaphore s => { qs with semaphores := qs.semaphores.set s q s.isLt }
  | .mutex m => { qs with mutexes := qs.mutexes.set m q m.isLt }
  | .condVar c => { qs with condVars := qs.condVars.set c q c.isLt }
  | .exit t => { qs with exits := qs.exits.set t q t.isLt }

/-- The members of a queue, in order. -/
def members (qs : Queues) (id : QueueId) : List ThreadId := (qs.get id).toList qs.links

end Queues

structure Semaphore where
  /-- Units available, or less than zero, the number of threads waiting for one. -/
  count : Int := 0
  deriving DecidableEq, Repr

structure Mutex where
  owner : Option ThreadId := none
  deriving DecidableEq, Repr

/-- A condition variable is its queue of waiters and nothing else. -/
structure CondVar where
  deriving DecidableEq, Repr

/-- A ring of messages and the two semaphores that count its free and its used cells. -/
structure Mailbox where
  capacity : Nat
  ring : Ring Msg capacity
  /-- Changes with every reset. -/
  epoch : UInt32 := 0
  empty : SemaphoreId
  full : SemaphoreId

/-- What a timer does when it is due. -/
inductive TimerAction where
  /-- The wait of a thread times out. -/
  | wakeup (t : ThreadId)
  | callback (r : Routine)
  deriving DecidableEq, Repr

structure Kernel where
  config : Config
  threads : Vector Thread maxThreads := .replicate _ {}
  queues : Queues := {}
  /-- The running thread. -/
  current : ThreadId := 0
  /-- Ticks left before the running thread has to give way to an equal. -/
  quantumLeft : Nat := 0
  contextSwitches : UInt32 := 0
  timers : TimerQueue timerSlots TimerAction := .empty _ _
  semaphores : Pool maxSemaphores Semaphore := .empty _ {}
  mutexes : Pool maxMutexes Mutex := .empty _ {}
  condVars : Pool maxCondVars CondVar := .empty _ {}
  mailboxes : Pool maxMailboxes Mailbox :=
    .empty _ { capacity := 1, ring := .empty 0 Nat.one_pos, empty := 0, full := 0 }
  clock : Clock := {}
  /-- The idle thread. -/
  idle : Option ThreadId := none
  initialized : Bool := false
  /-- Log records not yet collected, the newest first. -/
  journal : List LogRecord := []

/-- A fault, and the kernel as it left it. -/
structure Halt where
  fault : Fault
  kernel : Kernel

abbrev Outcome (α : Type) := Except Halt α

namespace Kernel

def fail (k : Kernel) (f : Fault) : Outcome α := .error ⟨f, k⟩

/-- The result of a check on a part of the kernel. -/
def require (k : Kernel) : Except Fault α → Outcome α
  | .ok a => .ok a
  | .error f => k.fail f

def note (k : Kernel) (r : LogRecord) : Kernel := { k with journal := r :: k.journal }

def thread (k : Kernel) (t : ThreadId) : Thread := k.threads.get t

/-- The record of the running thread. -/
def running (k : Kernel) : Thread := k.thread k.current

def setThread (k : Kernel) (t : ThreadId) (th : Thread) : Kernel :=
  { k with threads := k.threads.set t th t.isLt }

def modifyThread (k : Kernel) (t : ThreadId) (f : Thread → Thread) : Kernel :=
  k.setThread t (f (k.thread t))

def priorityOf (k : Kernel) (t : ThreadId) : Priority := (k.thread t).priority

/-- The threads in a queue, in order. -/
def members (k : Kernel) (q : QueueId) : List ThreadId := k.queues.members q

/-! Queue membership. `link` and `unlinkFrom` change a queue alone; the operations after
them keep the thread's record in step. -/

/-- A queue, and with it the links, as an operation on it left them. -/
def putQueue (k : Kernel) (q : QueueId) (r : ThreadQueue maxThreads × Links maxThreads) : Kernel :=
  { k with queues := { k.queues with links := r.2 }.set q r.1 }

/-- What an operation on a queue came to. -/
def relink (k : Kernel) (q : QueueId) (f : Fault) :
    Option (ThreadQueue maxThreads × Links maxThreads) → Outcome Kernel
  | none => k.fail f
  | some r => .ok (k.putQueue q r)

/-- Puts a thread into a queue behind its equals. -/
def link (k : Kernel) (q : QueueId) (t : ThreadId) : Outcome Kernel :=
  k.relink q .counterOverflow ((k.queues.get q).insert k.queues.links k.priorityOf t)

/-- Puts a thread into a queue ahead of its equals. -/
def linkAhead (k : Kernel) (q : QueueId) (t : ThreadId) : Outcome Kernel :=
  k.relink q .counterOverflow ((k.queues.get q).insertAhead k.queues.links k.priorityOf t)

def unlinkFrom (k : Kernel) (q : QueueId) (t : ThreadId) : Outcome Kernel :=
  k.relink q .removeFromEmptyQueue ((k.queues.get q).remove k.queues.links t)

def setQueue (k : Kernel) (t : ThreadId) (q : Option QueueId) : Kernel :=
  k.modifyThread t fun th => { th with queue := q }

/-- Puts a thread that stands in no queue into one. -/
def enqueue (k : Kernel) (q : QueueId) (t : ThreadId) : Outcome Kernel :=
  if (k.thread t).queue = none then do return (← k.link q t).setQueue t (some q)
  else k.fail (.alreadyQueued t)

/-- Takes a thread out of the queue that it stands in, if any. -/
def unlink (k : Kernel) (t : ThreadId) : Outcome Kernel :=
  match (k.thread t).queue with
  | none => .ok k
  | some q => do return (← k.unlinkFrom q t).setQueue t none

/-- Takes the first thread out of a queue. -/
def dequeue (k : Kernel) (q : QueueId) : Outcome (Option (ThreadId × Kernel)) :=
  match (k.queues.get q).popFront k.queues.links with
  | none => k.fail .removeFromEmptyQueue
  | some (none, _) => .ok none
  | some (some t, r) => .ok (some (t, (k.putQueue q r).setQueue t none))

/-- Moves a thread to the place in its queue that its priority asks for. -/
def requeue (k : Kernel) (t : ThreadId) : Outcome Kernel :=
  match (k.thread t).queue with
  | none => .ok k
  | some q => do (← k.unlinkFrom q t).link q t

/-- A slot whose record is replaced stands in no queue. -/
def replaceThread (k : Kernel) (t : ThreadId) (th : Thread) : Kernel :=
  let k := k.setThread t th
  { k with queues := { k.queues with links := k.queues.links.set t {} t.isLt } }

/-- Makes a slot free. -/
def vacate (k : Kernel) (t : ThreadId) : Kernel := k.replaceThread t {}

end Kernel

end RealtimeKernel
