import RealtimeKernel.Execution.Move
import RealtimeKernel.Kernel.Snapshot

/-!
Scripts: what the threads and timer callbacks of a scenario do, line by line. A line carries
the name that reports give it. Timers are named by the order in which they were set.
-/
namespace RealtimeKernel.Scenario

/-- Readings of the kernel. They change nothing. -/
inductive Query where
  | now
  | current
  | priority
  | shouldTerminate
  | info (t : ThreadId)
  | inWindow (start stop : Ticks)
  | msToTicks (ms : Nat)
  | quantum
  | stats
  | snapshot
  | preemptionRequired
  | semaphoreCount (s : SemaphoreId)
  | mutexOwner (m : MutexId)
  | mailboxUsed (b : MailboxId)
  | mailboxFree (b : MailboxId)
  | timerArmed (timer : Nat)
  | timerRemaining (timer : Nat)
  deriving DecidableEq, Repr

/-- Requests that a timer callback may make, and a thread under the kernel's lock. -/
inductive InterruptRequest where
  /-- There is no such operation. -/
  | unknown
  /-- The operation exists, but not with such arguments. -/
  | malformed
  | query (q : Query)
  | call (c : InterruptCall)
  | setTimer (delay : Delay) (callback : String)
  | resetTimer (timer : Nat)
  deriving DecidableEq, Repr

/-- Requests of threads. -/
inductive Request where
  | unknown
  | malformed
  | query (q : Query)
  | call (c : Call)
  /-- Spawns the thread that the scenario has under this key. -/
  | spawn (key : String)
  /-- Resumes a thread if it is suspended, and tells whether. -/
  | resumeIf (t : ThreadId)
  | setTimer (delay : Delay) (callback : String)
  | resetTimer (timer : Nat)
  /-- Cancels a timer if it is still to come, and tells whether. -/
  | resetTimerIf (timer : Nat)
  | ticks (n : Nat)
  /-- Sets a timer and cancels it, over and over. -/
  | churn (n : Nat)
  deriving DecidableEq, Repr

structure InterruptLine where
  name : String
  request : InterruptRequest
  deriving DecidableEq, Repr

/-- A line of a thread's script. -/
inductive Command where
  | exit (msg : Msg)
  | loop (times : Nat) (body : List Command)
  /-- Repeats its body until the thread is asked to end. -/
  | untilTerminated (body : List Command)
  /-- Makes requests under the kernel's lock. -/
  | underLock (name : String) (body : List InterruptLine)
  | request (name : String) (r : Request)
  deriving Inhabited

/-- A thread that a scenario may spawn. -/
structure ThreadScript where
  name : String
  priority : Priority
  body : List Command

end Scenario

/-- A kernel with all that happens to it. -/
structure Scenario where
  config : Config := .standard
  /-- The script of the boot thread. -/
  main : List Scenario.Command
  threads : List (String × Scenario.ThreadScript) := []
  callbacks : List (String × List Scenario.InterruptLine) := []
  /-- What the idle thread does before anything else. -/
  idle : List Scenario.Command := []
  /-- The time at which the kernel starts. -/
  startTime : Ticks := 0
  /-- The idle thread makes time pass for so many ticks after the start. -/
  tickLimit : Nat := 5000
  /-- The requests for a thread context that the platform turns down. -/
  refusals : List Nat := []
  /-- Whether reports carry a snapshot. -/
  trace : Bool := false
  /-- Whether the kernel's log is reported. -/
  log : Bool := false
  /-- Whether the kernel is brought up before the boot script. -/
  boots : Bool := true

end RealtimeKernel
