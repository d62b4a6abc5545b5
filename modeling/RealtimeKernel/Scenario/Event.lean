import RealtimeKernel.Scenario.Script

/-!
What a run of a scenario reports: one event for each request, when it is through, and one for
each log record.
-/
namespace RealtimeKernel.Scenario

/-- The value that a request came to. -/
inductive Value where
  | unknown
  | malformed
  | unit
  | flag (b : Bool)
  | number (n : Int)
  | optional (n : Option Nat)
  | wakeup (r : WakeupResult)
  | refused (e : KernelError)
  | waitFailed (e : WaitError)
  | info (t : Option Thread)
  | stats (s : Stats)
  | snapshot (s : Snapshot)

namespace Value

/-- The value of a request for something that the kernel may refuse. -/
def ofExcept (number : α → Nat) : Except KernelError α → Value
  | .ok a => .number (number a)
  | .error e => .refused e

def ofAnswer : Answer → Value
  | .unit => .unit
  | .flag b => .flag b
  | .thread r => ofExcept Fin.val r
  | .semaphore r => ofExcept Fin.val r
  | .mutex r => ofExcept Fin.val r
  | .condVar r => ofExcept Fin.val r
  | .mailbox r => ofExcept Fin.val r
  | .timer r => ofExcept (·.slot.val) r
  | .wakeup r => .wakeup r
  | .posted (.ok ()) => .wakeup .ok
  | .posted (.error e) => .waitFailed e
  | .fetched (.ok msg) => .number msg.toInt
  | .fetched (.error e) => .waitFailed e
  | .exitMessage msg => .number msg.toInt
  | .priority p => .number p.level

end Value

/-- Who made a request. -/
inductive Source where
  | thread (t : ThreadId)
  | callback (r : Routine)
  deriving DecidableEq, Repr

inductive Event where
  | log (r : LogRecord)
  | request (source : Source) (name : String) (value : Value) (now : Ticks)
    (snapshot : Option Snapshot)

/-- How a run ended. -/
inductive Ending where
  /-- The boot script is through. -/
  | done
  /-- Nothing can happen any more. -/
  | deadlock
  | tickLimit
  | bootFailed
  | fault (f : Fault)
  /-- The bound on the number of steps was reached first. -/
  | unfinished
  deriving DecidableEq, Repr

structure Report where
  ending : Ending
  events : Array Event
  final : Snapshot

end RealtimeKernel.Scenario
