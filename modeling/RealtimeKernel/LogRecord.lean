import RealtimeKernel.Fault
import RealtimeKernel.Thread

/-!
The kernel's own log: what it reports of threads, objects and the processor changing hands.
-/
namespace RealtimeKernel

inductive LogLevel where
  | error
  | warn
  | debug
  | trace
  deriving DecidableEq, Repr

inductive LogRecord where
  | threadCreated (name : String) (t : ThreadId) (priority : Priority)
  | kernelUp (tickRate quantum : Nat)
  | threadExited (name : String) (msg : Msg)
  | semaphoreCreated (s : SemaphoreId) (count : Nat)
  | mutexCreated (m : MutexId)
  | condVarCreated (c : CondVarId)
  | mailboxCreated (b : MailboxId) (capacity : Nat)
  | switched (source target : ThreadId)
  /-- The first thread ended, the second has the processor. -/
  | finished (source target : ThreadId)
  /-- A timeout ran out for a thread that was not waiting. -/
  | strayTimeout (t : ThreadId) (state : ThreadState)
  | inheritanceTooLong
  deriving DecidableEq, Repr

namespace LogRecord

def level : LogRecord → LogLevel
  | .threadCreated .. | .kernelUp .. | .threadExited .. | .semaphoreCreated .. | .mutexCreated ..
  | .condVarCreated .. | .mailboxCreated .. => .debug
  | .switched .. | .finished .. => .trace
  | .strayTimeout .. => .warn
  | .inheritanceTooLong => .error

def text : LogRecord → String
  | .threadCreated name t p =>
    "thread " ++ Text.quoted name ++ " created as " ++ threadText t ++ " at "
      ++ handleText "Priority" p.level
  | .kernelUp tickRate quantum =>
    "kernel up: " ++ toString tickRate ++ " Hz tick, " ++ toString quantum ++ " tick quantum"
  | .threadExited name msg =>
    "thread " ++ Text.quoted name ++ " exited with " ++ toString msg.toInt
  | .semaphoreCreated s count =>
    "semaphore " ++ handleText "SemaphoreId" s ++ " created with count " ++ toString count
  | .mutexCreated m => "mutex " ++ mutexText m ++ " created"
  | .condVarCreated c => "condition variable " ++ handleText "CondVarId" c ++ " created"
  | .mailboxCreated b capacity =>
    "mailbox " ++ handleText "MailboxId" b ++ " created with " ++ toString capacity ++ " slots"
  | .switched source target => "switch " ++ threadText source ++ " -> " ++ threadText target
  | .finished source target =>
    threadText source ++ " finished, switching to " ++ threadText target
  | .strayTimeout t state => "timeout fired for " ++ threadText t ++ " in state " ++ state.name
  | .inheritanceTooLong =>
    "priority inheritance chain exceeds " ++ toString maxThreads
      ++ " threads, cycle suspected"

end LogRecord

end RealtimeKernel
