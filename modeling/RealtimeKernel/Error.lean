/-!
Outcomes that a caller has to expect: a wait that did not end with its event, and a request
that the kernel cannot satisfy. Misuse is not among them; that is a `Fault`.
-/
namespace RealtimeKernel

/-- Why a wait ended without its event. -/
inductive WaitError where
  | timeout
  | reset
  deriving DecidableEq, Repr

def WaitError.message : WaitError → String
  | .timeout => "wait timed out"
  | .reset => "object was reset while waiting"

/-- Settings that the kernel cannot run with. -/
inductive ConfigError where
  | zeroTickRate
  | zeroQuantum
  | idleMainPriority
  deriving DecidableEq, Repr

def ConfigError.message : ConfigError → String
  | .zeroTickRate => "tick frequency must be non-zero"
  | .zeroQuantum => "time quantum must be at least one tick"
  | .idleMainPriority => "the idle priority is reserved for the idle thread"

/-- Requests that the kernel turns down. -/
inductive KernelError where
  | threadTableFull
  | semaphoreTableFull
  | mutexTableFull
  | condVarTableFull
  | mailboxTableFull
  | timerTableFull
  | invalidCapacity (capacity : Nat)
  | alreadyInitialized
  | contextUnavailable
  | config (cause : ConfigError)
  deriving DecidableEq, Repr

def KernelError.message : KernelError → String
  | .threadTableFull => "thread table is full"
  | .semaphoreTableFull => "semaphore table is full"
  | .mutexTableFull => "mutex table is full"
  | .condVarTableFull => "condition variable table is full"
  | .mailboxTableFull => "mailbox table is full"
  | .timerTableFull => "no free virtual timer"
  | .invalidCapacity n => "mailbox capacity " ++ toString n ++ " is out of range"
  | .alreadyInitialized => "kernel is already initialized"
  | .contextUnavailable => "port could not prepare a thread context"
  | .config cause => "invalid configuration: " ++ cause.message

end RealtimeKernel
