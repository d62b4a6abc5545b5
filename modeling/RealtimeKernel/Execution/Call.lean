import RealtimeKernel.Kernel.CondVar
import RealtimeKernel.Kernel.Lifecycle
import RealtimeKernel.Kernel.Mailbox
import RealtimeKernel.Kernel.Timer

/-!
The operations of the kernel as data, and what each does to the kernel for the thread that
asks for it.
-/
namespace RealtimeKernel

/-- Operations that do not block, for use where nothing may block: in timer callbacks and
under the kernel's lock. Only `preempt` gives the processor away. -/
inductive InterruptCall where
  | preempt
  | tick
  | resume (t : ThreadId)
  | signal (s : SemaphoreId)
  | resetSemaphore (s : SemaphoreId) (count : Nat)
  | tryLock (m : MutexId)
  | signalCondition (c : CondVarId)
  | broadcast (c : CondVarId)
  | post (b : MailboxId) (msg : Msg) (ahead : Bool)
  | fetch (b : MailboxId)
  | resetMailbox (b : MailboxId)
  | setTimer (delay : Delay) (r : Routine)
  | resetTimer (id : TimerId)
  deriving DecidableEq, Repr

namespace InterruptCall

/-- Does every handle name an object that was created? -/
def handlesExist (k : Kernel) : InterruptCall → Bool
  | .signal s | .resetSemaphore s _ => k.semaphores.contains s
  | .tryLock m => k.mutexes.contains m
  | .signalCondition c | .broadcast c => k.condVars.contains c
  | .post b _ _ | .fetch b | .resetMailbox b => k.mailboxes.contains b
  | .preempt | .tick | .resume _ | .setTimer _ _ | .resetTimer _ => true

def run (k : Kernel) : InterruptCall → Outcome Step
  | .preempt => do return (← k.preempt, [.answer .unit])
  | .tick => do return (← k.beginTick, [.fire, .answer .unit])
  | .resume t => do return (← k.resume t, [.answer .unit])
  | .signal s => do return (← k.signal s, [.answer .unit])
  | .resetSemaphore s count => do return (← k.resetSemaphore s count, [.answer .unit])
  | .tryLock m => do
    let (locked, k) ← k.tryLock m
    return (k, [.answer (.flag locked)])
  | .signalCondition c => do return (← k.signalCondition c, [.answer .unit])
  | .broadcast c => do return (← k.broadcast c, [.answer .unit])
  | .post b msg ahead => do
    let (r, k) ← k.postNow b msg ahead
    return (k, [.answer (.posted r)])
  | .fetch b => do
    let (r, k) ← k.fetchNow b
    return (k, [.answer (.fetched r)])
  | .resetMailbox b => do return (← k.resetMailbox b, [.answer .unit])
  | .setTimer delay r => do
    let (id, k) ← k.setTimer delay r
    return (k, [.answer (.timer id)])
  | .resetTimer id => do return (← k.resetTimer id, [.answer .unit])

end InterruptCall

/-- Operations of threads. -/
inductive Operation where
  | join (t : ThreadId)
  | yieldTurn
  | sleep (ticks : Ticks)
  | sleepUntil (deadline : Ticks)
  | suspend (timeout : Timeout)
  | resume (t : ThreadId)
  | requestTerminate (t : ThreadId)
  | setPriority (p : Priority)
  | tick
  | createSemaphore (count : Nat)
  | waitSemaphore (s : SemaphoreId) (timeout : Timeout)
  | signal (s : SemaphoreId)
  | resetSemaphore (s : SemaphoreId) (count : Nat)
  | signalAndWait (signalled awaited : SemaphoreId)
  | createMutex
  | lock (m : MutexId)
  | tryLock (m : MutexId)
  | unlock (m : MutexId)
  | unlockAll
  | createCondVar
  | waitCondition (c : CondVarId) (m : MutexId) (timeout : Timeout)
  | signalCondition (c : CondVarId)
  | broadcast (c : CondVarId)
  | createMailbox (capacity : Nat)
  | post (b : MailboxId) (msg : Msg) (ahead : Bool) (timeout : Timeout)
  | fetch (b : MailboxId) (timeout : Timeout)
  | resetMailbox (b : MailboxId)
  | setTimer (delay : Delay) (r : Routine)
  | resetTimer (id : TimerId)
  deriving DecidableEq, Repr

namespace Operation

/-- Does every handle name an object that was created? -/
def handlesExist (k : Kernel) : Operation → Bool
  | .waitSemaphore s _ | .signal s | .resetSemaphore s _ => k.semaphores.contains s
  | .signalAndWait s₁ s₂ => k.semaphores.contains s₁ && k.semaphores.contains s₂
  | .lock m | .tryLock m | .unlock m => k.mutexes.contains m
  | .waitCondition c m _ => k.condVars.contains c && k.mutexes.contains m
  | .signalCondition c | .broadcast c => k.condVars.contains c
  | .post b _ _ _ | .fetch b _ | .resetMailbox b => k.mailboxes.contains b
  | _ => true

/-- Gives way, if that is required, and returns. -/
def finish (k : Kernel) : Outcome Step := do return (← k.preempt, [.answer .unit])

def run (k : Kernel) : Operation → Outcome Step
  | .join t => k.join t
  | .yieldTurn => do return (← k.yieldTurn, [.answer .unit])
  | .sleep ticks => k.sleep ticks
  | .sleepUntil deadline => k.sleepUntil deadline
  | .suspend timeout => k.suspend timeout
  | .resume t => do finish (← k.resume t)
  | .requestTerminate t => .ok (k.requestTerminate t, [.answer .unit])
  | .setPriority p => k.setPriority p
  | .tick => do return (← k.beginTick, [.fire, .preempt, .answer .unit])
  | .createSemaphore count => do
    let (r, k) ← k.createSemaphore count
    return (k, [.answer (.semaphore r)])
  | .waitSemaphore s timeout => do
    return (← k.waitUnit s timeout .waitingSemaphore).thenAnswer
  | .signal s => do finish (← k.signal s)
  | .resetSemaphore s count => do finish (← k.resetSemaphore s count)
  | .signalAndWait signalled awaited => k.signalAndWait signalled awaited
  | .createMutex =>
    let (r, k) := k.createMutex
    .ok (k, [.answer (.mutex r)])
  | .lock m => do
    let (k, rest) ← k.lock m
    return (k, rest ++ [.answer .unit])
  | .tryLock m => InterruptCall.run k (.tryLock m)
  | .unlock m => do finish (← k.release m)
  | .unlockAll => do finish (← k.releaseAll)
  | .createCondVar =>
    let (r, k) := k.createCondVar
    .ok (k, [.answer (.condVar r)])
  | .waitCondition c m timeout => k.waitCondition c m timeout
  | .signalCondition c => do finish (← k.signalCondition c)
  | .broadcast c => do finish (← k.broadcast c)
  | .createMailbox capacity => do
    let (r, k) ← k.createMailbox capacity
    return (k, [.answer (.mailbox r)])
  | .post b msg ahead timeout => k.post b msg ahead timeout
  | .fetch b timeout => k.fetch b timeout
  | .resetMailbox b => do finish (← k.resetMailbox b)
  | .setTimer delay r => InterruptCall.run k (.setTimer delay r)
  | .resetTimer id => InterruptCall.run k (.resetTimer id)

end Operation

/-- What a thread may ask for. -/
inductive Call where
  /-- Bring the kernel up; the caller becomes the boot thread. -/
  | boot
  /-- Create a thread and make it ready. -/
  | spawn (name : String) (priority : Priority) (r : Routine)
  /-- End the calling thread. -/
  | exit (msg : Msg)
  | operation (o : Operation)
  deriving DecidableEq, Repr

/-- Does every handle name an object that was created? -/
def Call.handlesExist (k : Kernel) : Call → Bool
  | .operation o => o.handlesExist k
  | .boot | .spawn .. | .exit _ => true

end RealtimeKernel
