import RealtimeKernel.Kernel.Frame

/-!
Scheduling: the ready thread of the highest priority runs; equals take turns. While the
running thread has some of its quantum left only a higher priority takes the processor from
it, afterwards an equal one does too.

Every operation here that gives the processor away does so last: the kernel it returns has
another running thread.
-/
namespace RealtimeKernel.Kernel

/-- Makes a blocked or new thread ready; its timeout, if any, is void. -/
def ready (k : Kernel) (t : ThreadId) (result : WakeupResult) : Outcome Kernel := do
  let timers ← k.require (k.timers.cancel (timeoutSlot t))
  let k := { k with timers }
  if (k.thread t).state.isRunnable then k.fail (.alreadyRunnable t)
  else
    (k.modifyThread t fun th => { th with state := .ready, wakeup := result }).enqueue .ready t

/-- Makes a suspended thread ready. -/
def resume (k : Kernel) (t : ThreadId) : Outcome Kernel :=
  if (k.thread t).state = .suspended then k.ready t .ok else k.fail .notSuspended

/-- Has the first ready thread to replace the running one? -/
def isPreemptionRequired (k : Kernel) : Bool :=
  match k.queues.ready.head with
  | none => false
  | some t =>
    if k.quantumLeft > 0 then (k.priorityOf t).isHigherThan k.running.priority
    else !k.running.priority.isHigherThan (k.priorityOf t)

/-- Takes the first ready thread out of its queue. -/
def takeNext (k : Kernel) : Outcome (ThreadId × Kernel) := do
  match ← k.dequeue .ready with
  | some next => return next
  | none => k.fail .noReadyThread

/-- Gives a thread the processor and a full quantum. -/
def makeCurrent (k : Kernel) (t : ThreadId) : Kernel :=
  { k.modifyThread t fun th => { th with state := .running, dispatches := th.dispatches + 1 } with
    current := t
    quantumLeft := k.config.quantum
    contextSwitches := k.contextSwitches + 1 }

def dispatch (k : Kernel) (source target : ThreadId) : Outcome Kernel :=
  let k := (k.makeCurrent target).note (.switched source target)
  if source = target then k.fail .switchToSelf else .ok k

/-- A thread that ran becomes ready, ahead of its equals or behind them. -/
def rejoin (k : Kernel) (t : ThreadId) (ahead : Bool) : Outcome Kernel :=
  let k := k.modifyThread t fun th => { th with state := .ready, queue := some .ready }
  if ahead then k.linkAhead .ready t else k.link .ready t

/-- The running thread becomes ready, and the first thread that was ready before runs. -/
def giveWay (k : Kernel) (ahead : Bool) : Outcome Kernel := do
  let me := k.current
  let (next, k) ← k.takeNext
  let k ← k.rejoin me ahead
  k.dispatch me next

/-- Gives way if that is required. A thread that loses the processor before its quantum is
over keeps its turn among its equals. -/
def preempt (k : Kernel) : Outcome Kernel :=
  if k.isPreemptionRequired then k.giveWay (k.quantumLeft > 0) else .ok k

/-- Gives way to a thread of the same or a higher priority, if one is ready. -/
def yieldTurn (k : Kernel) : Outcome Kernel :=
  match k.queues.ready.head with
  | none => .ok k
  | some t =>
    if k.running.priority.isHigherThan (k.priorityOf t) then .ok k else k.giveWay false

/-- Blocks the running thread, which stands in the queue that it waits in already. -/
def block (k : Kernel) (state : ThreadState) : Outcome Kernel := do
  let me := k.current
  if k.idle = some me then k.fail .idleThreadBlocks
  else
    let k := k.modifyThread me fun th => { th with state }
    let (next, k) ← k.takeNext
    k.dispatch me next

/-- Blocks the running thread for no longer than `delay`. -/
def blockFor (k : Kernel) (state : ThreadState) (delay : Delay) : Outcome Kernel := do
  let me := k.current
  let timers ← k.require (k.timers.arm (timeoutSlot me) delay (.wakeup me))
  { k with timers }.block state

/-- One more unit of a semaphore, as long as the counter can hold it. -/
def addUnit (k : Kernel) (s : SemaphoreId) : Outcome Kernel :=
  let sem := k.semaphores.get s
  if sem.count = 2147483647 then k.fail .counterOverflow
  else .ok { k with semaphores := k.semaphores.set s { count := sem.count + 1 } }

/-- Withdraws a thread from its queue, and with it its claim on a semaphore. -/
def cancelWait (k : Kernel) (t : ThreadId) : Outcome Kernel := do
  let k ← match (k.thread t).queue with
    | some (.semaphore s) => k.addUnit s
    | _ => .ok k
  k.unlink t

/-- Blocks the running thread as its timeout says. Without a wait it leaves its queue. -/
def await (k : Kernel) (state : ThreadState) (timeout : Timeout) : Outcome Wait := do
  match timeout with
  | .infinite => return .blocked [] (← k.block state)
  | .after delay => return .blocked [.awake] (← k.blockFor state delay)
  | .immediate => return .over .timeout (← k.cancelWait k.current)

/-- The timeout of a thread ran out. -/
def timeOut (k : Kernel) (t : ThreadId) : Outcome Kernel := do
  let state := (k.thread t).state
  if state.isBlocked then (← k.cancelWait t).ready t .timeout
  else return k.note (.strayTimeout t state)

/-- Makes the first thread of a queue ready. -/
def wakeFirst (k : Kernel) (q : QueueId) (result : WakeupResult) : Outcome Kernel := do
  match ← k.dequeue q with
  | none => return k
  | some (t, k) => k.ready t result

/-- Makes the first `bound` threads of a queue ready; that has to empty it. -/
def wakeUpTo (q : QueueId) (result : WakeupResult) : Nat → Kernel → Outcome Kernel
  | 0, k => if (k.queues.get q).head = none then .ok k else k.fail .removeFromEmptyQueue
  | bound + 1, k => do
    match ← k.dequeue q with
    | none => return k
    | some (t, k) => wakeUpTo q result bound (← k.ready t result)

/-- Makes every thread of a queue ready, in order. -/
def wakeAll (k : Kernel) (q : QueueId) (result : WakeupResult) : Outcome Kernel :=
  wakeUpTo q result (k.queues.get q).length.toNat k

end RealtimeKernel.Kernel
