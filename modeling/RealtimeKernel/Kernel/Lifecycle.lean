import RealtimeKernel.Kernel.Scheduler

/-!
Threads from creation to collection, and what a thread may do to itself and to others.
-/
namespace RealtimeKernel.Kernel

/-- The boot thread's slot. -/
def mainThread : ThreadId := 0

/-- The part of bringing the kernel up that precedes the idle thread: the calling code
becomes the boot thread. -/
def boot (k : Kernel) : Except KernelError Kernel := do
  match k.config.validate with
  | .error e => throw (.config e)
  | .ok () =>
    if k.initialized then throw .alreadyInitialized
    else
      let main : Thread :=
        { Thread.create "main" k.config.mainPriority none with state := .running, dispatches := 1 }
      return { { k with initialized := true }.replaceThread mainThread main with
        current := mainThread
        quantumLeft := k.config.quantum }

def freeSlot? (k : Kernel) : Option ThreadId :=
  (List.finRange maxThreads).find? fun t => !(k.thread t).isActive

/-- Waits for a thread to end and collects its exit message; its slot is free afterwards. -/
def collect (k : Kernel) (t : ThreadId) : Step :=
  (k.vacate t, [.answer (.exitMessage (k.thread t).exitMsg)])

/-- Collects the exit message of a thread, waiting until it ends. -/
def join (k : Kernel) (t : ThreadId) : Outcome Step := do
  if t = k.current then k.fail .joinsItself
  else if !(k.thread t).isActive then k.fail .joinsFreeSlot
  else if (k.thread t).state = .final then return k.collect t
  else if (k.queues.get (.exit t)).head.isSome then k.fail (.hasJoiner t)
  else
    let k ← k.enqueue (.exit t) k.current
    return (← k.block .waitingExit, [.collect t])

/-- Ends the running thread. -/
def exit (k : Kernel) (msg : Msg) : Outcome Kernel := do
  let me := k.current
  if k.running.held.isEmpty then
    let k := k.modifyThread me fun th => { th with exitMsg := msg, state := .final }
    let k := k.note (.threadExited k.running.name msg)
    let k ← k.wakeAll (.exit me) .ok
    let (next, k) ← k.takeNext
    return (k.makeCurrent next).note (.finished me next)
  else k.fail (.exitHoldingMutexes k.running.name)

/-- Changes the running thread's base priority. What is lent to it above that stays. -/
def setPriority (k : Kernel) (p : Priority) : Outcome Step := do
  if p = .idle then k.fail .idlePriorityReserved
  else
    let old := k.running.base
    let k := k.modifyThread k.current fun th =>
      { th with
        priority := if th.priority = th.base || p.isHigherThan th.priority then p else th.priority
        base := p }
    return (← k.preempt, [.answer (.priority old)])

def sleep (k : Kernel) (ticks : Ticks) : Outcome Step := do
  match Delay.ofTicks? ticks with
  | some delay => return (← k.blockFor .sleeping delay, [.awake, .answer .unit])
  | none => return (← k.yieldTurn, [.answer .unit])

/-- Sleeps until the clock shows `deadline`; if it does already, not at all. -/
def sleepUntil (k : Kernel) (deadline : Ticks) : Outcome Step := do
  match Delay.ofTicks? (deadline - k.clock.now) with
  | some delay => return (← k.blockFor .sleeping delay, [.awake, .answer .unit])
  | none => return (k, [.answer .unit])

/-- Parks the running thread until it is resumed. -/
def suspend (k : Kernel) (timeout : Timeout) : Outcome Step := do
  return (← k.await .suspended timeout).thenAnswer

/-- Asks a thread to end; whether and when it does is up to the thread. -/
def requestTerminate (k : Kernel) (t : ThreadId) : Kernel :=
  k.modifyThread t fun th => { th with terminate := true }

end RealtimeKernel.Kernel
