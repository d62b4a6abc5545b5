import RealtimeKernel.Kernel.Scheduler

/-!
Mutexes with priority inheritance. A thread that blocks on a mutex lends its priority to the
owner, and on along the mutexes that owners themselves wait for; an owner that unlocks keeps
what the waiters of its other mutexes lend. A mutex with waiters is never free: unlocking
hands it to the first of them.
-/
namespace RealtimeKernel.Kernel

def createMutex (k : Kernel) : Except KernelError MutexId × Kernel :=
  match k.mutexes.push? {} with
  | some (m, mutexes) => (.ok m, { k with mutexes }.note (.mutexCreated m))
  | none => (.error .mutexTableFull, k)

def owner? (k : Kernel) (m : MutexId) : Option ThreadId := (k.mutexes.get m).owner

def setOwner (k : Kernel) (m : MutexId) (owner : Option ThreadId) : Kernel :=
  { k with mutexes := k.mutexes.set m { owner } }

/-- Makes a thread the owner of a free mutex. -/
def takeMutex (k : Kernel) (m : MutexId) (t : ThreadId) : Outcome Kernel :=
  let k := k.setOwner m (some t)
  if (k.thread t).held.length < maxMutexes then
    .ok (k.modifyThread t fun th => { th with held := th.held ++ [m] })
  else k.fail .heldMutexOverflow

/-- Lends the running thread's priority to `owner`, and on from there, at most `hops` times. -/
def lend : Nat → Kernel → ThreadId → Outcome Kernel
  | hops, k, owner =>
    let priority := k.running.priority
    if priority.isHigherThan (k.priorityOf owner) then
      match hops with
      | 0 => (k.note .inheritanceTooLong).fail .inheritanceCycle
      | hops + 1 => do
        let k ← (k.modifyThread owner fun th => { th with priority }).requeue owner
        match (k.thread owner).state, (k.thread owner).queue with
        | .waitingMutex, some (.mutex m) =>
          match k.owner? m with
          | some next => lend hops k next
          | none => return k
        | _, _ => return k
    else .ok k

/-- Locks a mutex, waiting as long as it takes. -/
def lock (k : Kernel) (m : MutexId) : Outcome Step := do
  match k.owner? m with
  | none => return (← k.takeMutex m k.current, [])
  | some owner =>
    if owner = k.current then k.fail (.mutexNotRecursive m)
    else
      let k ← lend maxThreads k owner
      let k ← k.enqueue (.mutex m) k.current
      return (← k.block .waitingMutex, [.locked m])

/-- Locks a mutex if it is free. -/
def tryLock (k : Kernel) (m : MutexId) : Outcome (Bool × Kernel) := do
  match k.owner? m with
  | some _ => return (false, k)
  | none => return (true, ← k.takeMutex m k.current)

/-- The priority that a thread is left with: its base priority, or what the first waiters of
the mutexes that it holds lend. -/
def residualPriority (k : Kernel) (t : ThreadId) : Priority :=
  (k.thread t).held.foldl
    (fun p m =>
      match (k.queues.get (.mutex m)).head with
      | some waiter => p.highest (k.priorityOf waiter)
      | none => p)
    (k.thread t).base

/-- Unlocks a mutex of the running thread. -/
def release (k : Kernel) (m : MutexId) : Outcome Kernel := do
  let me := k.current
  if k.owner? m = some me then
    let k := k.modifyThread me fun th => { th with held := th.held.erase m }
    let k := k.modifyThread me fun th => { th with priority := k.residualPriority me }
    match ← k.dequeue (.mutex m) with
    | some (next, k) => (← (k.setOwner m none).takeMutex m next).ready next .ok
    | none => return k.setOwner m none
  else k.fail (.mutexNotOwned m)

/-- Unlocks up to `bound` mutexes of the running thread, the last one locked first. -/
def releaseUpTo : Nat → Kernel → Outcome Kernel
  | 0, k => .ok k
  | bound + 1, k =>
    match k.running.held.getLast? with
    | none => .ok k
    | some m => do releaseUpTo bound (← k.release m)

/-- Unlocks every mutex of the running thread. -/
def releaseAll (k : Kernel) : Outcome Kernel := releaseUpTo k.running.held.length k

end RealtimeKernel.Kernel
