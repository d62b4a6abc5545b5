import RealtimeKernel.Kernel.Scheduler

/-!
Counting semaphores. A unit that is signalled while threads wait goes straight to the first
of them, so the count is below zero by the number of threads that wait.
-/
namespace RealtimeKernel.Kernel

/-- The largest count that a semaphore may be given. -/
def maxCount : Nat := 2147483647

/-- A new semaphore; unlike `createSemaphore` this goes without a log record. -/
def addSemaphore (k : Kernel) (count : Nat) :
    Outcome (Except KernelError SemaphoreId × Kernel) :=
  if count ≤ maxCount then
    match k.semaphores.push? { count } with
    | some (s, semaphores) => .ok (.ok s, { k with semaphores })
    | none => .ok (.error .semaphoreTableFull, k)
  else k.fail .semaphoreCountRange

def createSemaphore (k : Kernel) (count : Nat) :
    Outcome (Except KernelError SemaphoreId × Kernel) := do
  match ← k.addSemaphore count with
  | (.ok s, k) => return (.ok s, k.note (.semaphoreCreated s count))
  | (.error e, k) => return (.error e, k)

def semaphoreCount (k : Kernel) (s : SemaphoreId) : Int := (k.semaphores.get s).count

def setSemaphoreCount (k : Kernel) (s : SemaphoreId) (count : Int) : Kernel :=
  { k with semaphores := k.semaphores.set s { count } }

/-- Takes a unit, blocking in `state` while there is none. -/
def waitUnit (k : Kernel) (s : SemaphoreId) (timeout : Timeout) (state : ThreadState) :
    Outcome Wait := do
  let count := k.semaphoreCount s - 1
  if count ≥ 0 then return .over .ok (k.setSemaphoreCount s count)
  else if timeout = .immediate then return .over .timeout k
  else
    let k ← (k.setSemaphoreCount s count).enqueue (.semaphore s) k.current
    k.await state timeout

/-- Gives a unit to the first waiter, or else to whoever comes next. -/
def signal (k : Kernel) (s : SemaphoreId) : Outcome Kernel := do
  let hadWaiters := k.semaphoreCount s < 0
  let k ← k.addUnit s
  if hadWaiters then k.wakeFirst (.semaphore s) .ok else return k

/-- Sets the count and sends every waiter away. -/
def resetSemaphore (k : Kernel) (s : SemaphoreId) (count : Nat) : Outcome Kernel :=
  if count ≤ maxCount then (k.setSemaphoreCount s count).wakeAll (.semaphore s) .reset
  else k.fail .semaphoreCountRange

/-- Signals one semaphore and takes a unit of another, with no thread running in between. -/
def signalAndWait (k : Kernel) (signalled awaited : SemaphoreId) : Outcome Step := do
  let k ← k.signal signalled
  let count := k.semaphoreCount awaited - 1
  let k := k.setSemaphoreCount awaited count
  if count ≥ 0 then return (← k.preempt, [.answer (.wakeup .ok)])
  else
    let k ← k.enqueue (.semaphore awaited) k.current
    return (← k.block .waitingSemaphore, [.answerWakeup])

end RealtimeKernel.Kernel
