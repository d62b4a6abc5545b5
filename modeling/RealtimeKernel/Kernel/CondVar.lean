import RealtimeKernel.Kernel.Mutex

/-!
Condition variables. The mutex is released and the waiter queued in one step, so whoever
locks the mutex next finds the waiter in the queue; the mutex is locked again however the
wait ended.
-/
namespace RealtimeKernel.Kernel

def createCondVar (k : Kernel) : Except KernelError CondVarId × Kernel :=
  match k.condVars.push? {} with
  | some (c, condVars) => (.ok c, { k with condVars }.note (.condVarCreated c))
  | none => (.error .condVarTableFull, k)

/-- Locks a mutex, then returns with the reason for which the thread was woken. -/
def relock (k : Kernel) (m : MutexId) (result : WakeupResult) : Outcome Step := do
  let (k, rest) ← k.lock m
  return (k, rest ++ [.answer (.wakeup result)])

def waitCondition (k : Kernel) (c : CondVarId) (m : MutexId) (timeout : Timeout) :
    Outcome Step := do
  if k.owner? m = some k.current then
    if timeout = .immediate then return (k, [.answer (.wakeup .timeout)])
    else
      let k ← k.release m
      let k ← k.enqueue (.condVar c) k.current
      (← k.await .waitingCondVar timeout).thenDo (fun r k => k.relock m r) (.relock m)
  else k.fail (.waitWithoutMutex m)

/-- Wakes the first waiter. -/
def signalCondition (k : Kernel) (c : CondVarId) : Outcome Kernel := k.wakeFirst (.condVar c) .ok

/-- Wakes every waiter. -/
def broadcast (k : Kernel) (c : CondVarId) : Outcome Kernel := k.wakeAll (.condVar c) .reset

end RealtimeKernel.Kernel
