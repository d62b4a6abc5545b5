import RealtimeKernel.Kernel.Scheduler

/-!
Application timers and the tick. A tick moves the clock, charges the running thread's quantum
and then handles the timers that are due one by one, as a frame, since the code of a callback
runs between two of them.
-/
namespace RealtimeKernel.Kernel

/-- The first application timer slot that is not armed. -/
def freeTimerSlot? (k : Kernel) : Option TimerSlot :=
  (List.finRange timerSlots).find? fun s => maxThreads ≤ s.val && !k.timers.isArmed s

/-- Arms an application timer. -/
def setTimer (k : Kernel) (delay : Delay) (r : Routine) :
    Outcome (Except KernelError TimerId × Kernel) := do
  match k.freeTimerSlot? with
  | none => return (.error .timerTableFull, k)
  | some slot =>
    let timers ← k.require (k.timers.arm slot delay (.callback r))
    return (.ok ⟨slot, timers.generation slot⟩, { k with timers })

/-- Is the timer still to come? -/
def isTimerArmed (k : Kernel) (id : TimerId) : Bool :=
  k.timers.isArmed id.slot && k.timers.generation id.slot == id.generation

/-- Cancels a timer that is still to come. -/
def resetTimer (k : Kernel) (id : TimerId) : Outcome Kernel := do
  if k.isTimerArmed id then return { k with timers := ← k.require (k.timers.disarm id.slot) }
  else k.fail (.timerStale id)

/-- Ticks until the timer is due, if it is still to come. -/
def timerRemaining (k : Kernel) (id : TimerId) : Option Nat :=
  if k.isTimerArmed id then k.timers.remaining id.slot else none

/-- The part of a tick before the timers that are due. -/
def beginTick (k : Kernel) : Outcome Kernel := do
  match k.clock.advance with
  | none => k.fail .counterOverflow
  | some clock =>
    let k := { k with clock, quantumLeft := k.quantumLeft - 1 }
    return { k with timers := ← k.require k.timers.advance }

/-- Handles the first timer that is due, and then the others. -/
def fire (k : Kernel) : Outcome Step := do
  match k.timers.popExpired with
  | (none, timers) => return ({ k with timers }, [])
  | (some (.wakeup t), timers) => return (← { k with timers }.timeOut t, [.fire])
  | (some (.callback r), timers) => return ({ k with timers }, [.callback r false, .fire])

end RealtimeKernel.Kernel
