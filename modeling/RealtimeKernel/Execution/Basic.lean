import RealtimeKernel.Execution.Call

/-!
The kernel at work among its threads. An `Execution` is the kernel and, for each thread slot,
the frames that its thread has left to do. The running thread's frames say whose turn it is:
`Execution.turn`. Application code has its turn between operations and in timer callbacks;
all other turns are the kernel's.
-/
namespace RealtimeKernel

/-- A platform answers each request for a thread context, or with an error. The requests
are numbered from zero. -/
abbrev Platform := Nat → Except KernelError Unit

structure Execution where
  kernel : Kernel
  /-- What each thread has left to do, first things first. -/
  contexts : Vector (List Frame) maxThreads := .replicate _ []
  platform : Platform := fun _ => .ok ()
  /-- Requests that the platform answered so far. -/
  requests : Nat := 0

/-- Whose turn it is. -/
inductive Turn where
  /-- The running thread's own code, between two operations. -/
  | code
  /-- The code of a timer callback. -/
  | callbackCode (r : Routine)
  /-- An operation returns to the code that called it. -/
  | answer (a : Answer)
  /-- A thread starts. -/
  | entry (e : Entry)
  /-- A timer callback starts. -/
  | callback (r : Routine)
  /-- The kernel, amid an operation. -/
  | work

namespace Execution

/-- What the running thread has left to do. -/
def frames (x : Execution) : List Frame := x.contexts.get x.kernel.current

def turn (x : Execution) : Turn :=
  match x.frames with
  | [] => .code
  | .answer a :: _ => .answer a
  | .start :: _ =>
    match x.kernel.running.entry with
    | some e => .entry e
    | none => .work
  | .callback r false :: _ => .callback r
  | .callback r true :: _ => .callbackCode r
  | _ => .work

def setFrames (x : Execution) (frames : List Frame) : Execution :=
  { x with contexts := x.contexts.set x.kernel.current frames x.kernel.current.isLt }

/-- Does a step for the running thread; what it leaves comes before `rest`. -/
def perform (x : Execution) (rest : List Frame) (step : Kernel → Outcome Step) :
    Outcome Execution := do
  let (kernel, frames) ← step x.kernel
  return { x.setFrames (frames ++ rest) with kernel }

/-- Creates a thread in the first free slot, unless the platform has no context for it. The
thread is not ready yet. -/
def create (x : Execution) (name : String) (priority : Priority) (entry : Entry) :
    Outcome (Except KernelError ThreadId × Execution) :=
  let k := x.kernel
  if !k.initialized then k.fail .notInitialized
  else
    match k.freeSlot? with
    | none => .ok (.error .threadTableFull, x)
    | some t =>
      let claimed := k.replaceThread t (.create name priority (some entry))
      let asked := { x with requests := x.requests + 1 }
      match x.platform x.requests with
      | .error e => .ok (.error e, { asked with kernel := claimed.vacate t })
      | .ok () =>
        .ok (.ok t, { asked with
          kernel := claimed.note (.threadCreated name t priority)
          contexts := x.contexts.set t [.start] t.isLt })

/-- Creates a thread and makes it ready. -/
def spawn (x : Execution) (name : String) (priority : Priority) (r : Routine) :
    Outcome Execution := do
  if priority = .idle then x.kernel.fail .idlePriorityReserved
  else
    let (made, x) ← x.create name priority (.routine r)
    x.perform x.frames fun k => do
      match made with
      | .error e => return (k, [.answer (.thread (.error e))])
      | .ok t => return (← (← k.ready t .ok).preempt, [.answer (.thread (.ok t))])

/-- Brings the kernel up: the caller becomes the boot thread, and the idle thread is made. -/
def boot (x : Execution) : Outcome Execution := do
  match x.kernel.boot with
  | .error e => return x.setFrames (.answer (.thread (.error e)) :: x.frames)
  | .ok kernel =>
    let (made, x) ← { x with kernel }.create "idle" .idle .idle
    x.perform x.frames fun k => do
      match made with
      | .error e => return (k, [.answer (.thread (.error e))])
      | .ok t =>
        let k ← { k with idle := some t }.ready t .ok
        return (k.note (.kernelUp k.config.tickRate k.config.quantum),
          [.answer (.thread (.ok Kernel.mainThread))])

/-- Ends the running thread, and with it all that it had left to do. -/
def exit (x : Execution) (msg : Msg) : Outcome Execution :=
  x.perform [] fun k => do return (← k.exit msg, [])

def call (x : Execution) : Call → Outcome Execution
  | .boot => x.boot
  | .spawn name priority r => x.spawn name priority r
  | .exit msg => x.exit msg
  | .operation o => x.perform x.frames o.run

def interrupt (x : Execution) (c : InterruptCall) : Outcome Execution :=
  x.perform x.frames c.run

/-- What the kernel does for a frame of the running thread. -/
def frameStep (k : Kernel) : Frame → Outcome Step
  | .start => do return (← k.exit 0, [])
  | .awake =>
    if k.timers.isArmed (timeoutSlot k.current) then k.fail .timeoutLeftArmed else .ok (k, [])
  | .answerWakeup => .ok (k, [.answer (.wakeup k.running.wakeup)])
  | .collect t => .ok (k.collect t)
  | .locked m =>
    if k.owner? m = some k.current then .ok (k, []) else k.fail .mutexNotHandedOver
  | .relock m => k.relock m k.running.wakeup
  | .store b epoch msg ahead => Kernel.storeAfter b epoch msg ahead k.running.wakeup k
  | .fetch b epoch => Kernel.fetchAfter b epoch k.running.wakeup k
  | .fire => k.fire
  | .preempt => do return (← k.preempt, [])
  | .answer _ | .callback .. => .ok (k, [])

/-- The kernel goes on with the operation that the running thread is in. A thread that starts
without code ends at once. -/
def advance (x : Execution) : Outcome Execution :=
  match x.frames with
  | [] => .ok x
  | frame :: rest => x.perform rest (frameStep · frame)

/-- The first frame of the running thread is done with: an answer that was taken, or a
callback that is through. -/
def dropFrame (x : Execution) : Execution := x.setFrames x.frames.tail

/-- A thread or a timer callback starts. -/
def enter (x : Execution) : Execution :=
  match x.frames with
  | .start :: rest =>
    { x.setFrames rest with
      kernel := x.kernel.modifyThread x.kernel.current fun th => { th with entry := none } }
  | .callback r false :: rest => x.setFrames (.callback r true :: rest)
  | _ => x

end Execution

end RealtimeKernel
