import RealtimeKernel.Execution.Basic

/-!
Moves of an execution, and its runs. Application code chooses its calls; every other move is
the only one that its turn allows. So to speak of all runs is to speak of all application
code, on every platform.
-/
namespace RealtimeKernel.Execution

inductive Move where
  | call (c : Call)
  | interrupt (c : InterruptCall)
  /-- The code that called an operation takes its answer. -/
  | takeAnswer
  /-- A thread or a timer callback starts. -/
  | enter
  /-- A timer callback is through. -/
  | leave
  /-- The kernel goes on with an operation. -/
  | advance
  /-- The log records are collected. -/
  | collectLog
  deriving DecidableEq, Repr

/-- Is a move for the one whose turn it is? -/
def allows (x : Execution) : Move → Bool
  | .call c =>
    match x.turn with
    | .code => c.handlesExist x.kernel
    | _ => false
  | .interrupt c =>
    match x.turn with
    | .code | .callbackCode _ => c.handlesExist x.kernel
    | _ => false
  | .takeAnswer =>
    match x.turn with
    | .answer _ => true
    | _ => false
  | .enter =>
    match x.turn with
    | .entry _ | .callback _ => true
    | _ => false
  | .leave =>
    match x.turn with
    | .callbackCode _ => true
    | _ => false
  | .advance =>
    match x.turn with
    | .work => true
    | _ => false
  | .collectLog => true

/-- The execution when its log records are collected. -/
def withoutLog (x : Execution) : Execution := { x with kernel := { x.kernel with journal := [] } }

def move (x : Execution) : Move → Outcome Execution
  | .call c => x.call c
  | .interrupt c => x.interrupt c
  | .takeAnswer | .leave => .ok x.dropFrame
  | .enter => .ok x.enter
  | .advance => x.advance
  | .collectLog => .ok x.withoutLog

/-- An execution may come from another one by these moves, the first one first. -/
inductive Run : Execution → List Move → Execution → Prop
  | nil (x : Execution) : Run x [] x
  | cons {x y z : Execution} {m : Move} {ms : List Move} :
    x.allows m = true → x.move m = .ok y → Run y ms z → Run x (m :: ms) z

end RealtimeKernel.Execution
