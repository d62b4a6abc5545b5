import RealtimeKernel.TimerQueue

/-!
A timer queue at work on its own: commands in, and after each one the timers that are armed
and the ticks they have left. The actions of its timers are numbers.
-/
namespace RealtimeKernel.TimerQueue

inductive Command (n : Nat) where
  | arm (slot : Fin n) (delay : Delay) (action : Int)
  | disarm (slot : Fin n)
  /-- Lets ticks pass and takes nothing out. -/
  | advance (ticks : Nat)
  /-- Takes the first timer out if it is due. -/
  | pop
  /-- Lets ticks pass and takes out what is due after each. -/
  | tick (ticks : Nat)
  /-- Arms a timer and disarms it, over and over. -/
  | churn (slot : Fin n) (delay : Delay) (times : Nat)
  | remaining (slot : Fin n)
  | isArmed (slot : Fin n)
  | generation (slot : Fin n)
  | armed
  deriving DecidableEq, Repr

inductive Reply where
  | done
  | number (n : Int)
  | optional (n : Option Int)
  | flag (b : Bool)
  /-- The actions of timers that came due, each with the number of its tick. -/
  | fired (actions : List (Nat × Int))
  deriving DecidableEq, Repr

def advanceBy : Nat → TimerQueue n α → Except Fault (TimerQueue n α)
  | 0, q => .ok q
  | ticks + 1, q => do advanceBy ticks (← q.advance)

/-- Takes out every timer that is due. There are no more of them than armed timers. -/
def popDue : Nat → TimerQueue n α → List α × TimerQueue n α
  | 0, q => ([], q)
  | bound + 1, q =>
    match q.popExpired with
    | (none, q) => ([], q)
    | (some a, q) =>
      let (actions, q) := popDue bound q
      (a :: actions, q)

/-- Lets ticks pass from the `done`-th on and takes out what is due after each. -/
def tickFrom (done : Nat) : Nat → List (Nat × α) → TimerQueue n α →
    Except Fault (List (Nat × α) × TimerQueue n α)
  | 0, fired, q => .ok (fired.reverse, q)
  | ticks + 1, fired, q => do
    let q ← q.advance
    let (actions, q) := popDue q.armed q
    tickFrom (done + 1) ticks ((actions.map (done + 1, ·)).reverse ++ fired) q

def churn (slot : Fin n) (delay : Delay) (action : α) :
    Nat → TimerQueue n α → Except Fault (TimerQueue n α)
  | 0, q => .ok q
  | times + 1, q => do
    churn slot delay action times (← (← q.arm slot delay action).disarm slot)

def perform (q : TimerQueue n Int) : Command n → Except Fault (Reply × TimerQueue n Int)
  | .arm slot delay action => do return (.done, ← q.arm slot delay action)
  | .disarm slot => do return (.done, ← q.disarm slot)
  | .advance ticks => do return (.done, ← advanceBy ticks q)
  | .pop =>
    let (a, q) := q.popExpired
    .ok (.optional a, q)
  | .tick ticks => do
    let (fired, q) ← tickFrom 0 ticks [] q
    return (.fired fired, q)
  | .churn slot delay times => do return (.done, ← churn slot delay 0 times q)
  | .remaining slot => .ok (.optional ((q.remaining slot).map Int.ofNat), q)
  | .isArmed slot => .ok (.flag (q.isArmed slot), q)
  | .generation slot => .ok (.number (q.generation slot).toNat, q)
  | .armed => .ok (.number q.armed, q)

/-- The reply to each command and the timers armed after it, up to the first fault. -/
def run : List (Command n) → TimerQueue n Int →
    List (Except Fault (Reply × List (Fin n × Nat)))
  | [], _ => []
  | c :: cs, q =>
    match q.perform c with
    | .error f => [.error f]
    | .ok (reply, q) => .ok (reply, q.bySlot) :: run cs q

end RealtimeKernel.TimerQueue
