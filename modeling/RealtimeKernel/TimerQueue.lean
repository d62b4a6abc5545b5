import RealtimeKernel.Chain
import RealtimeKernel.Fault
import RealtimeKernel.Time

/-!
Timers as a delta queue: the armed timers stand in a chain, in the order of their deadlines,
each with the ticks between the deadline before it and its own. A tick then concerns the
first timer alone, and the deltas up to a timer add up to the time it has left. Of timers
with one deadline the one armed last stands first.
-/
namespace RealtimeKernel

/-- The sum of two spans of time, if it is in the range of `Ticks`. -/
def addTicks (a b : Ticks) : Except Fault Ticks :=
  if a.toNat + b.toNat < UInt32.size then .ok (a + b) else .error .counterOverflow

/-- What is left of the span `a` after `b`, if that is not longer. -/
def subTicks (a b : Ticks) : Except Fault Ticks :=
  if b ≤ a then .ok (a - b) else .error .counterUnderflow

/-- A timer slot. -/
structure TimerCell (α : Type) where
  /-- While the slot is armed, the ticks after the timer before its own. -/
  delta : Ticks := 0
  /-- What the timer is for, as long as the slot is armed. -/
  action : Option α := none
  /-- How often the slot was armed, modulo `2^16`. -/
  generation : UInt16 := 0
  deriving DecidableEq, Repr

structure TimerQueue (n : Nat) (α : Type) extends Chain n where
  links : Links n
  cells : Vector (TimerCell α) n
  deriving DecidableEq, Repr

namespace TimerQueue

def empty (n : Nat) (α : Type) : TimerQueue n α :=
  { links := .empty n, cells := .replicate n {} }

def cell (q : TimerQueue n α) (slot : Fin n) : TimerCell α := q.cells.get slot

def setCell (q : TimerQueue n α) (slot : Fin n) (c : TimerCell α) : TimerQueue n α :=
  { q with cells := q.cells.set slot c slot.isLt }

def delta (q : TimerQueue n α) (slot : Fin n) : Ticks := (q.cell slot).delta

def setDelta (q : TimerQueue n α) (slot : Fin n) (delta : Ticks) : TimerQueue n α :=
  q.setCell slot { q.cell slot with delta }

def isArmed (q : TimerQueue n α) (slot : Fin n) : Bool := (q.cell slot).action.isSome

def generation (q : TimerQueue n α) (slot : Fin n) : UInt16 := (q.cell slot).generation

/-- Number of armed timers. -/
def armed (q : TimerQueue n α) : Nat := (List.finRange n).countP q.isArmed

/-- The slots in the queue, in order. -/
def slots (q : TimerQueue n α) : List (Fin n) := q.toChain.toList q.links

/-- The sum of the deltas up to a slot, if it is met. -/
def ticksUntil (q : TimerQueue n α) (slot : Fin n) : List (Fin n) → Option Nat
  | [] => none
  | c :: rest =>
    if c = slot then some (q.delta c).toNat
    else (q.ticksUntil slot rest).map ((q.delta c).toNat + ·)

/-- Ticks that the timer of a slot has left. -/
def remaining (q : TimerQueue n α) (slot : Fin n) : Option Nat :=
  if q.isArmed slot then q.ticksUntil slot q.slots else none

/-- The armed timers by slot, each with the ticks it has left. -/
def bySlot (q : TimerQueue n α) : List (Fin n × Nat) :=
  (List.finRange n).filterMap fun slot => (q.remaining slot).map (slot, ·)

/-- The place of a timer that is due after `time`: the first timer that is not due earlier,
and the ticks after the timer before that. -/
def place (q : TimerQueue n α) (time : Ticks) : List (Fin n) → Except Fault (Ticks × Option (Fin n))
  | [] => .ok (time, none)
  | c :: rest =>
    if time ≤ q.delta c then .ok (time, some c)
    else do q.place (← subTicks time (q.delta c)) rest

/-- The queue with one more timer; the time before it is not taken from the next one. -/
def link (q : TimerQueue n α) (slot : Fin n) (next : Option (Fin n)) (delta : Ticks)
    (action : α) : TimerQueue n α :=
  let (chain, links) := q.toChain.linkBefore q.links slot next
  { q with toChain := chain, links }.setCell slot
    { delta, action := some action, generation := q.generation slot + 1 }

/-- Arms the timer of a slot, which must not be armed, to be due after `delay`. -/
def arm (q : TimerQueue n α) (slot : Fin n) (delay : Delay) (action : α) :
    Except Fault (TimerQueue n α) := do
  if q.isArmed slot then .error (.timerArmed slot)
  else
    let (time, next) ← q.place (.ofNat delay.ticks) q.slots
    let q := q.link slot next time action
    match next with
    | some c => return q.setDelta c (← subTicks (q.delta c) time)
    | none => return q

/-- The queue without the timer of a slot; the time before it is not passed on. -/
def unlink (q : TimerQueue n α) (slot : Fin n) : TimerQueue n α :=
  let (chain, links) := q.toChain.unlink q.links slot
  { q with toChain := chain, links }.setCell slot { q.cell slot with action := none }

/-- Takes the timer of a slot out, which must be armed; the time before it goes to the next
one. -/
def disarm (q : TimerQueue n α) (slot : Fin n) : Except Fault (TimerQueue n α) := do
  if q.isArmed slot then
    match (q.links.get slot).next with
    | some c => return (q.setDelta c (← addTicks (q.delta c) (q.delta slot))).unlink slot
    | none => return q.unlink slot
  else .error (.timerNotArmed slot)

/-- Takes the timer of a slot out, if it is armed. -/
def cancel (q : TimerQueue n α) (slot : Fin n) : Except Fault (TimerQueue n α) :=
  if q.isArmed slot then q.disarm slot else .ok q

/-- One tick passes. A timer already due must have been taken out before. -/
def advance (q : TimerQueue n α) : Except Fault (TimerQueue n α) :=
  match q.head with
  | none => .ok q
  | some h =>
    if q.delta h = 0 then .error .expiredTimerAtHead else .ok (q.setDelta h (q.delta h - 1))

/-- Takes out the first timer if it is due. -/
def popExpired (q : TimerQueue n α) : Option α × TimerQueue n α :=
  match q.head with
  | none => (none, q)
  | some h => if q.delta h = 0 then ((q.cell h).action, q.unlink h) else (none, q)

end TimerQueue

end RealtimeKernel
