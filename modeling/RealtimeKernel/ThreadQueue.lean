import RealtimeKernel.Chain
import RealtimeKernel.Priority

/-!
Thread queues: chains ordered by priority, first come first served among equals. A queue
counts its members, in one byte.
-/
namespace RealtimeKernel

structure ThreadQueue (n : Nat) extends Chain n where
  length : UInt8 := 0
  deriving DecidableEq, Repr

namespace ThreadQueue

/-- As many members as a queue can count. -/
def capacity : Nat := 255

/-- The queue and the links after `i` was put before the member `next`, or behind all. There is
no result if the count overflows. -/
def linkBefore (q : ThreadQueue n) (links : Links n) (i : Fin n) (next : Option (Fin n)) :
    Option (ThreadQueue n × Links n) :=
  if q.length.toNat = capacity then none
  else
    let (chain, links) := q.toChain.linkBefore links i next
    some ({ toChain := chain, length := q.length + 1 }, links)

/-- Puts `i` behind every member of its own or a higher priority. -/
def insert (q : ThreadQueue n) (links : Links n) (priority : Fin n → Priority) (i : Fin n) :
    Option (ThreadQueue n × Links n) :=
  q.linkBefore links i
    ((q.toList links).find? fun c => (priority i).isHigherThan (priority c))

/-- Puts `i` ahead of its equals, behind every member of a higher priority. -/
def insertAhead (q : ThreadQueue n) (links : Links n) (priority : Fin n → Priority)
    (i : Fin n) : Option (ThreadQueue n × Links n) :=
  q.linkBefore links i
    ((q.toList links).find? fun c => !(priority c).isHigherThan (priority i))

/-- Takes the member `i` out. There is nothing to take out of an empty queue. -/
def remove (q : ThreadQueue n) (links : Links n) (i : Fin n) :
    Option (ThreadQueue n × Links n) :=
  if q.length = 0 then none
  else
    let (chain, links) := q.toChain.unlink links i
    some ({ toChain := chain, length := q.length - 1 }, links)

/-- Takes the head out, if there is one. -/
def popFront (q : ThreadQueue n) (links : Links n) :
    Option (Option (Fin n) × ThreadQueue n × Links n) :=
  match q.head with
  | none => some (none, q, links)
  | some i => (q.remove links i).map fun (q, links) => (some i, q, links)

end ThreadQueue

end RealtimeKernel
