/-!
Chains: doubly linked lists. All chains of a kind run through one table of links, so an
element can stand in one chain at a time; a chain itself is no more than its two ends.
`toList` is the chain read from its head.
-/
namespace RealtimeKernel

/-- The neighbours of an element. -/
structure Link (n : Nat) where
  prev : Option (Fin n) := none
  next : Option (Fin n) := none
  deriving DecidableEq, Repr

/-- The links of all elements, whichever chain they stand in. -/
abbrev Links (n : Nat) := Vector (Link n) n

namespace Links

def empty (n : Nat) : Links n := .replicate n {}

/-- Makes `next` follow the element at a place, if there is one. -/
def setNext (links : Links n) (place next : Option (Fin n)) : Links n :=
  match place with
  | some i => links.set i { links.get i with next } i.isLt
  | none => links

/-- Makes `prev` precede the element at a place, if there is one. -/
def setPrev (links : Links n) (place prev : Option (Fin n)) : Links n :=
  match place with
  | some i => links.set i { links.get i with prev } i.isLt
  | none => links

/-- The elements met on the way forward from a place, up to `bound` of them. -/
def forward (links : Links n) : Nat → Option (Fin n) → List (Fin n)
  | 0, _ => []
  | _ + 1, none => []
  | bound + 1, some i => i :: links.forward bound (links.get i).next

/-- The elements met on the way back from a place, up to `bound` of them. -/
def backward (links : Links n) : Nat → Option (Fin n) → List (Fin n)
  | 0, _ => []
  | _ + 1, none => []
  | bound + 1, some i => i :: links.backward bound (links.get i).prev

end Links

structure Chain (n : Nat) where
  head : Option (Fin n) := none
  tail : Option (Fin n) := none
  deriving DecidableEq, Repr

namespace Chain

/-- The members in order. A chain without a loop has no more members than there are elements. -/
def toList (c : Chain n) (links : Links n) : List (Fin n) :=
  links.forward n c.head

/-- The members from the last to the first. -/
def toListBack (c : Chain n) (links : Links n) : List (Fin n) :=
  links.backward n c.tail

/-- The member that precedes a place: that of the member `next`, or the one behind all. -/
def preceding (c : Chain n) (links : Links n) (next : Option (Fin n)) : Option (Fin n) :=
  match next with
  | some j => (links.get j).prev
  | none => c.tail

/-- The chain and the links after `i` was put before the member `next`, or behind all. -/
def linkBefore (c : Chain n) (links : Links n) (i : Fin n) (next : Option (Fin n)) :
    Chain n × Links n :=
  let prev := c.preceding links next
  let links := Links.setNext (links.set i { prev, next } i.isLt) prev (some i)
  ({ head := if prev.isNone then some i else c.head
     tail := if next.isNone then some i else c.tail },
    links.setPrev next (some i))

/-- The chain and the links after the member `i` was taken out. -/
def unlink (c : Chain n) (links : Links n) (i : Fin n) : Chain n × Links n :=
  let { prev, next } := links.get i
  let links := (Links.setNext links prev next).setPrev next prev
  ({ head := if prev.isNone then next else c.head
     tail := if next.isNone then prev else c.tail },
    links.set i {} i.isLt)

end Chain

end RealtimeKernel
