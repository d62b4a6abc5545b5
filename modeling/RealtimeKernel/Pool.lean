/-!
Pools: tables of objects that are created one after the other and never given back. An
object is named by its place; places not yet used hold a blank object.
-/
namespace RealtimeKernel

structure Pool (n : Nat) (α : Type) where
  items : Vector α n
  used : Nat := 0
  used_le : used ≤ n := by omega
  deriving Repr

namespace Pool

def empty (n : Nat) (blank : α) : Pool n α := { items := .replicate n blank }

/-- Does the handle name an object that was created? -/
def contains (p : Pool n α) (i : Fin n) : Bool := decide (i < p.used)

def get (p : Pool n α) (i : Fin n) : α := p.items.get i

def set (p : Pool n α) (i : Fin n) (a : α) : Pool n α :=
  { p with items := p.items.set i a i.isLt }

/-- The pool with one more object, and its handle, unless every place is used. -/
def push? (p : Pool n α) (a : α) : Option (Fin n × Pool n α) :=
  if h : p.used < n then
    some (⟨p.used, h⟩, ⟨p.items.set p.used a, p.used + 1, h⟩)
  else none

/-- The handles of the objects created so far, in order. -/
def handles (p : Pool n α) : List (Fin n) :=
  (List.finRange n).filter p.contains

end Pool

end RealtimeKernel
