import RealtimeKernel.Fault
import RealtimeKernel.ThreadQueue

/-!
A single thread queue at work on its own: commands in, and after each one what the queue
looks like.
-/
namespace RealtimeKernel.ThreadQueue

inductive Command (n : Nat) where
  | insert (i : Fin n)
  | insertAhead (i : Fin n)
  | remove (i : Fin n)
  | popFront
  /-- Changes a priority. A queued thread keeps its place. -/
  | setPriority (i : Fin n) (p : Priority)
  /-- Inserts every thread that is not queued yet, by number. -/
  | insertAll
  deriving DecidableEq, Repr

structure Session (n : Nat) where
  priorities : Vector Priority n
  queue : ThreadQueue n := {}
  links : Links n := .empty n

/-- What a command came to. -/
inductive Reply (n : Nat) where
  | done
  | popped (i : Option (Fin n))
  /-- The thread to insert is in the queue already. -/
  | member
  /-- The thread to remove is not in the queue. -/
  | notMember
  deriving DecidableEq, Repr

/-- What can be seen of a queue after a command. -/
structure View (n : Nat) where
  reply : Reply n
  length : Nat
  head : Option (Fin n)
  members : List (Fin n)
  /-- Does the way back meet the same threads as the way forward? -/
  linksAgree : Bool
  deriving DecidableEq, Repr

namespace Session

def members (s : Session n) : List (Fin n) := s.queue.toList s.links

def isMember (s : Session n) (i : Fin n) : Bool := decide (i ∈ s.members)

def insert (s : Session n) (i : Fin n) : Except Fault (Session n) :=
  match s.queue.insert s.links s.priorities.get i with
  | some (queue, links) => .ok { s with queue, links }
  | none => .error .counterOverflow

def insertAhead (s : Session n) (i : Fin n) : Except Fault (Session n) :=
  match s.queue.insertAhead s.links s.priorities.get i with
  | some (queue, links) => .ok { s with queue, links }
  | none => .error .counterOverflow

def remove (s : Session n) (i : Fin n) : Except Fault (Session n) :=
  match s.queue.remove s.links i with
  | some (queue, links) => .ok { s with queue, links }
  | none => .error .removeFromEmptyQueue

def perform (s : Session n) : Command n → Except Fault (Reply n × Session n)
  | .insert i => if s.isMember i then .ok (.member, s) else do return (.done, ← s.insert i)
  | .insertAhead i =>
    if s.isMember i then .ok (.member, s) else do return (.done, ← s.insertAhead i)
  | .remove i =>
    if s.queue.head.isSome && !s.isMember i then .ok (.notMember, s)
    else do return (.done, ← s.remove i)
  | .popFront =>
    match s.queue.popFront s.links with
    | some (i, queue, links) => .ok (.popped i, { s with queue, links })
    | none => .error .removeFromEmptyQueue
  | .setPriority i p => .ok (.done, { s with priorities := s.priorities.set i p i.isLt })
  | .insertAll => do
    let s ← (List.finRange n).foldlM (fun s i => if s.isMember i then .ok s else s.insert i) s
    return (.done, s)

def view (s : Session n) (reply : Reply n) : View n where
  reply
  length := s.queue.length.toNat
  head := s.queue.head
  members := s.members
  linksAgree := decide (s.queue.toListBack s.links = s.members.reverse)

/-- The views after each command, up to the first fault. -/
def run : List (Command n) → Session n → List (Except Fault (View n))
  | [], _ => []
  | c :: cs, s =>
    match s.perform c with
    | .error f => [.error f]
    | .ok (reply, s) => .ok (s.view reply) :: run cs s

end Session

end RealtimeKernel.ThreadQueue
