/-!
Rings of `c` cells: a store of messages that is filled and emptied at two cursors, each
moving round. How many cells are in use is not the ring's own knowledge; whoever uses one
counts that. `contents` reads so many messages from the front.
-/
namespace RealtimeKernel

structure Ring (α : Type) (c : Nat) where
  cells : Vector α c
  /-- The cell of the first message. -/
  read : Fin c
  /-- The cell after the last message. -/
  write : Fin c
  deriving DecidableEq, Repr

namespace Ring

/-- The cell after a cell. -/
def succ (i : Fin c) : Fin c := ⟨(i + 1) % c, Nat.mod_lt _ (Nat.zero_lt_of_lt i.isLt)⟩

/-- The cell before a cell. -/
def pred (i : Fin c) : Fin c := ⟨(i + (c - 1)) % c, Nat.mod_lt _ (Nat.zero_lt_of_lt i.isLt)⟩

def empty (blank : α) (h : 0 < c) : Ring α c := ⟨.replicate c blank, ⟨0, h⟩, ⟨0, h⟩⟩

/-- Both cursors back at the first cell. -/
def rewind (r : Ring α c) : Ring α c :=
  { r with
    read := ⟨0, Nat.zero_lt_of_lt r.read.isLt⟩
    write := ⟨0, Nat.zero_lt_of_lt r.read.isLt⟩ }

def pushBack (r : Ring α c) (a : α) : Ring α c :=
  { r with cells := r.cells.set r.write a r.write.isLt, write := succ r.write }

def pushFront (r : Ring α c) (a : α) : Ring α c :=
  { r with cells := r.cells.set (pred r.read) a (pred r.read).isLt, read := pred r.read }

/-- The message at the front, and the ring without it. -/
def popFront (r : Ring α c) : α × Ring α c :=
  (r.cells.get r.read, { r with read := succ r.read })

/-- The first `k` messages from a cell on. -/
def contentsFrom (r : Ring α c) : Nat → Fin c → List α
  | 0, _ => []
  | k + 1, i => r.cells.get i :: r.contentsFrom k (succ i)

/-- The first `k` messages. -/
def contents (r : Ring α c) (k : Nat) : List α := r.contentsFrom k r.read

end Ring

end RealtimeKernel
