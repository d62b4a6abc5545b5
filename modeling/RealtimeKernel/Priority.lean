/-!
Thread priorities: 256 levels, the smaller number the more urgent. The last level is the
idle thread's own; no step down from another level reaches it.
-/
namespace RealtimeKernel

structure Priority where
  level : Nat
  level_le : level ≤ 255 := by omega
  deriving DecidableEq, Repr

namespace Priority

def critical : Priority := ⟨0, by omega⟩
def normal : Priority := ⟨128, by omega⟩
/-- Reserved for the idle thread. -/
def idle : Priority := ⟨255, by omega⟩

def ofNat? (n : Nat) : Option Priority :=
  if h : n ≤ 255 then some ⟨n, h⟩ else none

/-- Strictly more urgent. -/
def isHigherThan (p q : Priority) : Bool :=
  decide (p.level < q.level)

/-- The more urgent of the two. -/
def highest (p q : Priority) : Priority :=
  if q.isHigherThan p then q else p

/-- `n` levels more urgent, as far as there are any. -/
def raised (p : Priority) (n : Nat) : Priority :=
  ⟨p.level - n, by have := p.level_le; omega⟩

/-- `n` levels less urgent, but never the idle level. -/
def lowered (p : Priority) (n : Nat) : Priority :=
  ⟨min (p.level + n) 254, by omega⟩

@[simp] theorem isHigherThan_iff {p q : Priority} :
    p.isHigherThan q = true ↔ p.level < q.level := by
  simp [isHigherThan]

end Priority

end RealtimeKernel
