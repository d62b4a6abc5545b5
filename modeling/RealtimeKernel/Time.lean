/-!
Kernel time. A clock counts ticks modulo `2^32` and, beside that, how often the count
came round; a wait is bounded by a `Timeout`, whose finite case is never zero ticks.
-/
namespace RealtimeKernel

/-- An instant or a span of kernel time, in ticks; instants come round after `2^32`. -/
abbrev Ticks := UInt32

/-- A finite delay: at least one tick, and within the range of `Ticks`. -/
structure Delay where
  ticks : Nat
  pos : 0 < ticks
  lt : ticks < UInt32.size
  deriving DecidableEq, Repr

/-- The delay of `n` ticks, if that is one at all. -/
def Delay.ofTicks? (n : Ticks) : Option Delay :=
  if h : 0 < n.toNat then some ⟨n.toNat, h, n.toNat_lt⟩ else none

/-- How long a blocking operation may wait. -/
inductive Timeout where
  /-- Answer at once instead of blocking. -/
  | immediate
  | infinite
  | after (delay : Delay)
  deriving DecidableEq, Repr

/-- The bound of `n` ticks; zero ticks means not to wait at all. -/
def Timeout.ofTicks (n : Ticks) : Timeout :=
  match Delay.ofTicks? n with
  | some d => .after d
  | none => .immediate

/-- The tick counter and the number of times it came round. -/
structure Clock where
  now : Ticks := 0
  overflows : UInt32 := 0
  deriving DecidableEq, Repr

namespace Clock

/-- One tick later. There is no such time once the count of rounds is exhausted. -/
def advance (c : Clock) : Option Clock :=
  if c.now + 1 = 0 then
    if c.overflows + 1 = 0 then none else some ⟨0, c.overflows + 1⟩
  else some { c with now := c.now + 1 }

/-- `n` ticks later, or the last time before the step that could not be taken. -/
def advanceBy (c : Clock) : Nat → Except Clock Clock
  | 0 => .ok c
  | n + 1 =>
    match c.advance with
    | none => .error c
    | some c => c.advanceBy n

/-- Ticks since `reference`, taken as the most recent instant of that count. -/
def elapsedSince (c : Clock) (reference : Ticks) : Ticks :=
  c.now - reference

end Clock

/-- Is `now` in `[start, stop)`? A window whose end is before its start comes round. -/
def inWindow (now start stop : Ticks) : Bool :=
  if start ≤ stop then start ≤ now && now < stop else start ≤ now || now < stop

end RealtimeKernel
