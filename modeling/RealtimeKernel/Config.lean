import RealtimeKernel.Error
import RealtimeKernel.Priority
import RealtimeKernel.Time

/-!
Kernel settings, and the conversion of real time into ticks.
-/
namespace RealtimeKernel

structure Config where
  /-- Ticks per second. -/
  tickRate : Nat := 1000
  /-- Ticks that a thread may run before a ready thread of its own priority gets its turn. -/
  quantum : Nat := 20
  /-- Priority of the boot thread. -/
  mainPriority : Priority := .normal
  deriving DecidableEq, Repr

namespace Config

/-- The settings that are used where none are given. -/
def standard : Config := {}

/-- The first setting that the kernel cannot run with, if there is one. -/
def validate (c : Config) : Except ConfigError Unit :=
  if c.tickRate = 0 then .error .zeroTickRate
  else if c.quantum = 0 then .error .zeroQuantum
  else if c.mainPriority = .idle then .error .idleMainPriority
  else .ok ()

/-- The least number of ticks that lasts `n / unit` seconds, or the largest one there is. -/
def ticksFor (c : Config) (n unit : Nat) : Ticks :=
  .ofNat (min ((n * c.tickRate + (unit - 1)) / unit) (UInt32.size - 1))

def msToTicks (c : Config) (ms : Nat) : Ticks := c.ticksFor ms 1000

def usToTicks (c : Config) (us : Nat) : Ticks := c.ticksFor us 1000000

end Config

end RealtimeKernel
