namespace CheckpointedLog

namespace Interval

/-- The longest interval in nanoseconds: one nanosecond less than `2 ^ 64` seconds. -/
def longest : Nat := UInt64.size * 1000000000 - 1

/-- An interval of whole milliseconds, in nanoseconds. -/
def ofMillis (ms : UInt64) : Nat := ms.toNat * 1000000

def toMillis (t : Nat) : Nat := t / 1000000

/-- The `k`-fold of an interval, or the longest one. -/
def times (t : Nat) (k : UInt32) : Nat := min longest (t * k.toNat)

end Interval

/-- How the waiting time grows with the number of attempts. -/
inductive BackoffGrowth where
  | constant
  | linear
  | exponential
deriving DecidableEq, Inhabited, Repr

namespace BackoffGrowth

def name : BackoffGrowth → String
  | constant => "constant"
  | linear => "linear"
  | exponential => "exponential"

def ofName? (s : String) : Option BackoffGrowth :=
  [constant, linear, exponential].find? fun g => g.name == s

/-- `2 ^ n`, or the greatest 32-bit number. -/
def powerOfTwo (n : UInt32) : UInt32 := if n < 32 then 1 <<< n else UInt32.ofNat (UInt32.size - 1)

/-- `n + 1`, or the greatest 32-bit number. -/
def successor (n : UInt32) : UInt32 := if n.toNat + 1 < UInt32.size then n + 1 else n

/-- What the initial waiting time is multiplied by after `attempt` earlier attempts. -/
def factor (attempt : UInt32) : BackoffGrowth → UInt32
  | constant => 1
  | linear => successor attempt
  | exponential => powerOfTwo attempt

end BackoffGrowth

structure Backoff where
  growth : BackoffGrowth := .exponential
  initialMs : UInt64 := 100
  maxMs : UInt64 := 30000
deriving DecidableEq, Inhabited, Repr

/-- The waiting time, in milliseconds, after attempt number `attempt`, counted from 0. -/
def Backoff.delay (b : Backoff) (attempt : UInt32) : Nat :=
  Interval.toMillis (min (Interval.times (Interval.ofMillis b.initialMs) (b.growth.factor attempt))
    (Interval.ofMillis b.maxMs))

end CheckpointedLog
