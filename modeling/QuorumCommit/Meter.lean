import QuorumCommit.Order

/-!
Counters and timings of a node. All of them are words that wrap around at their end.
-/
namespace QuorumCommit

/-- Durations in microseconds: their number, sum, least and greatest. -/
structure Timing where
  count : UInt64
  total : UInt64
  least : UInt64
  greatest : UInt64
  deriving DecidableEq, Repr

namespace Timing

def none : Timing := ⟨0, 0, UInt64.ofNat (UInt64.size - 1), 0⟩

/-- Whole microseconds of a duration, as far as a word holds them. -/
def micros (seconds nanos : Nat) : UInt64 := UInt64.ofNat (seconds * 1000000 + nanos / 1000)

def record (t : Timing) (us : UInt64) : Timing :=
  ⟨t.count + 1, t.total + us, min t.least us, max t.greatest us⟩

/-- The least duration; zero as long as there is none. -/
def shownLeast (t : Timing) : UInt64 :=
  if t.least = UInt64.ofNat (UInt64.size - 1) then 0 else t.least

def average (t : Timing) : Float :=
  if t.count = 0 then 0.0 else t.total.toFloat / t.count.toFloat

def averageMs (t : Timing) : Float := t.average / 1000.0

end Timing

inductive Counter where
  | started
  | committed
  | rolledBack
  | conflicts
  | lockTimeouts
  | retries
  | resyncs
  | insufficientNodes
  | schemaExecuted
  deriving DecidableEq, Repr

structure Meter where
  started : UInt64
  committed : UInt64
  rolledBack : UInt64
  conflicts : UInt64
  lockTimeouts : UInt64
  retries : UInt64
  resyncs : UInt64
  insufficientNodes : UInt64
  schemaExecuted : UInt64
  phase1 : Timing
  commit : Timing
  deriving DecidableEq, Repr

namespace Meter

def zero : Meter := ⟨0, 0, 0, 0, 0, 0, 0, 0, 0, Timing.none, Timing.none⟩

instance : Inhabited Meter := ⟨zero⟩

def add (m : Meter) (n : UInt64) : Counter → Meter
  | .started => { m with started := m.started + n }
  | .committed => { m with committed := m.committed + n }
  | .rolledBack => { m with rolledBack := m.rolledBack + n }
  | .conflicts => { m with conflicts := m.conflicts + n }
  | .lockTimeouts => { m with lockTimeouts := m.lockTimeouts + n }
  | .retries => { m with retries := m.retries + n }
  | .resyncs => { m with resyncs := m.resyncs + n }
  | .insufficientNodes => { m with insufficientNodes := m.insufficientNodes + n }
  | .schemaExecuted => { m with schemaExecuted := m.schemaExecuted + n }

def increment (m : Meter) (c : Counter) : Meter := m.add 1 c

/-- All counters, in the order in which they are shown. -/
def counters (m : Meter) : List UInt64 :=
  [m.started, m.committed, m.rolledBack, m.conflicts, m.lockTimeouts, m.retries, m.resyncs,
    m.insufficientNodes, m.schemaExecuted]

/-- The part of the attempts started that were committed. -/
def commitRate (m : Meter) : Float32 :=
  if m.started = 0 then 0.0 else m.committed.toFloat32 / m.started.toFloat32

end Meter

end QuorumCommit
