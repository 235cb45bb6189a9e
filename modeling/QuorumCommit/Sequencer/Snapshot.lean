import QuorumCommit.Sequencer.Basic
import QuorumCommit.Wire.Basic

/-!
Snapshots of a sequencer: the last commit of every origin and the next offset. Promises and ids
taken back are not part of it. The binary form of a snapshot is what a journal keeps on disk.
-/
namespace QuorumCommit

open Wire

/-- The last committed place and its offset, by origin. -/
structure Snapshot where
  origins : Std.ExtTreeMap Nat (Nat × Nat)
  nextOffset : Nat
  deriving DecidableEq

namespace Snapshot

def toBytes (s : Snapshot) : List UInt8 :=
  Wire.map (word 4) (pair (word 8) (word 8)) s.origins ++ word 8 s.nextOffset

def reader : Reader Snapshot := do
  let origins ← readMap (readWord 4) (readPair (readWord 8) (readWord 8))
  let nextOffset ← readWord 8
  pure ⟨origins, nextOffset⟩

/-- Reads a snapshot from the front of the bytes. -/
def ofBytes (bytes : List UInt8) : Except Fault Snapshot :=
  match reader bytes with
  | .ok (s, _) => .ok s
  | .error fault => .error (.unreadable fault.message)

end Snapshot

namespace Sequencer

def snapshot (s : Sequencer) : Snapshot where
  origins := s.slots.filterMap fun _ slot =>
    if 0 < slot.last then some (slot.last, slot.lastOffset) else none
  nextOffset := s.nextOffset

/-- A sequencer that knows what a snapshot tells. -/
def ofSnapshot (origin depth : Nat) (s : Snapshot) : Sequencer where
  origin := origin
  depth := max depth 1
  slots := s.origins.map fun _ entry => Slot.committedUpTo entry.1 entry.2
  nextOffset := max s.nextOffset 1

end Sequencer

end QuorumCommit
