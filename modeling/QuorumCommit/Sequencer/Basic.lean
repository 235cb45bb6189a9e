import QuorumCommit.Fault

/-!
The sequencer of a node. For every origin it keeps how far the ids of that origin are committed
and which of the later ones are promised to an open transaction; for the node itself it also
issues ids and takes back those that were not used. Ids of one origin are committed one after
the other, and every commit takes the next offset, whatever its origin. Sequence numbers and
offsets are words.
-/
namespace QuorumCommit

/-- The word behind a word: behind the last one stands zero. -/
def Sequencer.following (word : Nat) : Nat := (word + 1) % 18446744073709551616

/-- What a sequencer knows about one origin. -/
structure Slot where
  last : Nat
  lastOffset : Nat
  promised : Std.ExtTreeSet Nat
  nextIssue : Nat
  recycled : Std.ExtTreeSet Nat
  deriving DecidableEq

namespace Slot

open Sequencer (following)

def fresh : Slot := ⟨0, 0, ∅, 1, ∅⟩

/-- The state of an origin of which nothing but its last commit is known. -/
def committedUpTo (last offset : Nat) : Slot :=
  { fresh with last := last, lastOffset := offset, nextIssue := following last }

/-- Ids up to `depth` places behind the last committed one may be promised. -/
def classify (s : Slot) (depth n : Nat) : Verdict :=
  if n ≤ s.last then .alreadyPresent
  else if s.promised.contains n then .alreadyPromised
  else if s.last + depth < n then .missingPrevious
  else .valid

/-- Whether a place taken back may be issued again. -/
def isFree (s : Slot) (n : Nat) : Bool := s.last < n && ! s.promised.contains n

/-- Issues the smallest free place that was taken back, or else a new one. Places below it that
were taken back are forgotten. -/
def issue (s : Slot) : Nat × Slot :=
  match (s.recycled.filter s.isFree).toList.head? with
  | some n => (n, { s with recycled := s.recycled.filter (n < ·) })
  | none =>
    let n := max s.nextIssue (following s.last)
    (n, { s with nextIssue := following n, recycled := ∅ })

def recycle (s : Slot) (n : Nat) : Slot :=
  if s.isFree n then { s with recycled := s.recycled.insert n } else s

def promise (s : Slot) (n : Nat) : Slot := { s with promised := s.promised.insert n }

def markPromised (s : Slot) (n : Nat) : Slot := if s.last < n then s.promise n else s

def unpromise (s : Slot) (n : Nat) : Slot := { s with promised := s.promised.erase n }

def commit (s : Slot) (n offset : Nat) : Slot where
  last := n
  lastOffset := offset
  promised := s.promised.erase n
  nextIssue := max s.nextIssue (following n)
  recycled := s.recycled.filter (following n ≤ ·)

end Slot

/-- Committed and promised ids of every origin, with the node that issues ids here. -/
structure Sequencer where
  origin : Nat
  depth : Nat
  slots : Std.ExtTreeMap Nat Slot
  nextOffset : Nat
  deriving DecidableEq

namespace Sequencer

def new (origin depth : Nat) : Sequencer := ⟨origin, max depth 1, ∅, 1⟩

def slot (s : Sequencer) (origin : Nat) : Slot := s.slots.getD origin Slot.fresh

def setSlot (s : Sequencer) (origin : Nat) (slot : Slot) : Sequencer :=
  { s with slots := s.slots.insert origin slot }

def onSlot (s : Sequencer) (origin : Nat) (f : Slot → Slot) : Sequencer :=
  s.setSlot origin (f (s.slot origin))

/-- Issues the next id of the node itself. -/
def nextId (s : Sequencer) : TxId × Sequencer :=
  let (n, slot) := (s.slot s.origin).issue
  (⟨s.origin, n⟩, s.setSlot s.origin slot)

/-- Takes back an id issued here whose attempt will not commit. -/
def releaseId (s : Sequencer) (id : TxId) : Sequencer :=
  if id.origin = s.origin then s.onSlot id.origin (·.recycle id.sequence) else s

def validate (s : Sequencer) (id : TxId) : Verdict :=
  (s.slot id.origin).classify s.depth id.sequence

/-- Why an id that is not valid may not be promised. -/
def refusal (id : TxId) : Verdict → Fault
  | .alreadyPresent => .alreadyCommitted id
  | verdict => .outOfSequence id verdict

def tryPromise (s : Sequencer) (id : TxId) : Except Fault Sequencer :=
  match s.validate id with
  | .valid => .ok (s.onSlot id.origin (·.promise id.sequence))
  | verdict => .error (refusal id verdict)

/-- Promises an id that is not committed, wherever it stands. -/
def markPromised (s : Sequencer) (id : TxId) : Sequencer :=
  s.onSlot id.origin (·.markPromised id.sequence)

def releasePromise (s : Sequencer) (id : TxId) : Sequencer :=
  s.onSlot id.origin (·.unpromise id.sequence)

/-- Commits an id whose predecessor is the last one committed, and gives the offset. -/
def commit (s : Sequencer) (id : TxId) : Except Fault (Nat × Sequencer) :=
  let slot := s.slot id.origin
  if id.sequence ≤ slot.last then .error (.alreadyCommitted id)
  else if id.sequence ≠ slot.last + 1 then .error (.outOfSequence id .missingPrevious)
  else
    let s' := s.setSlot id.origin (slot.commit id.sequence s.nextOffset)
    .ok (s.nextOffset, { s' with nextOffset := following s.nextOffset })

def lastCommitted? (s : Sequencer) (origin : Nat) : Option TxId :=
  let last := (s.slot origin).last
  if 0 < last then some ⟨origin, last⟩ else none

def promisedCount (s : Sequencer) (origin : Nat) : Nat := (s.slot origin).promised.size

end Sequencer

end QuorumCommit
