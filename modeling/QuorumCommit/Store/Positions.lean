import QuorumCommit.Ident

/-!
The places of one data cluster. A place is free for allocation if it was given back, or lies at
or behind the end of the places ever used; reserved places wait for their record to be stored.
Places are signed words, so the end comes round to the first word once the last one is used.
-/
namespace QuorumCommit

structure Positions where
  next : Int
  reserved : Std.ExtTreeSet Int
  free : Std.ExtTreeSet Int
  deriving DecidableEq

namespace Positions

open RecordId (behind)

def empty : Positions := ⟨0, ∅, ∅⟩

/-- The place that the next allocation takes: the first one given back, or the end. -/
def nextFree (p : Positions) : Int := p.free.toList.head?.getD p.next

def allocate (p : Positions) : Positions :=
  match p.free.toList.head? with
  | some n => { p with free := p.free.erase n, reserved := p.reserved.insert n }
  | none => { p with next := behind p.next, reserved := p.reserved.insert p.next }

/-- Reserves a place that another node chose. -/
def reserve (p : Positions) (n : Int) : Positions where
  next := max p.next (behind n)
  reserved := p.reserved.insert n
  free := p.free.erase n

/-- Ends a reservation because the record is stored. -/
def settle (p : Positions) (n : Int) : Positions := { p with reserved := p.reserved.erase n }

/-- Gives a reserved place back. It is free again unless a record is stored there. -/
def release (p : Positions) (stored : Bool) (n : Int) : Positions :=
  if p.reserved.contains n then
    let p := p.settle n
    if stored then p else { p with free := p.free.insert n }
  else p

end Positions

end QuorumCommit
