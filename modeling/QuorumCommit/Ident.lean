import QuorumCommit.Order
import QuorumCommit.Text.Outline

/-!
Identifiers. A transaction id names its origin node and its place in that node's commit order,
a request id names the broadcast that opened a transaction context, and a record id names a
place in a data cluster. All three are ordered by their fields from left to right.
-/
namespace QuorumCommit

open Text

/-- A place, counted from one, in the commit order of the origin node. -/
structure TxId where
  origin : Nat
  sequence : Nat
  deriving DecidableEq, Repr

namespace TxId

instance : Ord TxId := ⟨compareLex (compareOn origin) (compareOn sequence)⟩

instance : Std.TransOrd TxId :=
  inferInstanceAs (Std.TransCmp (compareLex (compareOn origin) (compareOn sequence)))

instance : Std.LawfulEqOrd TxId :=
  lawfulEqCmp_of_fields origin sequence fun a b h₁ h₂ => by cases a; cases b; simp_all

/-- The id that has to be committed just before this one. -/
def predecessor? (t : TxId) : Option TxId :=
  if 1 < t.sequence then some ⟨t.origin, t.sequence - 1⟩ else none

instance : ToString TxId := ⟨fun t => s!"{t.origin}:{t.sequence}"⟩

def outline (t : TxId) : String :=
  Outline.whole "TransactionId"
    [("origin", toString t.origin), ("sequence", toString t.sequence)]

end TxId

/-- The message, counted on the sending node, that opened a transaction context. -/
structure RequestId where
  node : Nat
  message : Nat
  deriving DecidableEq, Repr

namespace RequestId

instance : Ord RequestId := ⟨compareLex (compareOn node) (compareOn message)⟩

instance : Std.TransOrd RequestId :=
  inferInstanceAs (Std.TransCmp (compareLex (compareOn node) (compareOn message)))

instance : Std.LawfulEqOrd RequestId :=
  lawfulEqCmp_of_fields node message fun a b h₁ h₂ => by cases a; cases b; simp_all

instance : ToString RequestId := ⟨fun r => s!"{r.node}.{r.message}"⟩

def outline (r : RequestId) : String :=
  Outline.whole "RequestId" [("node", toString r.node), ("message", toString r.message)]

end RequestId

/-- A place in a data cluster. Negative positions wait for allocation. -/
structure RecordId where
  cluster : Int
  position : Int
  deriving DecidableEq, Repr

namespace RecordId

instance : Ord RecordId := ⟨compareLex (compareOn cluster) (compareOn position)⟩

instance : Std.TransOrd RecordId :=
  inferInstanceAs (Std.TransCmp (compareLex (compareOn cluster) (compareOn position)))

instance : Std.LawfulEqOrd RecordId :=
  lawfulEqCmp_of_fields cluster position fun a b h₁ h₂ => by cases a; cases b; simp_all

/-- Positions are signed words, and this is the last of them. -/
def lastPosition : Int := 9223372036854775807

/-- The position behind a position: behind the last one stands the first. -/
def behind (n : Int) : Int := if n = lastPosition then -9223372036854775808 else n + 1

/-- The placeholder of the record created after `n` others in the same change set. -/
def temporary (cluster n : Int) : RecordId := ⟨cluster, -(n + 1)⟩

def isTemporary (r : RecordId) : Bool := r.position < 0

/-- Stands where a record was expected and none is stored. -/
def absent : RecordId := ⟨-1, -1⟩

instance : ToString RecordId := ⟨fun r => s!"#{r.cluster}:{r.position}"⟩

def outline (r : RecordId) : String :=
  Outline.whole "RecordId" [("cluster", toString r.cluster), ("position", toString r.position)]

end RecordId

end QuorumCommit
