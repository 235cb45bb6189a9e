import QuorumCommit.Attempt.Basic
import QuorumCommit.Proofs.Store.Built

/-!
Record ids that all nodes agree on. The node where a transaction starts puts places of its own in
for the temporary ids, one after the other, which comes to a renaming of all at once. The other
nodes reserve the same places and rename nothing.
-/
namespace QuorumCommit.Store

variable {s : Store} {t : ChangeSet}

/-- Creates three records, the second at a place chosen elsewhere, and puts the others under two
keys of an index, the last one under the null key. -/
def mixed : ChangeSet :=
  let first := ChangeSet.empty.create "log" 1 []
  let chosen := first.pushChange ⟨⟨1, 4⟩, "log", .created, 0, []⟩
  ((chosen.create "log" 1 []).put "idx" (some "k") (.temporary 1 0)).put "idx" none (.temporary 1 1)

/-- A store with one record, so that places on it differ from those on an empty store. -/
def inserted : Store := (empty none).insertRecord ⟨1, 0⟩ 1 []

def almostFull : Store := (empty none).insertRecord ⟨1, 9223372036854775806⟩ 1 []

def pair : ChangeSet := (ChangeSet.empty.create "log" 1 []).create "log" 1 []

end QuorumCommit.Store
