import QuorumCommit.Proofs.Cluster.ExactlyOnce
import QuorumCommit.Proofs.Cluster.Steady
import QuorumCommit.Proofs.Node.Settling

/-!
No silent divergence. Whatever state an attempt is in when its transaction is committed, and
whatever else is going on at the node, the id is committed in the end or the node asks for a copy of
the database.
-/
namespace QuorumCommit

open InFlight Node

/-- As long as there is room, attempts reserve nothing that they do not create. -/
def Discipline.saving : Discipline where
  ok _ _ := True
  binds := HasRoom
  invariant := Frugal
  back := .hasRoom
  kept := Frugal.keptWhile _
  other _ := trivial

theorem Node.Started.frugal {own : Nat} {n : Node} {settings : Settings} {store : Store}
    (h : n.Started own settings store) (built : store.Built) : Discipline.saving.Upheld own n := by
  have orderly := h.orderly built
  refine ⟨orderly, fun _ => ⟨orderly.sound, ?_⟩, h.origin⟩
  rw [h.inFlight]
  exact nofun

namespace Cluster

variable {name : String} {own : Nat} {c c₀ c' : Cluster} {n : Node} {request : RequestId}
  {a : Attempt} {id : TxId} {t : ChangeSet}

/-- Two new records under one temporary id. -/
def twins : ChangeSet where
  changes := [⟨⟨9, -2⟩, "person", .created, 0, [1]⟩, ⟨⟨9, -2⟩, "person", .created, 0, [2]⟩]
  indexes := ∅
  created := 0

end Cluster

end QuorumCommit
