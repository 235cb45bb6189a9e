import QuorumCommit.Proofs.Cluster.Runs

/-!
A change set that is not committed leaves no trace: whatever the attempts at it did to the nodes is
undone on all of them.
-/
namespace QuorumCommit

/-- A node shows no trace of what has happened since, unless in the places that are reserved:
neither its records nor its log have changed, and it holds, promises and awaits the same as before.
-/
structure Node.Unmarked (n n' : Node) : Prop where
  records : n'.store.records = n.store.records
  indexValues : n'.store.indexValues = n.store.indexValues
  applied : n'.store.applied = n.store.applied
  last : ∀ o, n'.sequencer.lastCommitted? o = n.sequencer.lastCommitted? o
  promised : ∀ o, (n'.sequencer.slot o).promised = (n.sequencer.slot o).promised
  locks : n'.locks = n.locks
  registry : n'.registry = n.registry

structure Node.Untraced (n n' : Node) : Prop extends Unmarked n n' where
  reserved : ∀ id, n'.store.isReserved id = n.store.isReserved id

/-- A node shows no trace of what has happened since, except that places may be reserved or free
that were not once those of a cluster came round. -/
structure Node.Clean (n n' : Node) : Prop extends Unmarked n n' where
  untraced : n'.store.HasRoom → n.Untraced n'

theorem Node.Alike.unmarked {n n' : Node} (h : n.Alike n') : n.Unmarked n' where
  records := (congrArg Store.records h.content :)
  indexValues := (congrArg Store.indexValues h.content :)
  applied := (congrArg Store.applied h.content :)
  last o := by
    unfold Sequencer.lastCommitted?
    rw [h.last]
  promised o := (congrArg (fun v : View => (v.slots o).promised) h.shared :)
  locks := (congrArg View.locks h.shared :)
  registry := h.registry

namespace Cluster

variable {c c' : Cluster}

def twice : Settings := { Settings.default with maxAutoRetry := 2 }

/-- A commit has left the first place of all reserved. -/
def leaky : Cluster :=
  performAll (pair hasty)
    [.commit "a" lastButOne, .commit "a" (person 1), .commit "a" firstOfAll]

/-- Creates a record at the last place but two and three behind it, and updates one that is missing.
-/
def beyond : ChangeSet :=
  ((((personAt 9223372036854775805).create "person" 9 [4]).create "person" 9 [5]).create
    "person" 9 [6]).update "person" ⟨9, 0⟩ 1 [7]

end Cluster

end QuorumCommit
