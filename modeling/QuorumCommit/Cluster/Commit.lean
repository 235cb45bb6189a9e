import QuorumCommit.Cluster.Delivery

/-!
Commit of a change set by its origin. The origin prepares it, asks the others to prepare it too,
and with a quorum of equal answers tells all to apply it; without one, all discard it. Every
attempt takes a new id, and gives it back if it fails.
-/
namespace QuorumCommit.Cluster

/-- A transaction that its origin reports as committed, with the final record ids. -/
structure Committed where
  id : TxId
  changes : ChangeSet
  deriving DecidableEq

/-- The state of a running node. -/
def getNode (name : String) : Step Cluster Node := fun c =>
  match c.node? name with
  | none => (.error (notRunning name), c)
  | some n => (.ok n, c)

/-- Refuses work for which too few members can be reached. -/
def requireQuorum (name : String) (quorum : Nat) (nodes : Std.ExtTreeSet String) :
    Step Cluster Unit :=
  if nodes.size < quorum then do
    atNode name fun n => ((), n.count .insufficientNodes)
    throw (.tooFewNodes quorum nodes.size nodes)
  else pure ()

/-- Prepares the change set at the origin. If there is nobody else to ask, it is applied at
once; otherwise the attempt waits for the decision. -/
def prepareAtOrigin (name : String) (request : RequestId) (id : TxId) (changes : ChangeSet)
    (alone : Bool) : Step Cluster ChangeSet :=
  stepNode name do
    let b ← Node.prepareOwn request id changes
    let final := b.attempt.job.changes?.getD changes
    if alone then
      Node.finish b
      pure final
    else
      modify (·.park b)
      pure final

/-- The fault that a decision against a commit is reported as. -/
def refusal : Except Fault Reply → Fault
  | .ok (.invalid id verdict) => .outOfSequence id verdict
  | .ok (.exception fault) => fault
  | .ok .success => .invalidState "quorum reached without commit"
  | .error fault => fault

def rollbackAt (name : String) (request : RequestId) : Step Cluster Unit :=
  atNode name fun n => ((), (n.rollback request).2)

/-- One attempt to commit a change set under an id. -/
def submit (name : String) (id : TxId) (changes : ChangeSet) : Step Cluster ChangeSet := do
  let nodes := (← get).available name
  let quorum := (← getNode name).settings.replication.maxWriteQuorum
    changes.clusters.toList nodes.size
  requireQuorum name quorum nodes
  let request ← nextRequest name
  let targets := nodes.toList.filter (· ≠ name)
  let final ← prepareAtOrigin name request id changes targets.isEmpty
  if targets.isEmpty then pure final
  else
    let start := (Tally.start request nodes nodes.size quorum).receive name .success
    let tally ← tryCatch
      (broadcast name targets (.firstPhase request id final) .awaited start)
      fun fault => do
        rollbackAt name request
        throw fault
    let result := tally.result
    let commit := result matches .ok .success
    notify name targets (.secondPhase request commit)
    if commit then
      let _ ← stepNode name (Node.commit request)
      pure final
    else
      rollbackAt name request
      throw (refusal result)

def takeId (name : String) : Step Cluster TxId :=
  atNode name fun n =>
    let (id, s) := n.sequencer.nextId
    (id, n.withSequencer s)

def giveBackId (name : String) (id : TxId) : Step Cluster Unit :=
  atNode name fun n => ((), n.withSequencer (n.sequencer.releaseId id))

/-- The attempt of a number to commit a change set. -/
def attempt (name : String) (changes : ChangeSet) (number : Nat) : Step Cluster Committed := do
  if 1 < number then atNode name fun n => ((), n.count .retries)
  let id ← takeId name
  tryCatch
    (do
      let final ← submit name id changes
      pure ⟨id, final⟩)
    fun fault => do
      giveBackId name id
      throw fault

/-- Commits a change set. What the store of the origin rejects is not tried at all. -/
def commit (name : String) (changes : ChangeSet) : Step Cluster Committed := do
  let n ← getNode name
  match changes.changes.forM n.store.validate with
  | .error fault => throw fault
  | .ok _ => fun c => n.policy.run (fun number c => (attempt name changes number).run c) c

end QuorumCommit.Cluster
