import QuorumCommit.Cluster.Commit

/-!
Commands for all nodes of a cluster. A round offers two new ids to all members; with a quorum of
agreement all run the command between them, and otherwise the ids are given back and another
round may follow. Ids that some member has committed already are not given back.
-/
namespace QuorumCommit.Cluster

/-- Tells all members whether to apply a command, and does the same at the origin. -/
def confirmSchema (name : String) (targets : List String) (request : RequestId) (apply : Bool) :
    Step Cluster Unit := do
  notify name targets (.schemaSecondPhase request apply)
  stepNode name (Node.settleSchema request apply)

/-- The result of a round, and the ids of the origin that are committed elsewhere. -/
structure Round where
  decision : Except Fault Tally.SchemaDecision
  stale : List TxId

/-- Offers the ids to all members and confirms the decision. -/
def offerSchema (name command : String) (before after : TxId) (request : RequestId)
    (nodes : Std.ExtTreeSet String) (quorum : Nat) : Step Cluster Round := do
  let targets := nodes.toList.filter (· ≠ name)
  let reply ← atNode name (Node.prepareSchema request command before after)
  let origin := (← getNode name).sequencer.origin
  let start := (Tally.start request nodes nodes.size quorum).receive name reply
  let task := Task.schemaFirstPhase request command before after
  fun c =>
    match (broadcast name targets task .awaited start).run c with
    | (.error fault, c) =>
      match (confirmSchema name targets request false).run c with
      | (.error later, c) => (.ok ⟨.error later, []⟩, c)
      | (.ok _, c) => (.ok ⟨.error fault, []⟩, c)
    | (.ok tally, c) =>
      let stale := tally.committedElsewhere origin
      let decision := tally.schemaDecision
      match (confirmSchema name targets request (decision = .apply)).run c with
      | (.error fault, c) => (.ok ⟨.error fault, stale⟩, c)
      | (.ok _, c) => (.ok ⟨.ok decision, stale⟩, c)

/-- Gives back the ids of a round that did not apply its command. -/
def endRound (name : String) (ids stale : List TxId) : Step Cluster Unit := do
  (ids.filter (· ∉ stale)).forM (giveBackId name)
  if stale.isEmpty then pure () else atNode name fun n => ((), n.askResync)

/-- One round for a command between two ids. -/
def schemaRound (name command : String) (before after : TxId) :
    Step Cluster Tally.SchemaDecision := do
  let request ← nextRequest name
  let nodes := (← get).available name
  let quorum := (← getNode name).settings.replication.maxWriteQuorum [] nodes.size
  let round ← tryCatch
    (do
      requireQuorum name quorum nodes
      offerSchema name command before after request nodes quorum)
    fun fault => pure ⟨.error fault, []⟩
  match round.decision with
  | .ok .apply => pure .apply
  | .ok decision => do
    endRound name [after, before] round.stale
    pure decision
  | .error fault => do
    endRound name [after, before] round.stale
    throw fault

/-- Makes up to `more` rounds; `last` is the fault of the round before. -/
def schemaRounds (name command : String) (rounds : Nat) (last : Fault) :
    Nat → Step Cluster Unit
  | 0 => throw (.exhausted rounds last)
  | more + 1 => do
    let before ← takeId name
    let after ← takeId name
    match ← schemaRound name command before after with
    | .apply => pure ()
    | .abort fault => throw fault
    | .retry fault => do
      atNode name fun n => ((), n.count .retries)
      schemaRounds name command rounds fault more

/-- Runs a command on every node, or, if it is distributed already, on this one. -/
def runCommand (name command : String) (mode : RunMode) : Step Cluster Unit := do
  match mode with
  | .replicated => stepNode name (Node.execute command .replicated)
  | .direct =>
    let rounds := (← getNode name).settings.rounds
    let never := Fault.invalidState s!"schema command '{command}' never attempted"
    schemaRounds name command rounds never rounds

def addCluster (name cluster : String) : Step Cluster Unit :=
  runCommand name ("create cluster \x60" ++ cluster ++ "\x60") .direct

def dropCluster (name cluster : String) : Step Cluster Unit :=
  runCommand name ("drop cluster \x60" ++ cluster ++ "\x60") .direct

end QuorumCommit.Cluster
