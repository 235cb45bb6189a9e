import QuorumCommit.Node.Data
import QuorumCommit.Node.Schema
import QuorumCommit.Task

/-!
How a node answers the tasks of other nodes.
-/
namespace QuorumCommit.Node

/-- The second phase of a change set answers every fault as an exception. -/
def answerCommit (request : RequestId) (n : Node) : Reply × Node :=
  match (commit request).run n with
  | (.ok _, n) => (.success, n)
  | (.error fault, n) => (.exception fault, n)

def answer (task : Task) (n : Node) : Reply × Node :=
  match task with
  | .firstPhase request id changes => answerPrepare request id changes n
  | .secondPhase request true => answerCommit request n
  | .secondPhase request false => (.success, (rollback request n).2)
  | .schemaFirstPhase request command before after =>
    prepareSchema request command before after n
  | .schemaSecondPhase request apply =>
    match (settleSchema request apply).run n with
    | (r, n) => (Reply.ofResult r, n)

end QuorumCommit.Node
