import QuorumCommit.ChangeSet

/-!
Tasks: what the origin of a transaction asks another node to do. A first phase prepares a change
set or a command, a second phase ends it one way or the other.
-/
namespace QuorumCommit

/-- Whether the sender of a task waits for the replies. -/
inductive ReplyMode where
  | awaited
  | ignored
  deriving DecidableEq, Repr

inductive Task where
  | firstPhase (request : RequestId) (id : TxId) (changes : ChangeSet)
  | secondPhase (request : RequestId) (commit : Bool)
  | schemaFirstPhase (request : RequestId) (command : String) (before after : TxId)
  | schemaSecondPhase (request : RequestId) (apply : Bool)
  deriving DecidableEq

namespace Task

def request : Task → RequestId
  | firstPhase r .. | secondPhase r .. | schemaFirstPhase r .. | schemaSecondPhase r .. => r

def name : Task → String
  | firstPhase .. => "first_phase"
  | secondPhase .. => "second_phase"
  | schemaFirstPhase .. => "ddl_first_phase"
  | schemaSecondPhase .. => "ddl_second_phase"

end Task

end QuorumCommit
