import QuorumCommit.Fault
import QuorumCommit.Task
import QuorumCommit.Wire.Basic

/-!
The binary form of tasks. Bytes behind a task are left over, not refused.
-/
namespace QuorumCommit

open Wire

namespace TxId

def toBytes (t : TxId) : List UInt8 := word 4 t.origin ++ word 8 t.sequence

def reader : Reader TxId := do
  let origin ← readWord 4
  let sequence ← readWord 8
  pure ⟨origin, sequence⟩

end TxId

namespace RequestId

def toBytes (r : RequestId) : List UInt8 := word 4 r.node ++ word 8 r.message

def reader : Reader RequestId := do
  let node ← readWord 4
  let message ← readWord 8
  pure ⟨node, message⟩

end RequestId

namespace RecordId

def toBytes (r : RecordId) : List UInt8 := signed 4 r.cluster ++ signed 8 r.position

def reader : Reader RecordId := do
  let cluster ← readSigned 4
  let position ← readSigned 8
  pure ⟨cluster, position⟩

end RecordId

namespace ChangeKind

def toBytes : ChangeKind → List UInt8
  | created => case 0
  | updated => case 1
  | deleted => case 2

def reader : Reader ChangeKind := do
  match ← readCase 3 with
  | 0 => pure created
  | 1 => pure updated
  | _ => pure deleted

end ChangeKind

namespace RecordChange

def toBytes (c : RecordChange) : List UInt8 :=
  c.record.toBytes ++ string c.clusterName ++ c.kind.toBytes ++ word 4 c.version ++
    list byte c.content

def reader : Reader RecordChange := do
  let record ← RecordId.reader
  let clusterName ← readString
  let kind ← ChangeKind.reader
  let version ← readWord 4
  let content ← readList readByte
  pure ⟨record, clusterName, kind, version, content⟩

end RecordChange

namespace IndexAction

def toBytes : IndexAction → List UInt8
  | put => case 0
  | remove => case 1

def reader : Reader IndexAction := do
  match ← readCase 2 with
  | 0 => pure put
  | _ => pure remove

end IndexAction

namespace IndexEdit

def toBytes (e : IndexEdit) : List UInt8 := e.action.toBytes ++ option RecordId.toBytes e.value

def reader : Reader IndexEdit := do
  let action ← IndexAction.reader
  let value ← readOption RecordId.reader
  pure ⟨action, value⟩

end IndexEdit

namespace IndexEdits

def toBytes (e : IndexEdits) : List UInt8 :=
  map string (list IndexEdit.toBytes) e.keyed ++ list IndexEdit.toBytes e.unkeyed

def reader : Reader IndexEdits := do
  let keyed ← readMap readString (readList IndexEdit.reader)
  let unkeyed ← readList IndexEdit.reader
  pure ⟨keyed, unkeyed⟩

end IndexEdits

namespace ChangeSet

def toBytes (t : ChangeSet) : List UInt8 :=
  list RecordChange.toBytes t.changes ++ map string IndexEdits.toBytes t.indexes ++
    signed 8 t.created

def reader : Reader ChangeSet := do
  let changes ← readList RecordChange.reader
  let indexes ← readMap readString IndexEdits.reader
  let created ← readSigned 8
  pure ⟨changes, indexes, created⟩

end ChangeSet

namespace Task

def toBytes : Task → List UInt8
  | firstPhase request id changes =>
    case 0 ++ request.toBytes ++ id.toBytes ++ changes.toBytes
  | secondPhase request commit => case 1 ++ request.toBytes ++ bool commit
  | schemaFirstPhase request command before after =>
    case 2 ++ request.toBytes ++ string command ++ before.toBytes ++ after.toBytes
  | schemaSecondPhase request apply => case 3 ++ request.toBytes ++ bool apply

def reader : Reader Task := do
  match ← readCase 4 with
  | 0 => do
    let request ← RequestId.reader
    let id ← TxId.reader
    let changes ← ChangeSet.reader
    pure (firstPhase request id changes)
  | 1 => do
    let request ← RequestId.reader
    let commit ← readBool
    pure (secondPhase request commit)
  | 2 => do
    let request ← RequestId.reader
    let command ← readString
    let before ← TxId.reader
    let after ← TxId.reader
    pure (schemaFirstPhase request command before after)
  | _ => do
    let request ← RequestId.reader
    let apply ← readBool
    pure (schemaSecondPhase request apply)

/-- Reads a task from the front of the bytes. -/
def ofBytes (bytes : List UInt8) : Except Fault Task :=
  match reader bytes with
  | .ok (t, _) => .ok t
  | .error fault => .error (.unreadable fault.message)

end Task

end QuorumCommit
