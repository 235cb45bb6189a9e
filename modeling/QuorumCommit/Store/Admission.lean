import QuorumCommit.LockTable
import QuorumCommit.Store.Basic

/-!
What a change set asks of a store before it may be committed: the keys to lock, unique index
keys that stay unique, and records that still have the versions that the writer saw.
-/
namespace QuorumCommit.Store

/-- All keys that a change set locks, records before index keys. Every index has to be known. -/
def lockKeys (s : Store) (t : ChangeSet) : Except Fault (List LockKey) := do
  let keys ← t.indexes.toList.mapM fun (name, edits) =>
    match s.indexKind? name with
    | none => .error (.rejected s!"index '{name}' not found")
    | some kind =>
      .ok (if kind.locksKeys then
        edits.toList.map fun (key, _) => LockKey.ofIndexKey ⟨name, key⟩ else [])
  .ok (LockKey.inOrder (t.changes.map (.record ·.record) ++ keys.flatten))

def isUnique (s : Store) (name : String) : Bool := (s.indexKind? name).any (·.isUnique)

/-- The record that the last edit of a key puts there. -/
def lastPut? (edits : List IndexEdit) : Option RecordId := do
  let last ← edits.getLast?
  if last.action = .put then last.value else none

/-- A key may pass to another record only if the edits also take it from its present one. -/
def checkKey (s : Store) (key : IndexKey) (edits : List IndexEdit) : Except Fault Unit :=
  match lastPut? edits, s.indexValue? key with
  | some incoming, some existing =>
    if existing = incoming ∨ ⟨.remove, some existing⟩ ∈ edits then .ok ()
    else .error (.duplicateKey key.index key.key existing incoming)
  | _, _ => .ok ()

def checkUniqueKeys (s : Store) (t : ChangeSet) : Except Fault Unit :=
  t.keyEdits.forM fun (key, edits) =>
    if s.isUnique key.index then s.checkKey key edits else .ok ()

def checkVersion (s : Store) (c : RecordChange) : Except Fault Unit :=
  if c.kind = .created then .ok ()
  else
    match s.record? c.record with
    | none => .error (.placeConflict c.record RecordId.absent)
    | some r =>
      if r.deleted then .error (.versionConflict c.record c.version c.version)
      else if r.version = c.version then .ok ()
      else .error (.versionConflict c.record r.version c.version)

def checkVersions (s : Store) (t : ChangeSet) : Except Fault Unit :=
  t.changes.forM s.checkVersion

end QuorumCommit.Store
