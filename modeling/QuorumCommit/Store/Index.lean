import QuorumCommit.ChangeSet

/-!
Indexes of a store: their kinds, and the record that each key leads to.
-/
namespace QuorumCommit

inductive IndexKind where
  | unique
  | uniqueHash
  | dictionary
  | dictionaryHash
  | notUnique
  | fullText
  deriving DecidableEq, Repr

namespace IndexKind

/-- A key leads to at most one record, and a second record is refused. -/
def isUnique : IndexKind → Bool
  | unique | uniqueHash => true
  | _ => false

/-- Writers of one key have to take turns. -/
def locksKeys : IndexKind → Bool
  | unique | uniqueHash | dictionary | dictionaryHash => true
  | notUnique | fullText => false

end IndexKind

/-- The record that a key leads to after an edit, given the record before it. An edit without a
record clears the key; a removal clears it only if it leads to the named record. -/
def IndexEdit.apply (e : IndexEdit) (current : Option RecordId) : Option RecordId :=
  match e.action, e.value with
  | .put, some record => some record
  | .remove, some record => if current = some record then none else current
  | _, none => none

/-- The record of each index key. -/
structure IndexValues where
  values : Std.ExtTreeMap IndexKey RecordId
  deriving DecidableEq

namespace IndexValues

def empty : IndexValues := ⟨∅⟩

def get? (v : IndexValues) (key : IndexKey) : Option RecordId := v.values[key]?

def set (v : IndexValues) (key : IndexKey) : Option RecordId → IndexValues
  | some record => ⟨v.values.insert key record⟩
  | none => ⟨v.values.erase key⟩

def applyEdit (key : IndexKey) (v : IndexValues) (e : IndexEdit) : IndexValues :=
  v.set key (e.apply (v.get? key))

def applyEdits (key : IndexKey) (v : IndexValues) (edits : List IndexEdit) : IndexValues :=
  edits.foldl (applyEdit key) v

def applyAll (v : IndexValues) (t : ChangeSet) : IndexValues :=
  t.keyEdits.foldl (fun v (key, edits) => applyEdits key v edits) v

end IndexValues

end QuorumCommit
