import QuorumCommit.Ident

/-!
Change sets: the record changes that a client submits together with the edits of index entries
that they imply. Records that the change set creates have temporary ids until places are
allocated; `rename` then puts the allocated id wherever the temporary one stood.
-/
namespace QuorumCommit

inductive ChangeKind where
  | created
  | updated
  | deleted
  deriving DecidableEq, Repr

/-- A change of one record. `version` is the version that the writer saw. -/
structure RecordChange where
  record : RecordId
  clusterName : String
  kind : ChangeKind
  version : Nat
  content : List UInt8
  deriving DecidableEq, Repr

/-- A key of an index. -/
structure IndexKey where
  index : String
  key : Option String
  deriving DecidableEq, Repr

namespace IndexKey

instance : Ord IndexKey := ⟨compareLex (compareOn index) (compareOn key)⟩

instance : Std.TransOrd IndexKey :=
  inferInstanceAs (Std.TransCmp (compareLex (compareOn index) (compareOn key)))

instance : Std.LawfulEqOrd IndexKey :=
  lawfulEqCmp_of_fields index key fun a b h₁ h₂ => by cases a; cases b; simp_all

end IndexKey

inductive IndexAction where
  | put
  | remove
  deriving DecidableEq, Repr

/-- An edit of one index key. -/
structure IndexEdit where
  action : IndexAction
  value : Option RecordId
  deriving DecidableEq, Repr

/-- The edits of one index, key by key in the order of submission. The null key stands apart. -/
structure IndexEdits where
  keyed : Std.ExtTreeMap String (List IndexEdit)
  unkeyed : List IndexEdit
  deriving DecidableEq

/-- The changes of one transaction. `created` counts the temporary ids given out. -/
structure ChangeSet where
  changes : List RecordChange
  indexes : Std.ExtTreeMap String IndexEdits
  created : Int
  deriving DecidableEq

def RecordChange.rename (old new : RecordId) (c : RecordChange) : RecordChange :=
  if c.record = old then { c with record := new } else c

def IndexEdit.rename (old new : RecordId) (e : IndexEdit) : IndexEdit :=
  if e.value = some old then { e with value := some new } else e

namespace IndexEdits

def empty : IndexEdits := ⟨∅, []⟩

instance : Inhabited IndexEdits := ⟨empty⟩

/-- Makes the key known, with no edits if it is new. -/
def touch (e : IndexEdits) : Option String → IndexEdits
  | some key => { e with keyed := e.keyed.insert key (e.keyed.getD key []) }
  | none => e

def push (e : IndexEdits) (key : Option String) (edit : IndexEdit) : IndexEdits :=
  match key with
  | some k => { e with keyed := e.keyed.insert k (e.keyed.getD k [] ++ [edit]) }
  | none => { e with unkeyed := e.unkeyed ++ [edit] }

/-- The keys in order, each with its edits. The null key comes last, if it has edits. -/
def toList (e : IndexEdits) : List (Option String × List IndexEdit) :=
  e.keyed.toList.map (fun (k, edits) => (some k, edits)) ++
    if e.unkeyed.isEmpty then [] else [(none, e.unkeyed)]

def rename (old new : RecordId) (e : IndexEdits) : IndexEdits :=
  ⟨e.keyed.map fun _ edits => edits.map (·.rename old new), e.unkeyed.map (·.rename old new)⟩

end IndexEdits

namespace ChangeSet

def empty : ChangeSet := ⟨[], ∅, 0⟩

instance : Inhabited ChangeSet := ⟨empty⟩

def pushChange (t : ChangeSet) (c : RecordChange) : ChangeSet :=
  { t with changes := t.changes ++ [c] }

/-- The temporary id of the record that `create` adds next in a cluster. -/
def nextTemporary (t : ChangeSet) (cluster : Int) : RecordId :=
  RecordId.temporary cluster t.created

def create (t : ChangeSet) (clusterName : String) (cluster : Int) (content : List UInt8) :
    ChangeSet :=
  { t.pushChange ⟨t.nextTemporary cluster, clusterName, .created, 0, content⟩ with
    created := RecordId.behind t.created }

def update (t : ChangeSet) (clusterName : String) (record : RecordId) (version : Nat)
    (content : List UInt8) : ChangeSet :=
  t.pushChange ⟨record, clusterName, .updated, version, content⟩

def delete (t : ChangeSet) (clusterName : String) (record : RecordId) (version : Nat) :
    ChangeSet :=
  t.pushChange ⟨record, clusterName, .deleted, version, []⟩

def editsOf (t : ChangeSet) (index : String) : IndexEdits :=
  t.indexes.getD index IndexEdits.empty

def pushEdit (t : ChangeSet) (index : String) (key : Option String) (edit : IndexEdit) :
    ChangeSet :=
  { t with indexes := t.indexes.insert index ((t.editsOf index).push key edit) }

def touch (t : ChangeSet) (index : String) (key : Option String) : ChangeSet :=
  { t with indexes := t.indexes.insert index ((t.editsOf index).touch key) }

def put (t : ChangeSet) (index : String) (key : Option String) (record : RecordId) :
    ChangeSet :=
  t.pushEdit index key ⟨.put, some record⟩

def remove (t : ChangeSet) (index : String) (key : Option String)
    (record : Option RecordId) : ChangeSet :=
  t.pushEdit index key ⟨.remove, record⟩

/-- Names of the data clusters written to, in order and each once. -/
def clusters (t : ChangeSet) : Std.ExtTreeSet String :=
  Std.ExtTreeSet.ofList (t.changes.map (·.clusterName))

/-- The record ids of the created records, in the order of the changes. -/
def createdRecords (t : ChangeSet) : List RecordId :=
  (t.changes.filter (·.kind = .created)).map (·.record)

def hasTemporary (t : ChangeSet) : Bool := t.createdRecords.any (·.isTemporary)

/-- Puts `new` wherever `old` stands. -/
def rename (old new : RecordId) (t : ChangeSet) : ChangeSet :=
  { t with
    changes := t.changes.map (·.rename old new)
    indexes := t.indexes.map fun _ edits => edits.rename old new }

/-- The edits with their keys: indexes in order, then the keys of each in order. -/
def keyEdits (t : ChangeSet) : List (IndexKey × List IndexEdit) :=
  t.indexes.toList.flatMap fun (name, edits) =>
    edits.toList.map fun (key, es) => (⟨name, key⟩, es)

def isEmpty (t : ChangeSet) : Bool := t.changes.isEmpty && t.indexes.isEmpty

end ChangeSet

end QuorumCommit
