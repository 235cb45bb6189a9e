import QuorumCommit.Fault
import QuorumCommit.Store.Index
import QuorumCommit.Store.Positions
import QuorumCommit.Text.Blank

/-!
The store of one node: records with their versions, the places of every data cluster, index
values, the names of data clusters, and the lists of what was applied. Places for new records
are reserved before a change set is committed and settled when it is.
-/
namespace QuorumCommit

open Text

structure StoredRecord where
  version : Nat
  content : List UInt8
  deleted : Bool
  deriving DecidableEq, Repr

/-- The version of a record once it is changed. Versions are short words. -/
def StoredRecord.nextVersion (r : StoredRecord) : Nat := (r.version + 1) % 4294967296

/-- A committed transaction and its offset in the journal. -/
structure Applied where
  id : TxId
  offset : Nat
  deriving DecidableEq, Repr

/-- Whether a command still has to be distributed, or already was. -/
inductive RunMode where
  | direct
  | replicated
  deriving DecidableEq, Repr

structure Store where
  records : Std.ExtTreeMap RecordId StoredRecord
  places : Std.ExtTreeMap Int Positions
  clusterIds : Std.ExtTreeMap String Int
  indexKinds : Std.ExtTreeMap String IndexKind
  indexValues : IndexValues
  applied : List Applied
  commands : List (String × RunMode)
  /-- How many of the next commands fail. -/
  failing : Nat
  maxRecordSize : Option Nat
  deriving DecidableEq

namespace Store

def empty (maxRecordSize : Option Nat) : Store where
  records := ∅
  places := ∅
  clusterIds := ∅
  indexKinds := ∅
  indexValues := IndexValues.empty
  applied := []
  commands := []
  failing := 0
  maxRecordSize := maxRecordSize

instance : Inhabited Store := ⟨empty none⟩

def record? (s : Store) (id : RecordId) : Option StoredRecord := s.records[id]?

def isStored (s : Store) (id : RecordId) : Bool := s.records.contains id

def isDeleted (s : Store) (id : RecordId) : Bool := (s.record? id).any (·.deleted)

/-- The number of records that are not deleted. -/
def recordCount (s : Store) : Nat := (s.records.values.filter (! ·.deleted)).length

def placesOf (s : Store) (cluster : Int) : Positions := s.places.getD cluster Positions.empty

def setPlaces (s : Store) (cluster : Int) (p : Positions) : Store :=
  { s with places := s.places.insert cluster p }

def reservedCount (s : Store) : Nat :=
  s.places.values.foldr (fun p n => p.reserved.size + n) 0

def isReserved (s : Store) (id : RecordId) : Bool :=
  (s.placesOf id.cluster).reserved.contains id.position

/-- A record is stored at this place, or the place is reserved for one. -/
def isTaken (s : Store) (id : RecordId) : Bool := s.isStored id || s.isReserved id

/-- The place that the next record of a cluster would get. -/
def nextFree (s : Store) (cluster : Int) : RecordId := ⟨cluster, (s.placesOf cluster).nextFree⟩

def allocate (s : Store) (cluster : Int) : RecordId × Store :=
  (s.nextFree cluster, s.setPlaces cluster (s.placesOf cluster).allocate)

def reserve (s : Store) (id : RecordId) : Store :=
  s.setPlaces id.cluster ((s.placesOf id.cluster).reserve id.position)

def settle (s : Store) (id : RecordId) : Store :=
  s.setPlaces id.cluster ((s.placesOf id.cluster).settle id.position)

def release (s : Store) (id : RecordId) : Store :=
  s.setPlaces id.cluster ((s.placesOf id.cluster).release (s.isStored id) id.position)

def releaseAll (s : Store) (ids : List RecordId) : Store := ids.foldl release s

def putRecord (s : Store) (id : RecordId) (r : StoredRecord) : Store :=
  { s with records := s.records.insert id r }

/-- Stores a record outside of any transaction. -/
def insertRecord (s : Store) (id : RecordId) (version : Nat) (content : List UInt8) : Store :=
  ((s.reserve id).settle id).putRecord id ⟨version, content, false⟩

def setIndexValue (s : Store) (key : IndexKey) (id : RecordId) : Store :=
  { s with indexValues := s.indexValues.set key (some id) }

def indexValue? (s : Store) (key : IndexKey) : Option RecordId := s.indexValues.get? key

def indexKind? (s : Store) (name : String) : Option IndexKind := s.indexKinds[name]?

def defineIndex (s : Store) (name : String) (kind : IndexKind) : Store :=
  { s with indexKinds := s.indexKinds.insert name kind }

/-- Created and updated records name their cluster and keep to the size limit. -/
def validate (s : Store) (c : RecordChange) : Except Fault Unit :=
  if c.kind = .deleted then .ok ()
  else if c.clusterName.isEmpty then
    .error (.rejected s!"record {c.record} has no cluster name")
  else
    match s.maxRecordSize with
    | none => .ok ()
    | some limit =>
      if limit < c.content.length then
        .error (.rejected s!"record {c.record} is {c.content.length} bytes, limit is {limit}")
      else .ok ()

/-- What was reserved so far, and the temporary ids that it replaces. -/
structure Reservation where
  reserved : List RecordId
  renames : List (RecordId × RecordId)

/-- Reserves a place for every created record in turn. A temporary id gets the next free place,
any other id its own place. If one is taken, all is given back. -/
def reserveFrom (r : Reservation) : List RecordId → Store → Except Fault Reservation × Store
  | [], s => (.ok r, s)
  | id :: rest, s =>
    if id.isTemporary then
      let (place, s) := s.allocate id.cluster
      reserveFrom ⟨r.reserved ++ [place], r.renames ++ [(id, place)]⟩ rest s
    else if s.isTaken id then
      (.error (.placeConflict id (s.nextFree id.cluster)), s.releaseAll r.reserved)
    else reserveFrom { r with reserved := r.reserved ++ [id] } rest (s.reserve id)

/-- Reserves the places of all created records and puts the final ids into the change set. -/
def preallocate (s : Store) (t : ChangeSet) :
    Except Fault (List RecordId × ChangeSet) × Store :=
  match reserveFrom ⟨[], []⟩ t.createdRecords s with
  | (.error fault, s) => (.error fault, s)
  | (.ok r, s) => (.ok (r.reserved, r.renames.foldl (fun t (a, b) => t.rename a b) t), s)

def missing (id : RecordId) : Fault := .storage s!"record {id} not found"

def applyChange (s : Store) (c : RecordChange) : Except Fault Store :=
  match c.kind with
  | .created => .ok ((s.settle c.record).putRecord c.record ⟨1, c.content, false⟩)
  | .updated =>
    match s.record? c.record with
    | none => .error (missing c.record)
    | some r =>
      .ok (s.putRecord c.record { r with version := r.nextVersion, content := c.content })
  | .deleted =>
    match s.record? c.record with
    | none => .ok s
    | some r => .ok (s.putRecord c.record ⟨r.nextVersion, [], true⟩)

/-- Applies changes in order up to the first that fails. -/
def applyChanges : List RecordChange → Store → Except Fault Unit × Store
  | [], s => (.ok (), s)
  | c :: rest, s =>
    match s.applyChange c with
    | .ok s => applyChanges rest s
    | .error fault => (.error fault, s)

def applyEdits (s : Store) (t : ChangeSet) : Store :=
  { s with indexValues := s.indexValues.applyAll t }

/-- Notes a commit. -/
def note (s : Store) (a : Applied) : Store := { s with applied := s.applied ++ [a] }

/-- Applies a change set whose places are reserved. -/
def commit (s : Store) (t : ChangeSet) (a : Applied) : Except Fault Unit × Store :=
  match applyChanges t.changes s with
  | (.error fault, s) => (.error fault, s)
  | (.ok _, s) => (.ok (), (s.applyEdits t).note a)

def lowered (s : String) : String := s.map Char.toLower

/-- A command that this store knows; every other command is only noted. -/
inductive Command where
  | createCluster (name : String)
  | dropCluster (name : String)
  | other
  deriving DecidableEq, Repr

def unquoted (name : String) : String :=
  let tick (c : Char) : Bool := c = '\x60'
  String.ofList ((name.toList.dropWhile tick).reverse.dropWhile tick).reverse

def Command.ofString (query : String) : Command :=
  match words query with
  | [verb, noun, name] =>
    if lowered noun = "cluster" then
      if lowered verb = "create" then .createCluster (unquoted name)
      else if lowered verb = "drop" then .dropCluster (unquoted name)
      else .other
    else .other
  | _ => .other

/-- The id of the next new cluster: one more than the largest in use, as a signed word of half the
length. -/
def nextClusterId (s : Store) : Int :=
  match s.clusterIds.values.max? with
  | some id => (id + 1).bmod 4294967296
  | none => 0

def runCommand (s : Store) : Command → Except Fault Store
  | .createCluster name =>
    .ok { s with clusterIds := s.clusterIds.insertIfNew name s.nextClusterId }
  | .dropCluster name =>
    if s.clusterIds.contains name then .ok { s with clusterIds := s.clusterIds.erase name }
    else .error (.rejected s!"cluster '{name}' does not exist")
  | .other => .ok s

def noteCommand (s : Store) (query : String) (mode : RunMode) : Store :=
  { s with commands := s.commands ++ [(query, mode)] }

/-- Runs a command, unless failures are due. -/
def execute (s : Store) (query : String) (mode : RunMode) : Except Fault Unit × Store :=
  match s.failing with
  | n + 1 => (.error (.storage s!"command '{query}' failed"), { s with failing := n })
  | 0 =>
    match s.runCommand (Command.ofString query) with
    | .ok s => (.ok (), s.noteCommand query mode)
    | .error fault => (.error fault, s)

end Store

end QuorumCommit
