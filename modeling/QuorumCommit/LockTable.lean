import QuorumCommit.ChangeSet
import QuorumCommit.Fault

/-!
Exclusive locks on records and index keys. A key is held by one request at a time; taking a key
that the request holds already changes nothing. There is nobody to wait for in a sequential run,
so a key held by another request is refused at once.
-/
namespace QuorumCommit

/-- What can be locked. The key of an index is one text with the name of its index. -/
inductive LockKey where
  | record (id : RecordId)
  | indexKey (text : String)
  deriving DecidableEq, Repr

namespace LockKey

def indexText? : LockKey → Option String
  | record _ => none
  | indexKey text => some text

def recordId? : LockKey → Option RecordId
  | record id => some id
  | indexKey _ => none

/-- Records come before index keys. -/
instance : Ord LockKey := ⟨compareLex (compareOn indexText?) (compareOn recordId?)⟩

instance : Std.TransOrd LockKey :=
  inferInstanceAs (Std.TransCmp (compareLex (compareOn indexText?) (compareOn recordId?)))

instance : Std.LawfulEqOrd LockKey :=
  lawfulEqCmp_of_fields indexText? recordId? fun a b h₁ h₂ => by
    cases a <;> cases b <;> simp_all [indexText?, recordId?]

/-- The key of an index entry. The null key is spelled out. -/
def ofIndexKey (k : IndexKey) : LockKey := indexKey (k.index ++ "#" ++ k.key.getD "null")

def text : LockKey → String
  | record id => toString id
  | indexKey text => text

def outline : LockKey → String
  | record id => "Record(" ++ id.outline ++ ")"
  | indexKey text => "IndexKey(" ++ Text.Quoted.encode text ++ ")"

/-- The order in which keys are locked, each once. -/
def inOrder (keys : List LockKey) : List LockKey := (Std.ExtTreeSet.ofList keys).toList

end LockKey

/-- Who holds which key. -/
structure LockTable where
  holders : Std.ExtTreeMap LockKey RequestId
  deriving DecidableEq

namespace LockTable

def empty : LockTable := ⟨∅⟩

instance : Inhabited LockTable := ⟨empty⟩

def holder? (t : LockTable) (key : LockKey) : Option RequestId := t.holders[key]?

def isLocked (t : LockTable) (key : LockKey) : Bool := t.holders.contains key

def size (t : LockTable) : Nat := t.holders.size

/-- Takes a key, or names the other request that holds it. -/
def tryLock (t : LockTable) (key : LockKey) (request : RequestId) :
    Except RequestId LockTable :=
  match t.holder? key with
  | none => .ok ⟨t.holders.insert key request⟩
  | some holder => if holder = request then .ok t else .error holder

def lock (t : LockTable) (key : LockKey) (request : RequestId) : Except Fault LockTable :=
  match t.tryLock key request with
  | .ok t => .ok t
  | .error holder => .error (.lockTimeout key.text holder 0)

/-- Gives a key back if the request holds it. -/
def unlock (t : LockTable) (key : LockKey) (request : RequestId) : LockTable :=
  if t.holder? key = some request then ⟨t.holders.erase key⟩ else t

def unlockAll (t : LockTable) (keys : List LockKey) (request : RequestId) : LockTable :=
  keys.foldl (fun t key => t.unlock key request) t

end LockTable

end QuorumCommit
