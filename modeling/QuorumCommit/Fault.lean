import QuorumCommit.Ident
import QuorumCommit.Sequencer.Verdict
import QuorumCommit.Text.Quoted

/-!
Faults: why a step of a commit failed. A fault says whether another attempt may succeed, whether
this node only has to catch up with the writer, and whether two writers collided. A reply is what
a node answers to a request.
-/
namespace QuorumCommit

open Text

inductive Fault where
  /-- Another record holds the key of a unique index. -/
  | duplicateKey (index : String) (key : Option String) (existing incoming : RecordId)
  /-- The stored version is not the one that the writer saw. -/
  | versionConflict (record : RecordId) (stored expected : Nat)
  /-- The place of a new record is not free, or an expected record is not stored here. -/
  | placeConflict (expected actual : RecordId)
  | lockTimeout (key : String) (holder : RequestId) (waited : Nat)
  | tooFewNodes (quorum available : Nat) (online : Std.ExtTreeSet String)
  | quorumMissed (request : RequestId) (quorum : Nat) (responses : List String)
  | outOfSequence (id : TxId) (verdict : Verdict)
  | alreadyCommitted (id : TxId)
  /-- A record or a request breaks a local rule; no repetition helps. -/
  | rejected (text : String)
  | offline (text : String)
  | storage (text : String)
  | unreadable (text : String)
  | configuration (text : String)
  | invalidState (text : String)
  /-- All attempts are spent; `last` is the fault of the last one. -/
  | exhausted (attempts : Nat) (last : Fault)
  deriving DecidableEq

namespace Fault

def message : Fault → String
  | duplicateKey index key existing incoming =>
    let key := key.getD "null"
    s!"cannot index record {incoming}: found duplicated key '{key}' in index '{index}' " ++
      s!"previously assigned to the record {existing}"
  | versionConflict record stored expected =>
    s!"concurrent modification on record {record}: stored version {stored}, " ++
      s!"expected version {expected}"
  | placeConflict expected actual =>
    s!"concurrent create: expected record {expected}, actual {actual}"
  | lockTimeout key holder waited =>
    s!"timed out after {waited}ms waiting for lock '{key}' held by request {holder}"
  | tooFewNodes quorum _ online =>
    let names := Outline.set (online.toList.map Quoted.encode)
    s!"not enough nodes online to execute the operation: available nodes {names}, " ++
      s!"quorum {quorum}"
  | quorumMissed request quorum responses =>
    let responses := ", ".intercalate responses
    s!"request {request} didn't reach the quorum of {quorum}, responses: [{responses}]"
  | outOfSequence id verdict => s!"invalid transaction sequence for {id}: {verdict.name}"
  | alreadyCommitted id => s!"transaction {id} already committed"
  | rejected text => s!"validation failed: {text}"
  | offline text => s!"node offline: {text}"
  | storage text => s!"storage error: {text}"
  | unreadable text => s!"serialization error: {text}"
  | configuration text => s!"configuration error: {text}"
  | invalidState text => s!"invalid state: {text}"
  | exhausted attempts last => s!"giving up after {attempts} attempts: " ++ last.message

/-- Another attempt of the whole operation may succeed. -/
def isRetryable : Fault → Bool
  | placeConflict .. | versionConflict .. | lockTimeout .. => true
  | outOfSequence _ verdict => verdict.mayChange
  | _ => false

/-- This node is behind the writer, so the same request may succeed here later. -/
def isLagging : Fault → Bool
  | versionConflict _ stored expected => stored < expected
  | placeConflict expected actual => actual.position < expected.position
  | outOfSequence _ verdict => verdict.mayChange
  | _ => false

/-- Two writers wanted the same key, version or place. -/
def isConflict : Fault → Bool
  | duplicateKey .. | versionConflict .. | placeConflict .. => true
  | _ => false

/-- The fault without the time that a lock was waited for. -/
def untimed : Fault → Fault
  | lockTimeout key holder _ => lockTimeout key holder 0
  | exhausted attempts last => exhausted attempts last.untimed
  | fault => fault

end Fault

/-- What a node answers to a request. -/
inductive Reply where
  | success
  | exception (fault : Fault)
  | invalid (id : TxId) (verdict : Verdict)
  deriving DecidableEq

namespace Reply

/-- A sequence fault is an answer of its own kind; every other fault is an exception. -/
def ofFault : Fault → Reply
  | .outOfSequence id verdict => invalid id verdict
  | fault => exception fault

def ofResult {α : Type} : Except Fault α → Reply
  | .ok _ => success
  | .error fault => ofFault fault

end Reply

end QuorumCommit
