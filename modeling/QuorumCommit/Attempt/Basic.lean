import QuorumCommit.Journal
import QuorumCommit.Store.Admission

/-!
Commit attempts. An attempt works for one request on one node and lists what it holds there:
locks, promised ids and reserved places. It leaves `pending` once; when it fails it gives back
all that it holds.
-/
namespace QuorumCommit

open Text

/-- What all attempts of a node share. -/
structure Resources where
  locks : LockTable
  journal : Journal
  store : Store
  disk : FileTree
  deriving DecidableEq

namespace Resources

abbrev sequencer (r : Resources) : Sequencer := r.journal.sequencer

def withSequencer (r : Resources) (s : Sequencer) : Resources :=
  { r with journal := { r.journal with sequencer := s } }

end Resources

/-- A step that may fail; what it did before it failed stays. -/
abbrev Step (σ α : Type) := ExceptT Fault (StateM σ) α

/-- What a request asks a node to commit: changes of records, or a command between two ids. -/
inductive Job where
  | data (id : TxId) (changes : ChangeSet)
  | schema (command : String) (before after : TxId)
  deriving DecidableEq

namespace Job

/-- The id of the job; the first one of a command. -/
def id : Job → TxId
  | data id _ => id
  | schema _ before _ => before

def changes? : Job → Option ChangeSet
  | data _ changes => some changes
  | schema .. => none

end Job

inductive AttemptStatus where
  | pending
  | success
  | failed
  | timedOut
  deriving DecidableEq, Repr

namespace AttemptStatus

def isFailure : AttemptStatus → Bool
  | failed | timedOut => true
  | pending | success => false

def name : AttemptStatus → String
  | pending => "Pending"
  | success => "Success"
  | failed => "Failed"
  | timedOut => "TimedOut"

/-- The status to which a fault leads. -/
def ofFault : Fault → AttemptStatus
  | .lockTimeout .. => timedOut
  | _ => failed

end AttemptStatus

structure Attempt where
  request : RequestId
  job : Job
  status : AttemptStatus
  fault : Option Fault
  held : List LockKey
  promised : List TxId
  reserved : List RecordId
  destroyed : Bool
  deriving DecidableEq

namespace Attempt

def new (request : RequestId) (job : Job) : Attempt where
  request := request
  job := job
  status := .pending
  fault := none
  held := []
  promised := []
  reserved := []
  destroyed := false

/-- An attempt at work on the resources of its node. -/
structure State where
  attempt : Attempt
  resources : Resources
  deriving DecidableEq

/-- Promises an id that the sequencer finds valid. -/
def promise (id : TxId) : Step State Unit := fun b =>
  match b.resources.sequencer.tryPromise id with
  | .error fault => (.error fault, b)
  | .ok s =>
    (.ok (), ⟨{ b.attempt with promised := b.attempt.promised ++ [id] },
      b.resources.withSequencer s⟩)

/-- Promises an id wherever it stands: the second id of a command has to wait for the first. -/
def markPromised (id : TxId) : Step State Unit := fun b =>
  (.ok (), ⟨{ b.attempt with promised := b.attempt.promised ++ [id] },
    b.resources.withSequencer (b.resources.sequencer.markPromised id)⟩)

def hold (a : Attempt) (key : LockKey) : Attempt :=
  if key ∈ a.held then a else { a with held := a.held ++ [key] }

/-- Locks keys in the order given. Keys locked before a refusal stay locked. -/
def acquire : List LockKey → Step State Unit
  | [] => fun b => (.ok (), b)
  | key :: rest => fun b =>
    match b.resources.locks.lock key b.attempt.request with
    | .error fault => (.error fault, b)
    | .ok locks =>
      acquire rest ⟨b.attempt.hold key, { b.resources with locks := locks }⟩

/-- Reserves the places of the records that the job creates. -/
def preallocate : Step State Unit := fun b =>
  match b.attempt.job with
  | .schema .. => (.ok (), b)
  | .data id changes =>
    match b.resources.store.preallocate changes with
    | (.error fault, store) => (.error fault, ⟨b.attempt, { b.resources with store := store }⟩)
    | (.ok (reserved, changes), store) =>
      (.ok (), ⟨{ b.attempt with
          job := .data id changes, reserved := b.attempt.reserved ++ reserved },
        { b.resources with store := store }⟩)

def releaseLocks (b : State) : State :=
  ⟨{ b.attempt with held := [] },
    { b.resources with locks := b.resources.locks.unlockAll b.attempt.held b.attempt.request }⟩

def releasePromises (b : State) : State :=
  ⟨{ b.attempt with promised := [] },
    b.resources.withSequencer
      (b.attempt.promised.foldl Sequencer.releasePromise b.resources.sequencer)⟩

def releaseReserved (b : State) : State :=
  ⟨{ b.attempt with reserved := [] },
    { b.resources with store := b.resources.store.releaseAll b.attempt.reserved }⟩

def releaseAll (b : State) : State := releaseReserved (releasePromises (releaseLocks b))

/-- Leaves `pending`, and tells whether it did. A failing attempt gives back all it holds. -/
def setStatus (status : AttemptStatus) (b : State) : Bool × State :=
  if b.attempt.status ≠ .pending ∨ status = .pending then (false, b)
  else
    let b : State := ⟨{ b.attempt with status := status }, b.resources⟩
    (true, if status.isFailure then releaseAll b else b)

/-- Fails a pending attempt and notes why. -/
def fail (fault : Fault) (b : State) : State :=
  match setStatus (.ofFault fault) b with
  | (true, b) => ⟨{ b.attempt with fault := some fault }, b.resources⟩
  | (false, b) => b

/-- Forgets promises and reservations that a commit has used up. -/
def markApplied (b : State) : State :=
  ⟨{ b.attempt with promised := [], reserved := [] }, b.resources⟩

/-- Gives back all that the attempt still holds. The second time does nothing. -/
def destroy (b : State) : State :=
  if b.attempt.destroyed then b
  else
    let b := releaseAll b
    ⟨{ b.attempt with destroyed := true }, b.resources⟩

/-- The resources after an attempt is given up. -/
def discard (a : Attempt) (r : Resources) : Resources := (destroy ⟨a, r⟩).resources

def outline (a : Attempt) : String :=
  Outline.partly "TxContext"
    [("request_id", a.request.outline), ("tx_id", a.job.id.outline), ("status", a.status.name),
      ("held", Outline.list (a.held.map (·.outline))),
      ("promised", Outline.list (a.promised.map (·.outline)))]

end Attempt

end QuorumCommit
