import QuorumCommit.Attempt.Basic

/-!
The two phases of an attempt that changes records. Preparing takes all that the change set needs
and checks it against the store; applying commits the id and then the change set.
-/
namespace QuorumCommit.Attempt

/-- An attempt for a command was taken for one that changes records. -/
def notData : Fault := .invalidState "not a data transaction"

/-- Promises the id of the job. -/
def promiseId : Step State Unit := fun b => (promise b.attempt.job.id).run b

/-- Locks all keys of the change set. -/
def lockKeys : Step State Unit := fun b =>
  match b.attempt.job with
  | .schema .. => (.error notData, b)
  | .data _ changes =>
    match b.resources.store.lockKeys changes with
    | .error fault => (.error fault, b)
    | .ok keys => (acquire keys).run b

/-- Compares keys and versions with the store. -/
def check : Step State Unit := fun b =>
  match b.attempt.job with
  | .schema .. => (.error notData, b)
  | .data _ changes =>
    match b.resources.store.checkUniqueKeys changes with
    | .error fault => (.error fault, b)
    | .ok _ => (b.resources.store.checkVersions changes, b)

/-- Prepares a change set. The origin chooses places before it locks, and the other nodes, which
are told the places, reserve them once they hold the locks. -/
def prepare (atOrigin : Bool) : Step State Unit :=
  if atOrigin then do
    promiseId
    preallocate
    lockKeys
    check
  else do
    promiseId
    lockKeys
    preallocate
    check

/-- Commits the id and applies the change set. -/
def apply : Step State Unit := fun b =>
  match b.attempt.job with
  | .schema .. => (.error notData, b)
  | .data id changes =>
    let r := b.resources
    match r.journal.commit r.disk id with
    | (.error fault, journal, disk) =>
      (.error fault, ⟨b.attempt, { r with journal := journal, disk := disk }⟩)
    | (.ok offset, journal, disk) =>
      let r := { r with journal := journal, disk := disk }
      match r.store.commit changes ⟨id, offset⟩ with
      | (.error fault, store) => (.error fault, ⟨b.attempt, { r with store := store }⟩)
      | (.ok _, store) => (.ok (), markApplied ⟨b.attempt, { r with store := store }⟩)

/-- The state after a prepared attempt is marked so. -/
def succeed (b : State) : State := (setStatus .success b).2

end QuorumCommit.Attempt
