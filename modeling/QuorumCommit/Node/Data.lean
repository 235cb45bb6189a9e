import QuorumCommit.Node.Basic

/-!
Change sets on one node. The first phase prepares an attempt and lets it wait; the second phase
applies it or discards it. An attempt that had failed is prepared anew when its transaction has
been decided elsewhere, and if that does not help the node asks for a copy of the database.
-/
namespace QuorumCommit.Node

open Attempt

/-- Prepares an attempt, which is registered however it ends. If this node is behind the writer
and may be asked again, the answer is `false` and nothing is kept. -/
def prepare (request : RequestId) (id : TxId) (changes : ChangeSet) (atOrigin : Bool)
    (retries : Nat) : Step Node Bool := fun n =>
  let (r, b) := (Attempt.prepare atOrigin).run (n.newAttempt request (.data id changes))
  let n := (n.count .started).timePhase1
  match r with
  | .ok _ => (.ok true, n.park (succeed b))
  | .error fault =>
    let n := n.noteFailure fault
    if fault.isLagging && retries < n.settings.maxAutoRetry then (.ok false, n.discard b)
    else (.error fault, n.park (fail fault b))

/-- Prepares again as long as the node is behind the writer, up to `more` times. -/
def prepareFrom (request : RequestId) (id : TxId) (changes : ChangeSet) (retries : Nat) :
    Nat → Node → Reply × Node
  | 0, n =>
    match (prepare request id changes false retries).run n with
    | (r, n) => (Reply.ofResult r, n)
  | more + 1, n =>
    match (prepare request id changes false retries).run n with
    | (.ok false, n) => prepareFrom request id changes (retries + 1) more n
    | (r, n) => (Reply.ofResult r, n)

/-- Answers the first phase of another node. -/
def answerPrepare (request : RequestId) (id : TxId) (changes : ChangeSet) (n : Node) :
    Reply × Node :=
  prepareFrom request id changes 0 n.settings.maxAutoRetry n

/-- Prepares an attempt of this node's own, which is not registered yet. -/
def prepareOwn (request : RequestId) (id : TxId) (changes : ChangeSet) :
    Step Node State := fun n =>
  let (r, b) := (Attempt.prepare true).run (n.newAttempt request (.data id changes))
  let n := (n.count .started).timePhase1
  match r with
  | .ok _ => (.ok (succeed b), n)
  | .error fault => (.error fault, (n.noteFailure fault).discard b)

/-- Applies an attempt. An id that is committed already needs nothing more. -/
def finish (b : State) : Step Node Unit := fun n =>
  let (r, b) := Attempt.apply.run b
  let n := n.timeCommit
  match r with
  | .ok _ => (.ok (), (n.discard b).count .committed)
  | .error (.alreadyCommitted _) => (.ok (), n.discard b)
  | .error fault => (.error fault, (n.discard b).askResync)

/-- What came of preparing a failed attempt anew. -/
inductive Resolution where
  | present
  | prepared (b : State)
  | unresolved

/-- Prepares a change set anew, up to as many times as told. An open predecessor, a held lock or
a promised id may be gone the next time. -/
def prepareAnew (request : RequestId) (id : TxId) (changes : ChangeSet) :
    Nat → Node → Resolution × Node
  | 0, n => (.unresolved, n)
  | more + 1, n =>
    let n := n.count .retries
    match n.sequencer.validate id with
    | .alreadyPresent => (.present, n)
    | .missingPrevious => prepareAnew request id changes more n
    | .alreadyPromised | .valid =>
      match (Attempt.prepare false).run (n.newAttempt request (.data id changes)) with
      | (.ok _, b) => (.prepared (succeed b), n)
      | (.error fault, b) =>
        let n := n.discard b
        match fault with
        | .lockTimeout .. => prepareAnew request id changes more (n.noteFailure fault)
        | .outOfSequence .. => prepareAnew request id changes more n
        | _ => (.unresolved, n)

/-- Settles a failed attempt whose transaction has been decided elsewhere. -/
def resolve (request : RequestId) (id : TxId) (changes : ChangeSet) : Step Node Unit := fun n =>
  match prepareAnew request id changes n.settings.maxAutoRetry n with
  | (.present, n) => (.ok (), n)
  | (.prepared b, n) => finish b n
  | (.unresolved, n) => (.ok (), n.askResync)

/-- Applies a waiting attempt that is taken from the registry. -/
def settle (b : State) : Step Node Unit := fun n =>
  if b.attempt.status = .success then finish b n
  else
    match b.attempt.job with
    | .schema .. => (.error notData, n.discard b)
    | .data id changes => resolve b.attempt.request id changes (n.discard b)

/-- Makes the transaction of a request durable. The answer tells whether an attempt waited. -/
def commit (request : RequestId) : Step Node Bool := fun n =>
  match n.waiting? request with
  | none => (.ok false, n)
  | some b =>
    match settle b (n.forget request) with
    | (.ok _, n) => (.ok true, n)
    | (.error fault, n) => (.error fault, n)

/-- Discards the attempt of a request, and tells whether one waited. -/
def rollback (request : RequestId) (n : Node) : Bool × Node :=
  match n.waiting? request with
  | none => (false, n)
  | some b => (true, ((n.forget request).discard b).count .rolledBack)

/-- The request under which transactions of other nodes are caught up. -/
def catchUpRequest : RequestId := ⟨4294967295, 18446744073709551615⟩

/-- Applies a transaction committed elsewhere, without locks. One that is committed here already
is skipped. -/
def catchUp (id : TxId) (changes : ChangeSet) : Step Node Unit := fun n =>
  if n.sequencer.validate id = .alreadyPresent then (.ok (), n)
  else
    match Attempt.preallocate.run (n.newAttempt catchUpRequest (.data id changes)) with
    | (.error fault, b) => (.error fault, n.discard b)
    | (.ok _, b) =>
      match Attempt.apply.run (succeed b) with
      | (.error fault, b) => (.error fault, n.discard b)
      | (.ok _, b) => (.ok (), (n.discard b).count .committed)

end QuorumCommit.Node
