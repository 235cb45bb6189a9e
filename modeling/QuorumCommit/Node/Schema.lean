import QuorumCommit.Node.Basic
import QuorumCommit.Tally

/-!
Commands on one node. A command stands between two ids of its origin: the first id is committed,
the body is run, the second id is committed. So every node runs it at the same place of the
origin's commit order.
-/
namespace QuorumCommit.Node

open Attempt

/-- Judges the two ids of a command and lets an attempt wait for the decision. A refused attempt
waits too, and may be judged again. -/
def prepareSchema (request : RequestId) (command : String) (before after : TxId) (n : Node) :
    Reply × Node :=
  let first := n.sequencer.validate before
  let second := n.sequencer.validate after
  let b := n.newAttempt request (.schema command before after)
  if Tally.schemaConflict first second then
    let reply := if first = .valid then Reply.invalid after second else .invalid before first
    (reply, n.park (setStatus .timedOut b).2)
  else
    let (_, b) := (do markPromised before; markPromised after : Step State Unit).run b
    (.success, n.park (succeed b))

/-- Commits one id of a command, which changes no record. -/
def commitId (id : TxId) : Step Node Unit := fun n =>
  let r := n.resources
  match r.journal.commit r.disk id with
  | (.error fault, journal, disk) =>
    (.error fault, { n with resources := { r with journal := journal, disk := disk } })
  | (.ok offset, journal, disk) =>
    (.ok (), { n with resources :=
      { r with journal := journal, disk := disk, store := r.store.note ⟨id, offset⟩ } })

/-- Runs a command on the store. -/
def execute (command : String) (mode : RunMode) : Step Node Unit := fun n =>
  match n.store.execute command mode with
  | (r, store) => (r, n.withStore store)

/-- Runs the body of a command, and again after a failure, up to `more` times. -/
def runBody (command : String) : Nat → Step Node Unit
  | 0 => execute command .replicated
  | more + 1 => fun n =>
    match (execute command .replicated).run n with
    | (.ok _, n) => (.ok (), n)
    | (.error _, n) => runBody command more (n.count .retries)

/-- The first id, the body, and the second id. -/
def runBetween (command : String) (before after : TxId) : Step Node Unit := fun n =>
  let steps : Step Node Unit := do
    commitId before
    runBody command (n.settings.maxAutoRetry - 1)
    commitId after
  steps.run n

/-- Applies the command of an attempt. A node that fails half-way needs a copy of the
database. -/
def finishSchema (b : State) (command : String) (before after : TxId) : Step Node Unit :=
  fun n =>
    match runBetween command before after { n with resources := b.resources } with
    | (.ok _, n) =>
      (.ok (), (n.discard (markApplied ⟨b.attempt, n.resources⟩)).count .schemaExecuted)
    | (.error fault, n) => (.error fault, (n.discard ⟨b.attempt, n.resources⟩).askResync)

/-- Judges a refused command again, up to as many times as told. Nothing waits in between. -/
def resolveSchema (request : RequestId) (command : String) (before after : TxId) :
    Nat → Step Node Unit
  | 0 => fun n => (.ok (), n.askResync)
  | more + 1 => fun n =>
    let (reply, n) := prepareSchema request command before after n
    match n.waiting? request with
    | none => resolveSchema request command before after more n
    | some b =>
      let n := n.forget request
      if reply = .success then finishSchema b command before after n
      else resolveSchema request command before after more (n.discard b)

/-- Applies or discards the command of a request. -/
def settleSchema (request : RequestId) (apply : Bool) : Step Node Unit := fun n =>
  match n.waiting? request with
  | none => (.ok (), n)
  | some b =>
    let n := n.forget request
    if apply then
      match b.attempt.job with
      | .data .. =>
        (.error (.invalidState s!"request {request} is not a schema command"), n.discard b)
      | .schema command before after =>
        if b.attempt.status = .success then finishSchema b command before after n
        else
          resolveSchema request command before after n.settings.maxAutoRetry (n.discard b)
    else (.ok (), n.discard b)

end QuorumCommit.Node
