import QuorumCommit.Fault

/-!
Replies to one broadcast, counted against a quorum. Each target counts once, with its first
reply. Replies of one outcome form a group, exceptions belong to none, and the broadcast is
decided when the largest group is as large as the quorum.
-/
namespace QuorumCommit

inductive Outcome where
  | success
  | invalidSequence
  deriving DecidableEq, Repr

namespace Outcome

def name : Outcome → String
  | success => "Success"
  | invalidSequence => "InvalidSequence"

end Outcome

namespace Reply

def outcome? : Reply → Option Outcome
  | success => some .success
  | invalid .. => some .invalidSequence
  | exception _ => none

def isSuccess : Reply → Bool
  | success => true
  | _ => false

def exception? : Reply → Option Fault
  | exception fault => some fault
  | _ => none

/-- The sequence fault that an answer of this kind stands for. -/
def sequenceFault? : Reply → Option Fault
  | invalid id verdict => some (.outOfSequence id verdict)
  | _ => none

def describe : Reply → String
  | success => "success"
  | exception fault => "error: " ++ fault.message
  | invalid id verdict => s!"invalid sequence {id} ({verdict.name})"

end Reply

structure Tally where
  request : RequestId
  targets : Std.ExtTreeSet String
  expected : Nat
  quorum : Nat
  /-- In the order of arrival. -/
  replies : List (String × Reply)
  deriving DecidableEq

namespace Tally

def start (request : RequestId) (targets : Std.ExtTreeSet String) (expected quorum : Nat) :
    Tally :=
  ⟨request, targets, expected, quorum, []⟩

def hasReply (t : Tally) (node : String) : Bool := t.replies.any (·.1 = node)

/-- Whether a reply of this node would count. -/
def admits (t : Tally) (node : String) : Bool := t.targets.contains node && ! t.hasReply node

def receive (t : Tally) (node : String) (reply : Reply) : Tally :=
  if t.admits node then { t with replies := t.replies ++ [(node, reply)] } else t

def group (t : Tally) (outcome : Outcome) : List Reply :=
  (t.replies.map (·.2)).filter (·.outcome? = some outcome)

def votes (t : Tally) (outcome : Outcome) : Nat := (t.group outcome).length

/-- The outcome of the first reply that is no exception. -/
def firstOutcome? (t : Tally) : Option Outcome := t.replies.findSome? (·.2.outcome?)

/-- The outcome with most votes; of equal ones that which came first. -/
def leader? (t : Tally) : Option Outcome :=
  if t.votes .invalidSequence < t.votes .success then some .success
  else if t.votes .success < t.votes .invalidSequence then some .invalidSequence
  else t.firstOutcome?

/-- The leading outcome, if it has the quorum. -/
def decided? (t : Tally) : Option Outcome := t.leader?.filter fun o => t.quorum ≤ t.votes o

def isReached (t : Tally) : Bool := t.decided?.isSome

def isComplete (t : Tally) : Bool := t.expected ≤ t.replies.length

/-- The first reply of the decided outcome. -/
def final? (t : Tally) : Option Reply := do (t.group (← t.decided?)).head?

def firstException? (t : Tally) : Option Fault := t.replies.findSome? (·.2.exception?)

def missing (t : Tally) : List String := t.targets.toList.filter (! t.hasReply ·)

/-- A line for each reply, then one for each missing node. -/
def describe (t : Tally) : List String :=
  t.replies.map (fun (node, reply) => s!"{node}: {reply.describe}") ++
    t.missing.map fun node => s!"{node}: no response"

def notReached (t : Tally) : Fault := .quorumMissed t.request t.quorum t.describe

/-- The decision of a change set. Without a quorum the first exception tells more than the
missing quorum does. -/
def result (t : Tally) : Except Fault Reply :=
  match t.final? with
  | some reply => .ok reply
  | none => .error (t.firstException?.getD t.notReached)

/-- What the origin of a command does after the first phase. -/
inductive SchemaDecision where
  | apply
  /-- Give the ids up and try again with others. -/
  | retry (fault : Fault)
  | abort (fault : Fault)
  deriving DecidableEq

def schemaDecision (t : Tally) : SchemaDecision :=
  match t.final? with
  | some .success => .apply
  | some (.invalid id verdict) => .retry (.outOfSequence id verdict)
  | some (.exception fault) => .abort fault
  | none => .retry ((t.replies.findSome? (·.2.sequenceFault?)).getD t.notReached)

/-- Whether a node that judges the two ids of a command like this has to refuse it: one id is
committed there, or neither can be committed yet. -/
def schemaConflict (before after : Verdict) : Bool :=
  before = .alreadyPresent || after = .alreadyPresent || (before.mayChange && after.mayChange)

/-- Ids of the origin that some node reports as committed. -/
def committedElsewhere (t : Tally) (origin : Nat) : List TxId :=
  t.replies.filterMap fun
    | (_, .invalid id .alreadyPresent) => if id.origin = origin then some id else none
    | _ => none

end Tally

end QuorumCommit
