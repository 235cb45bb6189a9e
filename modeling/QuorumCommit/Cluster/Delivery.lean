import QuorumCommit.Cluster.Basic
import QuorumCommit.Tally

/-!
Delivery of tasks. A task reaches a member if both ends are online and the member answers tasks
at all; otherwise it is dropped. A broadcast delivers to one target after the other.
-/
namespace QuorumCommit.Cluster

def cutOff (c : Cluster) (names : List String) : Cluster := names.foldl partition c

def reconnect (c : Cluster) (names : List String) : Cluster := names.foldl heal c

/-- A scripted member notes the task and gives its next answer. -/
def answerScripted (c : Cluster) (sender target : String) (task : Task) (prompts : List Prompt)
    (received : List (String × Task)) : Reply × Cluster :=
  let received := received ++ [(sender, task)]
  match prompts with
  | [] => (.success, c.setRole target (.scripted [] received))
  | p :: rest =>
    (p.reply,
      ((c.setRole target (.scripted rest received)).cutOff p.partition).reconnect p.heal)

/-- What a member answers to a task that reaches it. -/
def answerAt (c : Cluster) (sender target : String) (task : Task) : Option Reply × Cluster :=
  match c.role? target with
  | some (.running n) =>
    let (reply, n) := (c.lend n).answer task
    (some reply, c.takeBack target n)
  | some (.scripted prompts received) =>
    let (reply, c) := c.answerScripted sender target task prompts received
    (some reply, c)
  | _ => (none, c)

def drop (c : Cluster) : Cluster := { c with dropped := c.dropped + 1 }

def deliver (c : Cluster) (sender target : String) (task : Task) : Option Reply × Cluster :=
  let c := { c with sent := c.sent + 1 }
  if c.isOnline sender && c.isOnline target then
    match c.answerAt sender target task with
    | (none, c) => (none, c.drop)
    | answered => answered
  else (none, c.drop)

/-- Delivers to each target in turn and tallies the replies that are waited for. -/
def deliverAll (sender : String) (task : Task) (mode : ReplyMode) :
    List String → Tally → Cluster → Tally × Cluster
  | [], t, c => (t, c)
  | target :: rest, t, c =>
    match c.deliver sender target task with
    | (some reply, c) =>
      let t := if mode = .awaited then t.receive target reply else t
      deliverAll sender task mode rest t c
    | (none, c) => deliverAll sender task mode rest t c

/-- The fault, if any, that the next broadcast of a member meets. -/
def takeSendFault (c : Cluster) (name : String) : Option Fault × Cluster :=
  match c.member? name with
  | none => (none, c)
  | some m =>
    match m.sendFaults with
    | [] => (none, c)
    | fault :: rest => (fault, c.setMember name { m with sendFaults := rest })

/-- Sends a task to all targets but the sender. -/
def broadcast (sender : String) (targets : List String) (task : Task) (mode : ReplyMode)
    (t : Tally) : Step Cluster Tally := fun c =>
  match c.takeSendFault sender with
  | (some fault, c) => (.error fault, c)
  | (none, c) =>
    let (t, c) := deliverAll sender task mode (targets.filter (· ≠ sender)) t c
    (.ok t, c)

/-- Sends a task whose replies nobody waits for; a failure to send is no failure here. -/
def notify (sender : String) (targets : List String) (task : Task) : Step Cluster Unit :=
  fun c =>
    let t := Tally.start task.request (Std.ExtTreeSet.ofList targets) targets.length 0
    let (_, c) := (broadcast sender targets task .ignored t).run c
    (.ok (), c)

end QuorumCommit.Cluster
