import QuorumCommit.Node.Answer

/-!
A cluster: members under their names, of which some are cut off. A member runs a node, or has
closed it, or answers from a script, or never answers. All nodes write to one disk, which a node
is lent while it works.
-/
namespace QuorumCommit

open Text

/-- An answer of a scripted member, and what happens to the network before it. -/
structure Prompt where
  reply : Reply
  partition : List String
  heal : List String
  deriving DecidableEq

inductive Role where
  | running (node : Node)
  | closed (settings : Settings) (store : Store)
  | scripted (prompts : List Prompt) (received : List (String × Task))
  | silent
  deriving DecidableEq

namespace Role

def node? : Role → Option Node
  | running n => some n
  | _ => none

/-- The store of a node, running or closed. -/
def store? : Role → Option Store
  | running n => some n.store
  | closed _ s => some s
  | _ => none

def withStore (store : Store) : Role → Role
  | running n => running (n.withStore store)
  | closed settings _ => closed settings store
  | role => role

end Role

/-- A member with its message counter and the faults that its next broadcasts meet. -/
structure Member where
  id : Nat
  messages : Nat
  sendFaults : List (Option Fault)
  role : Role
  deriving DecidableEq

structure Cluster where
  database : String
  members : Std.ExtTreeMap String Member
  partitioned : Std.ExtTreeSet String
  sent : Nat
  dropped : Nat
  /-- The members that asked for a copy of a database, in order, with its name. -/
  resyncs : List (String × String)
  disk : FileTree
  deriving DecidableEq

namespace Cluster

def empty (database : String) : Cluster := ⟨database, ∅, ∅, 0, 0, [], FileTree.empty⟩

def member? (c : Cluster) (name : String) : Option Member := c.members[name]?

def role? (c : Cluster) (name : String) : Option Role := (c.member? name).map (·.role)

def node? (c : Cluster) (name : String) : Option Node := (c.role? name).bind (·.node?)

def setMember (c : Cluster) (name : String) (m : Member) : Cluster :=
  { c with members := c.members.insert name m }

def onMember (c : Cluster) (name : String) (f : Member → Member) : Cluster :=
  match c.member? name with
  | some m => c.setMember name (f m)
  | none => c

def setRole (c : Cluster) (name : String) (role : Role) : Cluster :=
  c.onMember name fun m => { m with role := role }

def partition (c : Cluster) (name : String) : Cluster :=
  { c with partitioned := c.partitioned.insert name }

def heal (c : Cluster) (name : String) : Cluster :=
  { c with partitioned := c.partitioned.erase name }

def isOnline (c : Cluster) (name : String) : Bool :=
  c.members.contains name && ! c.partitioned.contains name

def online (c : Cluster) : Std.ExtTreeSet String :=
  Std.ExtTreeSet.ofList (c.members.keys.filter (! c.partitioned.contains ·))

/-- The members that a member can reach, with itself. One that is cut off reaches itself. -/
def available (c : Cluster) (name : String) : Std.ExtTreeSet String :=
  if c.isOnline name then c.online else Std.ExtTreeSet.ofList [name]

/-- A copy of the database can be asked for as long as another member may have one. -/
def canResync (c : Cluster) (name : String) : Bool := 2 ≤ c.online.size && c.isOnline name

/-- Asks for a copy of a database. -/
def requestResync (c : Cluster) (name database : String) : Except Fault Cluster :=
  if c.canResync name then .ok { c with resyncs := c.resyncs ++ [(name, database)] }
  else .error (.offline s!"no healthy peer to resync '{database}' from")

/-- Passes on what a node asked for. An ask that cannot be met is lost. -/
def passAsks (c : Cluster) (name : String) (asks : Nat) : Cluster :=
  if c.canResync name then
    { c with resyncs := c.resyncs ++ List.replicate asks (name, c.database) }
  else c

def notRunning (name : String) : Fault := .invalidState s!"no database is open on '{name}'"

/-- Lends the disk to a node. -/
def lend (c : Cluster) (n : Node) : Node :=
  { n with resources := { n.resources with disk := c.disk } }

/-- Takes a node back after its work. -/
def takeBack (c : Cluster) (name : String) (n : Node) : Cluster :=
  let c := { c with disk := n.resources.disk }
  (c.setRole name (.running { n with asks := 0 })).passAsks name n.asks

/-- Works on a running node. -/
def atNode {α : Type} (name : String) (work : Node → α × Node) : Step Cluster α := fun c =>
  match c.node? name with
  | none => (.error (notRunning name), c)
  | some n =>
    let (a, n) := work (c.lend n)
    (.ok a, c.takeBack name n)

/-- Takes a step on a running node. -/
def stepNode {α : Type} (name : String) (step : Step Node α) : Step Cluster α := fun c =>
  match c.node? name with
  | none => (.error (notRunning name), c)
  | some n =>
    let (r, n) := step.run (c.lend n)
    (r, c.takeBack name n)

/-- The next message of a member, counted from one. -/
def nextMessage (c : Cluster) (name : String) : Nat × Cluster :=
  match c.member? name with
  | none => (0, c)
  | some m => (m.messages + 1, c.setMember name { m with messages := m.messages + 1 })

def nextRequest (name : String) : Step Cluster RequestId := fun c =>
  let id := ((c.member? name).map (·.id)).getD 0
  let (message, c) := c.nextMessage name
  (.ok ⟨id, message⟩, c)

/-- Closes the node of a member, which discards the attempts that wait there. -/
def stop (c : Cluster) (name : String) : Cluster :=
  match c.role? name with
  | some (.running n) => c.setRole name (.closed n.settings n.close.store)
  | some (.scripted ..) => c.setRole name .silent
  | _ => c

/-- Opens a node on the store of a member that is closed. -/
def openNode (c : Cluster) (name : String) : Except Fault Unit × Cluster :=
  match c.member? name with
  | none => (.error (notRunning name), c)
  | some m =>
    match m.role with
    | .closed settings store =>
      match Node.openOn c.database name m.id settings store c.disk with
      | .error fault => (.error fault, c)
      | .ok n => (.ok (), c.setRole name (.running n))
    | _ => (.error (notRunning name), c)

/-- Closes the node of a member, if it runs, and opens it again. -/
def reopen (c : Cluster) (name : String) : Except Fault Unit × Cluster :=
  (c.stop name).openNode name

/-- Adds a member; an older one of the same name is gone. A member with a store opens its
node. -/
def join (c : Cluster) (name : String) (id : Nat) (role : Role) : Except Fault Unit × Cluster :=
  let c := c.setMember name ⟨id, 0, [], role⟩
  match role with
  | .closed .. => c.openNode name
  | _ => (.ok (), c)

def outline (c : Cluster) : String :=
  Outline.partly "MemoryCluster"
    [("nodes", Outline.list (c.members.keys.map Quoted.encode)),
      ("partitioned", Outline.set (c.partitioned.toList.map Quoted.encode)),
      ("messages_sent", toString c.sent)]

end Cluster

end QuorumCommit
