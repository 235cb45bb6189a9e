import QuorumCommit.Fault

/-!
Settings of a node: how often and how long it tries, how far ids may run ahead, where its journal
is kept, and how many replicas have to agree to a write of each data cluster.
-/
namespace QuorumCommit

/-- How many of the servers have to agree to a write. -/
inductive QuorumRule where
  | majority
  | all
  | fixed (n : Nat)
  deriving DecidableEq, Repr

namespace QuorumRule

def resolve (servers : Nat) : QuorumRule → Nat
  | majority => servers / 2 + 1
  | all => max servers 1
  | fixed n => max n 1

end QuorumRule

/-- The servers of one data cluster. An empty list stands for the servers of the database. -/
structure Placement where
  servers : List String
  quorum : Option QuorumRule
  deriving DecidableEq, Repr

namespace Placement

def empty : Placement := ⟨[], none⟩

end Placement

/-- The servers of a database. An empty list stands for the nodes that are known. -/
structure Replication where
  servers : List String
  defaultQuorum : QuorumRule
  clusters : Std.ExtTreeMap String Placement
  deriving DecidableEq

namespace Replication

def empty : Replication := ⟨[], .majority, ∅⟩

def serverCount (r : Replication) (known : Nat) : Nat :=
  if r.servers.isEmpty then known else r.servers.length

def clusterServerCount (r : Replication) (cluster : String) (known : Nat) : Nat :=
  match r.clusters[cluster]? with
  | some p => if p.servers.isEmpty then r.serverCount known else p.servers.length
  | none => r.serverCount known

def rule (r : Replication) (cluster : String) : QuorumRule :=
  (r.clusters[cluster]?.bind (·.quorum)).getD r.defaultQuorum

def writeQuorum (r : Replication) (cluster : String) (known : Nat) : Nat :=
  (r.rule cluster).resolve (r.clusterServerCount cluster known)

/-- The largest write quorum of some clusters; without any, that of the database. -/
def maxWriteQuorum (r : Replication) (clusters : List String) (known : Nat) : Nat :=
  match (clusters.map (r.writeQuorum · known)).max? with
  | some n => n
  | none => r.defaultQuorum.resolve (r.serverCount known)

def validate (r : Replication) : Except Fault Unit :=
  if r.defaultQuorum = .fixed 0 then
    .error (.configuration "default_write_quorum must be greater than 0")
  else
    match r.clusters.toList.find? (·.2.quorum = some (.fixed 0)) with
    | some (name, _) =>
      .error (.configuration s!"write_quorum of cluster '{name}' must be greater than 0")
    | none => .ok ()

end Replication

structure Settings where
  maxAutoRetry : Nat
  autoRetryDelayMs : Nat
  lockTimeoutMs : Nat
  /-- How far behind the last committed id another one may be promised. -/
  pipelineDepth : Nat
  logPath : Option String
  replication : Replication
  deriving DecidableEq

namespace Settings

def default : Settings := ⟨10, 1000, 1000, 1, none, Replication.empty⟩

/-- How many rounds a command is given. The number is a short word. -/
def rounds (s : Settings) : Nat := (s.maxAutoRetry + 1) % 4294967296

def lockTimeoutMicros (s : Settings) : Nat := s.lockTimeoutMs * 1000

def validate (s : Settings) : Except Fault Unit :=
  if s.maxAutoRetry = 0 then .error (.configuration "max_auto_retry must be greater than 0")
  else if s.lockTimeoutMs = 0 then
    .error (.configuration "lock_timeout_ms must be greater than 0")
  else if s.pipelineDepth = 0 then
    .error (.configuration "pipeline_depth must be greater than 0")
  else s.replication.validate

end Settings

end QuorumCommit
