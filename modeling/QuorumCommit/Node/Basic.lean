import QuorumCommit.Attempt.Phases
import QuorumCommit.Attempt.Registry
import QuorumCommit.Meter
import QuorumCommit.Retry
import QuorumCommit.Settings.Basic

/-!
A node: one replica of a database. It owns its resources, the registry of waiting attempts and a
meter. A node that cannot settle a decision on its own asks for a copy of the database; the asks
are collected until the cluster has seen them.
-/
namespace QuorumCommit

open Text

structure Node where
  database : String
  name : String
  settings : Settings
  resources : Resources
  registry : Registry
  meter : Meter
  /-- Copies of the database asked for and not yet seen by the cluster. -/
  asks : Nat
  deriving DecidableEq

namespace Node

/-- Opens a node on a store. Its journal is read from the disk if the settings name a file. -/
def openOn (database name : String) (id : Nat) (settings : Settings) (store : Store)
    (disk : FileTree) : Except Fault Node := do
  settings.validate
  let journal ← match settings.logPath with
    | some path => Journal.openAt id settings.pipelineDepth path disk
    | none => .ok (Journal.inMemory id settings.pipelineDepth)
  .ok {
    database := database
    name := name
    settings := settings
    resources := ⟨LockTable.empty, journal, store, disk⟩
    registry := Registry.empty
    meter := Meter.zero
    asks := 0 }

abbrev sequencer (n : Node) : Sequencer := n.resources.sequencer

abbrev store (n : Node) : Store := n.resources.store

abbrev locks (n : Node) : LockTable := n.resources.locks

def withStore (n : Node) (s : Store) : Node :=
  { n with resources := { n.resources with store := s } }

def withSequencer (n : Node) (s : Sequencer) : Node :=
  { n with resources := n.resources.withSequencer s }

def policy (n : Node) : RetryPolicy :=
  RetryPolicy.new n.settings.maxAutoRetry n.settings.autoRetryDelayMs

def count (n : Node) (c : Counter) : Node := { n with meter := n.meter.increment c }

/-- Notes that a first phase took place. A sequential run takes no measurable time. -/
def timePhase1 (n : Node) : Node :=
  { n with meter := { n.meter with phase1 := n.meter.phase1.record 0 } }

def timeCommit (n : Node) : Node :=
  { n with meter := { n.meter with commit := n.meter.commit.record 0 } }

/-- Counts conflicts and lock timeouts. -/
def noteFailure (n : Node) (fault : Fault) : Node :=
  if fault.isConflict then n.count .conflicts
  else
    match fault with
    | .lockTimeout .. => n.count .lockTimeouts
    | _ => n

/-- Asks for a copy of the database. -/
def askResync (n : Node) : Node := { n.count .resyncs with asks := n.asks + 1 }

/-- Begins an attempt on the resources of the node. -/
def newAttempt (n : Node) (request : RequestId) (job : Job) : Attempt.State :=
  ⟨Attempt.new request job, n.resources⟩

/-- The attempt that waits under a request, with the resources of the node. -/
def waiting? (n : Node) (request : RequestId) : Option Attempt.State :=
  (n.registry.get? request).map fun a => ⟨a, n.resources⟩

def forget (n : Node) (request : RequestId) : Node :=
  { n with registry := n.registry.erase request }

/-- Registers an attempt and keeps what it did to the resources. -/
def park (n : Node) (b : Attempt.State) : Node :=
  let (registry, resources) := n.registry.register b.attempt b.resources
  { n with registry := registry, resources := resources }

/-- Gives an attempt up and keeps what it did to the resources. -/
def discard (n : Node) (b : Attempt.State) : Node :=
  { n with resources := (Attempt.destroy b).resources }

/-- Discards all waiting attempts. -/
def close (n : Node) : Node :=
  { n with registry := Registry.empty, resources := n.registry.discardAll n.resources }

def outline (n : Node) : String :=
  Outline.partly "DistributedDatabase"
    [("name", Quoted.encode n.database), ("node", Quoted.encode n.name),
      ("contexts", toString n.registry.size), ("locks", toString n.locks.size)]

end Node

end QuorumCommit
