import QuorumCommit.Attempt.Basic

/-!
The attempts of a node that wait for a decision, each under its request. A new attempt for a
request takes the place of the old one, which is discarded.
-/
namespace QuorumCommit

structure Registry where
  attempts : Std.ExtTreeMap RequestId Attempt
  deriving DecidableEq

namespace Registry

def empty : Registry := ⟨∅⟩

instance : Inhabited Registry := ⟨empty⟩

def get? (g : Registry) (request : RequestId) : Option Attempt := g.attempts[request]?

def contains (g : Registry) (request : RequestId) : Bool := g.attempts.contains request

def size (g : Registry) : Nat := g.attempts.size

def status? (g : Registry) (request : RequestId) : Option AttemptStatus :=
  (g.get? request).map (·.status)

def insert (g : Registry) (a : Attempt) : Registry := ⟨g.attempts.insert a.request a⟩

def erase (g : Registry) (request : RequestId) : Registry := ⟨g.attempts.erase request⟩

/-- Registers an attempt; one that it replaces is discarded. -/
def register (g : Registry) (a : Attempt) (r : Resources) : Registry × Resources :=
  match g.get? a.request with
  | none => (g.insert a, r)
  | some old => (g.insert a, old.discard r)

/-- The resources after all attempts are discarded. -/
def discardAll (g : Registry) (r : Resources) : Resources :=
  g.attempts.values.foldl (fun r a => a.discard r) r

end Registry

end QuorumCommit
