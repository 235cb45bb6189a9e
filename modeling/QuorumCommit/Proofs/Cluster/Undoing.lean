import QuorumCommit.Proofs.Attempt.Holding
import QuorumCommit.Proofs.Cluster.CatchUpTrace

/-!
The first phase undone. However far an attempt came with its promises, its locks and its places, it
lists just what it took. So what it gives back leaves the node as it was, whether it does so to be
asked again, because it failed, or when it is rolled back.
-/
namespace QuorumCommit

namespace Node

open Attempt

variable {n n' m : Node} {b : State} {request : RequestId}

theorem Clean.of_restored (restored : n.resources.Restored n'.resources)
    (registry : n'.registry = n.registry) : n.Clean n' := by
  have unmarked : n.Unmarked n' := {
    records := (congrArg (fun v : View => v.content.records) restored.view :)
    indexValues := (congrArg (fun v : View => v.content.indexValues) restored.view :)
    applied := (congrArg (fun v : View => v.content.applied) restored.view :)
    last := fun o => by
      have slot : n'.sequencer.slot o = n.sequencer.slot o :=
        congrArg (fun v : View => v.slots o) restored.view
      unfold Sequencer.lastCommitted?
      rw [slot]
    promised := fun o => (congrArg (fun v : View => (v.slots o).promised) restored.view :)
    locks := (congrArg View.locks restored.view :)
    registry := registry }
  exact ⟨unmarked, fun room => ⟨unmarked, restored.reserved room⟩⟩

theorem status_fail (pending : b.attempt.status = .pending) (fault : Fault) :
    (fail fault b).attempt.status = .failed ∨ (fail fault b).attempt.status = .timedOut := by
  rw [fail_eq pending]
  cases fault with
  | lockTimeout => exact .inr rfl
  | _ => exact .inl rfl

/-- A request under which nothing waits holds no lock. -/
theorem Orderly.stranger (orderly : n.Orderly) (idle : n.registry.get? request = none)
    (key : LockKey) : n.locks.holder? key ≠ some request := by
  intro held
  obtain ⟨a, mem, rfl, -⟩ := orderly.sound.locks key request held
  rw [orderly.keyed.get?_of_mem mem] at idle
  cases idle

/-- To roll an attempt back as soon as it waits is to give it up at once. -/
theorem rollback_park (same : b.attempt.request = request)
    (none : m.registry.get? request = none) :
    (m.park b).rollback request = (true, (m.discard b).count .rolledBack) := by
  obtain ⟨waits, left⟩ := park_forget request same none
  unfold rollback
  rw [waits]
  dsimp only
  rw [left]
  rfl

/-- How a first phase of the node can be undone. Nothing has changed if the answer is `false`. If it
failed, a failed attempt waits that holds nothing, and that is all. If it succeeded, rolling it back
restores the node. Of the reserved places that is so as long as there is room. -/
def Undoable (n : Node) (request : RequestId) : Except Fault Bool × Node → Prop
  | (.ok false, n') => n.Clean n'
  | (.error _, n') => ∃ a : Attempt, a.request = request ∧
      (a.status = .failed ∨ a.status = .timedOut) ∧
      a.held = [] ∧ a.promised = [] ∧ a.reserved = [] ∧
      n'.registry = n.registry.insert a ∧ n.Clean (n'.forget request)
  | (.ok true, n') => ∃ n'', n'.rollback request = (true, n'') ∧ n.Clean n''

theorem prepare_undoable (orderly : n.Orderly) (idle : n.registry.get? request = none) (id : TxId)
    (t : ChangeSet) (atOrigin : Bool) (retries : Nat) :
    n.Undoable request ((prepare request id t atOrigin retries).run n) := by
  -- As the request held no lock before, the keys that the attempt gives back were free.
  have restored {b : State} (took : Took n.resources b) (same : b.attempt.request = request) :
      n.resources.Restored (destroy b).resources :=
    (StandsOn.of_took took (same ▸ orderly.stranger idle)).destroy
  have first := firstPhase_prepare orderly.sound.tidy request id t atOrigin retries
  rw [Step.run_apply]
  generalize prepare request id t atOrigin retries n = out at first ⊢
  cases first with
  | @declined m b registry _ _ work =>
    exact Clean.of_restored (restored work.took work.request) registry
  | @failed m b fault registry work =>
    obtain ⟨shelved, same⟩ := work.fail fault
    obtain ⟨-, left⟩ := park_forget (n := m) (b := fail fault b) request shelved.request
      (by rw [registry, idle])
    refine ⟨_, shelved.request, status_fail work.pending fault, shelved.held, shelved.promised,
      shelved.reserved, (park_registry m _).trans (by rw [registry]), ?_⟩
    rw [left]
    exact .of_restored (same ▸ restored work.took work.request) registry
  | @waits m b u t' registry fit _ =>
    have undone := rollback_park (m := m) fit.request (by rw [registry, idle])
    exact ⟨_, undone, .of_restored (restored fit.took fit.request) registry⟩

end Node

namespace Cluster

variable {name : String} {own : Nat} {c c₀ c₁ : Cluster} {n : Node} {request : RequestId}

/-- Places are chosen up to the last one and the first of all, while `#9:6` and `#9:5` are reserved.
-/
def aroundTheEnd : Cluster :=
  (Operation.answer "b" (.firstPhase ⟨2, 2⟩ ⟨3, 1⟩ (personAt 5))).perform "a" <|
    (Operation.transact (person 1)).perform "a" <| (Operation.transact lastButOne).perform "a" <|
      (Operation.answer "b" (.firstPhase ⟨2, 1⟩ ⟨2, 1⟩ (personAt 6))).perform "a" lone

end Cluster

end QuorumCommit
