import QuorumCommit.Proofs.Cluster.History
import QuorumCommit.Proofs.Cluster.NoTrace

/-!
What a catch-up that fails leaves behind. A node takes the id of the transaction into its log before
it makes the changes, and does not take it out again when one of them fails; so there is no trace
just when it does not come to that.
-/
namespace QuorumCommit

namespace Node

open Attempt

variable {n n' m : Node} {id : TxId} {t : ChangeSet} {fault : Fault} {request : RequestId}

theorem Unmarked.of_undone (undone : Undone request n.resources n'.resources)
    (locks : ∀ key, n'.locks.holder? key = n.locks.holder? key)
    (registry : n'.registry = n.registry) : n.Unmarked n' where
  records := (congrArg Store.records undone.content :)
  indexValues := (congrArg Store.indexValues undone.content :)
  applied := (congrArg Store.applied undone.content :)
  last o := by
    unfold Sequencer.lastCommitted?
    rw [undone.last]
  promised o := by rw [undone.slots]
  locks := LockTable.eq_of_holder? locks
  registry := registry

/-- What is committed leaves a mark. -/
theorem Unmarked.hasDone (h : n.Unmarked n') :
    n'.resources.HasDone id ↔ n.resources.HasDone id := by
  have last (k : Node) : (k.sequencer.lastCommitted? id.origin).elim 0 (·.sequence) =
      (k.sequencer.slot id.origin).last := by
    unfold Sequencer.lastCommitted?
    dsimp only
    split
    · rfl
    · next none => exact (Nat.eq_zero_of_not_pos none).symm
  unfold Resources.HasDone
  rw [← last n', h.last, last n]

theorem Clean.of_undone (undone : Undone request n.resources n'.resources)
    (locks : ∀ key, n'.locks.holder? key = n.locks.holder? key)
    (registry : n'.registry = n.registry) : n.Clean n' :=
  ⟨.of_undone undone locks registry, fun room =>
    ⟨.of_undone undone locks registry, undone.reserved room⟩⟩

/-- A catch-up that fails has the id in the log if it enters there, and otherwise does nothing. -/
theorem catchUp_error (tidy : n.store.Tidy) (failed : catchUp id t n = (.error fault, n')) :
    ¬ n.resources.HasDone id ∧ (n.Enters id t → n'.resources.HasDone id) ∧
      (¬ n.Enters id t → n.Clean n') := by
  refine ⟨fun done => ?_, ?_⟩
  · rw [catchUp_of_done done] at failed
    cases failed
  have step := fetching tidy id t
  have isOk := preallocate_isOk (b := n.newAttempt catchUpRequest (.data id t)) rfl
  unfold catchUp at failed
  split at failed
  · cases failed
  simp only [Step.run_apply] at failed
  rcases eq : Attempt.preallocate (n.newAttempt catchUpRequest (.data id t)) with ⟨fault' | _, b⟩
  · rw [eq] at step failed isOk
    cases failed
    obtain ⟨took, held⟩ := step
    refine ⟨fun enters => ?_, fun _ => .of_undone took.undone (took.locks_destroy held) rfl⟩
    exact absurd (isOk.trans enters.2) Bool.false_ne_true
  · rw [eq] at step failed isOk
    obtain ⟨t', fetched⟩ := step
    obtain ⟨next, other, live⟩ := fetched.applying
    dsimp only at failed
    by_cases isNext : n.resources.IsNext id
    · refine ⟨fun _ => ?_, fun out => absurd ⟨isNext, isOk.symm⟩ out⟩
      have done := next isNext
      have last := (released_destroy live).last id.origin
      rcases eq' : Attempt.apply (succeed b) with ⟨fault' | _, b'⟩
      · rw [eq'] at failed done last
        cases failed
        exact Nat.le_trans done (Nat.le_of_eq last.symm)
      · rw [eq'] at failed
        cases failed
    · refine ⟨fun enters => absurd enters.1 isNext, fun _ => ?_⟩
      obtain ⟨fault', refused⟩ := other isNext
      rw [refused] at failed
      cases failed
      exact .of_undone fetched.took.undone (fetched.took.locks_destroy fetched.held) rfl

/-- The disk that a node is lent, and what it asks for, leave no trace. -/
theorem Clean.butDisk (h : m.Clean n') (butDisk : n.SameButDisk m) : n.Clean n'.seen := by
  obtain ⟨disk, asks, rfl⟩ := butDisk
  have unmarked : Unmarked n n'.seen :=
    ⟨h.records, h.indexValues, h.applied, h.last, h.promised, h.locks, h.registry⟩
  exact ⟨unmarked, fun room => ⟨unmarked, (h.untraced room).reserved⟩⟩

end Node

namespace Cluster

variable {name : String} {own : Nat} {c c₀ c₁ c' : Cluster} {id : TxId} {t : ChangeSet}
  {fault : Fault}

/-- Whatever a node was asked for before, a catch-up that fails leaves no trace, and is not skipped
the next time, just when the id did not enter the log; only the reserved places may differ all the
same once those of a cluster came round. -/
theorem catchUp_error_untraced_iff {settings : Settings} {store : Store}
    (joined : c₀.join name own (.closed settings store) = (.ok (), c₁)) (built : store.Built)
    (history : History name (fun _ => True) c₁ c)
    (failed : (stepNode name (Node.catchUp id t)).run c = (.error fault, c')) :
    ∃ n n', c.node? name = some n ∧ c'.node? name = some n' ∧
      (n.Unmarked n' ↔ ¬ n.Enters id t) ∧
      (n'.store.HasRoom → (n.Untraced n' ↔ ¬ n.Enters id t)) ∧
      (n'.Skips id ↔ n.Enters id t) := by
  obtain ⟨n₁, station, started⟩ := join_started joined
  have orderly := started.orderly built
  have start : c₁.Upholds .plain name own :=
    ⟨n₁, station, orderly, fun _ => orderly.sound, started.origin⟩
  obtain ⟨n, station', upheld⟩ :=
    start.history (fun op _ => Discipline.admits_plain own op) history
  have running := node?_of_station? station'
  obtain ⟨r, n', c'', caught, moved, m, butDisk, result, rfl⟩ :=
    stepNode_spec (Node.catchUp id t) running
  rw [Step.run_apply, caught] at failed
  cases failed
  refine ⟨n, _, running, moved.node, ?_⟩
  have enters : m.Enters id t ↔ n.Enters id t := by
    obtain ⟨disk, asks, rfl⟩ := butDisk
    rfl
  have tidy : m.store.Tidy := by
    obtain ⟨disk, asks, rfl⟩ := butDisk
    exact upheld.orderly.sound.tidy
  obtain ⟨new, done, kept⟩ := Node.catchUp_error tidy (Prod.ext result rfl)
  have new : ¬ n.resources.HasDone id := by
    obtain ⟨disk, asks, rfl⟩ := butDisk
    exact new
  rw [enters] at done kept
  have clean (out : ¬ n.Enters id t) : n.Clean (Node.catchUp id t m).2.seen :=
    (kept out).butDisk butDisk
  have done (enters : n.Enters id t) : (Node.catchUp id t m).2.seen.resources.HasDone id :=
    done enters
  have marked (unmarked : n.Unmarked (Node.catchUp id t m).2.seen) : ¬ n.Enters id t :=
    fun enters => new (unmarked.hasDone.1 (done enters))
  rw [Node.skips_iff]
  refine ⟨⟨marked, fun out => (clean out).toUnmarked⟩, fun room =>
    ⟨fun trace => marked trace.toUnmarked, fun out => (clean out).untraced room⟩,
      fun skips => ?_, done⟩
  exact Classical.byContradiction fun out => new ((clean out).hasDone.1 skips)

def stray : ChangeSet := (person 1).update "person" ⟨9, 5⟩ 1 [2]

/-- A node that has committed a record of its own is to catch up with the change set too early. -/
theorem catchUp_error_untraced_iff_lone : ∃ c fault c',
    History "a" (fun _ => True) lone c ∧
      (stepNode "a" (Node.catchUp ⟨2, 2⟩ stray)).run c = (.error fault, c') ∧ c'.HasRoom ∧
      ∃ n n', c.node? "a" = some n ∧ c'.node? "a" = some n' ∧
        (n.Unmarked n' ↔ ¬ n.Enters ⟨2, 2⟩ stray) ∧
        (n'.store.HasRoom → (n.Untraced n' ↔ ¬ n.Enters ⟨2, 2⟩ stray)) ∧
        (n'.Skips ⟨2, 2⟩ ↔ n.Enters ⟨2, 2⟩ stray) := by
  have history : History "a" (fun _ => True) lone
      ((Operation.transact (person 1)).perform "a" lone) :=
    .step _ trivial .start
  have seen : ((stepNode "a" (Node.catchUp ⟨2, 2⟩ stray)).run
      ((Operation.transact (person 1)).perform "a" lone)).1.isOk = false ∧
      ((stepNode "a" (Node.catchUp ⟨2, 2⟩ stray)).run
        ((Operation.transact (person 1)).perform "a" lone)).2.HasRoom := by
    decide +kernel
  rcases failed : (stepNode "a" (Node.catchUp ⟨2, 2⟩ stray)).run
      ((Operation.transact (person 1)).perform "a" lone) with ⟨fault | _, c'⟩
  · rw [failed] at seen
    exact ⟨_, fault, c', history, failed, seen.2,
      catchUp_error_untraced_iff lone_joined (.empty none) history failed⟩
  · rw [failed] at seen
    cases seen.1

/-- On a new node the change set fails at the update. The id is then in the log and the record is
stored, but the store has not noted the commit, and nothing is made of it later. -/
theorem catchUp_error_traced_lone : ∃ fault c' n n',
    (stepNode "a" (Node.catchUp ⟨2, 1⟩ stray)).run lone = (.error fault, c') ∧
      lone.node? "a" = some n ∧ c'.node? "a" = some n' ∧
      n'.store.applied = [] ∧ n.store.isStored ⟨9, 0⟩ = false ∧ n'.store.isStored ⟨9, 0⟩ = true ∧
      ¬ n.Untraced n' ∧ n'.Skips ⟨2, 1⟩ := by
  have before : (lone.node? "a").map (fun n => (n.store.isStored ⟨9, 0⟩,
      (n.sequencer.slot 2).last)) = some (false, 0) := by
    decide +kernel
  have after : (((stepNode "a" (Node.catchUp ⟨2, 1⟩ stray)).run lone).2.node? "a").map
      (fun n => (n.store.applied, n.store.isStored ⟨9, 0⟩, (n.sequencer.slot 2).last)) =
        some ([], true, 1) := by
    decide +kernel
  have fails : ((stepNode "a" (Node.catchUp ⟨2, 1⟩ stray)).run lone).1.isOk = false := by
    decide +kernel
  rcases failed : (stepNode "a" (Node.catchUp ⟨2, 1⟩ stray)).run lone with ⟨fault | _, c'⟩
  · rw [failed] at after
    obtain ⟨n, here, known⟩ := Option.map_eq_some_iff.1 before
    obtain ⟨n', here', known'⟩ := Option.map_eq_some_iff.1 after
    simp only [Prod.mk.injEq] at known known'
    obtain ⟨unstored, new⟩ := known
    obtain ⟨applied, stored, last⟩ := known'
    have done : n'.resources.HasDone ⟨2, 1⟩ := Nat.le_of_eq last.symm
    refine ⟨fault, c', n, n', rfl, here, here', applied, unstored, stored, fun trace => ?_,
      Node.skips_iff.2 done⟩
    have early : 1 ≤ (n.sequencer.slot 2).last := trace.hasDone.1 done
    rw [new] at early
    exact absurd early (by decide)
  · rw [failed] at fails
    cases fails

end Cluster

end QuorumCommit
