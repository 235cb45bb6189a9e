import QuorumCommit.Node.Answer
import QuorumCommit.Proofs.Step
import QuorumCommit.Proofs.Store.Admission

/-!
What a node reports of committed ids. In the first phase it says so of an id that it is asked about
and of no other one: stores and locks fail for reasons of their own.
-/
namespace QuorumCommit

def Fault.subject? : Fault → Option TxId
  | .outOfSequence id _ => some id
  | .alreadyCommitted id => some id
  | _ => none

def Fault.Unordered (fault : Fault) : Prop := fault.subject? = none

def Reply.Reports (id : TxId) : Reply → Prop
  | .success => False
  | .exception fault => fault = .alreadyCommitted id
  | .invalid other verdict => other = id ∧ verdict = .alreadyPresent

theorem Reply.subject_of_reports {id : TxId} {fault : Fault}
    (reports : (Reply.ofFault fault).Reports id) : fault.subject? = some id := by
  cases fault with
  | outOfSequence other verdict => exact congrArg some reports.1
  | alreadyCommitted other =>
    cases reports
    rfl
  | _ => cases reports

theorem Sequencer.subject_refusal (id : TxId) (verdict : Verdict) :
    (refusal id verdict).subject? = some id := by
  cases verdict <;> rfl

/-- A sequence fails when its first part fails or what follows does. -/
theorem bind_eq_error {α β : Type} {x : Except Fault α} {f : α → Except Fault β} {fault : Fault} :
    x >>= f = .error fault ↔ x = .error fault ∨ ∃ a, x = .ok a ∧ f a = .error fault := by
  cases x with
  | error other => simp [bind, Except.bind]
  | ok a => simp [bind, Except.bind]

/-- A traversal fails with the fault of one of its elements. -/
theorem mapM_eq_error {α β : Type} {f : α → Except Fault β} {l : List α} {fault : Fault}
    (failed : l.mapM f = .error fault) : ∃ x ∈ l, f x = .error fault := by
  induction l with
  | nil => cases failed
  | cons a rest ih =>
    rw [List.mapM_cons] at failed
    rcases bind_eq_error.1 failed with first | ⟨b, -, failed⟩
    · exact ⟨a, List.mem_cons_self, first⟩
    · rcases bind_eq_error.1 failed with later | ⟨bs, -, failed⟩
      · obtain ⟨x, mem, eq⟩ := ih later
        exact ⟨x, List.mem_cons_of_mem _ mem, eq⟩
      · cases failed

theorem forM_eq_error {α : Type} {f : α → Except Fault Unit} {l : List α} {fault : Fault}
    (failed : l.forM f = .error fault) : ∃ x ∈ l, f x = .error fault := by
  induction l with
  | nil => cases failed
  | cons a rest ih =>
    rcases bind_eq_error.1 failed with first | ⟨_, -, later⟩
    · exact ⟨a, List.mem_cons_self, first⟩
    · obtain ⟨x, mem, eq⟩ := ih later
      exact ⟨x, List.mem_cons_of_mem _ mem, eq⟩

namespace Store

variable {s s' : Store} {t : ChangeSet} {fault : Fault}

theorem unordered_of_reserveFrom {r : Reservation} {ids : List RecordId}
    (failed : reserveFrom r ids s = (.error fault, s')) : fault.Unordered := by
  induction ids generalizing r s with
  | nil => cases failed
  | cons id rest ih =>
    unfold reserveFrom at failed
    split at failed
    · exact ih failed
    · split at failed
      · cases failed
        rfl
      · exact ih failed

theorem unordered_of_preallocate (failed : s.preallocate t = (.error fault, s')) :
    fault.Unordered := by
  unfold preallocate at failed
  split at failed
  · next eq =>
    cases failed
    exact unordered_of_reserveFrom eq
  · cases failed

theorem unordered_of_lockKeys (failed : s.lockKeys t = .error fault) : fault.Unordered := by
  rcases bind_eq_error.1 failed with unknown | ⟨keys, -, failed⟩
  · obtain ⟨p, -, refused⟩ := mapM_eq_error unknown
    dsimp only at refused
    split at refused
    · cases refused
      rfl
    · cases refused
  · cases failed

theorem unordered_of_checkUniqueKeys (failed : s.checkUniqueKeys t = .error fault) :
    fault.Unordered := by
  obtain ⟨p, -, refused⟩ := forM_eq_error failed
  dsimp only at refused
  split at refused
  · unfold checkKey at refused
    split at refused
    · split at refused
      · cases refused
      · cases refused
        rfl
    · cases refused
  · cases refused

theorem unordered_of_checkVersions (failed : s.checkVersions t = .error fault) :
    fault.Unordered := by
  obtain ⟨c, -, refused⟩ := forM_eq_error failed
  unfold checkVersion at refused
  split at refused
  · cases refused
  · split at refused
    · cases refused
      rfl
    · split at refused
      · cases refused
        rfl
      · split at refused
        · cases refused
        · cases refused
          rfl

end Store

namespace Attempt

theorem unordered_preallocate : Step.Faults Fault.Unordered preallocate := by
  intro b fault b' failed
  unfold preallocate at failed
  split at failed
  · cases failed
  · split at failed
    · next eq =>
      cases failed
      exact Store.unordered_of_preallocate eq
    · cases failed

theorem unordered_acquire (keys : List LockKey) : Step.Faults Fault.Unordered (acquire keys) := by
  induction keys with
  | nil => exact fun _ _ _ failed => nomatch failed
  | cons key rest ih =>
    intro b fault b' failed
    unfold acquire at failed
    split at failed
    · next refused =>
      cases failed
      unfold LockTable.lock at refused
      split at refused
      · cases refused
      · cases refused
        rfl
    · exact ih _ _ _ failed

theorem unordered_lockKeys : Step.Faults Fault.Unordered lockKeys := by
  intro b fault b' failed
  unfold lockKeys at failed
  split at failed
  · cases failed
    rfl
  · split at failed
    · next eq =>
      cases failed
      exact Store.unordered_of_lockKeys eq
    · exact unordered_acquire _ _ _ _ failed

theorem unordered_check : Step.Faults Fault.Unordered check := by
  intro b fault b' failed
  unfold check at failed
  split at failed
  · cases failed
    rfl
  · split at failed
    · next eq =>
      cases failed
      exact Store.unordered_of_checkUniqueKeys eq
    · exact Store.unordered_of_checkVersions (Prod.mk.inj failed).1

/-- Preparing a change set fails over its id or over nothing that is about ids. -/
theorem subject_of_prepare {b b' : State} {fault : Fault} {atOrigin : Bool}
    (failed : Attempt.prepare atOrigin b = (.error fault, b')) {id : TxId}
    (about : fault.subject? = some id) : id = b.attempt.job.id := by
  have start (rest : Unit → Step State Unit) (unordered : Step.Faults Fault.Unordered (rest ()))
      (failed : (promiseId >>= rest) b = (.error fault, b')) : id = b.attempt.job.id := by
    rw [Step.bind_apply] at failed
    rcases eq : promiseId b with ⟨fault' | _, b₁⟩
    · rw [eq] at failed
      cases failed
      unfold promiseId at eq
      rw [Step.run_apply] at eq
      unfold promise Sequencer.tryPromise at eq
      split at eq
      · next refused =>
        split at refused
        · cases refused
        · cases refused
          cases eq
          rw [Sequencer.subject_refusal] at about
          exact (Option.some.inj about).symm
      · cases eq
    · rw [eq] at failed
      have none : fault.subject? = none := unordered b₁ fault b' failed
      rw [none] at about
      cases about
  unfold Attempt.prepare at failed
  split at failed
  · exact start _ (unordered_preallocate.bind fun _ => unordered_lockKeys.bind fun _ =>
      unordered_check) failed
  · exact start _ (unordered_lockKeys.bind fun _ => unordered_preallocate.bind fun _ =>
      unordered_check) failed

end Attempt

namespace Node

variable {n : Node} {request : RequestId} {id before after reported : TxId} {t : ChangeSet}
  {command : String}

theorem reports_prepare {retries : Nat}
    (reports : (Reply.ofResult (prepare request id t false retries n).1).Reports reported) :
    reported = id := by
  unfold prepare at reports
  simp only [Step.run_apply] at reports
  rcases eq : Attempt.prepare false (n.newAttempt request (.data id t)) with ⟨fault | _, b⟩
  · rw [eq] at reports
    dsimp only at reports
    split at reports
    · cases reports
    · exact Attempt.subject_of_prepare eq (Reply.subject_of_reports reports)
  · rw [eq] at reports
    cases reports

/-- Who is asked to prepare a change set says of its id that it is committed, and of no other. -/
theorem reports_prepareFrom {retries more : Nat}
    (reports : (prepareFrom request id t retries more n).1.Reports reported) : reported = id := by
  induction more generalizing n retries with
  | zero =>
    unfold prepareFrom at reports
    exact reports_prepare reports
  | succ more ih =>
    unfold prepareFrom at reports
    simp only [Step.run_apply] at reports
    split at reports
    · exact ih reports
    · next r m _ eq =>
      have same : r = (prepare request id t false retries n).1 := by rw [eq]
      rw [same] at reports
      exact reports_prepare reports

/-- Who is asked to prepare a command answers so of one of its two ids, and never by an exception.
-/
theorem reports_prepareSchema
    (reports : (prepareSchema request command before after n).1.Reports reported) :
    (reported = before ∨ reported = after) ∧
      (prepareSchema request command before after n).1 = .invalid reported .alreadyPresent := by
  unfold prepareSchema at reports ⊢
  dsimp only at reports ⊢
  split at reports
  · next refused =>
    rw [if_pos refused]
    split at reports
    · next valid =>
      obtain ⟨rfl, present⟩ := reports
      rw [if_pos valid, present]
      exact ⟨.inr rfl, rfl⟩
    · next invalid =>
      obtain ⟨rfl, present⟩ := reports
      rw [if_neg invalid, present]
      exact ⟨.inl rfl, rfl⟩
  · cases reports

end Node

end QuorumCommit
