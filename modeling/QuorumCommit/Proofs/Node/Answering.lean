import QuorumCommit.Node.Answer
import QuorumCommit.Proofs.Attempt.Keeping
import QuorumCommit.Proofs.Node.Acts

/-!
How the first phase of another node is answered. The node tries until an attempt is final, and no
more often than it may; the answer then says of the attempt that is registered what that attempt
says of itself. None of this depends on the state that the node is in.
-/
namespace QuorumCommit

namespace Attempt

structure Open (request : RequestId) (b : State) : Prop where
  request : b.attempt.request = request
  pending : b.attempt.status = .pending
  faultless : b.attempt.fault = none

variable {request : RequestId}

/-- Preparing does not decide an attempt. -/
theorem open_prepare (atOrigin : Bool) : Step.Keeps (Open request) (prepare atOrigin) := by
  have promises : Step.Keeps (Open request) promiseId := by
    intro b work
    unfold promiseId promise
    simp only [Step.run_apply]
    split <;> exact ⟨work.request, work.pending, work.faultless⟩
  refine kept_prepare promises (fun b id t t' reserved store job work => ?_)
    (fun b held locks work => ?_) atOrigin
  · exact ⟨work.request, work.pending, work.faultless⟩
  · exact ⟨work.request, work.pending, work.faultless⟩

structure FailedWith (a : Attempt) (fault : Fault) : Prop where
  status : a.status = .ofFault fault
  fault : a.fault = some fault
  held : a.held = []
  promised : a.promised = []
  reserved : a.reserved = []

theorem failedWith_fail {b : State} (pending : b.attempt.status = .pending) (fault : Fault) :
    (fail fault b).attempt.FailedWith fault := by
  rw [fail_eq pending]
  exact ⟨rfl, rfl, rfl, rfl, rfl⟩

/-- What an answer says of the attempt that is registered: that it is prepared, or why it has
failed. A lock that was not to be had in time is told from all other reasons by the status too. -/
structure ToldBy (reply : Reply) (a : Attempt) : Prop where
  success : reply = .success ↔ a.status = .success
  faultless : a.status = .success → a.fault = none
  failed : a.status ≠ .success → ∃ fault, a.FailedWith fault ∧ reply = .ofFault fault ∧
    (a.status = .timedOut ∨ a.status = .failed) ∧
    (a.status = .timedOut ↔
      ∃ key holder waited, reply = .exception (.lockTimeout key holder waited))

theorem toldBy_success {a : Attempt} (status : a.status = .success) (faultless : a.fault = none) :
    ToldBy .success a :=
  ⟨iff_of_true rfl status, fun _ => faultless, absurd status⟩

theorem toldBy_failed {a : Attempt} {fault : Fault} (failed : a.FailedWith fault) :
    ToldBy (.ofFault fault) a := by
  have status := failed.status
  have told : (Reply.ofFault fault = .success ↔ a.status = .success) ∧ a.status ≠ .success ∧
      (a.status = .timedOut ∨ a.status = .failed) ∧
      (a.status = .timedOut ↔
        ∃ key holder waited,
          Reply.ofFault fault = .exception (.lockTimeout key holder waited)) := by
    rw [status]
    cases fault <;> simp [Reply.ofFault, AttemptStatus.ofFault]
  exact ⟨told.1, fun success => absurd success told.2.1, fun _ => ⟨fault, failed, rfl, told.2.2⟩⟩

end Attempt

namespace Node

open Attempt

variable {n m : Node} {request : RequestId} {id : TxId} {t : ChangeSet} {retries : Nat}

theorem started_noteFailure (n : Node) (fault : Fault) :
    (n.noteFailure fault).meter.started = n.meter.started := by
  unfold noteFailure
  split
  · rfl
  · split <;> rfl

theorem park_registered (m : Node) (b : State) :
    (m.park b).registry.get? b.attempt.request = some b.attempt := by
  rw [park_registry, Registry.get?_insert, if_pos rfl]

def Tried (n : Node) (request : RequestId) (retries : Nat) : Except Fault Bool → Node → Prop
  | .ok true, n' => ∃ a, n'.registry.get? request = some a ∧ a.status = .success ∧ a.fault = none
  | .ok false, n' => n'.settings = n.settings ∧ retries < n.settings.maxAutoRetry
  | .error fault, n' => (∃ a, n'.registry.get? request = some a ∧ a.FailedWith fault) ∧
    (fault.isLagging = true → n.settings.maxAutoRetry ≤ retries)

theorem prepare_tried (n : Node) (request : RequestId) (id : TxId) (t : ChangeSet) (atOrigin : Bool)
    (retries : Nat) :
    n.Tried request retries (prepare request id t atOrigin retries n).1
        (prepare request id t atOrigin retries n).2 ∧
      (prepare request id t atOrigin retries n).2.meter.started = n.meter.started + 1 := by
  have work : Open request (Attempt.prepare atOrigin (n.newAttempt request (.data id t))).2 :=
    open_prepare atOrigin _ ⟨rfl, rfl, rfl⟩
  unfold prepare
  simp only [Step.run_apply]
  rcases eq : Attempt.prepare atOrigin (n.newAttempt request (.data id t)) with ⟨fault | _, b⟩
  · rw [eq] at work
    obtain ⟨same, pending, -⟩ := work
    have settings := (noteFailure_resources ((n.count .started).timePhase1) fault).2.2
    have started := started_noteFailure ((n.count .started).timePhase1) fault
    dsimp only
    split
    · next lags =>
      rw [Bool.and_eq_true, decide_eq_true_eq, settings] at lags
      exact ⟨⟨settings, lags.2⟩, started⟩
    · next stays =>
      rw [Bool.and_eq_true, decide_eq_true_eq, settings] at stays
      have failed := failedWith_fail pending fault
      have registered := park_registered (((n.count .started).timePhase1).noteFailure fault)
        (fail fault b)
      have request' : (fail fault b).attempt.request = request := by
        rw [fail_eq pending]
        exact same
      refine ⟨⟨⟨_, request' ▸ registered, failed⟩, fun lagging => ?_⟩, started⟩
      exact Nat.not_lt.1 fun fewer => stays ⟨lagging, fewer⟩
  · rw [eq] at work
    obtain ⟨same, pending, faultless⟩ := work
    have registered := park_registered ((n.count .started).timePhase1) (succeed b)
    have prepared : (succeed b).attempt.request = request ∧ (succeed b).attempt.status = .success ∧
        (succeed b).attempt.fault = none := by
      rw [succeed_eq pending]
      exact ⟨same, rfl, faultless⟩
    exact ⟨⟨_, prepared.1 ▸ registered, prepared.2⟩, rfl⟩

/-- An attempt is declined just when its fault shows the node to be behind the writer, and the node
may be asked again. -/
theorem prepare_declines_iff (n : Node) (request : RequestId) (id : TxId) (t : ChangeSet)
    (atOrigin : Bool) (retries : Nat) : (prepare request id t atOrigin retries n).1 = .ok false ↔
      ∃ fault, (Attempt.prepare atOrigin (n.newAttempt request (.data id t))).1 = .error fault ∧
        fault.isLagging = true ∧ retries < n.settings.maxAutoRetry := by
  unfold prepare
  simp only [Step.run_apply]
  rcases Attempt.prepare atOrigin (n.newAttempt request (.data id t)) with ⟨fault | _, b⟩
  · have settings := (noteFailure_resources ((n.count .started).timePhase1) fault).2.2
    dsimp only
    rw [settings]
    split
    · next lags =>
      rw [Bool.and_eq_true, decide_eq_true_eq] at lags
      exact iff_of_true rfl ⟨fault, rfl, lags⟩
    · next stays =>
      rw [Bool.and_eq_true, decide_eq_true_eq] at stays
      refine iff_of_false nofun ?_
      rintro ⟨_, same, lags⟩
      cases same
      exact stays lags
  · refine iff_of_false nofun ?_
    rintro ⟨_, same, -⟩
    cases same

/-- Attempts one after the other, all but the last of them declined: how many were retries before
the first of these, how many these are, the node before and the answer after them. -/
inductive Tries (request : RequestId) (id : TxId) (t : ChangeSet) :
    Nat → Nat → Node → Reply × Node → Prop where
  | last {retries : Nat} {n n' : Node} {r : Except Fault Bool} :
      prepare request id t false retries n = (r, n') → r ≠ .ok false →
      Tries request id t retries 1 n (Reply.ofResult r, n')
  | again {retries tries : Nat} {n m : Node} {out : Reply × Node} :
      prepare request id t false retries n = (.ok false, m) →
      Tries request id t (retries + 1) tries m out → Tries request id t retries (tries + 1) n out

theorem prepareFrom_again {more : Nat}
    (declined : prepare request id t false retries n = (.ok false, m)) :
    prepareFrom request id t retries (more + 1) n =
      prepareFrom request id t (retries + 1) more m := by
  rw [prepareFrom]
  simp only [Step.run_apply, declined]

theorem prepareFrom_final {r : Except Fault Bool} (more : Nat)
    (eq : prepare request id t false retries n = (r, m)) (final : r ≠ .ok false) :
    prepareFrom request id t retries more n = (Reply.ofResult r, m) := by
  cases more <;> simp only [prepareFrom, Step.run_apply, eq]

/-- The node goes on as long as attempts are declined, which the last one that it may make is not.
-/
theorem prepareFrom_tries (n : Node) (request : RequestId) (id : TxId) (t : ChangeSet)
    (retries more : Nat) (left : retries + more = n.settings.maxAutoRetry) :
    ∃ tries ≤ more + 1, Tries request id t retries tries n
      (prepareFrom request id t retries more n) := by
  induction more generalizing n retries with
  | zero =>
    have outcome := (prepare_tried n request id t false retries).1
    rcases eq : prepare request id t false retries n with ⟨r, m⟩
    rw [eq] at outcome
    have final : r ≠ .ok false := by
      rintro rfl
      have fewer := outcome.2
      omega
    rw [prepareFrom_final 0 eq final]
    exact ⟨1, Nat.le_refl _, .last eq final⟩
  | succ more ih =>
    have outcome := (prepare_tried n request id t false retries).1
    rcases eq : prepare request id t false retries n with ⟨r, m⟩
    rw [eq] at outcome
    by_cases declined : r = .ok false
    · subst declined
      obtain ⟨tries, bound, later⟩ := ih m (retries + 1) (by rw [outcome.1]; omega)
      rw [prepareFrom_again eq]
      exact ⟨tries + 1, by omega, .again eq later⟩
    · rw [prepareFrom_final _ eq declined]
      exact ⟨1, by omega, .last eq declined⟩

/-- What a run of attempts comes to. Every attempt is counted, and if the last fault shows the node
to be behind the writer, no attempt was left. -/
theorem Tries.outcome {tries : Nat} {out : Reply × Node}
    (h : Tries request id t retries tries n out) :
    (∃ a, out.2.registry.get? request = some a ∧ ToldBy out.1 a ∧
        ∀ fault, a.fault = some fault → fault.isLagging = true →
          n.settings.maxAutoRetry < retries + tries) ∧
      out.2.meter.started = n.meter.started + UInt64.ofNat tries := by
  induction h with
  | @last retries n n' r eq final =>
    obtain ⟨outcome, started⟩ := prepare_tried n request id t false retries
    rw [eq] at outcome started
    refine ⟨?_, started⟩
    rcases r with fault | _ | _
    · obtain ⟨⟨a, registered, failed⟩, lagging⟩ := outcome
      refine ⟨a, registered, toldBy_failed failed, fun fault' noted lags => ?_⟩
      cases failed.fault.symm.trans noted
      exact Nat.lt_succ_of_le (lagging lags)
    · exact absurd rfl final
    · obtain ⟨a, registered, status, faultless⟩ := outcome
      refine ⟨a, registered, toldBy_success status faultless, fun fault noted _ => ?_⟩
      cases faultless.symm.trans noted
  | @again retries tries n m out eq later ih =>
    obtain ⟨outcome, started⟩ := prepare_tried n request id t false retries
    rw [eq] at outcome started
    obtain ⟨⟨a, registered, told, lagging⟩, counted⟩ := ih
    refine ⟨⟨a, registered, told, fun fault noted lags => ?_⟩, ?_⟩
    · have spent := lagging fault noted lags
      rw [outcome.1] at spent
      omega
    · rw [counted, started]
      have one : UInt64.ofNat (tries + 1) = UInt64.ofNat tries + 1 := UInt64.ofNat_add tries 1
      rw [one]
      ac_rfl

/-- Whatever a node is told to prepare, and whatever state it is in, it makes at most one attempt
more than it may repeat, and registers the last one, of which the answer tells the truth. It answers
that it is behind the writer only when no attempt is left. -/
theorem answer_firstPhase_told (n : Node) (request : RequestId) (id : TxId) (t : ChangeSet) :
    ∃ tries a, Tries request id t 0 tries n (answer (.firstPhase request id t) n) ∧
      tries ≤ n.settings.maxAutoRetry + 1 ∧
      (answer (.firstPhase request id t) n).2.meter.started =
        n.meter.started + UInt64.ofNat tries ∧
      (answer (.firstPhase request id t) n).2.registry.get? request = some a ∧
      ToldBy (answer (.firstPhase request id t) n).1 a ∧
      ∀ fault, a.fault = some fault → fault.isLagging = true →
        tries = n.settings.maxAutoRetry + 1 := by
  obtain ⟨tries, bound, run⟩ := prepareFrom_tries n request id t 0 n.settings.maxAutoRetry
    (Nat.zero_add _)
  have same : answer (.firstPhase request id t) n =
      prepareFrom request id t 0 n.settings.maxAutoRetry n := rfl
  rw [← same] at run
  obtain ⟨⟨a, registered, told, lagging⟩, started⟩ := run.outcome
  refine ⟨tries, a, run, bound, started, registered, told, fun fault noted lags => ?_⟩
  have spent := lagging fault noted lags
  omega

end Node

end QuorumCommit
