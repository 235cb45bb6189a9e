import QuorumCommit.Proofs.Node.SchemaActs

/-!
Calls on a node. The two phases of change sets and of commands can be called one by one or as
answers to tasks of other nodes; besides, a node catches up with change sets, closes, issues ids and
runs commands.
-/
namespace QuorumCommit

namespace Node

open Attempt InFlight

inductive Call where
  | prepare (request : RequestId) (id : TxId) (changes : ChangeSet) (atOrigin : Bool)
      (retries : Nat)
  | commit (request : RequestId)
  | rollback (request : RequestId)
  | prepareSchema (request : RequestId) (command : String) (before after : TxId)
  | settleSchema (request : RequestId) (apply : Bool)

namespace Call

def request : Call → RequestId
  | prepare r .. | commit r | rollback r | prepareSchema r .. | settleSchema r _ => r

def job? : Call → Option Job
  | prepare _ id changes _ _ => some (.data id changes)
  | prepareSchema _ command before after => some (.schema command before after)
  | commit _ | rollback _ | settleSchema .. => none

def perform (n : Node) : Call → Node
  | prepare request id changes atOrigin retries =>
    (Node.prepare request id changes atOrigin retries n).2
  | commit request => (Node.commit request n).2
  | rollback request => (Node.rollback request n).2
  | prepareSchema request command before after =>
    (Node.prepareSchema request command before after n).2
  | settleSchema request apply => (Node.settleSchema request apply n).2

/-- What a call does is allowed: to begin its job, or to resume the one that waits under its
request, and to finish attempts of the request. -/
structure Allowed (ok : Multiset Attempt → Deed → Prop) (n : Node) (call : Call) : Prop where
  begins : ∀ job, call.job? = some job → ok n.registry.all (.begin call.request job)
  finish : MayFinish ok call.request
  resume : call.job? = none → MayResume ok call.request n

theorem movesBy {ok : Multiset Attempt → Deed → Prop} {n : Node} (other : ∀ A, ok A .other)
    (orderly : n.Orderly) (call : Call) (allowed : call.Allowed ok n) :
    MovesBy ok n (call.perform n) := by
  cases call with
  | prepare request id changes atOrigin retries =>
    exact (prepare_acts orderly atOrigin retries (allowed.begins _ rfl) allowed.finish).1
  | commit request => exact commit_acts orderly allowed.finish (allowed.resume rfl)
  | rollback request => exact rollback_acts orderly allowed.finish
  | prepareSchema request command before after =>
    exact (prepareSchema_acts orderly (allowed.begins _ rfl) allowed.finish).1
  | settleSchema request apply =>
    exact settleSchema_acts other orderly allowed.finish (allowed.resume rfl) apply

end Call

def performAll (n : Node) (calls : List Call) : Node := calls.foldl Call.perform n

end Node

def Task.call : Task → Node.Call
  | firstPhase request id changes => .prepare request id changes false 0
  | secondPhase request true => .commit request
  | secondPhase request false => .rollback request
  | schemaFirstPhase request command before after => .prepareSchema request command before after
  | schemaSecondPhase request apply => .settleSchema request apply

namespace Node

open Attempt InFlight

variable {n m : Node} {id : TxId} {t : ChangeSet} {ok : Multiset Attempt → Deed → Prop}

/-- Answering a task is a call, except that a first phase may be tried several times. -/
theorem answer_movesBy (other : ∀ A, ok A .other) (orderly : n.Orderly) (task : Task)
    (allowed : task.call.Allowed ok n) : MovesBy ok n (answer task n).2 := by
  unfold answer
  cases task with
  | firstPhase request id changes =>
    exact answerPrepare_acts orderly (allowed.begins _ rfl) allowed.finish
  | secondPhase request commit =>
    cases commit with
    | false => exact Call.movesBy other orderly (.rollback request) allowed
    | true =>
      have moves := Call.movesBy other orderly (.commit request) allowed
      have same : (answerCommit request n).2 = Call.perform n (.commit request) := by
        unfold answerCommit Call.perform
        simp only [Step.run_apply]
        rcases Node.commit request n with ⟨_ | _, m⟩ <;> rfl
      dsimp only
      rw [same]
      exact moves
  | schemaFirstPhase request command before after =>
    exact Call.movesBy other orderly (.prepareSchema request command before after) allowed
  | schemaSecondPhase request apply =>
    exact Call.movesBy other orderly (.settleSchema request apply) allowed

/-- The places of a change set to catch up with are taken, or nothing is. -/
theorem fetching (tidy : n.store.Tidy) (id : TxId) (t : ChangeSet) :
    match Attempt.preallocate (n.newAttempt catchUpRequest (.data id t)) with
    | (.ok _, b) => ∃ t', Fetched n.resources id t t' (succeed b)
    | (.error _, b) => Took n.resources b ∧ b.attempt.held = [] := by
  have took : Took n.resources (n.newAttempt catchUpRequest (.data id t)) :=
    .new tidy catchUpRequest _
  have step := took.preallocate (show _ = Job.data id t from rfl)
  rcases eq : Attempt.preallocate (n.newAttempt catchUpRequest (.data id t)) with ⟨fault | _, b⟩
  · rw [eq] at step
    exact ⟨step.1, congrArg Attempt.held step.2⟩
  · rw [eq] at step
    obtain ⟨took, reserved, t', placed, -, -, attempt⟩ := step
    have pending : b.attempt.status = .pending := congrArg Attempt.status attempt
    have listed : b.attempt.reserved = reserved := congrArg Attempt.reserved attempt
    have took := took.succeed pending
    dsimp only
    rw [succeed_eq pending] at took ⊢
    refine ⟨t', took, rfl, ?_, ?_, ?_, ?_⟩
    · exact congrArg Attempt.job attempt
    · exact congrArg Attempt.held attempt
    · exact congrArg Attempt.promised attempt
    · dsimp only
      rw [listed]
      exact placed

/-- Catching up takes an attempt in hand that locks and promises nothing. -/
theorem catchUp_movesBy (orderly : n.Orderly) (fetch : ok n.registry.all (.fetch id t))
    (finish : ∀ A a, a.held = [] → a.promised = [] → ok A (.finish a)) :
    MovesBy ok n (catchUp id t n).2 := by
  have step := fetching orderly.sound.tidy id t
  unfold catchUp
  split
  · exact .refl orderly.keyed
  · simp only [Step.run_apply]
    rcases eq : Attempt.preallocate (n.newAttempt catchUpRequest (.data id t)) with ⟨fault | _, b⟩
    · rw [eq] at step
      obtain ⟨took, held⟩ := step
      exact .of_acts orderly.keyed rfl (.one fetch (.missed took.undone (took.locks_destroy held)))
    · rw [eq] at step
      obtain ⟨t', fetched⟩ := step
      have applied : Acts ok n.inFlight
          ⟨n.registry.all, (destroy (Attempt.apply (succeed b)).2).resources⟩ := by
        refine .trans (.one fetch (.fetched fetched))
          (.one ?_ (.applied fetched.status fetched.job))
        exact finish _ _ fetched.held fetched.promised
      dsimp only
      rcases eq' : Attempt.apply (succeed b) with ⟨fault | _, b'⟩
      · rw [eq'] at applied
        exact .of_acts orderly.keyed rfl applied
      · rw [eq'] at applied
        exact .of_acts orderly.keyed rfl applied

theorem discardAll_acts (finish : ∀ A a, ok A (.finish a)) (attempts : List Attempt)
    (r : Resources) :
    Acts ok ⟨attempts, r⟩ ⟨0, attempts.foldl (fun r a => a.discard r) r⟩ := by
  induction attempts generalizing r with
  | nil => exact .refl _
  | cons a rest ih =>
    rw [← Multiset.cons_coe]
    exact .trans (.one (finish _ _) .discarded) (ih (a.discard r))

/-- Closing gives up all attempts that wait. -/
theorem close_movesBy (finish : ∀ A a, ok A (.finish a)) (n : Node) : MovesBy ok n n.close := by
  refine ⟨.empty, ?_⟩
  unfold close inFlight Registry.discardAll
  rw [Registry.all_empty, Registry.values_eq]
  exact discardAll_acts finish _ n.resources

/-- Work that no attempt depends on. -/
theorem MovesBy.quiet (other : ∀ A, ok A .other) (keyed : n.registry.Keyed)
    (registry : m.registry = n.registry) (quiet : n.resources.Quiet m.resources) : MovesBy ok n m :=
  .of_acts keyed registry (.one (other _) (.quiet quiet))

theorem execute_movesBy (other : ∀ A, ok A .other) (keyed : n.registry.Keyed) (command : String)
    (mode : RunMode) : MovesBy ok n (execute command mode n).2 :=
  .quiet other keyed (execute_quiet n command mode).1 (execute_quiet n command mode).2

end Node

end QuorumCommit
