import QuorumCommit.Proofs.Node.Acts
import QuorumCommit.Proofs.Node.Onward

/-!
Attempts that wait with their id promised. Once such an attempt is decided, its id is committed, or
it is promised no longer and the caller is told that it was not committed.
-/
namespace QuorumCommit

namespace Attempt

variable {request : RequestId} {id : TxId} {t : ChangeSet} {a : Attempt} {b b' : State}

structure Pledges (id : TxId) (a : Attempt) : Prop where
  job : ∃ t, a.job = .data id t
  promised : id ∈ a.promised
  live : a.destroyed = false

structure Pledged (request : RequestId) (id : TxId) (b : State) : Prop where
  pledges : Pledges id b.attempt
  request : b.attempt.request = request
  pending : b.attempt.status = .pending

theorem Pledged.congr (h : Pledged request id b) (job : ∃ t, b'.attempt.job = .data id t)
    (promised : b'.attempt.promised = b.attempt.promised)
    (destroyed : b'.attempt.destroyed = b.attempt.destroyed)
    (same : b'.attempt.request = b.attempt.request)
    (status : b'.attempt.status = b.attempt.status) : Pledged request id b' :=
  ⟨⟨job, promised ▸ h.pledges.promised, destroyed.trans h.pledges.live⟩, same.trans h.request,
    status.trans h.pending⟩

theorem pledged_places : SurvivesPlaces (Pledged request id) := by
  intro b id' t t' reserved store job h
  obtain ⟨u, known⟩ := h.pledges.job
  cases known.symm.trans job
  exact h.congr ⟨t', rfl⟩ rfl rfl rfl rfl

theorem pledged_locks : SurvivesLocks (Pledged request id) := fun _ _ _ h =>
  h.congr h.pledges.job rfl rfl rfl rfl

/-- An attempt that is prepared has promised its id. -/
theorem pledged_prepare {r : Resources} {atOrigin : Bool}
    (ok : Attempt.prepare atOrigin ⟨Attempt.new request (.data id t), r⟩ = (.ok (), b)) :
    Pledged request id b := by
  have start (rest : Unit → Step State Unit)
      (kept : Step.Keeps (Pledged request id) (rest ()))
      (ok : (promiseId >>= rest) ⟨Attempt.new request (.data id t), r⟩ = (.ok (), b)) :
      Pledged request id b := by
    obtain ⟨_, b₁, promised, ok⟩ := Step.bind_eq_ok.1 ok
    refine kept.of_eq ok ?_
    rw [promiseId_eq rfl] at promised
    unfold promise at promised
    split at promised
    · cases promised
    · cases promised
      exact ⟨⟨⟨t, rfl⟩, List.mem_cons_self, rfl⟩, rfl, rfl⟩
  unfold Attempt.prepare at ok
  split at ok
  · exact start _ ((kept_preallocate pledged_places).bind fun _ =>
      (kept_lockKeys pledged_locks).bind fun _ => kept_check) ok
  · exact start _ ((kept_lockKeys pledged_locks).bind fun _ =>
      (kept_preallocate pledged_places).bind fun _ => kept_check) ok

theorem Pledged.succeed (h : Pledged request id b) : Pledges id (succeed b).attempt ∧
    (Attempt.succeed b).attempt.request = request ∧
      (Attempt.succeed b).attempt.status = .success := by
  rw [succeed_eq h.pending]
  exact ⟨⟨h.pledges.job, h.pledges.promised, h.pledges.live⟩, h.request, rfl⟩

/-- An attempt that is given up has its id promised no longer. -/
theorem Pledges.freed (h : Pledges id a) (r : Resources) :
    ¬ (a.discard r).HasPromised id := by
  intro promised
  exact (((released_destroy (b := ⟨a, r⟩) h.live).promised _ _).1 promised).2 h.promised

end Attempt

namespace Node

open Attempt

variable {n m : Node} {request : RequestId} {id : TxId} {t : ChangeSet} {b : State}

def Awaits (request : RequestId) (id : TxId) (n : Node) : Prop :=
  ∃ a, n.registry.get? request = some a ∧ a.status = .success ∧ Pledges id a

/-- The id is committed, or it is promised no longer and there was a fault. -/
def Decided {α : Type} (id : TxId) (x : Except Fault α × Node) : Prop :=
  x.2.resources.HasDone id ∨
    ¬ x.2.resources.HasPromised id ∧ ∃ fault, x.1 = .error fault

theorem prepareOwn_pledges (ok : prepareOwn request id t n = (.ok b, m)) :
    Pledges id b.attempt ∧ b.attempt.request = request ∧ b.attempt.status = .success := by
  unfold prepareOwn at ok
  simp only [Step.run_apply] at ok
  rcases eq : Attempt.prepare true (n.newAttempt request (.data id t)) with ⟨fault | _, b'⟩
  · rw [eq] at ok
    cases ok
  · rw [eq] at ok
    cases ok
    exact (pledged_prepare eq).succeed

theorem awaits_park (pledges : Pledges id b.attempt) (same : b.attempt.request = request)
    (status : b.attempt.status = .success) (m : Node) : (m.park b).Awaits request id := by
  refine ⟨b.attempt, ?_, status, pledges⟩
  rw [park_registry, Registry.get?_insert, if_pos same.symm]

/-- Committed ids stay committed when an attempt is given up. -/
theorem hasDone_destroy (done : b.resources.HasDone id) : (destroy b).resources.HasDone id :=
  Nat.le_trans done ((From.destroy (.refl b.resources.sequencer)).slots id.origin).last

theorem finish_decides (pledges : Pledges id b.attempt) (m : Node) :
    Decided id (finish b m) := by
  obtain ⟨t, job⟩ := pledges.job
  have resources := (finish_frame b m).2
  unfold Decided
  rw [resources]
  by_cases done : b.resources.HasDone id
  · rw [apply_of_done job done]
    exact .inl (hasDone_destroy done)
  · by_cases next : b.resources.IsNext id
    · exact .inl (hasDone_destroy (hasDone_apply job next))
    · unfold Resources.HasDone at done
      unfold Resources.IsNext at next
      have refused := apply_of_ahead job (by omega)
      rw [refused]
      refine .inr ⟨pledges.freed b.resources, .outOfSequence id .missingPrevious, ?_⟩
      unfold finish
      rw [Step.run_apply, refused]

theorem Awaits.commit (h : n.Awaits request id) : Decided id (Node.commit request n) := by
  obtain ⟨a, found, status, pledges⟩ := h
  have decided := finish_decides (b := ⟨a, n.resources⟩) pledges (n.forget request)
  have settled : settle ⟨a, n.resources⟩ (n.forget request) =
      finish ⟨a, n.resources⟩ (n.forget request) := by
    unfold settle
    exact if_pos status
  unfold Node.commit waiting?
  rw [found]
  dsimp only [Option.map_some]
  rw [settled]
  generalize finish ⟨a, n.resources⟩ (n.forget request) = x at decided ⊢
  rcases x with ⟨fault | _, m⟩
  · exact decided.imp_right fun freed => ⟨freed.1, fault, rfl⟩
  · rcases decided with done | ⟨-, fault, failed⟩
    · exact .inl done
    · cases failed

theorem Awaits.rollback (h : n.Awaits request id) :
    ¬ (Node.rollback request n).2.resources.HasPromised id := by
  obtain ⟨a, found, -, pledges⟩ := h
  unfold Node.rollback waiting?
  rw [found]
  exact pledges.freed n.resources

end Node

end QuorumCommit
