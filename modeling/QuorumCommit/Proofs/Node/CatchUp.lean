import QuorumCommit.Proofs.Node.Calls
import QuorumCommit.Proofs.Node.Calm

/-!
Catching up with a transaction that was committed elsewhere. Nothing is locked or promised for it,
so whatever comes of it the node is calm again; its id is committed only in the order of its origin.
-/
namespace QuorumCommit

namespace Attempt

variable {r : Resources} {b : State} {id : TxId} {t t' : ChangeSet}

/-- The places of a change set can be had just when the store grants them. -/
theorem preallocate_isOk (job : b.attempt.job = .data id t) :
    (Attempt.preallocate b).1.isOk = (b.resources.store.preallocate t).1.isOk := by
  unfold Attempt.preallocate
  rw [job]
  dsimp only
  rcases b.resources.store.preallocate t with ⟨fault | ⟨reserved, t'⟩, store⟩ <;> rfl

/-- The places that an attempt reserves are those that the store grants. -/
theorem preallocate_store (job : b.attempt.job = .data id t) {places : List RecordId} {s : Store}
    (granted : b.resources.store.preallocate t = (.ok (places, t'), s)) :
    (Attempt.preallocate b).2.resources.store = s ∧
      (Attempt.preallocate b).2.attempt.reserved = b.attempt.reserved ++ places := by
  unfold Attempt.preallocate
  rw [job]
  dsimp only
  rw [granted]
  exact ⟨rfl, rfl⟩

theorem succeed_kept : (succeed b).resources = b.resources ∧
    (succeed b).attempt.reserved = b.attempt.reserved := by
  unfold succeed setStatus
  split <;> exact ⟨rfl, rfl⟩

/-- The id of a fetched change set is committed if it is the next one, whatever comes of the
changes; otherwise nothing is done. -/
theorem Fetched.applying (h : Fetched r id t t' b) :
    (r.IsNext id → (Attempt.apply b).2.resources.HasDone id) ∧
      (¬ r.IsNext id → ∃ fault, Attempt.apply b = (.error fault, b)) ∧
      (Attempt.apply b).2.attempt.destroyed = false := by
  have next : b.resources.IsNext id ↔ r.IsNext id := by
    unfold Resources.IsNext
    rw [h.took.last]
  refine ⟨fun isNext => hasDone_apply h.job (next.2 isNext), fun other => ?_, ?_⟩
  · have applying := Attempt.applying h.job
    generalize Attempt.apply b = out at applying
    cases applying with
    | refused fault => exact ⟨fault, rfl⟩
    | unsaved _ _ isNext => exact absurd (next.1 isNext) other
    | halfDone _ _ _ isNext => exact absurd (next.1 isNext) other
    | done _ _ isNext => exact absurd (next.1 isNext) other
  · have applying := Attempt.applying h.job
    generalize Attempt.apply b = out at applying
    cases applying with
    | refused | unsaved | halfDone | done => exact h.took.live

end Attempt

namespace Node

open Attempt

variable {n n' : Node} {out : Nat} {id : TxId} {t : ChangeSet}

/-- The id enters the log: it is the next one of its origin, and there are places for all records
that the change set creates. -/
def Enters (n : Node) (id : TxId) (t : ChangeSet) : Prop :=
  n.resources.IsNext id ∧ (n.store.preallocate t).1.isOk = true

def Skips (n : Node) (id : TxId) : Prop := ∀ t, catchUp id t n = (.ok (), n)

theorem validate_eq_alreadyPresent :
    n.sequencer.validate id = .alreadyPresent ↔ n.resources.HasDone id :=
  Slot.classify_eq_alreadyPresent

theorem catchUp_of_done (done : n.resources.HasDone id) (t : ChangeSet) :
    catchUp id t n = (.ok (), n) := by
  unfold catchUp
  rw [if_pos (validate_eq_alreadyPresent.2 done)]

/-- Only ids that are committed are skipped, for all else that succeeds is counted. -/
theorem skips_iff : n.Skips id ↔ n.resources.HasDone id := by
  refine ⟨fun skips => validate_eq_alreadyPresent.1 (Classical.byContradiction fun open_ => ?_),
    fun done t => catchUp_of_done done t⟩
  have skipped := skips ChangeSet.empty
  unfold catchUp at skipped
  rw [if_neg open_] at skipped
  split at skipped
  · cases skipped
  · split at skipped
    · cases skipped
    · have meter := congrArg (fun r : Except Fault Unit × Node => r.2.meter.committed) skipped
      have more : n.meter.committed + 1 = n.meter.committed := meter
      simp at more

/-- What succeeds has the id in the log. -/
theorem catchUp_ok (tidy : n.store.Tidy) (ok : catchUp id t n = (.ok (), n')) :
    n'.resources.HasDone id := by
  have step := fetching tidy id t
  unfold catchUp at ok
  split at ok
  · next present =>
    cases ok
    exact validate_eq_alreadyPresent.1 present
  simp only [Step.run_apply] at ok
  rcases granted : Attempt.preallocate (n.newAttempt catchUpRequest (.data id t))
    with ⟨fault | _, b⟩
  · rw [granted] at ok
    cases ok
  rw [granted] at step ok
  obtain ⟨t', fetched⟩ := step
  obtain ⟨next, other, live⟩ := fetched.applying
  dsimp only at ok
  by_cases isNext : n.resources.IsNext id
  · have done := next isNext
    have last := (released_destroy live).last id.origin
    rcases applied : Attempt.apply (succeed b) with ⟨fault | _, b'⟩
    · rw [applied] at ok
      cases ok
    · rw [applied] at ok done last
      cases ok
      exact Nat.le_trans done (Nat.le_of_eq last.symm)
  · obtain ⟨fault, refused⟩ := other isNext
    rw [refused] at ok
    cases ok

/-- Catching up either commits the id, with all or a first part of its changes, or does nothing. -/
theorem catchUp_spec (h : n.Calm out) (id : TxId) (t : ChangeSet) :
    n.Kept (catchUp id t n).2 ∨
      n.resources.view.IsNext id ∧ ∃ content, n.Advanced id content (catchUp id t n).2 := by
  have step := fetching h.tidy id t
  unfold catchUp
  split
  · exact .inl (.refl h.tidy)
  simp only [Step.run_apply]
  rcases granted : Attempt.preallocate (n.newAttempt catchUpRequest (.data id t))
    with ⟨fault | _, b⟩
  · rw [granted] at step
    exact .inl ⟨rfl, rfl, (StandsOn.of_took step.1 (h.stranger _)).destroy⟩
  rw [granted] at step
  obtain ⟨t', fetched⟩ := step
  have stands : StandsOn n.resources (succeed b) := .of_took fetched.took (h.stranger _)
  dsimp only
  by_cases next : n.resources.view.IsNext id
  · right
    refine ⟨next, ?_⟩
    have settles := stands.commit_settles fetched.placed.created ⟨id, n.sequencer.nextOffset⟩
    have before := Store.HasRoom.of_commit (s := (succeed b).resources.store) (t := t')
      (a := ⟨id, n.sequencer.nextOffset⟩)
    rw [stands.apply_next fetched.job h.view.path next]
    rcases committed : (succeed b).resources.store.commit t' ⟨id, n.sequencer.nextOffset⟩ with
      ⟨result, store⟩
    rw [committed] at settles before
    have failing : store.failing = n.store.failing := settles.failing.trans stands.store.failing
    have view := n.resources.view_advance id store failing
    have applied : StandsOn (n.resources.advance id store)
        (markApplied ⟨(succeed b).attempt, (succeed b).resources.advance id store⟩) :=
      (stands.advance next settles.tidy).forget rfl (by simp [fetched.promised])
    rcases result with fault | _
    · -- The places that no record took are still listed and are given back.
      obtain ⟨kept, tidy, room⟩ := applied.destroy_partial fetched.promised
      exact ⟨store.content, rfl, rfl, kept.trans view, tidy,
        fun after => stands.store.room (before (room after))⟩
    · exact ⟨store.content, rfl, rfl, applied.destroy.view.trans view, applied.destroy.tidy,
        fun after => stands.store.room (before (applied.destroy.room after))⟩
  · left
    rcases stands.apply_other fetched.job next with refused | refused
    · rw [refused]
      exact ⟨rfl, rfl, stands.destroy⟩
    · rw [refused]
      exact ⟨rfl, rfl, stands.destroy⟩

/-- The next id is committed with all of its changes if the places that were chosen for its records
are free and the records that it updates or removes have the versions that were seen. There is room
left if none of these places is a last one. -/
theorem catchUp_next (h : n.Calm out) (next : n.resources.view.IsNext id)
    (final : t.hasTemporary = false) (distinct : t.createdRecords.Nodup)
    (untaken : ∀ place ∈ t.createdRecords, n.store.isTaken place = false)
    (versions : n.store.checkVersions t = .ok ()) :
    ∃ n', catchUp id t n = (.ok (), n') ∧ n.Enacted id t n' ∧
      (n.store.HasRoom → (∀ place ∈ t.createdRecords, place.position ≠ RecordId.lastPosition) →
        n'.store.HasRoom) := by
  have step := fetching h.tidy id t
  have isOk := preallocate_isOk (b := n.newAttempt catchUpRequest (.data id t)) rfl
  obtain ⟨s, placed, leaves⟩ := Store.preallocate_final final distinct untaken
  have reserved := preallocate_store (b := n.newAttempt catchUpRequest (.data id t)) rfl placed
  have new : ¬ n.resources.HasDone id := by
    unfold Resources.HasDone
    rw [show id.sequence = (n.sequencer.slot id.origin).last + 1 from next]
    exact Nat.not_succ_le_self _
  unfold catchUp
  rw [if_neg (mt validate_eq_alreadyPresent.1 new)]
  simp only [Step.run_apply]
  rcases granted : Attempt.preallocate (n.newAttempt catchUpRequest (.data id t))
    with ⟨fault | _, b⟩
  · have store : (n.newAttempt catchUpRequest (.data id t)).resources.store.preallocate t =
      (.ok (t.createdRecords, t), s) := placed
    rw [granted, store] at isOk
    cases isOk
  rw [granted] at step reserved
  obtain ⟨store, listed⟩ := reserved
  have store : (succeed b).resources.store = s := by
    rw [succeed_kept.1]
    exact store
  have listed : (succeed b).attempt.reserved = t.createdRecords := by
    rw [succeed_kept.2]
    exact listed
  obtain ⟨t', fetched⟩ := step
  obtain rfl := fetched.placed.kept final
  have stands : StandsOn n.resources (succeed b) := .of_took fetched.took (h.stranger _)
  obtain ⟨b', applied, enacted, reserved, room⟩ := stands.apply_placed fetched.job fetched.placed
    (by simp [fetched.promised]) versions h.view.path next
  dsimp only
  rw [applied]
  refine ⟨_, rfl, ⟨⟨rfl, rfl, enacted.view, enacted.tidy, enacted.room⟩,
    fun room => reserved room distinct⟩, fun before others => room ?_ ?_⟩
  · exact store ▸ leaves before others
  · exact listed ▸ others

/-- A calm node stays calm, and forgets no commit. -/
theorem Calm.catchUp (h : n.Calm 0) (id : TxId) (t : ChangeSet) :
    (Node.catchUp id t n).2.Calm 0 ∧ ∀ o,
      (n.sequencer.slot o).last ≤ ((Node.catchUp id t n).2.sequencer.slot o).last := by
  rcases catchUp_spec h id t with kept | ⟨next, content, advanced⟩
  · refine ⟨h.kept kept, fun o => Nat.le_of_eq ?_⟩
    exact (congrArg (fun v : View => (v.slots o).last) kept.resources.view :).symm
  · have after := h.advanced next advanced
    unfold View.outAfter at after
    rw [ite_self] at after
    refine ⟨after, fun o => ?_⟩
    have last : ((Node.catchUp id t n).2.sequencer.slot o).last =
        ((n.resources.view.advance id content).slots o).last :=
      congrArg (fun v : View => (v.slots o).last) advanced.view
    rw [last]
    unfold View.advance
    dsimp only
    split
    · next own =>
      subst own
      exact Nat.le_of_lt (Nat.lt_of_succ_le (Nat.le_of_eq next.symm))
    · exact Nat.le_refl _

end Node

end QuorumCommit
