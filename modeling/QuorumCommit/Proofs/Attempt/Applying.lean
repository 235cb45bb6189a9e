import QuorumCommit.Proofs.Attempt.Preparing

/-!
Applying a change set. If its id is the next one of its origin, the id and the change set are
committed and nothing of the attempt is left; otherwise nothing is changed.
-/
namespace QuorumCommit

namespace View

def advance (v : View) (id : TxId) (content : Store) : View :=
  { v with
    content := content
    slots := fun o =>
      if o = id.origin then (v.slots id.origin).commit id.sequence v.nextOffset else v.slots o
    nextOffset := Sequencer.following v.nextOffset }

def enact (v : View) (id : TxId) (t : ChangeSet) : View :=
  v.advance id (v.content.committed t ⟨id, v.nextOffset⟩)

def IsNext (v : View) (id : TxId) : Prop := id.sequence = (v.slots id.origin).last + 1

end View

namespace Journal

variable {j : Journal} {id : TxId}

/-- A journal in memory commits the next id of an origin and no other. -/
theorem commit_next (path : j.path = none) (disk : FileTree)
    (next : id.sequence = (j.sequencer.slot id.origin).last + 1) :
    j.commit disk id =
      (.ok j.sequencer.nextOffset, { j with sequencer := j.sequencer.advance id }, disk) := by
  unfold commit
  rw [Sequencer.commit_next next]
  simp [save, path]

theorem commit_done (disk : FileTree) (done : id.sequence ≤ (j.sequencer.slot id.origin).last) :
    j.commit disk id = (.error (.alreadyCommitted id), j, disk) := by
  unfold commit
  rw [Sequencer.commit_done done]

theorem commit_ahead (disk : FileTree)
    (ahead : (j.sequencer.slot id.origin).last + 1 < id.sequence) :
    j.commit disk id = (.error (.outOfSequence id .missingPrevious), j, disk) := by
  unfold commit
  rw [Sequencer.commit_ahead ahead]

theorem commit_other (disk : FileTree)
    (other : id.sequence ≠ (j.sequencer.slot id.origin).last + 1) :
    j.commit disk id = (.error (.alreadyCommitted id), j, disk) ∨
      j.commit disk id = (.error (.outOfSequence id .missingPrevious), j, disk) := by
  by_cases done : id.sequence ≤ (j.sequencer.slot id.origin).last
  · exact .inl (commit_done disk done)
  · exact .inr (commit_ahead disk (by omega))

end Journal

namespace Resources

def advance (r : Resources) (id : TxId) (store : Store) : Resources :=
  { r.withSequencer (r.sequencer.advance id) with store := store }

theorem view_advance (r : Resources) (id : TxId) (store : Store)
    (failing : store.failing = r.store.failing) :
    (r.advance id store).view = r.view.advance id store.content := by
  unfold view View.advance advance withSequencer
  dsimp only
  rw [failing]
  congr 1
  funext o
  exact Sequencer.slot_advance r.sequencer o id

end Resources

namespace Attempt

variable {r : Resources} {b b' : State} {id : TxId} {t t' : ChangeSet} {request : RequestId}

/-- Committing the next id of an origin takes the promise of it away, and what the store has become
since is taken as it is. -/
theorem StandsOn.advance (h : StandsOn r b) (next : r.view.IsNext id) {store : Store}
    (tidy : store.Tidy) :
    StandsOn (r.advance id store)
      ⟨{ b.attempt with reserved := [] }, b.resources.advance id store⟩ where
  store := .nothing tidy
  frame := by
    have frame := h.frame
    simp only [Sequencer.frame, Prod.mk.injEq] at frame ⊢
    obtain ⟨origin, depth, next⟩ := frame
    exact ⟨origin, depth, congrArg Sequencer.following next⟩
  bare o := by
    have next : b.resources.sequencer.nextOffset = r.sequencer.nextOffset :=
      congrArg (·.2.2) h.frame
    refine (congrArg Slot.bare (Sequencer.slot_advance _ o id)).trans ?_
    refine Eq.trans ?_ (congrArg Slot.bare (Sequencer.slot_advance r.sequencer o id)).symm
    split
    · rw [next]
      exact Slot.bare_commit (h.bare id.origin) _ _
    · exact h.bare o
  promised o k := by
    have known := h.promised o k
    have slot := Sequencer.slot_advance r.sequencer o id
    refine (congrArg (k ∈ Slot.promised ·) (Sequencer.slot_advance _ o id)).to_iff.trans ?_
    refine Iff.trans ?_ (congrArg (fun s : Slot => k ∈ s.promised ∨
      (s.last < k ∧ (⟨o, k⟩ : TxId) ∈ b.attempt.promised)) slot).to_iff.symm
    by_cases own : o = id.origin
    · subst own
      have behind : id.sequence = (r.sequencer.slot id.origin).last + 1 := next
      have last (s : Slot) (n : Nat) : (s.commit id.sequence n).last = id.sequence := rfl
      rw [if_pos rfl, if_pos rfl, Slot.mem_commit, Slot.mem_commit, known, last, behind]
      grind
    · rw [if_neg own, if_neg own]
      exact known
  apart o k mem := by
    have apart := h.apart o k mem
    refine (congrArg (k ∉ Slot.promised ·) (Sequencer.slot_advance r.sequencer o id)).to_iff.2 ?_
    split
    · next eq =>
      subst eq
      rw [Slot.mem_commit]
      exact fun held => apart held.2
    · exact apart
  path := h.path
  locks := h.locks
  free := h.free
  stranger := h.stranger
  live := h.live

theorem last_advance (r : Resources) (id : TxId) (store : Store) :
    ((r.advance id store).sequencer.slot id.origin).last = id.sequence := by
  refine (congrArg Slot.last (Sequencer.slot_advance r.sequencer id.origin id)).trans ?_
  rw [if_pos rfl]
  rfl

/-- An attempt may forget promises of ids that are committed. -/
theorem StandsOn.forget (h : StandsOn r b) (reserved : b.attempt.reserved = [])
    (done : ∀ p ∈ b.attempt.promised, p.sequence ≤ (r.sequencer.slot p.origin).last) :
    StandsOn r (markApplied b) where
  store := by
    have store := h.store
    rw [reserved] at store
    exact store
  frame := h.frame
  bare := h.bare
  promised o k := by
    have done := done ⟨o, k⟩
    refine (h.promised o k).trans ?_
    simp only [markApplied, List.not_mem_nil, and_false, or_false, or_iff_left_iff_imp]
    rintro ⟨open_, mem⟩
    have := done mem
    dsimp only at this
    omega
  apart o k mem := by simp [markApplied] at mem
  path := h.path
  locks := h.locks
  free := h.free
  stranger := h.stranger
  live := h.live

/-- Resources after a change set is committed under the next id of its origin. The places of its
records are used up; others stay reserved, or are left reserved if records share a place. -/
structure Enacted (r : Resources) (id : TxId) (t : ChangeSet) (r' : Resources) : Prop where
  view : r'.view = r.view.enact id t
  tidy : r'.store.Tidy
  room : r'.store.HasRoom → r.store.HasRoom

namespace StandsOn

/-- Applying the next id of its origin commits it, and then the change set as far as it can be. -/
theorem apply_next (h : StandsOn r b) (job : b.attempt.job = .data id t)
    (path : r.journal.path = none) (next : r.view.IsNext id) :
    Attempt.apply b =
      match b.resources.store.commit t ⟨id, r.sequencer.nextOffset⟩ with
      | (.ok _, store) => (.ok (), markApplied ⟨b.attempt, b.resources.advance id store⟩)
      | (.error fault, store) => (.error fault, ⟨b.attempt, b.resources.advance id store⟩) := by
  have next_b : id.sequence = (b.resources.sequencer.slot id.origin).last + 1 := by
    rw [h.last]
    exact next
  have offset : b.resources.sequencer.nextOffset = r.sequencer.nextOffset :=
    congrArg (·.2.2) h.frame
  unfold Attempt.apply
  rw [job]
  dsimp only
  rw [Journal.commit_next (h.path.trans path) _ next_b]
  dsimp only
  rw [offset]
  rcases b.resources.store.commit t ⟨id, r.sequencer.nextOffset⟩ with ⟨fault | _, store⟩ <;> rfl

/-- Applying any other id changes nothing. -/
theorem apply_other (h : StandsOn r b) (job : b.attempt.job = .data id t)
    (other : ¬ r.view.IsNext id) :
    Attempt.apply b = (.error (.alreadyCommitted id), b) ∨
      Attempt.apply b = (.error (.outOfSequence id .missingPrevious), b) := by
  have other_b : id.sequence ≠ (b.resources.sequencer.slot id.origin).last + 1 := by
    rw [h.last]
    exact other
  unfold Attempt.apply
  rw [job]
  dsimp only
  rcases Journal.commit_other b.resources.disk other_b with refused | refused
  · rw [refused]
    exact .inl rfl
  · rw [refused]
    exact .inr rfl

theorem commit_settles (h : StandsOn r b) (created : ∀ place ∈ t.createdRecords,
    place ∈ b.attempt.reserved) (a : Applied) :
    Store.Settles b.resources.store (b.resources.store.commit t a).2 t.createdRecords
      ((b.resources.store.commit t a).1 = .ok ()) :=
  Store.commit_settles h.store.tidy (fun room place mem =>
    (h.store.isTaken room place).2 (.inr (created place mem))) a

/-- What an attempt without promises leaves when its changes could not all be made. -/
theorem destroy_partial {a : Attempt} {r' : Resources} (h : StandsOn r (markApplied ⟨a, r'⟩))
    (promised : a.promised = []) :
    (Attempt.destroy ⟨a, r'⟩).resources.view = r.view ∧
      (Attempt.destroy ⟨a, r'⟩).resources.store.Tidy ∧
      ((Attempt.destroy ⟨a, r'⟩).resources.store.HasRoom → r.store.HasRoom) := by
  have rest : (Attempt.destroy ⟨a, r'⟩).resources =
      { (Attempt.destroy (markApplied ⟨a, r'⟩)).resources with
        store := r'.store.releaseAll a.reserved } := by
    have live : a.destroyed = false := h.live
    unfold Attempt.destroy Attempt.releaseAll releaseReserved releasePromises releaseLocks
      markApplied
    simp only [live, promised]
    rfl
  have store : (Attempt.destroy (markApplied ⟨a, r'⟩)).resources.store = r'.store := by
    have live : a.destroyed = false := h.live
    unfold Attempt.destroy Attempt.releaseAll releaseReserved releasePromises releaseLocks
      markApplied
    simp only [live]
    rfl
  rw [rest]
  refine ⟨?_, h.store.tidy.releaseAll a.reserved, fun room => h.store.room room.of_releaseAll⟩
  rw [← h.destroy.view]
  unfold Resources.view
  dsimp only
  rw [store, Store.content_releaseAll, Store.failing_releaseAll]

end StandsOn

theorem store_destroy (none : b.attempt.reserved = []) :
    (destroy b).resources.store = b.resources.store := by
  unfold destroy
  split
  · rfl
  · unfold releaseAll releaseReserved releasePromises releaseLocks
    dsimp only
    rw [none]
    rfl

/-- Applying the next id commits it with its change set if all that is updated or removed has the
version that was seen, and only locks are left to give back. -/
theorem StandsOn.apply_placed (h : StandsOn r b) (job : b.attempt.job = .data id t')
    (placed : Store.Placed t b.attempt.reserved t') (mine : ∀ p ∈ b.attempt.promised, p = id)
    (versions : r.store.checkVersions t' = .ok ()) (path : r.journal.path = none)
    (next : r.view.IsNext id) :
    ∃ b', Attempt.apply b = (.ok (), b') ∧ Enacted r id t' (Attempt.destroy b').resources ∧
      ((Attempt.destroy b').resources.store.HasRoom → t.createdRecords.Nodup →
        ∀ place, (Attempt.destroy b').resources.store.isReserved place = r.store.isReserved place) ∧
      (b.resources.store.HasRoom →
        (∀ place ∈ b.attempt.reserved, place.position ≠ RecordId.lastPosition) →
          (Attempt.destroy b').resources.store.HasRoom) := by
  have applied := h.apply_next job path next
  have settles := h.commit_settles placed.created ⟨id, r.sequencer.nextOffset⟩
  have content := Store.commit_content h.store.content t' ⟨id, r.sequencer.nextOffset⟩
  have ok : (b.resources.store.commit t' ⟨id, r.sequencer.nextOffset⟩).1 = .ok () :=
    content.1.trans (Store.commit_ok versions _)
  have before := Store.HasRoom.of_commit (s := b.resources.store) (t := t')
    (a := ⟨id, r.sequencer.nextOffset⟩)
  have leaves (room : b.resources.store.HasRoom)
      (others : ∀ place ∈ b.attempt.reserved, place.position ≠ RecordId.lastPosition) :=
    room.commit (t := t') (fun place mem => others place (placed.created place mem))
      ⟨id, r.sequencer.nextOffset⟩
  rcases eq : b.resources.store.commit t' ⟨id, r.sequencer.nextOffset⟩ with ⟨result, store⟩
  rw [eq] at applied settles content ok before leaves
  dsimp only at settles content ok
  subst ok
  have failing : store.failing = r.store.failing := settles.failing.trans h.store.failing
  have done : ∀ p ∈ b.attempt.promised,
      p.sequence ≤ ((r.advance id store).sequencer.slot p.origin).last := by
    intro p mem
    rw [mine p mem]
    exact Nat.le_of_eq (last_advance _ _ _).symm
  have applied_stands : StandsOn (r.advance id store)
      (markApplied ⟨b.attempt, b.resources.advance id store⟩) :=
    (h.advance next settles.tidy).forget rfl done
  have restored := applied_stands.destroy
  refine ⟨markApplied ⟨b.attempt, b.resources.advance id store⟩, applied,
    ⟨?_, restored.tidy, fun after => h.store.room (before (restored.room after))⟩,
    fun after distinct place => ?_,
    fun room others => ?_⟩
  · rw [restored.view, r.view_advance id store failing, content.2, ← Store.committed_content]
    rfl
  · have room := before (restored.room after)
    rw [placed.distinct (h.store.final room) distinct] at settles
    exact (restored.reserved after place).trans (h.store.isReserved_settled room settles rfl place)
  · rw [store_destroy rfl]
    exact leaves room others

/-- An attempt that is ready can be applied when its turn has come. -/
theorem Ready.apply (h : Ready r request id t t' b) (path : r.journal.path = none)
    (next : r.view.IsNext id) :
    ∃ b', Attempt.apply b = (.ok (), b') ∧ Enacted r id t' (destroy b').resources ∧
      ((destroy b').resources.store.HasRoom → t.createdRecords.Nodup →
        ∀ place, (destroy b').resources.store.isReserved place = r.store.isReserved place) := by
  obtain ⟨b', applied, enacted, reserved, -⟩ :=
    h.stands.apply_placed h.job h.placed (by simp [h.promised]) h.versions path next
  exact ⟨b', applied, enacted, reserved⟩

end Attempt

end QuorumCommit
