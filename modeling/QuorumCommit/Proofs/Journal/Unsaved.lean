import QuorumCommit.Proofs.Attempt.Applying
import QuorumCommit.Proofs.Journal.Contiguity

/-!
Commits that are not written. What a sequencer does never depends on the file of its journal, so a
commit whose snapshot cannot be written stays made: whoever asked for it is told of a fault, and
from then on the id is taken for committed.
-/
namespace QuorumCommit.Journal

open Sequencer

/-- Journals of which the same can be told: the snapshot, the promised places, how every id stands
and which id is issued next. -/
structure TellsSame (j j' : Journal) : Prop where
  snapshot : j'.sequencer.snapshot = j.sequencer.snapshot
  promised : ∀ o, (j'.sequencer.slot o).promised = (j.sequencer.slot o).promised
  validate : ∀ id, j'.sequencer.validate id = j.sequencer.validate id
  nextId : j'.sequencer.nextId.1 = j.sequencer.nextId.1

/-- The next id of an origin is committed, and the file could not be replaced. -/
structure Unsaved (j : Journal) (disk : FileTree) (id : TxId) (fault : Fault) (j' : Journal)
    (disk' : FileTree) : Prop where
  advanced : j' = { j with sequencer := j.sequencer.advance id }
  unwritten : ∃ path fileFault, j.path = some path ∧ fault = faultOf fileFault ∧
    (FileTree.replace path (j.sequencer.advance id).snapshot.toBytes).run disk =
      (.error fileFault, disk')
  /-- Whatever is done later, the id cannot be committed any more. -/
  lost : ∀ later disk'',
    ((j'.performAll disk'' later).1.commit (j'.performAll disk'' later).2 id).1 =
      .error (.alreadyCommitted id)
  /-- A journal that is opened from the file, if that is as it was, does not know of the commit. -/
  forgotten : ∀ path snap, j.Kept disk path snap → disk'.read path = disk.read path →
    ∀ origin depth, ∃ s, openAt origin depth path disk' = .ok ⟨s, some path⟩ ∧
      s.validate id ≠ .alreadyPresent

variable {j j' : Journal} {disk disk' : FileTree} {id : TxId} {fault : Fault}

theorem TellsSame.refl (j : Journal) : j.TellsSame j := ⟨rfl, fun _ => rfl, fun _ => rfl, rfl⟩

theorem sequencer_perform (j : Journal) (disk : FileTree) (op : Op) :
    (j.perform disk op).1.sequencer = j.sequencer.perform op := by
  cases op with
  | commit id =>
    rcases eq : j.sequencer.commit id with fault | ⟨offset, s⟩ <;>
      simp only [perform, Journal.commit, Sequencer.perform, eq]
    rcases Journal.save ⟨s, j.path⟩ disk with ⟨fault | _, disk'⟩ <;> rfl
  | _ => rfl

theorem sequencer_performAll (j : Journal) (disk : FileTree) (ops : List Op) :
    (j.performAll disk ops).1.sequencer = j.sequencer.performAll ops := by
  induction ops generalizing j disk with
  | nil => rfl
  | cons op rest ih =>
    refine (ih _ _).trans ?_
    rw [sequencer_perform]
    rfl

theorem openAt_congr {path : String} (same : disk'.read path = disk.read path)
    (origin depth : Nat) :
    openAt origin depth path disk' = openAt origin depth path disk := by
  unfold openAt
  rw [same]

theorem save_eq_error (failed : j.save disk = (.error fault, disk')) :
    ∃ path fileFault, j.path = some path ∧ fault = faultOf fileFault ∧
      (FileTree.replace path j.sequencer.snapshot.toBytes).run disk =
        (.error fileFault, disk') := by
  unfold save at failed
  cases named : j.path with
  | none =>
    rw [named] at failed
    cases failed
  | some path =>
    rw [named] at failed
    dsimp only at failed
    rcases replaced : (FileTree.replace path j.sequencer.snapshot.toBytes).run disk with
      ⟨fileFault | _, disk''⟩ <;> rw [replaced] at failed <;> cases failed
    exact ⟨path, fileFault, rfl, rfl, replaced⟩

/-- A commit of the next id of an origin fails only after it is made. -/
theorem commit_next_error (next : id.sequence = (j.sequencer.slot id.origin).last + 1)
    (failed : j.commit disk id = (.error fault, j', disk')) : j.Unsaved disk id fault j' disk' := by
  unfold Journal.commit at failed
  rw [Sequencer.commit_next next] at failed
  dsimp only at failed
  rcases saved : ({ j with sequencer := j.sequencer.advance id } : Journal).save disk with
    ⟨fault | _, disk''⟩ <;> rw [saved] at failed <;> cases failed
  have last : id.sequence ≤ ((j.sequencer.advance id).slot id.origin).last := by
    rw [last_advance next, if_pos rfl]
    exact Nat.le_of_eq next
  have unwritten := save_eq_error saved
  refine ⟨rfl, unwritten, fun later disk'' => ?_, fun path snap kept same origin depth => ?_⟩
  · rw [Journal.commit_done]
    rw [sequencer_performAll]
    exact Nat.le_trans last (last_le_performAll later _)
  · refine ⟨_, (openAt_congr same origin depth).trans (kept.stored origin depth), ?_⟩
    rw [ne_eq, validate_eq_alreadyPresent, kept.last]
    omega

theorem Unsaved.not_tellsSame (h : j.Unsaved disk id fault j' disk')
    (next : id.sequence = (j.sequencer.slot id.origin).last + 1) : ¬ j.TellsSame j' := by
  intro same
  have after : j'.sequencer.validate id = .alreadyPresent := by
    rw [h.advanced, validate_eq_alreadyPresent, last_advance next, if_pos rfl]
    exact Nat.le_of_eq next
  have before := validate_eq_alreadyPresent.1 ((same.validate id).symm.trans after)
  omega

/-- A failing commit can be told from none just when the id is the next one of its origin. Otherwise
it leaves all as it was, down to the file; and if it is the next one, the journal has a file that
could not be replaced, and the id is taken for committed for good. -/
theorem commit_error_tellsSame_iff (failed : j.commit disk id = (.error fault, j', disk')) :
    (j.TellsSame j' ↔ id.sequence ≠ (j.sequencer.slot id.origin).last + 1) ∧
      (j.TellsSame j' → j' = j ∧ disk' = disk ∧
        (fault = .alreadyCommitted id ∨ fault = .outOfSequence id .missingPrevious)) ∧
      (¬ j.TellsSame j' → j.Unsaved disk id fault j' disk') := by
  by_cases next : id.sequence = (j.sequencer.slot id.origin).last + 1
  · have unsaved := commit_next_error next failed
    have differs := unsaved.not_tellsSame next
    exact ⟨iff_of_false differs (absurd next), (absurd · differs), fun _ => unsaved⟩
  · have unchanged : j' = j ∧ disk' = disk ∧
        (fault = .alreadyCommitted id ∨ fault = .outOfSequence id .missingPrevious) := by
      rcases Journal.commit_other disk next with refused | refused <;>
        cases refused.symm.trans failed
      · exact ⟨rfl, rfl, .inl rfl⟩
      · exact ⟨rfl, rfl, .inr rfl⟩
    have same : j.TellsSame j' := unchanged.1 ▸ TellsSame.refl j
    exact ⟨iff_of_true same next, fun _ => unchanged, absurd same⟩

/-- A new journal whose file lies in no folder. -/
def adrift : Journal := ⟨.new 1 1, some ""⟩

theorem adrift_commit : adrift.commit .empty ⟨1, 1⟩ =
    (.error (faultOf (.noParent "")), ⟨adrift.sequencer.advance ⟨1, 1⟩, some ""⟩, .empty) := by
  rfl

theorem commit_error_tellsSame_iff_adrift :
    adrift.commit .empty ⟨1, 1⟩ =
        (.error (faultOf (.noParent "")), ⟨adrift.sequencer.advance ⟨1, 1⟩, some ""⟩, .empty) ∧
      ¬ adrift.TellsSame ⟨adrift.sequencer.advance ⟨1, 1⟩, some ""⟩ :=
  ⟨adrift_commit, fun same =>
    (commit_error_tellsSame_iff adrift_commit).1.1 same (by decide +kernel)⟩

/-- A commit that fails because it cannot be written leaves its id committed. -/
theorem commit_error_tells_more : ∃ j fault j' disk', openAt 1 1 "" .empty = .ok j ∧
    j.commit .empty ⟨1, 1⟩ = (.error fault, j', disk') ∧ disk' = .empty ∧
    j.sequencer.validate ⟨1, 1⟩ = .valid ∧ j'.sequencer.validate ⟨1, 1⟩ = .alreadyPresent ∧
    ¬ j.TellsSame j' := by
  have before : adrift.sequencer.validate ⟨1, 1⟩ = .valid := by decide +kernel
  have after : (adrift.sequencer.advance ⟨1, 1⟩).validate ⟨1, 1⟩ = .alreadyPresent := by
    decide +kernel
  have differs : ¬ adrift.TellsSame ⟨adrift.sequencer.advance ⟨1, 1⟩, some ""⟩ := by
    intro same
    have eq := same.validate ⟨1, 1⟩
    cases (after.symm.trans eq).trans before
  exact ⟨adrift, _, _, _, rfl, adrift_commit, rfl, before, after, differs⟩

end QuorumCommit.Journal
