import QuorumCommit.Journal
import QuorumCommit.Proofs.FileTree
import QuorumCommit.Proofs.Sequencer.Snapshot

/-!
Opening a journal again. As long as its commits are written, the file tells all that the journal has
committed, also when promises, issued ids and ids taken back have come between; a journal that is
opened from the file goes on from there.
-/
namespace QuorumCommit

open Wire

namespace Sequencer

def performAll (s : Sequencer) (ops : List Op) : Sequencer := ops.foldl perform s

def offset? (s : Sequencer) : Op → Option Nat
  | .commit id => (s.commit id).toOption.map Prod.fst
  | _ => none

def offsets (s : Sequencer) : List Op → List Nat
  | [] => []
  | op :: rest => (s.offset? op).toList ++ (s.perform op).offsets rest

/-- No commit has got the last offset there is, so none of the later offsets began anew. -/
def Unwrapped (offsets : List Nat) : Prop := ∀ offset ∈ offsets, offset + 1 < bound 8

variable {s : Sequencer} {id : TxId} {ops : List Op}

theorem last_le_perform (op : Op) (o : Nat) :
    (s.slot o).last ≤ ((s.perform op).slot o).last := by
  rcases s.perform_cases op with ⟨id, -, next, performed⟩ | ⟨rests, -⟩
  · rw [performed]
    exact le_last_advance next (Nat.le_refl _)
  · exact Nat.le_of_eq (rests.last o).symm

theorem last_le_performAll (ops : List Op) (o : Nat) :
    (s.slot o).last ≤ ((s.performAll ops).slot o).last := by
  induction ops generalizing s with
  | nil => exact Nat.le_refl _
  | cons op rest ih => exact Nat.le_trans (last_le_perform op o) (ih (s := s.perform op))

theorem validate_eq_alreadyPresent :
    s.validate id = .alreadyPresent ↔ id.sequence ≤ (s.slot id.origin).last :=
  Slot.classify_eq_alreadyPresent

theorem origin_performAll (ops : List Op) : (s.performAll ops).origin = s.origin := by
  induction ops generalizing s with
  | nil => rfl
  | cons op rest ih =>
    refine (ih (s := s.perform op)).trans ?_
    rcases s.perform_cases op with ⟨id, -, -, performed⟩ | ⟨rests, -⟩
    · rw [performed]
      rfl
    · exact rests.origin

theorem commit_offset {s' : Sequencer} {offset : Nat} (h : s.commit id = .ok (offset, s')) :
    offset = s.nextOffset := by
  by_cases next : id.sequence = (s.slot id.origin).last + 1
  · cases (commit_next next).symm.trans h
    rfl
  · rcases commit_other next with refused | refused <;> cases refused.symm.trans h

/-- As long as the last word is not committed, no committed place is issued. -/
theorem lt_issue {s : Slot} (room : s.last + 1 < bound 8) : s.last < s.issue.1 := by
  unfold Slot.issue
  cases first : (s.recycled.filter s.isFree).toList.head? with
  | some n => exact (Slot.head?_free_eq_some first).2.1
  | none =>
    have behind := following_eq room
    dsimp only
    omega

theorem nextId_not_alreadyPresent (room : (s.slot s.origin).last + 1 < bound 8) :
    s.validate s.nextId.1 ≠ .alreadyPresent := by
  rw [ne_eq, validate_eq_alreadyPresent, Nat.not_le]
  exact lt_issue room

/-- The next offset is behind all that were handed out. -/
theorem offsets_lt (fits : Unwrapped (s.offsets ops)) :
    s.nextOffset ≤ (s.performAll ops).nextOffset ∧
      ∀ offset ∈ s.offsets ops, offset < (s.performAll ops).nextOffset := by
  induction ops generalizing s with
  | nil => exact ⟨Nat.le_refl _, nofun⟩
  | cons op rest ih =>
    have step : s.nextOffset ≤ (s.perform op).nextOffset ∧
        ∀ offset ∈ s.offset? op, offset < (s.perform op).nextOffset := by
      rcases s.perform_cases op with ⟨id, rfl, next, performed⟩ | ⟨rests, refused⟩
      · have given : s.offset? (.commit id) = some s.nextOffset := by
          simp [offset?, commit_next next, Except.toOption]
        have small : s.nextOffset + 1 < bound 8 := fits _ (by simp [offsets, given])
        have following : (s.advance id).nextOffset = s.nextOffset + 1 :=
          Nat.mod_eq_of_lt small
        rw [performed, following, given]
        simp
      · refine ⟨Nat.le_of_eq rests.nextOffset.symm, fun offset given => ?_⟩
        cases op with
        | commit id =>
          obtain ⟨fault, eq⟩ := refused id rfl
          simp [offset?, eq, Except.toOption] at given
        | _ => simp [offset?] at given
    obtain ⟨le, later⟩ := ih fun offset mem => fits offset (List.mem_append_right _ mem)
    refine ⟨Nat.le_trans step.1 le, fun offset mem => ?_⟩
    rcases List.mem_append.1 mem with first | mem
    · exact Nat.lt_of_lt_of_le (step.2 offset (Option.mem_toList.1 first)) le
    · exact later offset mem

end Sequencer

namespace Journal

open Sequencer

def perform (j : Journal) (disk : FileTree) : Op → Journal × FileTree
  | .commit id => (j.commit disk id).2
  | op => ({ j with sequencer := j.sequencer.perform op }, disk)

def performAll (j : Journal) (disk : FileTree) : List Op → Journal × FileTree
  | [] => (j, disk)
  | op :: rest => performAll (j.perform disk op).1 (j.perform disk op).2 rest

def Persists (j : Journal) (disk : FileTree) : Op → Prop
  | .commit id => (j.sequencer.commit id).isOk → (j.commit disk id).1.isOk
  | _ => True

def PersistsAll (j : Journal) (disk : FileTree) : List Op → Prop
  | [] => True
  | op :: rest => j.Persists disk op ∧ (j.perform disk op).1.PersistsAll (j.perform disk op).2 rest

/-- What the file of a journal tells of it: all commits, and the next offset unless that began anew.
-/
structure Kept (j : Journal) (disk : FileTree) (path : String) (snap : Snapshot) : Prop where
  named : j.path = some path
  stored : ∀ origin depth, openAt origin depth path disk =
    .ok ⟨ofSnapshot origin depth snap, some path⟩
  origins : ∀ o : Nat, (snap.origins[o]?).filter (0 < ·.1) = j.sequencer.snapshot.origins[o]?
  nextOffset : max snap.nextOffset 1 = max j.sequencer.nextOffset 1
  sized : j.sequencer.snapshot.Sized

variable {j j' : Journal} {disk disk' : FileTree} {path : String} {snap : Snapshot}
  {origin depth : Nat} {op : Op} {ops : List Op}

theorem Kept.ofSnapshot (stored : ∀ origin depth,
    openAt origin depth path disk = .ok ⟨Sequencer.ofSnapshot origin depth snap, some path⟩)
    (sized : snap.Sized) (opened : openAt origin depth path disk = .ok j) :
    j.Kept disk path snap := by
  cases (stored origin depth).symm.trans opened
  refine ⟨rfl, stored, fun o => (getElem?_snapshot_ofSnapshot origin depth snap o).symm, ?_,
    sized_ofSnapshot origin depth snap sized⟩
  show max snap.nextOffset 1 = max (max snap.nextOffset 1) 1
  omega

/-- What is in the file when a journal is opened. -/
theorem openAt_kept (opened : openAt origin depth path disk = .ok j) :
    ∃ snap, j.Kept disk path snap ∧ 1 ≤ j.sequencer.nextOffset := by
  suffices ∃ snap, j.Kept disk path snap by
    obtain ⟨snap, kept⟩ := this
    cases (kept.stored origin depth).symm.trans opened
    exact ⟨snap, kept, Nat.le_max_right _ _⟩
  cases content : disk.read path with
  | error fault =>
    simp [openAt, content] at opened
  | ok bytes? =>
    cases bytes? with
    | none =>
      refine ⟨⟨∅, 1⟩, .ofSnapshot (fun origin depth => ?_) ⟨by simp, by decide⟩ opened⟩
      simp [openAt, content, new_eq_ofSnapshot]
    | some bytes =>
      cases read : Snapshot.ofBytes bytes with
      | error fault => simp [openAt, content, read] at opened
      | ok snap =>
        refine ⟨snap, .ofSnapshot (fun origin depth => ?_) (Snapshot.sized_of_ofBytes read) opened⟩
        simp [openAt, content, read]

theorem Kept.rests (h : j.Kept disk path snap) {s : Sequencer} (rests : j.sequencer.Rests s) :
    Kept { j with sequencer := s } disk path snap := by
  have same := rests.snapshot
  refine ⟨h.named, h.stored, fun o => ?_, ?_, same ▸ h.sized⟩
  · exact same ▸ h.origins o
  · exact rests.nextOffset ▸ h.nextOffset

/-- A commit that is written is all that the file tells afterwards. -/
theorem Kept.commit (h : j.Kept disk path snap) {id : TxId}
    (next : id.sequence = (j.sequencer.slot id.origin).last + 1) (words : (Op.commit id).Words)
    (written : j.Persists disk (.commit id)) :
    ∃ disk', j.perform disk (.commit id) = ({ j with sequencer := j.sequencer.advance id }, disk') ∧
      Kept { j with sequencer := j.sequencer.advance id } disk' path
        (j.sequencer.advance id).snapshot := by
  have sized := sized_advance next words h.sized
  have saved := written (by rw [commit_next next]; rfl)
  simp only [perform, Journal.commit, commit_next next, save, h.named] at saved ⊢
  rcases replaced : (FileTree.replace path (j.sequencer.advance id).snapshot.toBytes).run disk with
    ⟨fault | _, disk'⟩
  · rw [replaced] at saved
    cases saved
  · refine ⟨disk', rfl, rfl, fun origin depth => ?_, fun o => ?_, rfl, sized⟩
    · simp only [openAt, FileTree.read_replace replaced, sized.ofBytes]
    · rw [getElem?_snapshot]
      split
      · next some => simp [Option.filter, some]
      · rfl

theorem Kept.perform (h : j.Kept disk path snap) (words : op.Words) (written : j.Persists disk op) :
    ∃ snap', (j.perform disk op).1.Kept (j.perform disk op).2 path snap' ∧
      (j.perform disk op).1.sequencer = j.sequencer.perform op := by
  rcases j.sequencer.perform_cases op with ⟨id, rfl, next, performed⟩ | ⟨rests, refused⟩
  · obtain ⟨disk', eq, kept⟩ := h.commit next words written
    rw [eq, performed]
    exact ⟨_, kept, rfl⟩
  · have same : j.perform disk op = ({ j with sequencer := j.sequencer.perform op }, disk) := by
      cases op with
      | commit id =>
        obtain ⟨fault, eq⟩ := refused id rfl
        simp only [Journal.perform, Journal.commit, Sequencer.perform, eq]
      | _ => rfl
    rw [same]
    exact ⟨snap, h.rests rests, rfl⟩

theorem Kept.performAll (h : j.Kept disk path snap) (words : ∀ op ∈ ops, op.Words)
    (written : j.PersistsAll disk ops) :
    ∃ snap', (j.performAll disk ops).1.Kept (j.performAll disk ops).2 path snap' ∧
      (j.performAll disk ops).1.sequencer = j.sequencer.performAll ops := by
  induction ops generalizing j disk snap with
  | nil => exact ⟨snap, h, rfl⟩
  | cons op rest ih =>
    obtain ⟨snap', kept, performed⟩ := h.perform (words op List.mem_cons_self) written.1
    obtain ⟨snap'', kept, later⟩ := ih kept (fun op mem => words op (List.mem_cons_of_mem _ mem))
      written.2
    exact ⟨snap'', kept, later.trans (congrArg (Sequencer.performAll · rest) performed)⟩

/-- What was committed, as the file tells it. -/
theorem Kept.last (h : j.Kept disk path snap) (origin depth o : Nat) :
    ((Sequencer.ofSnapshot origin depth snap).slot o).last = (j.sequencer.slot o).last := by
  rw [last_eq_snapshot, last_eq_snapshot, getElem?_snapshot_ofSnapshot, h.origins]

theorem Kept.snapshot (h : j.Kept disk path snap) (origin depth : Nat)
    (counted : 1 ≤ j.sequencer.nextOffset) :
    (Sequencer.ofSnapshot origin depth snap).nextOffset = j.sequencer.nextOffset ∧
      (Sequencer.ofSnapshot origin depth snap).snapshot = j.sequencer.snapshot := by
  have nextOffset : (Sequencer.ofSnapshot origin depth snap).nextOffset = j.sequencer.nextOffset :=
    h.nextOffset.trans (Nat.max_eq_left counted)
  refine ⟨nextOffset, ?_⟩
  have origins : (Sequencer.ofSnapshot origin depth snap).snapshot.origins =
      j.sequencer.snapshot.origins := Std.ExtTreeMap.ext_getElem? fun o => by
    rw [getElem?_snapshot_ofSnapshot, h.origins]
  exact Snapshot.mk.injEq .. ▸ ⟨origins, nextOffset⟩

/-- A journal whose commits were all written can be opened again, at any origin. It then knows the
same ids as committed, and issues none of them until the last word is committed. Until the offsets
run out of words, it also shows the same snapshot, and its commits get offsets behind all those that
were handed out before. -/
theorem openAt_recovers (opened : openAt origin depth path disk = .ok j)
    (words : ∀ op ∈ ops, op.Words) (written : j.PersistsAll disk ops) (origin' depth' : Nat) :
    ∃ s, openAt origin' depth' path (j.performAll disk ops).2 = .ok ⟨s, some path⟩ ∧
      (∀ id, s.validate id = .alreadyPresent ↔
        (j.performAll disk ops).1.sequencer.validate id = .alreadyPresent) ∧
      (∀ later, (s.performAll later).nextId.1.origin = origin' ∧
        (((s.performAll later).slot origin').last + 1 < bound 8 →
          (s.performAll later).validate (s.performAll later).nextId.1 ≠ .alreadyPresent ∧
          (j.performAll disk ops).1.sequencer.validate (s.performAll later).nextId.1 ≠
            .alreadyPresent)) ∧
      (Unwrapped (j.sequencer.offsets ops) →
        s.snapshot = (j.performAll disk ops).1.sequencer.snapshot ∧
        ∀ later, Unwrapped (s.offsets later) →
          ∀ id offset s', (s.performAll later).commit id = .ok (offset, s') →
            ∀ before ∈ j.sequencer.offsets ops, before < offset) := by
  obtain ⟨snap, kept, start⟩ := openAt_kept opened
  obtain ⟨snap', kept', performed⟩ := kept.performAll words written
  have last := kept'.last origin' depth'
  refine ⟨_, kept'.stored origin' depth', fun id => ?_,
    fun later => ⟨origin_performAll later, fun room => ?_⟩, fun fits => ?_⟩
  · rw [validate_eq_alreadyPresent, validate_eq_alreadyPresent, last]
  · have new := nextId_not_alreadyPresent
      (s := (Sequencer.ofSnapshot origin' depth' snap').performAll
      later) (by rw [origin_performAll]; exact room)
    refine ⟨new, ?_⟩
    rw [ne_eq, validate_eq_alreadyPresent, ← last]
    exact fun le => new (validate_eq_alreadyPresent.2
      (Nat.le_trans le (last_le_performAll later _)))
  · obtain ⟨grows, behind⟩ := offsets_lt fits
    rw [← performed] at grows behind
    obtain ⟨nextOffset, snapshot⟩ := kept'.snapshot origin' depth'
      (Nat.le_trans start grows)
    refine ⟨snapshot, fun later fits id offset s' committed before mem => ?_⟩
    have := behind before mem
    have := (offsets_lt fits).1
    have := commit_offset committed
    omega

theorem toOption_eq_some {α : Type} {x : Except Fault α} {a : α} :
    x.toOption = some a ↔ x = .ok a := by
  cases x <;> simp [Except.toOption]

/-- A commit, and behind it an id that is promised and never committed. -/
def workday : List Op := [.nextId, .tryPromise ⟨1, 1⟩, .commit ⟨1, 1⟩, .nextId, .tryPromise ⟨1, 2⟩]

theorem openAt_recovers_workday : ∃ j s, openAt 1 1 "log/state" .empty = .ok j ∧
    openAt 2 3 "log/state" (j.performAll .empty workday).2 = .ok ⟨s, some "log/state"⟩ ∧
    s.validate ⟨1, 1⟩ = .alreadyPresent ∧
    s.snapshot = (j.performAll .empty workday).1.sequencer.snapshot := by
  have opened : openAt 1 1 "log/state" .empty = .ok ⟨.new 1 1, some "log/state"⟩ :=
    toOption_eq_some.1 (by decide +kernel)
  have words : ∀ op ∈ workday, op.Words := by
    simp [workday, Op.Words, bound]
  have written : (⟨.new 1 1, some "log/state"⟩ : Journal).PersistsAll .empty workday :=
    ⟨trivial, trivial, fun _ => by decide +kernel, trivial, trivial, trivial⟩
  obtain ⟨s, again, same, -, rest⟩ := openAt_recovers opened words written 2 3
  have fits : Unwrapped ((Sequencer.new 1 1).offsets workday) := by
    have eq : (Sequencer.new 1 1).offsets workday = [1] := by decide +kernel
    simp [Unwrapped, eq, bound]
  exact ⟨_, s, opened, again, (same ⟨1, 1⟩).2 (by decide +kernel), (rest fits).1⟩

/-- A file that was written when one offset was left. -/
def almostFull : FileTree :=
  ((FileTree.replace "log/state" (Snapshot.toBytes ⟨∅, 18446744073709551615⟩)).run .empty).2

/-- A file that was written when every id of origin 1 was committed. -/
def full : FileTree :=
  ((FileTree.replace "log/state" (Snapshot.toBytes ⟨(∅ : Std.ExtTreeMap Nat (Nat × Nat)).insert 1
    (18446744073709551615, 1), 2⟩)).run .empty).2

/-- The commit that gets the last offset leaves the next one at zero, and no journal starts there.
Once the last id of its origin is committed, a journal issues committed ids. -/
theorem openAt_almostFull :
    (∃ j s, openAt 1 1 "log/state" almostFull = .ok j ∧ j.PersistsAll almostFull [.commit ⟨1, 1⟩] ∧
      openAt 1 1 "log/state" (j.performAll almostFull [.commit ⟨1, 1⟩]).2 =
        .ok ⟨s, some "log/state"⟩ ∧
      s.snapshot ≠ (j.performAll almostFull [.commit ⟨1, 1⟩]).1.sequencer.snapshot) ∧
    ∃ s, openAt 1 1 "log/state" full = .ok ⟨s, some "log/state"⟩ ∧
      s.nextId.2.nextId.1 = ⟨1, 1⟩ ∧ s.validate ⟨1, 1⟩ = .alreadyPresent :=
  ⟨⟨⟨.ofSnapshot 1 1 ⟨∅, 18446744073709551615⟩, some "log/state"⟩,
    .ofSnapshot 1 1 ⟨(∅ : Std.ExtTreeMap Nat (Nat × Nat)).insert 1 (1, 18446744073709551615), 0⟩,
    toOption_eq_some.1 (by decide +kernel), ⟨fun _ => by decide +kernel, trivial⟩,
    toOption_eq_some.1 (by decide +kernel), by decide +kernel⟩,
    .ofSnapshot 1 1 ⟨(∅ : Std.ExtTreeMap Nat (Nat × Nat)).insert 1 (18446744073709551615, 1), 2⟩,
    toOption_eq_some.1 (by decide +kernel), by decide +kernel, by decide +kernel⟩

end Journal

end QuorumCommit
