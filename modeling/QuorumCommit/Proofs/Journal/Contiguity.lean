import QuorumCommit.Proofs.Journal

/-!
What a journal in memory commits. Whatever is done with it, the ids of each origin are committed one
after the other, each once, and all commits together count the offsets through. So the last
committed place of an origin says which of its ids are committed, and with the promises it decides
what may be promised and what can be committed next.
-/
namespace QuorumCommit

open Wire

namespace Sequencer

def Ahead (s : Sequencer) : Prop := ∀ o k, k ∈ (s.slot o).promised → (s.slot o).last < k

variable {s : Sequencer} {id : TxId} {o origin depth : Nat}

theorem Ahead.new : (new origin depth).Ahead := by
  intro o k mem
  simp [Slot.fresh] at mem

/-- Only the promises of one origin change. -/
theorem Ahead.setSlot (h : s.Ahead) {slot : Slot}
    (ahead : ∀ k, k ∈ slot.promised → slot.last < k) : (s.setSlot o slot).Ahead := by
  intro p k
  rw [slot_setSlot]
  split
  · exact ahead k
  · exact h p k

theorem Ahead.of_standing (h : s.Ahead) {slot : Slot}
    (standing : slot.standing = (s.slot o).standing) :
    (s.setSlot o slot).Ahead := by
  have last : slot.last = (s.slot o).last := (congrArg Slot.last standing :)
  have promised : slot.promised = (s.slot o).promised := (congrArg Slot.promised standing :)
  refine h.setSlot fun k mem => ?_
  rw [last]
  exact h o k (promised ▸ mem)

theorem Ahead.advance (h : s.Ahead) (next : id.sequence = (s.slot id.origin).last + 1) :
    (s.advance id).Ahead := by
  intro o k mem
  obtain ⟨before, other⟩ := mem_promised_advance.1 mem
  exact last_advance_lt next (h o k before) other

theorem Ahead.perform (h : s.Ahead) (op : Op) : (s.perform op).Ahead := by
  cases op with
  | nextId => exact h.of_standing (Slot.standing_issue _)
  | releaseId id =>
    unfold Sequencer.perform releaseId
    dsimp only
    split
    · exact h.of_standing (Slot.standing_recycle _ _)
    · exact h
  | tryPromise id =>
    cases promised : s.tryPromise id with
    | error _ => simpa only [Sequencer.perform, promised] using h
    | ok s' =>
      simp only [Sequencer.perform, promised]
      obtain ⟨valid, rfl⟩ := tryPromise_eq_ok.1 promised
      refine h.setSlot fun k mem => ?_
      rcases Slot.mem_promise.1 mem with rfl | before
      · exact (Slot.classify_eq_valid.1 valid).1
      · exact h _ k before
  | markPromised id =>
    refine h.setSlot fun k mem => ?_
    rw [Slot.last_of_bare (Slot.bare_markPromised _ _)]
    rcases Slot.mem_markPromised.1 mem with ⟨after, rfl⟩ | before
    · exact after
    · exact h _ k before
  | releasePromise id => exact h.setSlot fun k mem => h _ k (Slot.mem_unpromise.1 mem).2
  | commit id =>
    rcases s.perform_cases (.commit id) with ⟨_, same, next, performed⟩ | ⟨-, refused⟩
    · cases same
      exact performed ▸ h.advance next
    · obtain ⟨fault, eq⟩ := refused id rfl
      simpa only [Sequencer.perform, eq] using h

theorem Ahead.performAll (h : s.Ahead) (ops : List Op) : (s.performAll ops).Ahead := by
  induction ops generalizing s with
  | nil => exact h
  | cons op rest ih => exact ih (h.perform op)

theorem tryPromise_isOk : (s.tryPromise id).isOk = true ↔ s.validate id = .valid := by
  unfold tryPromise
  cases s.validate id <;> simp [Except.isOk, Except.toBool]

theorem commit_isOk : (s.commit id).isOk = true ↔ id.sequence = (s.slot id.origin).last + 1 := by
  by_cases next : id.sequence = (s.slot id.origin).last + 1
  · rw [commit_next next]
    exact iff_of_true rfl next
  · rcases commit_other next with refused | refused <;> rw [refused] <;>
      exact iff_of_false nofun next

theorem last_advance (next : id.sequence = (s.slot id.origin).last + 1) :
    ((s.advance id).slot o).last =
      if id.origin = o then (s.slot o).last + 1 else (s.slot o).last := by
  rw [slot_advance]
  by_cases same : id.origin = o
  · subst same
    rw [if_pos rfl, if_pos rfl]
    exact next
  · rw [if_neg (Ne.symm same), if_neg same]

end Sequencer

namespace Journal

open Sequencer

def committed? (j : Journal) (disk : FileTree) : Op → Option (TxId × Nat)
  | .commit id => (j.commit disk id).1.toOption.map fun offset => (id, offset)
  | _ => none

def commits (j : Journal) (disk : FileTree) : List Op → List (TxId × Nat)
  | [] => []
  | op :: rest =>
    (j.committed? disk op).toList ++ commits (j.perform disk op).1 (j.perform disk op).2 rest

variable {s : Sequencer} {disk : FileTree} {ops : List Op} {id : TxId} {origin depth : Nat}

theorem commit_unfiled (s : Sequencer) (disk : FileTree) (id : TxId) :
    commit ⟨s, none⟩ disk id = match s.commit id with
      | .ok (offset, s') => (.ok offset, ⟨s', none⟩, disk)
      | .error fault => (.error fault, ⟨s, none⟩, disk) := by
  unfold commit
  dsimp only
  rcases s.commit id with fault | ⟨offset, s'⟩ <;> rfl

theorem perform_unfiled (s : Sequencer) (disk : FileTree) (op : Op) :
    perform ⟨s, none⟩ disk op = (⟨s.perform op, none⟩, disk) := by
  cases op with
  | commit id =>
    unfold perform Sequencer.perform
    dsimp only
    rw [commit_unfiled]
    rcases s.commit id with fault | ⟨offset, s'⟩ <;> rfl
  | _ => rfl

theorem performAll_unfiled (s : Sequencer) (disk : FileTree) (ops : List Op) :
    performAll ⟨s, none⟩ disk ops = (⟨s.performAll ops, none⟩, disk) := by
  induction ops generalizing s with
  | nil => rfl
  | cons op rest ih =>
    unfold performAll
    rw [perform_unfiled]
    exact ih (s.perform op)

theorem commits_cons (s : Sequencer) (disk : FileTree) (op : Op) (rest : List Op) :
    commits ⟨s, none⟩ disk (op :: rest) =
      (committed? ⟨s, none⟩ disk op).toList ++ commits ⟨s.perform op, none⟩ disk rest := by
  rw [commits, perform_unfiled]

/-- An operation commits the id that is next in the order of its origin, or it commits nothing. -/
theorem committed?_cases (s : Sequencer) (disk : FileTree) (op : Op) :
    (∃ id, committed? ⟨s, none⟩ disk op = some (id, s.nextOffset) ∧
        id.sequence = (s.slot id.origin).last + 1 ∧ s.perform op = s.advance id) ∨
      committed? ⟨s, none⟩ disk op = none ∧ s.Rests (s.perform op) := by
  rcases s.perform_cases op with ⟨id, rfl, next, performed⟩ | ⟨rests, refused⟩
  · refine .inl ⟨id, ?_, next, performed⟩
    simp [committed?, commit_unfiled, commit_next next, Except.toOption]
  · refine .inr ⟨?_, rests⟩
    cases op with
    | commit id =>
      obtain ⟨fault, eq⟩ := refused id rfl
      simp [committed?, commit_unfiled, eq, Except.toOption]
    | _ => rfl

/-- The commits of an origin begin behind its last one and leave no place out. -/
theorem sequences_commits (s : Sequencer) (disk : FileTree) (ops : List Op) (o : Nat) :
    ((commits ⟨s, none⟩ disk ops).filter (·.1.origin = o)).map (·.1.sequence) =
      List.range' ((s.slot o).last + 1) (((s.performAll ops).slot o).last - (s.slot o).last) := by
  induction ops generalizing s with
  | nil => simp [commits, Sequencer.performAll]
  | cons op rest ih =>
    have performed : s.performAll (op :: rest) = (s.perform op).performAll rest := rfl
    rw [commits_cons, List.filter_append, List.map_append, ih, performed]
    rcases committed?_cases s disk op with ⟨id, committed, next, advanced⟩ | ⟨none, rests⟩
    · have le := last_le_performAll (s := s.perform op) rest o
      rw [committed]
      rw [advanced, last_advance next] at le ⊢
      by_cases same : id.origin = o
      · subst same
        rw [if_pos rfl] at le ⊢
        obtain ⟨more, eq⟩ := Nat.exists_eq_add_of_le le
        have left : (s.slot id.origin).last + 1 + more - (s.slot id.origin).last = more + 1 := by
          omega
        rw [eq, left, List.range'_succ, Nat.add_sub_cancel_left]
        simp [next]
      · rw [if_neg same]
        simp [same]
    · rw [none, rests.last]
      rfl

/-- Offsets are counted on from one commit to the next, whatever their origins. As they are words,
the one behind the last word is zero. -/
theorem offsets_commits (small : s.nextOffset < bound 8) (disk : FileTree) (ops : List Op) :
    (commits ⟨s, none⟩ disk ops).map (·.2) =
      (List.range (commits ⟨s, none⟩ disk ops).length).map fun k =>
        (s.nextOffset + k) % bound 8 := by
  induction ops generalizing s with
  | nil => rfl
  | cons op rest ih =>
    rw [commits_cons]
    rcases committed?_cases s disk op with ⟨id, committed, -, advanced⟩ | ⟨none, rests⟩
    · have following : (s.advance id).nextOffset = (s.nextOffset + 1) % bound 8 := rfl
      have later := ih (s := s.advance id) (following ▸ Nat.mod_lt _ (by decide))
      rw [committed, advanced]
      simp only [Option.toList_some, List.cons_append, List.nil_append, List.map_cons,
        List.length_cons, List.range_succ_eq_map, List.map_map, Nat.add_zero,
          Nat.mod_eq_of_lt small,
        later, following, Nat.mod_add_mod]
      refine congrArg _ (List.map_congr_left fun k _ => ?_)
      rw [Function.comp_apply, Nat.succ_eq_add_one, Nat.add_assoc, Nat.add_comm 1 k]
    · rw [none, Option.toList_none, List.nil_append, ih (rests.nextOffset ▸ small),
        rests.nextOffset]

/-- The committed places of an origin are those up to its last one. -/
theorem mem_commits (fresh : ∀ o, (s.slot o).last = 0) (disk : FileTree) :
    id ∈ (commits ⟨s, none⟩ disk ops).map (·.1) ↔
      0 < id.sequence ∧ id.sequence ≤ ((s.performAll ops).slot id.origin).last := by
  have sequences := sequences_commits s disk ops id.origin
  rw [fresh] at sequences
  have mem : id ∈ (commits ⟨s, none⟩ disk ops).map (·.1) ↔ id.sequence ∈
      ((commits ⟨s, none⟩ disk ops).filter (·.1.origin = id.origin)).map (·.1.sequence) := by
    simp only [List.mem_map, List.mem_filter, decide_eq_true_eq]
    constructor
    · rintro ⟨entry, mem, rfl⟩
      exact ⟨entry, ⟨mem, rfl⟩, rfl⟩
    · rintro ⟨⟨⟨origin, sequence⟩, offset⟩, ⟨mem, rfl⟩, rfl⟩
      exact ⟨_, mem, rfl⟩
  rw [mem, sequences, List.mem_range'_1]
  omega

/-- Whatever is done with a journal in memory, the ids of each origin are committed one after the
other from the first place on, and all commits together count the offsets from one on, as words.
Promised ids are not committed. An id can be promised just when it is valid and committed just when
it is the next one, and the ids that are said to be present are the committed ones. -/
theorem inMemory_contiguous (origin depth : Nat) (disk : FileTree) (ops : List Op) :
    let j := ((inMemory origin depth).performAll disk ops).1
    let done := (inMemory origin depth).commits disk ops
    (∀ o, (done.filter (·.1.origin = o)).map (·.1.sequence) =
        List.range' 1 (j.sequencer.slot o).last) ∧
      done.map (·.2) = (List.range' 1 done.length).map (· % bound 8) ∧
      (∀ o k, k ∈ (j.sequencer.slot o).promised → (j.sequencer.slot o).last < k) ∧
      ∀ id, ((j.sequencer.tryPromise id).isOk = true ↔ j.sequencer.validate id = .valid) ∧
        ((j.commit disk id).1.isOk = true ↔
          id.sequence = (j.sequencer.slot id.origin).last + 1) ∧
        (j.sequencer.validate id = .alreadyPresent ↔
          id.sequence = 0 ∨ id ∈ done.map (·.1)) := by
  have fresh (o : Nat) : ((new origin depth).slot o).last = 0 := by rw [slot_new]; rfl
  have start : inMemory origin depth = ⟨new origin depth, none⟩ := rfl
  rw [start, performAll_unfiled]
  refine ⟨fun o => ?_, ?_, Ahead.new.performAll ops, fun id => ⟨tryPromise_isOk, ?_, ?_⟩⟩
  · rw [sequences_commits, fresh, Nat.zero_add, Nat.sub_zero]
  · have small : (new origin depth).nextOffset < bound 8 := show 1 < bound 8 by decide
    rw [offsets_commits small, List.range'_eq_map_range, List.map_map]
    rfl
  · rw [← commit_isOk, commit_unfiled]
    rcases ((new origin depth).performAll ops).commit id with fault | ⟨offset, s'⟩ <;> rfl
  · rw [validate_eq_alreadyPresent, mem_commits fresh]
    dsimp only
    omega

end Journal

end QuorumCommit
