import Mathlib.Data.List.Perm.Subperm
import QuorumCommit.Proofs.Sequencer.Issuing
import QuorumCommit.Proofs.Wire
import QuorumCommit.Sequencer.Snapshot

/-!
What a snapshot tells. It shows the last commit of every origin that has one, and the next offset;
so only commits change it, and a snapshot whose numbers are words can be read back from its bytes.
-/
namespace QuorumCommit

open Wire

namespace Snapshot

structure Sized (s : Snapshot) : Prop where
  entries : ∀ origin entry, s.origins[origin]? = some entry →
    origin < bound 4 ∧ entry.1 < bound 8 ∧ entry.2 < bound 8
  nextOffset : s.nextOffset < bound 8

variable {s : Snapshot}

/-- There are no more origins than short words. -/
theorem Sized.size_lt (h : s.Sized) : s.origins.size < bound 8 := by
  have short : s.origins.keys ⊆ List.range (bound 4) := by
    intro origin mem
    have known := Std.ExtTreeMap.getElem?_eq_some_getElem (Std.ExtTreeMap.mem_keys.1 mem)
    exact List.mem_range.2 (h.entries origin _ known).1
  have le := (List.subperm_of_subset Std.ExtTreeMap.nodup_keys short).length_le
  rw [Std.ExtTreeMap.length_keys, List.length_range] at le
  exact Nat.lt_of_le_of_lt le (by decide)

theorem Sized.reads (h : s.Sized) : Reads reader s.toBytes s := by
  refine (reads_map (fun origin entry known => ?_) h.size_lt).bind (reads_word h.nextOffset).map
  obtain ⟨key, last, offset⟩ := h.entries origin entry known
  exact ⟨reads_word key, reads_pair (reads_word last) (reads_word offset)⟩

theorem Sized.ofBytes (h : s.Sized) : ofBytes s.toBytes = .ok s := by
  have read := h.reads []
  rw [List.append_nil] at read
  unfold Snapshot.ofBytes
  rw [read]

theorem sized_of_ofBytes {bytes : List UInt8} (h : ofBytes bytes = .ok s) : s.Sized := by
  unfold Snapshot.ofBytes at h
  split at h
  · next read =>
    cases h
    obtain ⟨origins, between, map, read⟩ := Wire.bind_eq_ok.1 read
    obtain ⟨nextOffset, after, word, read⟩ := Wire.bind_eq_ok.1 read
    cases read
    refine ⟨readMap_forall (fun bytes origin between entry rest key value => ?_) map,
      readWord_lt word⟩
    obtain ⟨_, last, offset⟩ := readPair_eq_ok value
    exact ⟨readWord_lt key, readWord_lt last, readWord_lt offset⟩
  · cases h

end Snapshot

namespace Sequencer

variable (s s' : Sequencer) (origin depth : Nat) (snap : Snapshot) (o : Nat)

theorem getElem?_snapshot : s.snapshot.origins[o]? =
    if 0 < (s.slot o).last then some ((s.slot o).last, (s.slot o).lastOffset) else none := by
  unfold snapshot slot
  rw [Std.ExtTreeMap.getElem?_filterMap, Std.ExtTreeMap.getD_eq_getD_getElem?]
  cases s.slots[o]? with
  | none => simp [Slot.fresh]
  | some slot => simp

variable {s s'}

/-- Sequencers with the same commits have the same snapshot. -/
theorem snapshot_congr (last : ∀ o, (s'.slot o).last = (s.slot o).last)
    (lastOffset : ∀ o, (s'.slot o).lastOffset = (s.slot o).lastOffset)
    (nextOffset : s'.nextOffset = s.nextOffset) : s'.snapshot = s.snapshot := by
  have origins : s'.snapshot.origins = s.snapshot.origins :=
    Std.ExtTreeMap.ext_getElem? fun o => by
      rw [getElem?_snapshot, getElem?_snapshot, last, lastOffset]
  have next : s'.snapshot.nextOffset = s.snapshot.nextOffset := nextOffset
  cases h : s'.snapshot
  cases h' : s.snapshot
  simp_all

/-- A snapshot says how far the ids of an origin are committed. -/
theorem last_eq_snapshot (o : Nat) :
    (s.slot o).last = ((s.snapshot.origins[o]?).map Prod.fst).getD 0 := by
  rw [getElem?_snapshot]
  split
  · rfl
  · next none => exact Nat.eq_zero_of_not_pos none

theorem slot_restored : (ofSnapshot origin depth snap).slot o =
    ((snap.origins[o]?).map fun entry => Slot.committedUpTo entry.1 entry.2).getD .fresh := by
  unfold slot ofSnapshot
  rw [Std.ExtTreeMap.getD_map]

/-- Origins without a commit are not in the snapshot of what was restored. -/
theorem getElem?_snapshot_ofSnapshot : (ofSnapshot origin depth snap).snapshot.origins[o]? =
    (snap.origins[o]?).filter (0 < ·.1) := by
  rw [getElem?_snapshot, slot_restored]
  cases snap.origins[o]? with
  | none => rfl
  | some entry =>
    obtain ⟨last, offset⟩ := entry
    by_cases some : 0 < last <;> simp [Slot.committedUpTo, Option.filter, some]

theorem new_eq_ofSnapshot : new origin depth = ofSnapshot origin depth ⟨∅, 1⟩ := by
  have empty : (∅ : Std.ExtTreeMap Nat (Nat × Nat)).map
      (fun _ entry => Slot.committedUpTo entry.1 entry.2) = ∅ :=
    Std.ExtTreeMap.ext_getElem? fun o => by simp
  unfold new ofSnapshot
  rw [empty]
  rfl

theorem sized_ofSnapshot (h : snap.Sized) : (ofSnapshot origin depth snap).snapshot.Sized where
  entries o entry known := by
    rw [getElem?_snapshot_ofSnapshot] at known
    exact h.entries o entry (Option.filter_eq_some_iff.1 known).1
  nextOffset := by
    have next : (ofSnapshot origin depth snap).snapshot.nextOffset = max snap.nextOffset 1 := rfl
    have large : 1 < bound 8 := by decide
    have := h.nextOffset
    omega

/-- What a commit puts into the snapshot. -/
theorem getElem?_snapshot_advance {id : TxId} (next : id.sequence = (s.slot id.origin).last + 1) :
    (s.advance id).snapshot.origins[o]? =
      if o = id.origin then some (id.sequence, s.nextOffset) else s.snapshot.origins[o]? := by
  rw [getElem?_snapshot, getElem?_snapshot, slot_advance]
  split
  · exact if_pos (next ▸ Nat.succ_pos _)
  · rfl

def Op.Words : Op → Prop
  | .commit id => id.origin < bound 4 ∧ id.sequence < bound 8
  | _ => True

structure Rests (s s' : Sequencer) : Prop where
  origin : s'.origin = s.origin
  last : ∀ o, (s'.slot o).last = (s.slot o).last
  lastOffset : ∀ o, (s'.slot o).lastOffset = (s.slot o).lastOffset
  nextOffset : s'.nextOffset = s.nextOffset

theorem Rests.refl (s : Sequencer) : s.Rests s := ⟨rfl, fun _ => rfl, fun _ => rfl, rfl⟩

theorem Rests.setSlot {o : Nat} {slot : Slot} (last : slot.last = (s.slot o).last)
    (lastOffset : slot.lastOffset = (s.slot o).lastOffset) : s.Rests (s.setSlot o slot) := by
  refine ⟨rfl, fun k => ?_, fun k => ?_, rfl⟩
  · rw [slot_setSlot]
    split
    · next same => rw [last, same]
    · rfl
  · rw [slot_setSlot]
    split
    · next same => rw [lastOffset, same]
    · rfl

/-- Only an id that is next is committed; whatever else is done, nothing is. -/
theorem perform_cases (s : Sequencer) (op : Op) :
    (∃ id, op = .commit id ∧ id.sequence = (s.slot id.origin).last + 1 ∧
        s.perform op = s.advance id) ∨
      s.Rests (s.perform op) ∧ ∀ id, op = .commit id → ∃ fault, s.commit id = .error fault := by
  cases op with
  | nextId =>
    have standing := Slot.standing_issue (s.slot s.origin)
    exact .inr ⟨.setSlot (congrArg Slot.last standing :) (congrArg Slot.lastOffset standing :),
      fun _ same => by cases same⟩
  | releaseId id =>
    refine .inr ⟨?_, fun _ same => by cases same⟩
    unfold perform releaseId
    dsimp only
    split
    · have standing := Slot.standing_recycle (s.slot id.origin) id.sequence
      exact .setSlot (congrArg Slot.last standing :) (congrArg Slot.lastOffset standing :)
    · exact .refl s
  | tryPromise id =>
    refine .inr ⟨?_, fun _ same => by cases same⟩
    cases promised : s.tryPromise id with
    | ok s' =>
      simp only [perform, promised]
      obtain ⟨-, rfl⟩ := tryPromise_eq_ok.1 promised
      exact .setSlot rfl rfl
    | error _ => simpa only [perform, promised] using .refl s
  | markPromised id =>
    have bare := Slot.bare_markPromised (s.slot id.origin) id.sequence
    exact .inr ⟨.setSlot (congrArg Slot.last bare :) (congrArg Slot.lastOffset bare :),
      fun _ same => by cases same⟩
  | releasePromise id => exact .inr ⟨.setSlot rfl rfl, fun _ same => by cases same⟩
  | commit id =>
    by_cases next : id.sequence = (s.slot id.origin).last + 1
    · exact .inl ⟨id, rfl, next, by simp only [perform, commit_next next]⟩
    · obtain ⟨fault, refused⟩ : ∃ fault, s.commit id = .error fault :=
        (commit_other next).elim (fun eq => ⟨_, eq⟩) fun eq => ⟨_, eq⟩
      refine .inr ⟨?_, fun _ eq => ?_⟩
      · simpa only [perform, refused] using .refl s
      · cases eq
        exact ⟨fault, refused⟩

theorem Rests.snapshot (h : s.Rests s') : s'.snapshot = s.snapshot :=
  snapshot_congr h.last h.lastOffset h.nextOffset

theorem sized_advance {id : TxId} (next : id.sequence = (s.slot id.origin).last + 1)
    (words : (Op.commit id).Words) (h : s.snapshot.Sized) : (s.advance id).snapshot.Sized where
  entries o entry known := by
    rw [getElem?_snapshot_advance o next] at known
    split at known
    · next same =>
      cases known
      exact ⟨same ▸ words.1, words.2, h.nextOffset⟩
    · exact h.entries o entry known
  nextOffset := Nat.mod_lt _ (by decide)

end Sequencer

end QuorumCommit
