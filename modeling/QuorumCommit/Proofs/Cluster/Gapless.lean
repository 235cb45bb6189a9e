import QuorumCommit.Proofs.Cluster.Steady

/-!
Ids without gaps. Behind the last committed place of an origin stand those in use, one after the
other, and behind these nothing is issued that was not taken back. So the next place issued is the
one behind those in use, as long as no place of the origin is promised.
-/
namespace QuorumCommit

namespace Slot

variable {s s' : Slot} {top : Nat}

/-- Places in use may be committed; what was issued behind them is not forgotten. -/
theorem InUse.onward (h : s.InUse (top - s.last)) (onward : s.Onward s') :
    s'.InUse (top - s'.last) where
  issued k after := by
    have last := onward.last
    have before := h.issued k (by omega)
    constructor
    · intro issued
      rcases before.1 (onward.issued k after issued) with le | back
      · left
        omega
      · exact .inr (onward.kept k back after)
    · intro known
      refine Nat.lt_of_lt_of_le (before.2 ?_) onward.nextIssue
      rcases known with le | back
      · left
        omega
      · exact .inr (onward.recycled k back)
  apart k back after := by
    have last := onward.last
    have behind := h.apart k (onward.recycled k back) (by omega)
    omega

/-- The last place may be taken back unless it is promised. -/
theorem InUse.takeBack (h : s.InUse (top + 1 - s.last)) (free : top + 1 ∉ s.promised) :
    (s.recycle (top + 1)).InUse (top - (s.recycle (top + 1)).last) := by
  have last : (s.recycle (top + 1)).last = s.last :=
    (congrArg Slot.last (standing_recycle s (top + 1)) :)
  rw [last]
  by_cases done : top + 1 ≤ s.last
  · rw [recycle_of_le done]
    have none : top + 1 - s.last = top - s.last := by omega
    rwa [none] at h
  · have one : top + 1 - s.last = top - s.last + 1 := by omega
    have place : top + 1 = s.last + (top - s.last) + 1 := by omega
    rw [one] at h
    rw [place] at free ⊢
    exact h.recycle free

end Slot

namespace Node

variable {n : Node} {own top : Nat}

/-- The node issues ids of the origin, and behind the last committed one just those up to `top` are
in use. -/
structure Gapless (own top : Nat) (n : Node) : Prop where
  origin : n.sequencer.origin = own
  depth : 1 ≤ n.sequencer.depth
  inUse : (n.sequencer.slot own).InUse (top - (n.sequencer.slot own).last)

theorem steady_gapless (own top : Nat) : Steady (Gapless own top) := fun _ _ onward h =>
  ⟨onward.sequencer.origin.trans h.origin,
    Nat.le_trans h.depth (Nat.le_of_eq onward.sequencer.depth.symm),
    h.inUse.onward (onward.sequencer.slots own)⟩

theorem Started.gapless {settings : Settings} {store : Store} (h : n.Started own settings store) :
    n.Gapless own 0 where
  origin := h.origin
  depth := h.depth
  inUse := by
    have recycled : (n.sequencer.slot own).recycled = ∅ := h.recycled own
    have nextIssue : (n.sequencer.slot own).nextIssue =
        Sequencer.following (n.sequencer.slot own).last :=
      h.nextIssue own
    have behind := Sequencer.following_le (n.sequencer.slot own).last
    refine ⟨fun k after => ?_, fun k back => ?_⟩
    · simp only [recycled, nextIssue, Std.ExtTreeSet.not_mem_empty, or_false]
      omega
    · simp [recycled] at back

namespace Gapless

/-- Once the last place in use is committed, none is. -/
theorem done (h : n.Gapless own top) (done : n.resources.HasDone ⟨own, top⟩) : n.Gapless own 0 := by
  have none : top - (n.sequencer.slot own).last = 0 - (n.sequencer.slot own).last := by
    have le : top ≤ (n.sequencer.slot own).last := done
    omega
  exact ⟨h.origin, h.depth, none ▸ h.inUse⟩

/-- The next id is the one behind those in use, and is in use when it is issued. -/
theorem nextId (h : n.Gapless own top) (free : (n.sequencer.slot own).promised = ∅)
    (words : max top (n.sequencer.slot own).last + 2 < 18446744073709551616) :
    n.sequencer.nextId.1 = ⟨own, max top (n.sequencer.slot own).last + 1⟩ ∧
      (n.withSequencer n.sequencer.nextId.2).Gapless own
        (max top (n.sequencer.slot own).last + 1) ∧
      ((n.withSequencer n.sequencer.nextId.2).sequencer.slot own).last =
        (n.sequencer.slot own).last := by
  obtain ⟨s', issue, inUse, standing⟩ := h.inUse.issue free (by omega)
  have last : s'.last = (n.sequencer.slot own).last := (congrArg Slot.last standing :)
  have next : n.sequencer.nextId =
      (⟨own, max top (n.sequencer.slot own).last + 1⟩, n.sequencer.setSlot own s') := by
    unfold Sequencer.nextId
    rw [h.origin, issue]
    refine congrArg (fun k => ((⟨own, k⟩ : TxId), n.sequencer.setSlot own s')) ?_
    omega
  have slot : (n.sequencer.setSlot own s').slot own = s' :=
    (Sequencer.slot_setSlot _ _ _ _).trans (if_pos rfl)
  rw [next]
  refine ⟨rfl, ⟨h.origin, h.depth, ?_⟩, (congrArg Slot.last slot).trans last⟩
  have out : max top (n.sequencer.slot own).last + 1 - s'.last =
      top - (n.sequencer.slot own).last + 1 := by
    omega
  refine (congrArg (fun s : Slot => s.InUse (_ - s.last)) slot).mpr ?_
  rw [out]
  exact inUse

/-- With none in use, the next id can be promised at once. -/
theorem valid (h : n.Gapless own 0) (free : (n.sequencer.slot own).promised = ∅)
    (words : (n.sequencer.slot own).last + 2 < 18446744073709551616) :
    n.sequencer.nextId.1 = ⟨own, (n.sequencer.slot own).last + 1⟩ ∧
      n.sequencer.validate n.sequencer.nextId.1 = .valid := by
  have next := (h.nextId free (by omega)).1
  rw [Nat.zero_max] at next
  refine ⟨next, ?_⟩
  rw [next]
  refine Slot.classify_eq_valid.2 ⟨Nat.lt_succ_self _, ?_, Nat.add_le_add_left h.depth _⟩
  simp [free]

/-- The last id in use may be taken back unless it is promised. -/
theorem releaseId (h : n.Gapless own (top + 1)) (free : ¬ n.resources.HasPromised ⟨own, top + 1⟩) :
    (n.withSequencer (n.sequencer.releaseId ⟨own, top + 1⟩)).Gapless own top := by
  have slot : (n.sequencer.releaseId ⟨own, top + 1⟩).slot own =
      (n.sequencer.slot own).recycle (top + 1) := by
    unfold Sequencer.releaseId
    rw [if_pos h.origin.symm, Sequencer.slot_onSlot, if_pos rfl]
  have same : (n.sequencer.releaseId ⟨own, top + 1⟩).origin = n.sequencer.origin ∧
      (n.sequencer.releaseId ⟨own, top + 1⟩).depth = n.sequencer.depth := by
    unfold Sequencer.releaseId
    split <;> exact ⟨rfl, rfl⟩
  refine ⟨same.1.trans h.origin, Nat.le_trans h.depth (Nat.le_of_eq same.2.symm), ?_⟩
  refine (congrArg (fun s : Slot => s.InUse (_ - s.last)) slot).mpr ?_
  exact h.inUse.takeBack free

end Gapless

end Node

end QuorumCommit
