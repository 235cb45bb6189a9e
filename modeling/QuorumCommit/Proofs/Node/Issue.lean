import QuorumCommit.Proofs.Node.Calm

/-!
Issuing ids. Taking the next id of a calm node and giving it back changes only what that node knows
of the ids it has issued, which no other part of a session depends on.
-/
namespace QuorumCommit

/-- The view without what belongs to the issuer of ids alone. -/
def View.shared (v : View) : View :=
  { v with origin := 0, slots := fun o => (v.slots o).standing }

theorem View.shared_advance {v v' : View} (h : v'.shared = v.shared) (id : TxId)
    {content content' : Store} (same : content' = content) :
    (v'.advance id content').shared = (v.advance id content).shared := by
  have next : v'.nextOffset = v.nextOffset := (congrArg View.nextOffset h :)
  have slots (o : Nat) : (v'.slots o).standing = (v.slots o).standing :=
    (congrFun (congrArg View.slots h) o :)
  have rest (v : View) (content : Store) : (v.advance id content).shared =
      { v.shared with
        content := content
        slots := fun o => if o = id.origin then
          ((v.slots id.origin).standing.commit id.sequence v.nextOffset).standing
          else (v.slots o).standing
        nextOffset := Sequencer.following v.nextOffset } := by
    unfold shared advance
    congr 1
    funext o
    dsimp only
    split
    · simp [Slot.standing, Slot.commit]
    · rfl
  rw [rest, rest, h, next, same]
  simp only [slots]

namespace Node

variable {n n' n'' : Node} {out : Nat} {id : TxId} {t : ChangeSet}

/-- Two nodes, or two states of one node, that others cannot tell apart but for reserved places. -/
structure Alike (n n' : Node) : Prop where
  settings : n'.settings = n.settings
  registry : n'.registry = n.registry
  shared : n'.resources.view.shared = n.resources.view.shared

structure Same (n n' : Node) : Prop extends Alike n n' where
  origin : n'.sequencer.origin = n.sequencer.origin
  room : n'.store.HasRoom → n.store.HasRoom
  reserved : n'.store.HasRoom → ∀ id, n'.store.isReserved id = n.store.isReserved id

theorem Alike.refl (n : Node) : n.Alike n := ⟨rfl, rfl, rfl⟩

theorem Alike.symm (h : n.Alike n') : n'.Alike n :=
  ⟨h.settings.symm, h.registry.symm, h.shared.symm⟩

theorem Alike.trans (h : n.Alike n') (h' : n'.Alike n'') : n.Alike n'' :=
  ⟨h'.settings.trans h.settings, h'.registry.trans h.registry, h'.shared.trans h.shared⟩

theorem Same.refl (n : Node) : n.Same n := ⟨.refl n, rfl, fun room => room, fun _ _ => rfl⟩

theorem Same.trans (h : n.Same n') (h' : n'.Same n'') : n.Same n'' where
  toAlike := h.toAlike.trans h'.toAlike
  origin := h'.origin.trans h.origin
  room after := h.room (h'.room after)
  reserved after id := (h'.reserved after id).trans (h.reserved (h'.room after) id)

theorem Kept.same (h : n.Kept n') : n.Same n' where
  settings := h.settings
  registry := h.registry
  shared := congrArg View.shared h.resources.view
  origin := congrArg View.origin h.resources.view
  room := h.resources.room
  reserved := h.resources.reserved

theorem Alike.last (h : n.Alike n') (o : Nat) :
    (n'.sequencer.slot o).last = (n.sequencer.slot o).last :=
  (congrArg (fun v : View => (v.slots o).last) h.shared :)

theorem Alike.content (h : n.Alike n') : n'.store.content = n.store.content :=
  (congrArg View.content h.shared :)

theorem Alike.isNext (h : n.Alike n') :
    n'.resources.view.IsNext id ↔ n.resources.view.IsNext id := by
  have last := h.last id.origin
  unfold View.IsNext
  exact Eq.congr_right (congrArg (· + 1) last)

/-- Whether a change set is admitted does not depend on what only the issuer knows. -/
theorem Alike.admits (h : n.Alike n')
    (reserved : ∀ id, n'.store.isReserved id = n.store.isReserved id) :
    n'.resources.Admits id t ↔ n.resources.Admits id t := by
  have one {m m' : Node} (h : m.Alike m')
      (reserved : ∀ id, m'.store.isReserved id = m.store.isReserved id)
      (a : m.resources.Admits id t) : m'.resources.Admits id t := by
    have content : m'.store.content = m.store.content := h.content
    have locks : m'.resources.locks = m.resources.locks := (congrArg View.locks h.shared :)
    have depth : m'.sequencer.depth = m.sequencer.depth := (congrArg View.depth h.shared :)
    have slot : (m'.sequencer.slot id.origin).standing =
        (m.sequencer.slot id.origin).standing :=
      (congrFun (congrArg View.slots h.shared) id.origin :)
    refine ⟨⟨?_, ?_, ?_, ?_⟩, a.distinct, fun id mem => ?_⟩
    · unfold Sequencer.validate
      rw [← Slot.classify_standing, slot, Slot.classify_standing, depth]
      exact a.valid
    · rw [← Store.lockKeys_content, content, locks]
      exact a.keys
    · rw [← Store.checkUniqueKeys_content, content]
      exact a.unique
    · rw [← Store.checkVersions_content, content]
      exact a.versions
    · have := a.untaken id mem
      unfold Store.isTaken at this ⊢
      rw [reserved, Store.isStored_of_content content]
      exact this
  exact ⟨one h.symm fun id => (reserved id).symm, one h reserved⟩

theorem Same.admits (h : n.Same n') (room : n'.store.HasRoom) :
    n'.resources.Admits id t ↔ n.resources.Admits id t :=
  h.toAlike.admits (h.reserved room)

theorem setSlot_view (s : Sequencer) (slot : Slot) :
    (n.withSequencer (s.setSlot s.origin slot)).resources.view =
      { (n.withSequencer s).resources.view with
        slots := fun o => if o = s.origin then slot else s.slot o } := by
  unfold Resources.view withSequencer Resources.withSequencer
  congr 1
  funext o
  exact Sequencer.slot_setSlot s s.origin o slot

/-- A change of the issuer's own slot that leaves its standing alone. -/
theorem Same.setSlot {slot : Slot}
    (standing : slot.standing = (n.sequencer.slot n.sequencer.origin).standing) :
    n.Same (n.withSequencer (n.sequencer.setSlot n.sequencer.origin slot)) := by
  refine ⟨⟨rfl, rfl, ?_⟩, rfl, fun room => room, fun _ _ => rfl⟩
  rw [setSlot_view (n := n) n.sequencer slot]
  unfold View.shared
  congr 1
  funext o
  dsimp only
  split
  · next eq =>
    subst eq
    exact standing
  · rfl

/-- Whoever has taken which ids, others cannot tell that one is issued. -/
theorem Same.nextId (n : Node) : n.Same (n.withSequencer n.sequencer.nextId.2) :=
  .setSlot (Slot.standing_issue _)

theorem Same.releaseId (n : Node) (id : TxId) :
    n.Same (n.withSequencer (n.sequencer.releaseId id)) := by
  unfold Sequencer.releaseId
  split
  · next own =>
    rw [own]
    exact .setSlot (Slot.standing_recycle _ _)
  · exact .refl n

theorem Calm.reissued {out' : Nat} (h : n.Calm out) {slot : Slot}
    (standing : slot.standing = (n.sequencer.slot n.sequencer.origin).standing)
    (own : slot.InUse out') :
    (n.withSequencer (n.sequencer.setSlot n.sequencer.origin slot)).Calm out' ∧
      n.Same (n.withSequencer (n.sequencer.setSlot n.sequencer.origin slot)) := by
  refine ⟨⟨?_, h.tidy, h.registry, h.tries⟩, .setSlot standing⟩
  rw [setSlot_view (n := n) n.sequencer slot]
  refine ⟨h.view.locks, fun o => ?_, ?_, h.view.path, h.view.depth⟩
  · dsimp only
    split
    · have := congrArg Slot.promised standing
      exact this.trans (h.view.promised _)
    · exact h.view.promised o
  · have same : (n.withSequencer n.sequencer).resources.view.origin = n.sequencer.origin := rfl
    dsimp only
    rw [if_pos same]
    exact own

/-- The origin has ids left for one more call. -/
def HasIds (n : Node) : Prop :=
  (n.sequencer.slot n.sequencer.origin).last + 4 < 18446744073709551616

instance : DecidablePred HasIds := fun _ => Nat.decLt _ _

theorem Same.hasIds (h : n.Same n') (ids : n.HasIds) : n'.HasIds := by
  unfold HasIds
  rw [h.origin, h.last]
  exact ids

def upcoming (n : Node) (out : Nat) : TxId :=
  ⟨n.sequencer.origin, (n.sequencer.slot n.sequencer.origin).last + out + 1⟩

theorem Calm.take (h : n.Calm out) (ids : n.HasIds) (few : out ≤ 1) :
    n.sequencer.nextId.1 = n.upcoming out ∧
      (n.withSequencer n.sequencer.nextId.2).Calm (out + 1) ∧
      n.Same (n.withSequencer n.sequencer.nextId.2) := by
  have room : (n.sequencer.slot n.sequencer.origin).last + out + 2 < 18446744073709551616 := by
    unfold HasIds at ids
    omega
  obtain ⟨slot, issued, own, standing⟩ := h.view.own.issue (h.view.promised _) room
  have next : n.sequencer.nextId =
      (n.upcoming out, n.sequencer.setSlot n.sequencer.origin slot) := by
    have issued : (n.sequencer.slot n.sequencer.origin).issue = _ := issued
    unfold Sequencer.nextId
    rw [issued]
    rfl
  rw [next]
  exact ⟨rfl, h.reissued standing own⟩

theorem Calm.giveBack (h : n.Calm (out + 1)) :
    (n.withSequencer (n.sequencer.releaseId (n.upcoming out))).Calm out ∧
      n.Same (n.withSequencer (n.sequencer.releaseId (n.upcoming out))) := by
  have own : (n.upcoming out).origin = n.sequencer.origin := rfl
  unfold Sequencer.releaseId
  rw [if_pos own]
  refine h.reissued (Slot.standing_recycle _ _) (h.view.own.recycle ?_)
  rw [h.view.promised]
  simp

/-- An id that is committed stays so. -/
theorem Calm.giveBack_committed (h : n.Calm out) (own : id.origin = n.sequencer.origin)
    (done : id.sequence ≤ (n.sequencer.slot n.sequencer.origin).last) :
    (n.withSequencer (n.sequencer.releaseId id)).Calm out ∧
      n.Same (n.withSequencer (n.sequencer.releaseId id)) := by
  unfold Sequencer.releaseId
  rw [if_pos own, own]
  unfold Sequencer.onSlot
  dsimp only
  rw [Slot.recycle_of_le done]
  exact h.reissued rfl h.view.own

end Node

end QuorumCommit
