import QuorumCommit.Proofs.Node.Calls

/-!
Disciplines. A discipline admits some deeds and has an invariant that all acts of such deeds keep,
as long as it binds; a node that upholds it does so whatever it is asked for, if the deeds of that
are admitted.
-/
namespace QuorumCommit

namespace Resources.Quiet

/-- Only what the issuer knows of an origin has changed. -/
theorem setSlot (r : Resources) (o : Nat) {slot : Slot}
    (standing : slot.standing = (r.sequencer.slot o).standing) :
    r.Quiet (r.withSequencer (r.sequencer.setSlot o slot)) := by
  refine ⟨rfl, rfl, rfl, fun p => ?_, rfl, rfl, rfl, rfl, rfl⟩
  show ((r.sequencer.setSlot o slot).slot p).standing = _
  rw [Sequencer.slot_setSlot]
  split
  · next same =>
    subst same
    exact standing
  · rfl

theorem nextId (r : Resources) : r.Quiet (r.withSequencer r.sequencer.nextId.2) :=
  setSlot r r.sequencer.origin (Slot.standing_issue _)

theorem releaseId (r : Resources) (id : TxId) :
    r.Quiet (r.withSequencer (r.sequencer.releaseId id)) := by
  unfold Sequencer.releaseId
  split
  · exact setSlot r id.origin (Slot.standing_recycle _ _)
  · exact refl r

/-- A node may be lent another disk. -/
theorem lend (r : Resources) (disk : FileTree) : r.Quiet { r with disk := disk } :=
  ⟨rfl, rfl, rfl, fun _ => rfl, rfl, rfl, rfl, rfl, rfl⟩

end Resources.Quiet

open InFlight

/-- The deeds that are admitted among some attempts, and what acts of such deeds keep in flight
while `binds` holds there. What binds has bound all the time. -/
structure Discipline where
  ok : Multiset Attempt → Deed → Prop
  binds : InFlight → Prop
  invariant : InFlight → Prop
  back : ReachesBack binds
  kept : KeptWhile binds ok invariant
  other : ∀ A, ok A .other

def Discipline.plain : Discipline where
  ok _ _ := True
  binds _ := True
  invariant := Sound
  back := .trivial
  kept := (Sound.keptBy _).keptWhile _
  other _ := trivial

namespace Discipline

open Node

variable {D : Discipline} {own : Nat} {n m : Node} {request : RequestId} {id : TxId}
  {t : ChangeSet}

/-- The node issues the ids of an origin, its work in flight is sound, and has the invariant if the
discipline binds it. -/
structure Upheld (D : Discipline) (own : Nat) (n : Node) : Prop extends Orderly n where
  holds : D.binds n.inFlight → D.invariant n.inFlight
  origin : n.resources.sequencer.origin = own

theorem Upheld.orderly (h : D.Upheld own n) : n.Orderly := h.toOrderly

def okFrom (D : Discipline) (n : Node) (A : Multiset Attempt) (d : Deed) : Prop :=
  D.binds n.inFlight → D.ok A d

theorem otherFrom (D : Discipline) (n : Node) (A : Multiset Attempt) : D.okFrom n A .other :=
  fun _ => D.other A

theorem Upheld.movesBy (h : D.Upheld own n) (moves : MovesBy (D.okFrom n) n m) :
    D.Upheld own m where
  toOrderly := moves.orderly h.orderly
  holds last :=
    have first := D.back.acts moves.acts last
    D.kept.acts D.back (moves.acts.mono fun _ _ ok => ok first) last (h.holds first)
  origin := ((Sound.originKeptBy (D.okFrom n) own).acts moves.acts ⟨h.sound, h.origin⟩).2

/-- What is admitted in any case is admitted from the node on. -/
theorem Upheld.movesBy_ok (h : D.Upheld own n) (moves : MovesBy D.ok n m) : D.Upheld own m :=
  h.movesBy ⟨moves.keyed, moves.acts.mono fun _ _ ok _ => ok⟩

/-- What no attempt depends on may change. -/
theorem Upheld.quiet (h : D.Upheld own n) (registry : m.registry = n.registry)
    (quiet : n.resources.Quiet m.resources) : D.Upheld own m :=
  h.movesBy (.quiet (D.otherFrom n) h.keyed registry quiet)

theorem Upheld.congr (h : D.Upheld own n) (registry : m.registry = n.registry)
    (resources : m.resources = n.resources) : D.Upheld own m :=
  h.movesBy ((MovesBy.refl h.keyed).congr registry resources)

structure Serves (D : Discipline) (own : Nat) : Prop where
  finish : ∀ message n, MayFinish (D.okFrom n) ⟨own, message⟩
  resume : ∀ message n, D.Upheld own n → MayResume (D.okFrom n) ⟨own, message⟩ n

end Discipline

namespace Node

variable {n m : Node} {b : Attempt.State} {request : RequestId} {id : TxId} {t : ChangeSet}
  {ok : Multiset Attempt → Deed → Prop}

/-- A node prepares a change set of its own, and applies it at once or lets it wait. -/
theorem prepareOwn_movesBy (orderly : n.Orderly)
    (begins : ok n.registry.all (.begin request (.data id t))) (finish : MayFinish ok request)
    {α : Type} (result : Attempt.State → α) (alone : Bool) :
    MovesBy ok n (((do
      let b ← prepareOwn request id t
      if alone then
        Node.finish b
        pure (result b)
      else
        modify (·.park b)
        pure (result b)) : Step Node α) n).2 := by
  have spec := prepareOwn_acts orderly begins
  rw [Step.bind_apply]
  rcases eq : prepareOwn request id t n with ⟨fault | b, m⟩
  · rw [eq] at spec
    exact spec
  · rw [eq] at spec
    obtain ⟨registry, same, status, acts⟩ := spec
    cases alone with
    | true =>
      obtain ⟨registry', applied⟩ := finish_acts (m := m) status (same ▸ finish)
      have done : MovesBy ok n (Node.finish b m).2 := by
        refine ⟨registry' ▸ registry ▸ orderly.keyed, acts.trans ?_⟩
        rw [← registry]
        exact applied
      simp only [↓reduceIte]
      rw [Step.bind_apply]
      rcases eq' : Node.finish b m with ⟨fault | _, m'⟩
      · rw [eq'] at done
        exact done
      · rw [eq'] at done
        exact done
    | false =>
      obtain ⟨keyed, parked⟩ := park_acts (m := m) (b := b) (registry ▸ orderly.keyed)
        (same ▸ finish)
      rw [registry] at parked
      exact ⟨keyed, acts.trans parked⟩

end Node

end QuorumCommit
