import QuorumCommit.Proofs.Node.Issue
import QuorumCommit.Proofs.Node.Session

/-!
A change set on the node that issues its id. The origin prepares an attempt, which chooses the
places of new records, and commits it or discards it when the others have voted.
-/
namespace QuorumCommit

namespace Node

variable {n n' n'' : Node} {out : Nat} {id : TxId} {t t' changes final : ChangeSet}
  {request : RequestId} {content : Store}

open Attempt

/-- A node has committed a change set under an id, as far as other nodes can tell. -/
structure Wrote (n : Node) (id : TxId) (t : ChangeSet) (n' : Node) : Prop where
  settings : n'.settings = n.settings
  registry : n'.registry = n.registry
  shared : n'.resources.view.shared = (n.resources.view.enact id t).shared
  origin : n'.sequencer.origin = n.sequencer.origin

theorem Advanced.wrote
    (a : n.Advanced id (n.store.content.committed t ⟨id, n.sequencer.nextOffset⟩) n') :
    n.Wrote id t n' :=
  ⟨a.settings, a.registry, congrArg View.shared a.view, (congrArg View.origin a.view :)⟩

theorem Wrote.last (w : n.Wrote id t n') :
    (n'.sequencer.slot id.origin).last = id.sequence := by
  have moved := congrArg (fun v : View => (v.slots id.origin).last) w.shared
  refine moved.trans ?_
  simp [View.shared, View.enact, View.advance, Slot.standing, Slot.commit]

theorem Wrote.last_other (w : n.Wrote id t n') {o : Nat} (other : o ≠ id.origin) :
    (n'.sequencer.slot o).last = (n.sequencer.slot o).last := by
  have moved := congrArg (fun v : View => (v.slots o).last) w.shared
  refine moved.trans ?_
  simp only [View.shared, View.enact, View.advance, if_neg other]
  rfl

/-- What others cannot tell apart they cannot tell apart after a commit either. -/
theorem Alike.enact (h : n.Alike n') (id : TxId) (t : ChangeSet) :
    (n'.resources.view.enact id t).shared = (n.resources.view.enact id t).shared := by
  have content : n'.resources.view.content = n.resources.view.content := h.content
  have offset : n'.resources.view.nextOffset = n.resources.view.nextOffset :=
    (congrArg View.nextOffset h.shared :)
  refine View.shared_advance h.shared id ?_
  rw [content, offset]

theorem Same.wrote (h : n.Same n') (w : n'.Wrote id t n'') : n.Wrote id t n'' where
  settings := w.settings.trans h.settings
  registry := w.registry.trans h.registry
  shared := w.shared.trans (h.toAlike.enact id t)
  origin := w.origin.trans h.origin

theorem Same.upcoming (h : n.Same n') (out : Nat) : n'.upcoming out = n.upcoming out := by
  unfold Node.upcoming
  rw [h.origin, h.last]

theorem SameButDisk.same {m : Node} (l : n.SameButDisk m) : n.Same m := by
  obtain ⟨disk, asks, rfl⟩ := l
  exact ⟨⟨rfl, rfl, rfl⟩, rfl, fun room => room, fun _ _ => rfl⟩

theorem SameButDisk.hasRoom {m : Node} (l : n.SameButDisk m) (room : m.store.HasRoom) :
    n.store.HasRoom := by
  obtain ⟨disk, asks, rfl⟩ := l
  exact room

structure Logs (n : Node) (id : TxId) (n' : Node) : Prop where
  origin : n'.sequencer.origin = n.sequencer.origin
  last : (∀ o, (n'.sequencer.slot o).last = (n.sequencer.slot o).last) ∨
    (n.resources.view.IsNext id ∧ ∀ o, (n'.sequencer.slot o).last =
      if o = id.origin then id.sequence else (n.sequencer.slot o).last)
  room : n'.store.HasRoom → n.store.HasRoom

theorem Same.logs (h : n.Same n') (id : TxId) : n.Logs id n' := ⟨h.origin, .inl h.last, h.room⟩

theorem Same.trans_logs (h : n.Same n') (l : n'.Logs id n'') : n.Logs id n'' where
  origin := l.origin.trans h.origin
  last := by
    refine l.last.imp (fun same o => (same o).trans (h.last o)) fun ⟨next, last⟩ =>
      ⟨h.isNext.1 next, fun o => ?_⟩
    rw [last, h.last]
  room after := h.room (l.room after)

theorem Advanced.logs (next : n.resources.view.IsNext id) (a : n.Advanced id content n') :
    n.Logs id n' where
  origin := congrArg View.origin a.view
  last := by
    refine .inr ⟨next, fun o => ?_⟩
    have moved := congrArg (fun v : View => (v.slots o).last) a.view
    refine moved.trans ?_
    simp only [View.advance]
    split <;> rfl
  room := a.room

theorem MayAdvance.logs (d : n.MayAdvance id n') : n.Logs id n' := by
  cases d with
  | kept kept => exact kept.same.logs id
  | advanced next advanced => exact advanced.logs next

/-- What the origin made of a change set before it asked others: all changes can be applied and, as
long as there is room, places are chosen and a node with the same content may admit it if the
records to create were told apart. -/
structure Drafted (room : Prop) (n : Node) (id : TxId) (changes final : ChangeSet) : Prop where
  placed : room → final.hasTemporary = false
  clusters : final.clusters = changes.clusters
  versions : n.store.checkVersions final = .ok ()
  admits : room → changes.createdRecords.Nodup → n.resources.Admits id final

theorem drafted {b : State} (h : Ready n.resources request id t t' b)
    (passes : n.resources.Passes id t') : Drafted b.resources.store.HasRoom n id t t' :=
  ⟨fun room => h.placed.final (h.stands.store.final room), h.placed.clusters, h.versions,
    fun room distinct => h.admits passes distinct room⟩

theorem Drafted.mono {room room' : Prop} (d : Drafted room n id changes final)
    (back : room' → room) : Drafted room' n id changes final :=
  ⟨fun after => d.placed (back after), d.clusters, d.versions, fun after => d.admits (back after)⟩

theorem Same.drafted {room : Prop} (h : n.Same n') (d : Drafted room n' id changes final)
    (back : room → n'.store.HasRoom) : Drafted room n id changes final where
  placed := d.placed
  clusters := d.clusters
  versions := by
    rw [← Store.checkVersions_content, ← h.content]
    exact d.versions
  admits after distinct := (h.admits (back after)).1 (d.admits after distinct)

structure Issued (n : Node) (id : TxId) (changes final : ChangeSet) (n' : Node) : Prop where
  drafted : Drafted n'.store.HasRoom n id changes final
  advanced : n.Advanced id (n.store.content.committed final ⟨id, n.sequencer.nextOffset⟩) n'
  reserved : n'.store.HasRoom → changes.createdRecords.Nodup →
    ∀ id, n'.store.isReserved id = n.store.isReserved id

theorem Issued.butDisk {m m' : Node} (h : n.Issued id changes final n') (l : n.SameButDisk m)
    (l' : n'.SameButDisk m') : m.Issued id changes final m' := by
  have advanced := h.advanced.butDisk l l'
  have drafted := l.symm.same.drafted h.drafted h.advanced.room
  obtain ⟨disk, asks, rfl⟩ := l
  obtain ⟨disk', asks', rfl⟩ := l'
  exact ⟨drafted, advanced, h.reserved⟩

/-- Preparing at the origin leaves an attempt with all it needs, or nothing. -/
theorem prepareOwn_spec (h : n.Calm out) (request : RequestId) (id : TxId) (t : ChangeSet) :
    match prepareOwn request id t n with
    | (.ok b, m) => (∃ t', Ready n.resources request id t t' b ∧ n.resources.Passes id t') ∧
        b.attempt.status = .success ∧ m.settings = n.settings ∧ m.registry = n.registry
    | (.error _, m) => n.Kept m := by
  have work := h.atWork request id t true
  have begun := h.begun request id t
  unfold prepareOwn
  simp only [Step.run_apply]
  rcases eq : Attempt.prepare true (n.newAttempt request (.data id t)) with ⟨fault | _, b⟩
  · rw [eq] at work
    obtain ⟨-, registry, settings⟩ := noteFailure_resources ((n.count .started).timePhase1) fault
    exact ⟨settings, registry, work.stands.destroy⟩
  · rw [eq] at work
    obtain ⟨t', ready, passes⟩ := prepare_origin begun eq
    obtain ⟨ready, success⟩ := ready.succeed
    exact ⟨⟨t', ready, passes⟩, success work.pending, rfl, rfl⟩

structure Pending (n : Node) (request : RequestId) (id : TxId) (changes final : ChangeSet)
    (b : State) (n' : Node) : Prop where
  parked : n.Parked b n'
  ready : Ready n.resources request id changes final b
  passes : n.resources.Passes id final
  status : b.attempt.status = .success

theorem Pending.butDisk {m m' : Node} {b : State} (h : n.Pending request id changes final b n')
    (l : n.SameButDisk m) (l' : n'.SameButDisk m') :
    ∃ b', m.Pending request id changes final b' m' := by
  obtain ⟨disk, parked⟩ := h.parked.butDisk l l'
  have ready := h.ready
  have passes := h.passes
  obtain ⟨disk₀, asks, rfl⟩ := l
  exact ⟨_, parked, ready.onDisk disk₀ disk,
    ⟨passes.valid, passes.keys, passes.unique, passes.versions⟩, h.status⟩

theorem Pending.rollback {b : State} (h : n.Calm out)
    (p : n.Pending request id changes final b n') : n.Kept (Node.rollback request n').2 := by
  obtain rfl := p.ready.request
  exact p.parked.rollback h

/-- What the origin made of its change set, judged by the room that is left once the attempt is
decided. -/
theorem Pending.drafted {b : State} (p : n.Pending request id changes final b n') :
    Drafted n'.store.HasRoom n id changes final := by
  refine (Node.drafted p.ready p.passes).mono fun room => ?_
  unfold Node.store at room
  rwa [p.parked.resources] at room

theorem hasRoom_of_commit {b : State} (p : n.Pending request id changes final b n')
    (room : (Node.commit request n').2.store.HasRoom) : n'.store.HasRoom := by
  obtain rfl := p.ready.request
  rw [p.parked.commit_eq p.status] at room
  unfold Node.store
  rw [p.parked.resources]
  exact hasRoom_of_finish p.ready.job room

theorem Pending.commit {b : State} (h : n.Calm out) (next : n.resources.view.IsNext id)
    (p : n.Pending request id changes final b n') :
    (Node.commit request n').1 = .ok true ∧
      n.Issued id changes final (Node.commit request n').2 := by
  obtain ⟨ok, advanced, reserved⟩ := p.parked.commit_next h p.ready p.status next
  exact ⟨ok, p.drafted.mono (hasRoom_of_commit p), advanced, reserved⟩

end Node

end QuorumCommit
