import QuorumCommit.Node.Basic
import QuorumCommit.Proofs.Attempt.Ending
import QuorumCommit.Proofs.Attempt.Registry

/-!
Nodes between calls. A calm node has no attempt waiting, no key locked and no id promised, so its
state is its view, its reserved places and its settings. An attempt that waits on a calm node is
the only one there and holds everything that is held.
-/
namespace QuorumCommit

/-- Nothing is locked or promised, the journal is in memory, and of the ids that this node issues
the next `out` are in use. -/
structure View.Calm (out : Nat) (v : View) : Prop where
  locks : v.locks = LockTable.empty
  promised : ∀ o, (v.slots o).promised = ∅
  own : (v.slots v.origin).InUse out
  path : v.path = none
  depth : 1 ≤ v.depth

def View.outAfter (v : View) (id : TxId) (out : Nat) : Nat :=
  if id.origin = v.origin then out - 1 else out

theorem View.Calm.advance {out : Nat} {v : View} (h : v.Calm out) {id : TxId}
    (next : v.IsNext id) (content : Store) :
    (v.advance id content).Calm (v.outAfter id out) where
  locks := h.locks
  promised o := by
    simp only [View.advance]
    split
    · refine Std.ExtTreeSet.ext_mem fun k => ?_
      rw [Slot.mem_commit, h.promised]
      simp
    · exact h.promised o
  own := by
    simp only [View.advance, View.outAfter]
    by_cases own : id.origin = v.origin
    · rw [if_pos own.symm, if_pos own, next, own]
      exact h.own.commit _
    · rw [if_neg (Ne.symm own), if_neg own]
      exact h.own
  path := h.path
  depth := h.depth

namespace Node

structure Calm (out : Nat) (n : Node) : Prop where
  view : n.resources.view.Calm out
  tidy : n.store.Tidy
  registry : n.registry = Registry.empty
  tries : 1 ≤ n.settings.maxAutoRetry

/-- Nothing waits at a node, and nothing is locked or promised there; its journal may be on the
disk, and it may have issued any ids. -/
structure Still (n : Node) : Prop where
  tidy : n.store.Tidy
  registry : n.registry = Registry.empty
  unlocked : ∀ key, n.locks.holder? key = none
  promised : ∀ o, (n.sequencer.slot o).promised = ∅

structure Kept (n n' : Node) : Prop where
  settings : n'.settings = n.settings
  registry : n'.registry = n.registry
  resources : n.resources.Restored n'.resources

/-- A node has committed an id, which left it with some content. -/
structure Advanced (n : Node) (id : TxId) (content : Store) (n' : Node) : Prop where
  settings : n'.settings = n.settings
  registry : n'.registry = n.registry
  view : n'.resources.view = n.resources.view.advance id content
  tidy : n'.store.Tidy
  room : n'.store.HasRoom → n.store.HasRoom

/-- A node has committed a change set under an id, and has no more places reserved than before,
unless the places of a cluster came round. -/
structure Enacted (n : Node) (id : TxId) (t : ChangeSet) (n' : Node) : Prop
    extends Advanced n id (n.store.content.committed t ⟨id, n.sequencer.nextOffset⟩) n' where
  reserved : n'.store.HasRoom → ∀ id, n'.store.isReserved id = n.store.isReserved id

inductive MayAdvance (n : Node) (id : TxId) (n' : Node) : Prop where
  | kept : n.Kept n' → MayAdvance n id n'
  | advanced {content : Store} : n.resources.view.IsNext id → n.Advanced id content n' →
      MayAdvance n id n'

variable {n n' n'' : Node} {out : Nat} {id : TxId} {t : ChangeSet} {request : RequestId}
  {content : Store}

theorem Calm.still (h : n.Calm out) : n.Still where
  tidy := h.tidy
  registry := h.registry
  unlocked key := by
    have locks : n.locks = LockTable.empty := h.view.locks
    rw [locks, LockTable.holder?_empty]
  promised := h.view.promised

theorem Still.stranger (h : n.Still) (request : RequestId) (key : LockKey) :
    n.locks.holder? key ≠ some request := by
  rw [h.unlocked]
  exact nofun

theorem Calm.stranger (h : n.Calm out) (request : RequestId) (key : LockKey) :
    n.locks.holder? key ≠ some request :=
  h.still.stranger request key

theorem Kept.refl (tidy : n.store.Tidy) : n.Kept n := ⟨rfl, rfl, .refl tidy⟩

theorem Kept.trans (h : n.Kept n') (h' : n'.Kept n'') : n.Kept n'' :=
  ⟨h'.settings.trans h.settings, h'.registry.trans h.registry, h.resources.trans h'.resources⟩

theorem Calm.kept (h : n.Calm out) (k : n.Kept n') : n'.Calm out where
  view := by
    rw [k.resources.view]
    exact h.view
  tidy := k.resources.tidy
  registry := k.registry.trans h.registry
  tries := by
    rw [k.settings]
    exact h.tries

theorem Calm.advanced (h : n.Calm out) (next : n.resources.view.IsNext id)
    (a : n.Advanced id content n') : n'.Calm (n.resources.view.outAfter id out) where
  view := by
    rw [a.view]
    exact h.view.advance next content
  tidy := a.tidy
  registry := a.registry.trans h.registry
  tries := by
    rw [a.settings]
    exact h.tries

theorem MayAdvance.room (d : n.MayAdvance id n') (room : n'.store.HasRoom) : n.store.HasRoom := by
  cases d with
  | kept kept => exact kept.resources.room room
  | advanced _ advanced => exact advanced.room room

/-- What is decided after nothing that lasts has happened. -/
theorem Kept.decided (k : n.Kept n') (d : n'.MayAdvance id n'') : n.MayAdvance id n'' := by
  cases d with
  | kept kept => exact .kept (k.trans kept)
  | @advanced content next advanced =>
    have view := advanced.view
    rw [k.resources.view] at next view
    exact .advanced next ⟨advanced.settings.trans k.settings, advanced.registry.trans k.registry,
      view, advanced.tidy, fun room => k.resources.room (advanced.room room)⟩

/-- A node without ids of its own in use stays calm, whatever is decided. -/
theorem Calm.decided (h : n.Calm 0) (d : n.MayAdvance id n') : n'.Calm 0 := by
  cases d with
  | kept kept => exact h.kept kept
  | advanced next advanced =>
    have after := h.advanced next advanced
    unfold View.outAfter at after
    rwa [ite_self] at after

theorem noteFailure_resources (n : Node) (fault : Fault) :
    (n.noteFailure fault).resources = n.resources ∧
      (n.noteFailure fault).registry = n.registry ∧
      (n.noteFailure fault).settings = n.settings := by
  unfold noteFailure
  split
  · exact ⟨rfl, rfl, rfl⟩
  · split <;> exact ⟨rfl, rfl, rfl⟩

structure Parked (n : Node) (b : Attempt.State) (n' : Node) : Prop where
  settings : n'.settings = n.settings
  registry : n'.registry = Registry.empty.insert b.attempt
  resources : n'.resources = b.resources
  stands : Attempt.StandsOn n.resources b

namespace Parked

variable {b : Attempt.State}

/-- Parking registers the attempt, as there is none that it would replace. -/
theorem park {m : Node} (settings : m.settings = n.settings)
    (registry : m.registry = Registry.empty)
    (stands : Attempt.StandsOn n.resources b) : n.Parked b (m.park b) := by
  have none : m.registry.get? b.attempt.request = .none := by
    simp [registry, Registry.get?, Registry.empty]
  refine ⟨?_, ?_, ?_, stands⟩
  · unfold Node.park Registry.register
    rw [none]
    exact settings
  · unfold Node.park Registry.register
    rw [none, registry]
  · unfold Node.park Registry.register
    rw [none]

theorem waiting? (h : n.Parked b n') : n'.waiting? b.attempt.request = some b := by
  unfold Node.waiting? Registry.get?
  rw [h.registry, h.resources]
  simp [Registry.insert]

theorem forget (h : n.Parked b n') :
    (n'.forget b.attempt.request).registry = Registry.empty ∧
      (n'.forget b.attempt.request).resources = b.resources ∧
      (n'.forget b.attempt.request).settings = n.settings := by
  refine ⟨?_, h.resources, h.settings⟩
  unfold Node.forget
  rw [h.registry, Registry.erase_insert, Registry.erase_of_none Registry.get?_empty]

theorem room (h : n.Parked b n') (room : n'.store.HasRoom) : n.store.HasRoom := by
  unfold Node.store at room
  rw [h.resources] at room
  exact h.stands.store.room room

/-- Discarding the attempt leaves the node as it was before. -/
theorem discard (h : n.Parked b n') (none : n.registry = Registry.empty) :
    n.Kept ((n'.forget b.attempt.request).discard b) where
  settings := h.settings
  registry := h.forget.1.trans none.symm
  resources := h.stands.destroy

end Parked

/-- Parking an attempt on a node that is as it was. -/
theorem Kept.parked (k : n.Kept n') {b : Attempt.State} (p : n'.Parked b n'') :
    n.Parked b n'' where
  settings := p.settings.trans k.settings
  registry := p.registry
  resources := p.resources
  stands := p.stands.of_restored k.resources

/-- Two states of a node that differ only in the disk and in what the cluster has seen of it. -/
def SameButDisk (n m : Node) : Prop :=
  ∃ disk asks, m = { n with resources := { n.resources with disk := disk }, asks := asks }

def seen (n : Node) : Node := { n with asks := 0 }

variable {m m' : Node}

theorem SameButDisk.refl (n : Node) : n.SameButDisk n := ⟨n.resources.disk, n.asks, rfl⟩

theorem sameButDisk_seen (n : Node) : n.SameButDisk n.seen := ⟨n.resources.disk, 0, rfl⟩

theorem SameButDisk.symm (h : n.SameButDisk m) : m.SameButDisk n := by
  obtain ⟨disk, asks, rfl⟩ := h
  exact ⟨n.resources.disk, n.asks, rfl⟩

theorem Still.butDisk (h : n.Still) (l : n.SameButDisk m) : m.Still := by
  obtain ⟨disk, asks, rfl⟩ := l
  exact ⟨h.tidy, h.registry, h.unlocked, h.promised⟩

theorem Calm.butDisk (h : n.Calm out) (l : n.SameButDisk m) : m.Calm out := by
  obtain ⟨disk, asks, rfl⟩ := l
  exact ⟨h.view, h.tidy, h.registry, h.tries⟩

theorem Kept.butDisk (k : n.Kept n') (l : n.SameButDisk m) (l' : n'.SameButDisk m') :
    m.Kept m' := by
  obtain ⟨disk, asks, rfl⟩ := l
  obtain ⟨disk', asks', rfl⟩ := l'
  exact ⟨k.settings, k.registry, k.resources.view, k.resources.tidy, k.resources.room,
    k.resources.reserved⟩

theorem Advanced.butDisk (a : n.Advanced id content n') (l : n.SameButDisk m)
    (l' : n'.SameButDisk m') :
    m.Advanced id content m' := by
  obtain ⟨disk, asks, rfl⟩ := l
  obtain ⟨disk', asks', rfl⟩ := l'
  exact ⟨a.settings, a.registry, a.view, a.tidy, a.room⟩

theorem MayAdvance.butDisk (d : n.MayAdvance id n') (l : n.SameButDisk m) (l' : n'.SameButDisk m') :
    m.MayAdvance id m' := by
  cases d with
  | kept kept => exact .kept (kept.butDisk l l')
  | advanced next advanced =>
    have advanced := advanced.butDisk l l'
    obtain ⟨disk, asks, rfl⟩ := l
    exact .advanced next advanced

theorem Enacted.butDisk (e : n.Enacted id t n') (l : n.SameButDisk m) (l' : n'.SameButDisk m') :
    m.Enacted id t m' := by
  have advanced := e.toAdvanced.butDisk l l'
  obtain ⟨disk, asks, rfl⟩ := l
  obtain ⟨disk', asks', rfl⟩ := l'
  exact ⟨advanced, e.reserved⟩

theorem Parked.butDisk {b : Attempt.State} (p : n.Parked b n') (l : n.SameButDisk m)
    (l' : n'.SameButDisk m') :
    ∃ disk, m.Parked ⟨b.attempt, { b.resources with disk := disk }⟩ m' := by
  obtain ⟨disk, asks, rfl⟩ := l
  obtain ⟨disk', asks', rfl⟩ := l'
  exact ⟨disk', p.settings, p.registry, by rw [p.resources], p.stands.onDisk disk disk'⟩

end Node

end QuorumCommit
