import QuorumCommit.Proofs.Cluster.Runs

/-!
Replicas that can all be reached. As long as nobody is cut off no node can be told from another by
what it has committed, so whatever a quorum takes up all take up, and the nodes stay alike.
-/
namespace QuorumCommit

namespace Node

variable {n n' m m' : Node} {id : TxId} {t : ChangeSet} {command : String}

/-- Nodes that others cannot tell apart stay so when they commit the same change set. -/
theorem Alike.wrote (h : n.Alike m) (w : n.Wrote id t n') (w' : m.Wrote id t m') :
    n'.Alike m' where
  settings := w'.settings.trans (h.settings.trans w.settings.symm)
  registry := w'.registry.trans (h.registry.trans w.registry.symm)
  shared := w'.shared.trans ((h.enact id t).trans w.shared.symm)

theorem Alike.executed (h : n.Alike m) (e : n.Executed command id n')
    (e' : m.Executed command id m') : n'.Alike m' where
  settings := e'.settings.trans (h.settings.trans e.settings.symm)
  registry := e'.registry.trans (h.registry.trans e.registry.symm)
  shared := by
    rw [e'.shared, e.shared, h.settings]
    exact (View.shared_between h.shared _ _ _).1

theorem Same.between (h : n.Alike m) (s : n.Same n') (s' : m.Same m') : n'.Alike m' :=
  (s.toAlike.symm.trans h).trans s'.toAlike

end Node

namespace Cluster

variable {c c' : Cluster} {name command : String} {changes : ChangeSet} {done : Committed}

/-- A new cluster whose nodes have the same settings and stores of the same content, with no place
reserved. -/
structure Uniform (c : Cluster) : Prop where
  fresh : c.Fresh
  settings : ∀ x y n m, c.node? x = some n → c.node? y = some m → m.settings = n.settings
  stores : ∀ x y n m, c.node? x = some n → c.node? y = some m →
    m.store.displaced = n.store.displaced
  unreserved : ∀ x n, c.node? x = some n → ∀ place, n.store.isReserved place = false

/-- Everybody can be reached, nothing is going on, and no node can be told from another. -/
structure Level (c : Cluster) : Prop where
  calm : c.Calm
  connected : c.partitioned = ∅
  alike : ∀ x y n m, c.node? x = some n → c.node? y = some m → n.Alike m
  unreserved : ∀ x n, c.node? x = some n → ∀ place, n.store.isReserved place = false

theorem pair_uniform {settings : Settings} (valid : settings.validate = .ok ())
    (path : settings.logPath = none) : (pair settings).Uniform := by
  have opened {x : String} {n : Node} (here : (pair settings).node? x = some n) :
      n.settings = settings ∧ n.store = Store.empty none := by
    obtain ⟨-, opened⟩ | ⟨-, opened⟩ := pair_node valid path here
    · exact opened.keeps
    · exact opened.keeps
  refine ⟨pair_fresh valid path, fun x y n m here there => ?_, fun x y n m here there => ?_,
    fun x n here place => ?_⟩
  · rw [(opened here).1, (opened there).1]
  · rw [(opened here).2, (opened there).2]
  · rw [(opened here).2]
    simp [Store.isReserved, Store.placesOf, Store.empty, Positions.empty]

theorem Uniform.level (h : c.Uniform) : c.Level where
  calm := h.fresh.calm
  connected := h.fresh.spec.1
  alike x y n m here there := by
    have settings := h.settings x y n m here there
    have stores := h.stores x y n m here there
    obtain ⟨i, options, store, opened, -, -⟩ := h.fresh.node here
    obtain ⟨j, options', store', opened', -, -⟩ := h.fresh.node there
    rw [opened.keeps.2, opened'.keeps.2] at stores
    rw [opened.keeps.1, opened'.keeps.1] at settings
    subst settings
    have content : store'.content = store.content :=
      congrArg (fun s : Store => { s with failing := 0 }) stores
    have failing : store'.failing = store.failing := (congrArg Store.failing stores :)
    refine ⟨opened'.keeps.1.trans opened.keeps.1.symm, opened'.registry.trans opened.registry.symm,
      ?_⟩
    rw [opened'.shared, opened.shared, content, failing]
  unreserved := h.unreserved

theorem Level.available (h : c.Level) {x : String} {n m : Node} (running : c.node? name = some n)
    (there : c.node? x = some m) : x ∈ c.available name := by
  have online {y : String} {k : Node} (found : c.node? y = some k) : c.isOnline y = true := by
    unfold isOnline
    rw [contains_of_node? found, h.connected]
    simp
  exact (mem_available (contains_of_node? running)).2 (.inr ⟨online running, online there⟩)

/-- All nodes have changed in the same way, and none has used the last place of a cluster. -/
theorem Level.evolved {R : Node → Node → Prop} (h : c.Level) (calm : c'.Calm)
    (room : c'.HasRoom) (e : Evolved (fun _ => R) c c')
    (alike : ∀ n n' m m', n.Alike m → R n n' → R m m' → n'.Alike m')
    (reserved : ∀ n n', R n n' → n'.store.HasRoom → ∀ place,
      n'.store.isReserved place = n.store.isReserved place) :
    c'.Level where
  calm := calm
  connected := e.network.partitioned.trans h.connected
  alike x y n' m' here there := by
    obtain ⟨n, before, change⟩ := e.source h.calm.healthy here
    obtain ⟨m, before', change'⟩ := e.source h.calm.healthy there
    exact alike n n' m m' (h.alike x y n m before before') change change'
  unreserved x n' here place := by
    obtain ⟨n, before, change⟩ := e.source h.calm.healthy here
    exact (reserved n n' change (room x n' here) place).trans (h.unreserved x n before place)

theorem Level.untouched (h : c.Level) (calm : c'.Calm) (room : c'.HasRoom) (u : c.Untouched c') :
    c'.Level :=
  h.evolved calm room u (fun _ _ _ _ alike s s' => s.between alike s') fun _ _ s => s.reserved

/-- What the origin commits everyone takes up. -/
theorem Level.wrote (h : c.Level) (calm : c'.Calm) (room : c'.HasRoom)
    (distinct : changes.createdRecords.Nodup) (w : c.Wrote name changes done c') : c'.Level := by
  obtain ⟨n, running, id, drafted, -⟩ := w.origin
  have all : Evolved (fun _ k k' => k.Wrote done.id done.changes k' ∧
      ∀ place, k'.store.isReserved place = k.store.isReserved place) c c' := by
    -- The origin could apply the change set, so everybody with the same content can.
    refine (w.takers room).mono fun x k k' here change =>
      ⟨change.1 (.inr ?_), change.2.2 distinct⟩
    have alike := h.alike name x n k running here
    have reserved (place : RecordId) : k.store.isReserved place = n.store.isReserved place := by
      rw [h.unreserved x k here, h.unreserved name n running]
    refine ⟨h.available running here, (alike.admits reserved).2 (drafted.admits room distinct), ?_⟩
    rw [alike.isNext, id]
    exact upcoming_isNext n
  exact h.evolved calm room all (fun _ _ _ _ alike w w' => alike.wrote w.1 w'.1)
    fun _ _ change _ => change.2

theorem Level.executed (h : c.Level) (calm : c'.Calm) (room : c'.HasRoom)
    (e : c.Executed name command c') : c'.Level := by
  obtain ⟨n, running, nodes⟩ := e
  have all : Evolved (fun _ k k' => k.Executed command (n.upcoming 0) k') c c' := by
    refine nodes.mono fun x k k' here change => change.1 ⟨h.available running here, ?_⟩
    exact (h.alike name x n k running here).isNext.2 (upcoming_isNext n)
  exact h.evolved calm room all (fun _ _ _ _ alike e e' => alike.executed e e')
    fun _ _ e => e.places.reserved

theorem Level.leads (h : c.Level) (name : String) : c.Leads name := by
  intro n running x m here
  rw [(h.alike name x n m running here).last]
  exact Nat.lt_succ_self _

def Call.Replicates : Call → Prop
  | commit _ changes => changes.createdRecords.Nodup
  | run .. => True
  | _ => False

theorem Call.Replicates.issues {call : Call} (h : call.Replicates) (name : String) (id : TxId)
    (changes : ChangeSet) : call ≠ .catchUp name id changes := by
  rintro rfl
  exact h

theorem Level.perform (h : c.Level) (ids : c.HasIds) {call : Call} (replicates : call.Replicates)
    (room : (call.perform c).HasRoom) : (call.perform c).Level := by
  cases call with
  | commit name changes =>
    obtain ⟨calm, untouched | ⟨done, wrote⟩⟩ := perform_commit h.calm ids name changes
    · exact h.untouched calm room untouched
    · exact h.wrote calm room replicates wrote
  | run name command =>
    obtain ⟨calm, untouched | executed⟩ := perform_run h.calm ids (h.leads name) command
    · exact h.untouched calm room untouched
    · exact h.executed calm room executed
  | catchUp name id changes => exact replicates.elim
  | partition name => exact replicates.elim
  | heal name => exact replicates.elim
  | failNext name count => exact replicates.elim

/-- All nodes hold the same data and have committed the same ids, and nothing is going on. -/
structure Converged (c : Cluster) : Prop where
  records : ∀ x y n m, c.node? x = some n → c.node? y = some m →
    m.store.records = n.store.records ∧ m.store.indexValues = n.store.indexValues
  clusters : ∀ x y n m, c.node? x = some n → c.node? y = some m →
    m.store.clusterIds = n.store.clusterIds ∧ m.store.commands = n.store.commands
  applied : ∀ x y n m, c.node? x = some n → c.node? y = some m →
    m.store.applied = n.store.applied
  last : ∀ x y n m, c.node? x = some n → c.node? y = some m →
    ∀ o, m.sequencer.lastCommitted? o = n.sequencer.lastCommitted? o
  quiet : ∀ x n, c.node? x = some n →
    n.registry = Registry.empty ∧ n.locks = LockTable.empty ∧
      (∀ o, (n.sequencer.slot o).promised = ∅) ∧ ∀ place, n.store.isReserved place = false

theorem Level.converged (h : c.Level) : c.Converged where
  records x y n m here there := by
    have content := (h.alike x y n m here there).content
    exact ⟨(congrArg Store.records content :), (congrArg Store.indexValues content :)⟩
  clusters x y n m here there := by
    have content := (h.alike x y n m here there).content
    exact ⟨(congrArg Store.clusterIds content :), (congrArg Store.commands content :)⟩
  applied x y n m here there :=
    (congrArg Store.applied (h.alike x y n m here there).content :)
  last x y n m here there o := by
    unfold Sequencer.lastCommitted?
    rw [(h.alike x y n m here there).last]
  quiet x n here := by
    have calm := h.calm.nodes x n here
    exact ⟨calm.registry, calm.view.locks, calm.view.promised, h.unreserved x n here⟩

theorem Level.performAll (h : c.Level) {calls : List Call} (ids : c.HasIdsFor calls.length)
    (replicates : ∀ call ∈ calls, call.Replicates)
    (room : ∀ first ∈ calls.inits, (c.performAll first).HasRoom) : (c.performAll calls).Level := by
  induction calls generalizing c with
  | nil => exact h
  | cons call rest ih =>
    rw [List.forall_mem_cons] at replicates
    have begun (first : List Call) (mem : first ∈ rest.inits) :
        ((call.perform c).performAll first).HasRoom :=
      room (call :: first) ((List.mem_inits _ _).2
        (List.cons_prefix_cons.2 ⟨rfl, (List.mem_inits _ _).1 mem⟩))
    have next := h.perform ids.hasIds replicates.1
      (begun [] ((List.mem_inits _ _).2 List.nil_prefix))
    have left := ids.perform h.calm call replicates.1.issues fun name _ _ => h.leads name
    exact ih next left replicates.2 begun

def turns : List Call :=
  [.commit "a" (person 1), .run "b" "create cluster person", .commit "b" (person 2)]

def stores? (c : Cluster) (x : String) (id : RecordId) : Option Bool :=
  (c.node? x).map fun n => n.store.isStored id

end Cluster

end QuorumCommit
