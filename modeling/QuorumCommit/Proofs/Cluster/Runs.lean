import QuorumCommit.Proofs.Cluster.Commands
import QuorumCommit.Proofs.Node.CatchUp
import QuorumCommit.Proofs.Node.Opening
import QuorumCommit.Proofs.Store.Built

/-!
Runs of a cluster: nodes with fresh journals are joined, and then one call follows the other.
Between calls nothing is going on at any node.
-/
namespace QuorumCommit

namespace Node

variable {n n' : Node}

/-- A node that was opened on a store with an empty journal in memory. -/
structure Opened (n : Node) (id : Nat) (settings : Settings) (store : Store) : Prop where
  sequencer : n.sequencer = Sequencer.new id settings.pipelineDepth
  path : n.resources.journal.path = none
  locks : n.locks = LockTable.empty
  registry : n.registry = Registry.empty
  keeps : n.settings = settings ∧ n.store = store

theorem openOn_eq_ok (database name : String) (id : Nat) {settings : Settings} (store : Store)
    (valid : settings.validate = .ok ()) (path : settings.logPath = none) (disk : FileTree) :
    ∃ n, openOn database name id settings store disk = .ok n ∧ n.Opened id settings store := by
  unfold openOn
  rw [valid, path]
  exact ⟨_, rfl, rfl, rfl, rfl, rfl, rfl, rfl⟩

theorem Opened.slot {id : Nat} {settings : Settings} {store : Store}
    (h : n.Opened id settings store) (o : Nat) : n.sequencer.slot o = Slot.fresh := by
  rw [h.sequencer, Sequencer.slot_new]

/-- A node that was opened with a journal in memory is a new one. -/
theorem opened_of_openOn {database name : String} {id : Nat} {settings : Settings} {store : Store}
    {disk : FileTree} (ok : openOn database name id settings store disk = .ok n)
    (path : settings.logPath = none) :
    settings.validate = .ok () ∧ n.Opened id settings store := by
  have valid : settings.validate = .ok () := by
    unfold openOn at ok
    obtain ⟨⟨⟩, valid, -⟩ := bind_eq_ok.1 ok
    exact valid
  obtain ⟨m, same, opened⟩ := openOn_eq_ok database name id store valid path disk
  rw [ok] at same
  cases same
  exact ⟨valid, opened⟩

/-- New nodes differ only in their settings, their stores and the ids that they issue. -/
theorem Opened.shared {id : Nat} {settings : Settings} {store : Store}
    (h : n.Opened id settings store) :
    n.resources.view.shared =
      ⟨store.content, store.failing, fun _ => Slot.fresh.standing, 0, max settings.pipelineDepth 1,
        1, none, LockTable.empty⟩ := by
  have slots : n.sequencer.slot = fun _ => Slot.fresh := funext h.slot
  have depth : n.sequencer.depth = max settings.pipelineDepth 1 :=
    congrArg Sequencer.depth h.sequencer
  have offset : n.sequencer.nextOffset = 1 := congrArg Sequencer.nextOffset h.sequencer
  have locks : n.resources.locks = LockTable.empty := h.locks
  have kept : n.resources.store = store := h.keeps.2
  unfold View.shared Resources.view
  dsimp only
  rw [slots, depth, offset, h.path, locks, kept]

theorem Opened.calm {id : Nat} {settings : Settings} {store : Store}
    (h : n.Opened id settings store) (valid : settings.validate = .ok ()) (tidy : store.Tidy) :
    n.Calm 0 := by
  have slots (o : Nat) : n.resources.view.slots o = Slot.fresh := h.slot o
  refine ⟨⟨h.locks, fun o => ?_, ?_, h.path, ?_⟩, ?_, h.registry, ?_⟩
  · rw [slots]
    rfl
  · rw [slots]
    exact .fresh
  · have depth : n.resources.view.depth = max settings.pipelineDepth 1 :=
      congrArg Sequencer.depth h.sequencer
    omega
  · rw [h.keeps.2]
    exact tidy
  · rw [h.keeps.1]
    exact tries_of_validate valid

def HasCommitted (n : Node) (id : TxId) : Prop :=
  0 < id.sequence ∧ id.sequence ≤ (n.sequencer.slot id.origin).last

end Node

namespace Cluster

variable {c c' : Cluster} {name x : String} {n n' : Node}

/-- Clusters into which nodes have been joined, each with accepted settings, an empty journal in
memory and a store of its own. -/
inductive Fresh : Cluster → Prop where
  | empty (database : String) : Fresh (.empty database)
  | join {c : Cluster} (name : String) (id : Nat) (settings : Settings) (store : Store) :
      settings.validate = .ok () → settings.logPath = none → store.Built → Fresh c →
      Fresh (c.join name id (.closed settings store)).2

/-- Joining opens the node and leaves the other members alone. -/
theorem join_spec (c : Cluster) (name : String) (id : Nat) {settings : Settings} (store : Store)
    (valid : settings.validate = .ok ()) (path : settings.logPath = none) :
    ∃ n, n.Opened id settings store ∧
      (c.join name id (.closed settings store)).2.partitioned = c.partitioned ∧
      ∀ x, (c.join name id (.closed settings store)).2.member? x =
        if x = name then some ⟨id, 0, [], .running n⟩ else c.member? x := by
  obtain ⟨n, spec, opened⟩ := Node.openOn_eq_ok c.database name id store valid path c.disk
  have added : (c.setMember name ⟨id, 0, [], .closed settings store⟩).member? name =
      some ⟨id, 0, [], .closed settings store⟩ := by
    rw [member?_setMember, if_pos rfl]
  have joined : (c.join name id (.closed settings store)).2 =
      (c.setMember name ⟨id, 0, [], .closed settings store⟩).setMember name
        ⟨id, 0, [], .running n⟩ := by
    unfold join openNode
    dsimp only
    rw [added]
    dsimp only
    have database : (c.setMember name ⟨id, 0, [], .closed settings store⟩).database =
      c.database := rfl
    have disk : (c.setMember name ⟨id, 0, [], .closed settings store⟩).disk = c.disk := rfl
    rw [database, disk, spec]
    unfold setRole onMember
    rw [added]
  rw [joined]
  refine ⟨n, opened, rfl, fun x => ?_⟩
  rw [member?_setMember, member?_setMember]
  split <;> rfl

def NewNode (n : Node) : Prop :=
  ∃ id settings store, n.Opened id settings store ∧ settings.validate = .ok () ∧ store.Built

theorem Fresh.spec (h : c.Fresh) :
    c.partitioned = ∅ ∧ ∀ x m, c.member? x = some m →
      m.sendFaults = [] ∧ ∃ n, m.role = .running n ∧ NewNode n := by
  induction h with
  | empty database =>
    refine ⟨rfl, fun x m found => ?_⟩
    unfold member? Cluster.empty at found
    simp at found
  | @join c name id settings store valid path built _ ih =>
    obtain ⟨n, opened, partitioned, members⟩ := join_spec c name id store valid path
    refine ⟨partitioned.trans ih.1, fun x m found => ?_⟩
    rw [members] at found
    split at found
    · cases found
      exact ⟨rfl, n, rfl, id, settings, store, opened, valid, built⟩
    · exact ih.2 x m found

theorem Fresh.node (h : c.Fresh) (running : c.node? x = some n) : NewNode n := by
  obtain ⟨m, found, role⟩ := node?_eq_some.1 running
  obtain ⟨-, n', role', new⟩ := h.spec.2 x m found
  rw [role, Role.running.injEq] at role'
  subst role'
  exact new

theorem Fresh.calm (h : c.Fresh) : c.Calm where
  healthy x m found := by
    obtain ⟨faults, n, role, -⟩ := h.spec.2 x m found
    exact ⟨faults, n, role⟩
  nodes x n running := by
    obtain ⟨id, settings, store, opened, valid, built⟩ := h.node running
    exact opened.calm valid built.tidy

/-- Two nodes with the same settings and nothing stored. -/
def pair (settings : Settings) : Cluster :=
  (((empty "db").join "a" 1 (.closed settings (Store.empty none))).2.join "b" 2
    (.closed settings (Store.empty none))).2

theorem pair_fresh {settings : Settings} (valid : settings.validate = .ok ())
    (path : settings.logPath = none) : (pair settings).Fresh :=
  .join _ _ _ _ valid path (.empty none) (.join _ _ _ _ valid path (.empty none) (.empty "db"))

theorem pair_node {settings : Settings} (valid : settings.validate = .ok ())
    (path : settings.logPath = none) (running : (pair settings).node? x = some n) :
    (x = "a" ∧ n.Opened 1 settings (Store.empty none)) ∨
      (x = "b" ∧ n.Opened 2 settings (Store.empty none)) := by
  obtain ⟨a, first, -, members⟩ := join_spec (empty "db") "a" 1 (Store.empty none) valid path
  obtain ⟨b, second, -, members'⟩ := join_spec
    ((empty "db").join "a" 1 (.closed settings (Store.empty none))).2 "b" 2 (Store.empty none)
    valid path
  obtain ⟨m, found, role⟩ := node?_eq_some.1 running
  have none : (empty "db").member? x = .none := by simp [member?, empty]
  unfold pair at found
  rw [members', members, none] at found
  by_cases atB : x = "b"
  · rw [if_pos atB, Option.some.injEq] at found
    subst found
    cases role
    exact .inr ⟨atB, second⟩
  · rw [if_neg atB] at found
    by_cases atA : x = "a"
    · rw [if_pos atA, Option.some.injEq] at found
      subst found
      cases role
      exact .inl ⟨atA, first⟩
    · rw [if_neg atA] at found
      cases found

/-- What may happen to a cluster from outside: a call on a node, a change of the network, or
failures that the next commands on a node will meet. -/
inductive Call where
  | commit (name : String) (changes : ChangeSet)
  | run (name command : String)
  | catchUp (name : String) (id : TxId) (changes : ChangeSet)
  | partition (name : String)
  | heal (name : String)
  | failNext (name : String) (count : Nat)

namespace Call

def perform (c : Cluster) : Call → Cluster
  | commit name changes => ((Cluster.commit name changes).run c).2
  | run name command => ((runCommand name command .direct).run c).2
  | catchUp name id changes => ((stepNode name (Node.catchUp id changes)).run c).2
  | partition name => c.partition name
  | heal name => c.heal name
  | failNext name count =>
    ((atNode name fun n => ((), n.withStore { n.store with failing := count })).run c).2

end Call

def performAll (c : Cluster) (calls : List Call) : Cluster := calls.foldl Call.perform c

/-- A call that leaves every node as it was but for some commit. -/
theorem Calm.catchUp (calm : c.Calm) (name : String) (id : TxId) (changes : ChangeSet) :
    (Call.perform c (.catchUp name id changes)).Calm := by
  unfold Call.perform
  cases running : c.node? name with
  | none =>
    have missing : stepNode name (Node.catchUp id changes) c = (.error (notRunning name), c) := by
      unfold stepNode
      rw [running]
    simp only [Step.run_apply, missing]
    exact calm
  | some n =>
    obtain ⟨r, n', c', caught, moved, m, butDisk, rfl, rfl⟩ :=
      stepNode_spec (Node.catchUp id changes) running
    have quiet := (calm.nodes name n running).butDisk butDisk
    simp only [Step.run_apply, caught]
    have after := (quiet.catchUp id changes).1.butDisk (Node.sameButDisk_seen _)
    exact ((calm.at name).moved running moved after).calm

theorem Calm.partition (calm : c.Calm) (name : String) : (c.partition name).Calm :=
  ⟨calm.healthy, calm.nodes⟩

theorem Calm.heal (calm : c.Calm) (name : String) : (c.heal name).Calm :=
  ⟨calm.healthy, calm.nodes⟩

/-- What the next commands will meet is a matter of the store alone. -/
theorem failNext_spec (c : Cluster) (name : String) (count : Nat) :
    Evolved (fun _ n n' => n'.sequencer = n.sequencer ∧ (n.Calm 0 → n'.Calm 0)) c
      (Call.perform c (.failNext name count)) := by
  unfold Call.perform
  dsimp only
  rw [Step.run_apply]
  cases running : c.node? name with
  | none =>
    unfold atNode
    rw [running]
    exact .refl c fun _ _ _ => ⟨rfl, id⟩
  | some n =>
    obtain ⟨⟨⟩, n', c', done, moved, m, ⟨disk, asks, rfl⟩, -, rfl⟩ :=
      atNode_spec (fun n => ((), n.withStore { n.store with failing := count })) running
    rw [done]
    have quiet (calm : n.Calm 0) : ((({ n with
        resources := { n.resources with disk := disk }, asks := asks } : Node).withStore
          { n.store with failing := count }).seen).Calm 0 :=
      ⟨⟨calm.view.locks, calm.view.promised, calm.view.own, calm.view.path, calm.view.depth⟩,
        calm.tidy.congr rfl fun _ => rfl, calm.registry, calm.tries⟩
    refine (moved.evolved (R := fun n n' => n'.sequencer = n.sequencer ∧ (n.Calm 0 → n'.Calm 0))
      running ⟨rfl, quiet⟩).mono fun x k k' _ change => ?_
    split at change
    · exact change
    · exact change ▸ ⟨rfl, id⟩

theorem Calm.failNext (calm : c.Calm) (name : String) (count : Nat) :
    (Call.perform c (.failNext name count)).Calm where
  healthy := calm.healthy.evolved (failNext_spec c name count)
  nodes x n' running' := by
    obtain ⟨n, running, -, quiet⟩ := (failNext_spec c name count).source calm.healthy running'
    exact quiet (calm.nodes x n running)

theorem perform_commit (calm : c.Calm) (ids : c.HasIds) (name : String) (changes : ChangeSet) :
    (Call.perform c (.commit name changes)).Calm ∧
      (c.Untouched (Call.perform c (.commit name changes)) ∨
        ∃ done, c.Wrote name changes done (Call.perform c (.commit name changes))) := by
  have spec := commit_spec calm ids name changes
  unfold Call.perform
  dsimp only
  rw [Step.run_apply]
  generalize commit name changes c = r at spec ⊢
  rcases r with ⟨fault | done, c'⟩
  · exact ⟨spec.1, .inl spec.2⟩
  · exact ⟨spec.1, .inr ⟨done, spec.2⟩⟩

theorem perform_run (calm : c.Calm) (ids : c.HasIds) (leads : c.Leads name) (command : String) :
    (Call.perform c (.run name command)).Calm ∧
      (c.Untouched (Call.perform c (.run name command)) ∨
        c.Executed name command (Call.perform c (.run name command))) := by
  have spec := runCommand_spec calm ids leads command
  unfold Call.perform
  dsimp only
  rw [Step.run_apply]
  generalize runCommand name command .direct c = r at spec ⊢
  rcases r with ⟨fault | _, c'⟩
  · exact spec
  · exact ⟨spec.1, .inr spec.2⟩

/-- Between calls that write data nothing is going on at any node. -/
theorem Calm.perform (calm : c.Calm) (ids : c.HasIds) (call : Call)
    (data : ∀ name command, call ≠ .run name command) : (call.perform c).Calm := by
  cases call with
  | commit name changes => exact (perform_commit calm ids name changes).1
  | run name command => exact absurd rfl (data name command)
  | catchUp name id changes => exact calm.catchUp name id changes
  | partition name => exact calm.partition name
  | heal name => exact calm.heal name
  | failNext name count => exact calm.failNext name count

def HasIdsFor (calls : Nat) (c : Cluster) : Prop :=
  ∀ x n, c.node? x = some n → ∀ o,
    (n.sequencer.slot o).last + 2 * calls + 4 < 18446744073709551616

theorem HasIdsFor.hasIds {calls : Nat} (h : c.HasIdsFor calls) : c.HasIds := fun x n running => by
  have within := h x n running n.sequencer.origin
  unfold Node.HasIds
  omega

theorem Fresh.hasIdsFor {calls : Nat} (fresh : c.Fresh)
    (few : 2 * calls + 4 < 18446744073709551616) : c.HasIdsFor calls := by
  intro x n running o
  obtain ⟨id, settings, store, opened, -⟩ := fresh.node running
  rw [opened.slot]
  simpa [Slot.fresh] using few

/-- No log reaches further than some log did before, but for the two ids of a call. -/
theorem HasIdsFor.spent {R : String → Node → Node → Prop} {calls : Nat}
    (h : c.HasIdsFor (calls + 1)) (healthy : c.Healthy) (e : Evolved R c c')
    (grows : ∀ x n n', c.node? x = some n → R x n n' → ∀ o, ∃ y m o', c.node? y = some m ∧
      (n'.sequencer.slot o).last ≤ (m.sequencer.slot o').last + 2) : c'.HasIdsFor calls := by
  intro x n' running' o
  obtain ⟨n, running, change⟩ := e.source healthy running'
  obtain ⟨y, m, o', found, most⟩ := grows x n n' running change o
  have within := h y m found o'
  omega

/-- A call issues two ids at most. -/
theorem HasIdsFor.perform {calls : Nat} (h : c.HasIdsFor (calls + 1)) (calm : c.Calm)
    (call : Call) (issues : ∀ name id changes, call ≠ .catchUp name id changes)
    (leads : ∀ name command, call = .run name command → c.Leads name) :
    (call.perform c).HasIdsFor calls := by
  have steady {c' : Cluster} (e : Evolved (fun _ n n' => ∀ o,
      (n'.sequencer.slot o).last = (n.sequencer.slot o).last) c c') : c'.HasIdsFor calls :=
    h.spent calm.healthy e fun x n n' running same o => ⟨x, n, o, running, by rw [same]; omega⟩
  cases call with
  | commit name changes =>
    obtain ⟨-, untouched | ⟨done, w⟩⟩ := perform_commit calm h.hasIds name changes
    · exact steady (untouched.mono fun _ _ _ _ same => same.last)
    · obtain ⟨m, found, issued, -⟩ := w.origin
      refine h.spent calm.healthy w.logs fun x n n' running change o => ?_
      obtain same | ⟨-, last⟩ := change.1.last
      · exact ⟨x, n, o, running, by rw [same]; omega⟩
      · rw [last]
        split
        · exact ⟨name, m, _, found, by rw [issued]; exact Nat.le_succ _⟩
        · exact ⟨x, n, o, running, by omega⟩
  | run name command =>
    obtain ⟨-, untouched | ⟨m, found, nodes⟩⟩ :=
      perform_run calm h.hasIds (leads name command rfl) command
    · exact steady (untouched.mono fun _ _ _ _ same => same.last)
    · refine h.spent calm.healthy nodes fun x n n' running change o => ?_
      by_cases follows : c.Follows name (m.upcoming 0) x n
      · by_cases own : o = (m.upcoming 0).origin
        · have first : (m.upcoming 0).sequence = (m.sequencer.slot m.sequencer.origin).last + 1 :=
            rfl
          refine ⟨name, m, m.sequencer.origin, found, ?_⟩
          rw [own, (change.1 follows).last]
          split <;> omega
        · exact ⟨x, n, o, running, by rw [(change.1 follows).last_other own]; omega⟩
      · exact ⟨x, n, o, running, by rw [(change.2 follows).last]; omega⟩
  | catchUp name id changes => exact absurd rfl (issues name id changes)
  | partition name => exact fun x n running o => by have := h x n running o; omega
  | heal name => exact fun x n running o => by have := h x n running o; omega
  | failNext name count =>
    exact steady ((failNext_spec c name count).mono fun _ _ _ _ same o =>
      congrArg (fun s => (s.slot o).last) same.1)

/-- The clusters that calls of some kind lead to from a fresh one, as long as there are ids left. -/
inductive Reached (P : Call → Prop) : Cluster → Prop where
  | fresh {c : Cluster} : c.Fresh → Reached P c
  | step {c : Cluster} (call : Call) : P call → c.HasIds → Reached P c → Reached P (call.perform c)

def Call.WritesData : Call → Prop
  | commit .. | catchUp .. | partition _ | heal _ => True
  | run .. | failNext .. => False

theorem Reached.calm {P : Call → Prop} (data : ∀ call, P call → call.WritesData)
    (h : Reached P c) : c.Calm := by
  induction h with
  | fresh fresh => exact fresh.calm
  | step call allowed ids _ ih =>
    refine ih.perform ids call fun name command eq => ?_
    subst eq
    exact data _ allowed

def last? (c : Cluster) (x : String) (o : Nat) : Option Nat :=
  (c.node? x).map fun n => (n.sequencer.slot o).last

def hasty : Settings := { Settings.default with maxAutoRetry := 1 }

def person (octet : UInt8) : ChangeSet := ChangeSet.empty.create "person" 9 [octet]

theorem person_distinct (octet : UInt8) : (person octet).createdRecords.Nodup := by
  simp [person, ChangeSet.create, ChangeSet.createdRecords, ChangeSet.pushChange, ChangeSet.empty]

def personAt (place : Int) : ChangeSet :=
  ChangeSet.empty.pushChange ⟨⟨9, place⟩, "person", .created, 0, [1]⟩

def lastButOne : ChangeSet := personAt 9223372036854775806

/-- Three records are created one after the other, the first at the last place but one. -/
def roundTheEnd : List Call :=
  [.commit "a" lastButOne, .commit "a" (person 1), .commit "a" (person 2)]

/-- Creates two records, of which one has the first place of all for a temporary id. -/
def firstOfAll : ChangeSet :=
  (ChangeSet.empty.pushChange ⟨⟨9, -1⟩, "person", .created, 0, [2]⟩).pushChange
    ⟨⟨9, -9223372036854775808⟩, "person", .created, 0, [3]⟩

/-- Two nodes, of which `b` has missed a commit. -/
def behind (settings : Settings) : Cluster :=
  performAll (pair settings) [.partition "b", .commit "a" (person 1), .heal "b"]

theorem behind_reached {settings : Settings} (valid : settings.validate = .ok ())
    (path : settings.logPath = none)
    (ids : ((pair settings).partition "b").HasIds ∧
      (Call.perform ((pair settings).partition "b") (.commit "a" (person 1))).HasIds) :
    Reached Call.WritesData (behind settings) := by
  have fresh := pair_fresh valid path
  have start : (pair settings).HasIds := fun x n running => ids.1 x n running
  exact .step (.heal "b") trivial ids.2 <| .step (.commit "a" (person 1)) trivial ids.1 <|
    .step (.partition "b") trivial start (.fresh fresh)

end Cluster

end QuorumCommit
