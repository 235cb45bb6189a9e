import QuorumCommit.Proofs.Cluster.Enduring
import QuorumCommit.Proofs.Cluster.Station

/-!
A member whose node has some property. What the others do is no concern of it; so the property lasts
through whole transactions and commands of the member as soon as the few things that these do at the
node itself leave it be.
-/
namespace QuorumCommit.Cluster

open Node

variable {G : Node → Prop} {q : TxId → Prop} {name : String} {own : Nat} {c c' : Cluster} {n : Node}
  {id : TxId} {changes : ChangeSet} {command : String}

def Running (G : Node → Prop) (name : String) (own : Nat) (c : Cluster) : Prop :=
  ∃ n, c.station? name = some (own, .running n) ∧ G n

/-- The property is one of settings, attempts and resources; whose disk it is does not matter. -/
def Framed (G : Node → Prop) : Prop :=
  ∀ n m : Node, m.settings = n.settings → m.registry = n.registry →
    m.resources = { n.resources with disk := m.resources.disk } → G n → G m

theorem Running.of_station (h : c.Running G name own)
    (same : c'.station? name = c.station? name) : c'.Running G name own := by
  obtain ⟨n, station, holds⟩ := h
  exact ⟨n, same.trans station, holds⟩

theorem Running.mono {G' : Node → Prop} (h : c.Running G name own) (weaker : ∀ n, G n → G' n) :
    c.Running G' name own := by
  obtain ⟨n, station, holds⟩ := h
  exact ⟨n, station, weaker n holds⟩

theorem Running.of_node (h : c.Running G name own) (running : c.node? name = some n) :
    G n := by
  obtain ⟨m, station, holds⟩ := h
  obtain rfl := Option.mem_unique running (node?_of_station? station)
  exact holds

theorem Running.and {G' : Node → Prop} (h : c.Running G name own)
    (h' : c.Running G' name own) : c.Running (fun n => G n ∧ G' n) name own := by
  obtain ⟨n, station, holds⟩ := h
  exact ⟨n, station, holds, h'.of_node (node?_of_station? station)⟩

theorem Framed.and {G' : Node → Prop} (framed : Framed G) (framed' : Framed G') :
    Framed fun n => G n ∧ G' n := fun n m settings registry resources h =>
  ⟨framed n m settings registry resources h.1, framed' n m settings registry resources h.2⟩

theorem Framed.lend (framed : Framed G) (h : G n) : G (c.lend n) :=
  framed n _ rfl rfl rfl h

theorem Framed.takeBack (framed : Framed G) (station : c.station? name = some (own, .running n))
    {n' : Node} (h : G n') : (c.takeBack name n').Running G name own := by
  exact ⟨n'.seen, takeBack_running station n', framed n' _ rfl rfl rfl h⟩

/-- What work at the node of a member comes to. -/
theorem atNode_running {α : Type} (work : Node → α × Node)
    (station : c.station? name = some (own, .running n)) :
    atNode name work c = (.ok (work (c.lend n)).1, c.takeBack name (work (c.lend n)).2) := by
  unfold atNode
  rw [node?_of_station? station]

/-- What a step at the node of a member comes to. -/
theorem stepNode_running {α : Type} {step : Step Node α}
    (station : c.station? name = some (own, .running n)) :
    stepNode name step c = ((step (c.lend n)).1, c.takeBack name (step (c.lend n)).2) := by
  unfold stepNode
  rw [node?_of_station? station]
  rfl

theorem getNode_running (station : c.station? name = some (own, .running n)) :
    getNode name c = (.ok n, c) := getNode_spec (node?_of_station? station)

/-- Work that leaves the property to the node leaves it to the member. -/
theorem keeps_atNode (framed : Framed G) {α : Type} {work : Node → α × Node}
    (h : ∀ n, G n → G (work n).2) : Step.Keeps (Running G name own) (atNode name work) := by
  rintro c ⟨n, station, holds⟩
  rw [atNode_running _ station]
  exact framed.takeBack station (h _ (framed.lend holds))

theorem keeps_stepNode (framed : Framed G) {α : Type} {step : Step Node α}
    (h : Step.Keeps G step) : Step.Keeps (Running G name own) (stepNode name step) := by
  intro c start
  rw [stepNode_snd]
  exact keeps_atNode framed h c start

theorem gives_nextRequest : Step.Gives (Running G name own) (nextRequest name)
    fun request => ∃ message, request = ⟨own, message⟩ := by
  intro c h
  obtain ⟨same, next⟩ := nextRequest_station (c := c) (x := name) name
  refine ⟨h.of_station same, fun request ok => ?_⟩
  obtain ⟨n, station, -⟩ := h
  obtain ⟨message, eq⟩ := next own _ station
  rw [eq] at ok
  cases ok
  exact ⟨message, rfl⟩

theorem keeps_count (framed : Framed G) (counter : Counter) :
    Step.Keeps (Running G name own) (atNode name fun n => ((), n.count counter)) :=
  keeps_atNode framed fun n h => framed n _ rfl rfl rfl h

structure Issuing (G : Node → Prop) (q : TxId → Prop) : Prop where
  take : ∀ n, G n → G (n.withSequencer n.sequencer.nextId.2) ∧ q n.sequencer.nextId.1
  back : ∀ n id, G n → G (n.withSequencer (n.sequencer.releaseId id))

theorem gives_takeId (framed : Framed G) (issuing : Issuing G q) :
    Step.Gives (Running G name own) (takeId name) q := by
  intro c h
  refine ⟨keeps_atNode framed (fun n holds => (issuing.take n holds).1) c h, fun id ok => ?_⟩
  obtain ⟨n, station, holds⟩ := h
  unfold takeId at ok
  rw [atNode_running _ station] at ok
  cases ok
  exact (issuing.take _ (framed.lend holds)).2

/-- An attempt is begun by taking an id, whether it is counted before or not. -/
theorem begin_of_takeId (framed : Framed G) {R : Except Fault TxId × Cluster → Prop}
    (take : ∀ c : Cluster, c.Running G name own → R (takeId name c)) (h : c.Running G name own)
    (number : Nat) : R (begin name number c) := by
  unfold begin
  split
  · have counted := keeps_count framed .retries c h
    rw [Step.bind_apply]
    obtain ⟨n, station, -⟩ := h
    rw [atNode_running _ station] at counted ⊢
    exact take _ counted
  · exact take c h

theorem keeps_giveBackId (framed : Framed G) (issuing : Issuing G q) (id : TxId) :
    Step.Keeps (Running G name own) (giveBackId name id) :=
  keeps_atNode framed fun n h => issuing.back n id h

/-- The property lasts when requests of the member itself are decided at its node. -/
structure Lasting (G : Node → Prop) (own : Nat) : Prop where
  framed : Framed G
  commit : ∀ message, Step.Keeps G (Node.commit ⟨own, message⟩)
  rollback : ∀ message n, G n → G (Node.rollback ⟨own, message⟩ n).2
  settle : ∀ message apply, Step.Keeps G (Node.settleSchema ⟨own, message⟩ apply)

def Drafts (G : Node → Prop) (name : String) (own : Nat) (id : TxId) (changes : ChangeSet) : Prop :=
  ∀ message alone,
    Step.Keeps (Running G name own) (prepareAtOrigin name ⟨own, message⟩ id changes alone)

def Offers (G : Node → Prop) (own : Nat) (command : String) (before after : TxId) : Prop :=
  ∀ message n, G n → G (Node.prepareSchema ⟨own, message⟩ command before after n).2

def Asked (own : Nat) (request : RequestId) : Prop := ∃ message, request = ⟨own, message⟩

/-- What lasts at the node endures at the member. -/
theorem Lasting.endures (lasting : Lasting G own) :
    Endures (Running G name own) name (Asked own) where
  nextRequest := gives_nextRequest
  broadcast targets _ mode t _ h := h.of_station (station?_broadcast targets mode t)
  count := keeps_count lasting.framed
  askResync := keeps_atNode lasting.framed fun n h => lasting.framed n _ rfl rfl rfl h
  commit := by
    rintro _ ⟨message, rfl⟩
    exact keeps_stepNode lasting.framed (lasting.commit message)
  rollback := by
    rintro _ ⟨message, rfl⟩
    exact keeps_atNode lasting.framed fun n h => lasting.rollback message n h
  settle := by
    rintro _ apply ⟨message, rfl⟩
    exact keeps_stepNode lasting.framed (lasting.settle message apply)

theorem Issuing.endures (issuing : Issuing G q) (framed : Framed G) :
    EnduresIssue (Running G name own) name q where
  take := gives_takeId framed issuing
  back := keeps_giveBackId framed issuing

theorem Drafts.endures (drafts : Drafts G name own id changes) :
    EnduresDraft (Running G name own) name (Asked own) id changes := by
  rintro _ alone ⟨message, rfl⟩
  exact drafts message alone

theorem Offers.endures {before after : TxId} (offers : Offers G own command before after)
    (framed : Framed G) :
    EnduresOffer (Running G name own) name (Asked own) command before after := by
  rintro _ ⟨message, rfl⟩
  exact keeps_atNode framed (offers message)

section

variable (lasting : Lasting G own)

include lasting

theorem keeps_submit (drafts : Drafts G name own id changes) :
    Step.Keeps (Running G name own) (submit name id changes) :=
  lasting.endures.submit drafts.endures

theorem keeps_attempt (issuing : Issuing G q) (drafts : ∀ id, q id → Drafts G name own id changes)
    (number : Nat) : Step.Keeps (Running G name own) (attempt name changes number) :=
  lasting.endures.attempt (issuing.endures lasting.framed) (fun id mine => (drafts id mine).endures)
    number

theorem keeps_commit (issuing : Issuing G q) (drafts : ∀ id, q id → Drafts G name own id changes) :
    Step.Keeps (Running G name own) (commit name changes) :=
  lasting.endures.transaction (issuing.endures lasting.framed) fun id mine =>
    (drafts id mine).endures

theorem keeps_offerSchema {before after : TxId} (offers : Offers G own command before after)
    (message : Nat) (nodes : Std.ExtTreeSet String) (quorum : Nat) :
    Step.Keeps (Running G name own)
      (offerSchema name command before after ⟨own, message⟩ nodes quorum) :=
  lasting.endures.offerSchema (offers.endures lasting.framed) ⟨message, rfl⟩ nodes quorum

theorem keeps_runCommand_direct (issuing : Issuing G q)
    (offers : ∀ before after, q before → q after → Offers G own command before after) :
    Step.Keeps (Running G name own) (runCommand name command .direct) :=
  lasting.endures.runCommand (issuing.endures lasting.framed) fun before after first second =>
    (offers before after first second).endures lasting.framed

end

end QuorumCommit.Cluster
