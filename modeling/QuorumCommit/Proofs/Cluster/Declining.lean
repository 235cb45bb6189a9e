import QuorumCommit.Proofs.Cluster.NoTrace
import QuorumCommit.Proofs.Cluster.Ordered
import QuorumCommit.Proofs.Cluster.Retiring

/-!
Rounds that are declined. Nothing waits at any node when the ids of a command are offered, and
whether a node then agrees or not, what waits there for the decision is dropped again; so a round
that is not decided for its command leaves no trace on any node.
-/
namespace QuorumCommit

namespace Node

variable {n n' n'' : Node}

/-- Two states of one node that others cannot tell apart, with the same store. -/
structure SameStore (n n' : Node) : Prop extends Alike n n' where
  origin : n'.sequencer.origin = n.sequencer.origin
  store : n'.store = n.store

theorem SameStore.refl (n : Node) : n.SameStore n := ⟨.refl n, rfl, rfl⟩

theorem SameStore.trans (h : n.SameStore n') (h' : n'.SameStore n'') : n.SameStore n'' :=
  ⟨h.toAlike.trans h'.toAlike, h'.origin.trans h.origin, h'.store.trans h.store⟩

theorem SameStore.untraced (h : n.SameStore n') : n.Untraced n' :=
  ⟨h.toAlike.unmarked, fun _ => by rw [h.store]⟩

theorem Dropped.sameStore (h : n.Dropped n') : n.SameStore n' :=
  ⟨h.toKept.same.toAlike, h.toKept.same.origin, h.store⟩

theorem SameButDisk.sameStore {m : Node} (l : n.SameButDisk m) : n.SameStore m := by
  refine ⟨l.same.toAlike, l.same.origin, ?_⟩
  obtain ⟨disk, asks, rfl⟩ := l
  rfl

end Node

namespace Cluster

variable {c c₀ c' c'' : Cluster} {name x command : String} {n n' : Node} {before after : TxId}

def Unstored (c c' : Cluster) : Prop := Evolved (fun _ => Node.SameStore) c c'

theorem Unstored.refl (c : Cluster) : c.Unstored c := Evolved.refl c fun _ n _ => .refl n

theorem Unstored.trans (h : c.Unstored c') (h' : c'.Unstored c'') : c.Unstored c'' :=
  (Evolved.trans h h').mono fun _ _ _ _ ⟨_, first, second⟩ => first.trans second

theorem Moved.unstored (running : c.node? name = some n) (moved : c.Moved name n' c')
    (same : n.SameStore n') : c.Unstored c' :=
  moved.evolved_of_refl running .refl same

def Idle (c : Cluster) : Prop := ∀ x n, c.node? x = some n → n.registry = Registry.empty

theorem Idle.of_members (h : c.members.toList.all fun p =>
    p.2.role.node?.all fun n => n.registry = Registry.empty) : c.Idle := by
  intro x n running
  obtain ⟨m, found, role⟩ := node?_eq_some.1 running
  have listed := Std.ExtTreeMap.mem_toList_iff_getElem?_eq_some.2 found
  have empty := List.all_eq_true.1 h _ listed
  dsimp only at empty
  rw [role] at empty
  exact of_decide_eq_true empty

/-- Where no attempt waits, nothing is locked or promised. -/
theorem Ordered.still (h : c.Ordered) (idle : c.Idle) : ∀ x n, c.node? x = some n → n.Still := by
  intro x n running
  obtain ⟨m, -, upheld⟩ := h.node running
  have sound := upheld.orderly.sound
  have none : n.inFlight = ⟨0, n.resources⟩ := by
    unfold Node.inFlight
    rw [idle x n running, Registry.all_empty]
  rw [none] at sound
  refine ⟨sound.tidy, idle x n running, fun key => ?_, fun o => ?_⟩
  · refine Option.eq_none_iff_forall_ne_some.2 fun request held => ?_
    obtain ⟨a, mem, -⟩ := sound.locks key request held
    exact absurd mem (Multiset.notMem_zero a)
  · refine Std.ExtTreeSet.ext_mem fun k => ?_
    simp only [Std.ExtTreeSet.not_mem_empty, iff_false]
    intro promised
    obtain ⟨a, mem, -⟩ := sound.promises ⟨o, k⟩ promised
    exact absurd mem (Multiset.notMem_zero a)

/-- What nobody can tell lets nothing wait. -/
theorem Idle.unstored (idle : c.Idle) (unstored : c.Unstored c')
    (absent : ∀ x, c.node? x = none → c'.node? x = none) : c'.Idle := by
  intro x n' running'
  cases running : c.node? x with
  | none =>
    rw [absent x running] at running'
    cases running'
  | some n =>
    obtain ⟨m, there, same⟩ := unstored.nodes x n running
    obtain rfl := Option.mem_unique running' there
    exact same.registry.trans (idle x n running)

def Unnoticed {α : Type} (name : String) (step : Step Cluster α) : Prop :=
  ∀ c n, c.node? name = some n → ∃ a c', step c = (.ok a, c') ∧ c.Unstored c'

namespace Unnoticed

variable {α β : Type}

theorem pure (a : α) : Unnoticed name (pure a) := fun c _ _ => ⟨a, c, rfl, .refl c⟩

theorem bind {step : Step Cluster α} {f : α → Step Cluster β} (first : Unnoticed name step)
    (rest : ∀ a, Unnoticed name (f a)) : Unnoticed name (step >>= f) := by
  intro c n running
  obtain ⟨a, c₁, stepped, unstored⟩ := first c n running
  obtain ⟨n₁, running₁, -⟩ := unstored.nodes name n running
  obtain ⟨b, c₂, ended, unstored'⟩ := rest a c₁ n₁ running₁
  refine ⟨b, c₂, ?_, unstored.trans unstored'⟩
  rw [Step.bind_apply, stepped]
  exact ended

theorem forM {f : α → Step Cluster Unit} (each : ∀ a, Unnoticed name (f a)) (l : List α) :
    Unnoticed name (l.forM f) := by
  induction l with
  | nil => exact .pure _
  | cons a rest ih => exact (each a).bind fun _ => ih

theorem atNode {work : Node → α × Node} (same : ∀ m : Node, m.SameStore (work m).2) :
    Unnoticed name (Cluster.atNode name work) := by
  intro c n running
  obtain ⟨a, n', c', done, moved, m, butDisk, rfl, rfl⟩ := atNode_spec work running
  exact ⟨_, c', done,
    moved.unstored running ((butDisk.sameStore.trans (same m)).trans
      (Node.sameButDisk_seen _).sameStore)⟩

end Unnoticed

theorem takeId_unnoticed : Unnoticed name (takeId name) :=
  .atNode fun m => ⟨(Node.Same.nextId m).toAlike, rfl, rfl⟩

theorem count_unnoticed (counter : Counter) :
    Unnoticed name (atNode name fun n => ((), n.count counter)) :=
  .atNode fun _ => ⟨⟨rfl, rfl, rfl⟩, rfl, rfl⟩

/-- Ids are given back, and a copy of the database may be asked for. -/
theorem endRound_unnoticed (ids stale : List TxId) : Unnoticed name (endRound name ids stale) := by
  unfold endRound
  have back (id : TxId) (m : Node) : m.SameStore (m.withSequencer (m.sequencer.releaseId id)) :=
    ⟨(Node.Same.releaseId m id).toAlike, (Node.Same.releaseId m id).origin, rfl⟩
  refine (Unnoticed.forM (fun id => .atNode fun m => back id m) _).bind fun _ => ?_
  split
  · exact .pure _
  · exact .atNode fun _ => ⟨⟨rfl, rfl, rfl⟩, rfl, rfl⟩

/-- If the vote on two ids is not for the command, whatever it was, nothing of it is left. -/
theorem offerSchema_declined (ordered : c.Ordered) (idle : c.Idle)
    (running : c.node? name = some n) (command : String) (before after : TxId)
    (request : RequestId) (quorum : Nat) :
    ∃ r c', offerSchema name command before after request (c.available name) quorum c =
        (.ok r, c') ∧
      ∀ d, r.decision = .ok d → d ≠ .apply → c.Unstored c' := by
  have still := ordered.still idle
  have member := contains_of_node? running
  obtain ⟨reply, n₁, c₁, judged, moved, worked⟩ :=
    atNode_spec (Node.prepareSchema request command before after) running
  have ordered₁ := (ordered_offer command before after request trivial).of_eq judged ordered
  obtain ⟨tally, c₂, sent, answered⟩ := ordered₁.broadcast_evolved moved.network member
    (.schemaFirstPhase request command before after) .awaited
    ((Tally.start request (c.available name) (c.available name).size quorum).receive name reply)
  have ordered₂ := (ordered_broadcast _ _ _ _).of_eq sent ordered₁
  have all : Judged name request command before after c c₂ :=
    .of_answers running still moved (worked.schemaVote (still name n running)) answered
  obtain ⟨c₃, told, heard⟩ := ordered₂.notify_evolved all.network member
    (.schemaSecondPhase request false)
  obtain ⟨c₄, confirmed, dropped⟩ := all.drop running still told heard
  have fold : (c.available name).toList.filter (· ≠ name) = c.targets name := rfl
  unfold offerSchema
  simp only [Step.bind_apply, Step.run_apply, judged, getNode_spec moved.node]
  rw [fold, sent]
  dsimp only
  by_cases apply : tally.schemaDecision = .apply
  · rw [decide_eq_true apply]
    rcases confirmSchema name (c.targets name) request true c₂ with ⟨fault | _, c₅⟩
    · exact ⟨_, c₅, rfl, nofun⟩
    · refine ⟨_, c₅, rfl, fun d same other => absurd ?_ other⟩
      cases same
      exact apply
  · rw [decide_eq_false apply, confirmed]
    exact ⟨_, c₄, rfl, fun _ _ _ => dropped.mono fun _ _ _ _ dropped => dropped.sameStore⟩

/-- Without a quorum there is no vote at all. -/
theorem offer_declined (ordered : c.Ordered) (idle : c.Idle) (running : c.node? name = some n)
    (command : String) (before after : TxId) (request : RequestId) (quorum : Nat) :
    ∃ r c', (tryCatch (do
        requireQuorum name quorum (c.available name)
        offerSchema name command before after request (c.available name) quorum)
      fun fault => pure ⟨.error fault, []⟩ : Step Cluster Round) c = (.ok r, c') ∧
      ((c.available name).size < quorum →
        (∃ fault, r.decision = .error fault) ∧ c.Unstored c') ∧
      ∀ d, r.decision = .ok d → d ≠ .apply → c.Unstored c' := by
  simp only [Step.tryCatch_apply, Step.bind_apply]
  unfold requireQuorum
  by_cases few : (c.available name).size < quorum
  · obtain ⟨⟨⟩, c₁, counted, unstored⟩ := count_unnoticed .insufficientNodes c n running
    rw [if_pos few, Step.bind_apply, counted]
    exact ⟨_, c₁, rfl, fun _ => ⟨⟨_, rfl⟩, unstored⟩, nofun⟩
  · obtain ⟨r, c₁, offered, kept⟩ :=
      offerSchema_declined ordered idle running command before after request quorum
    rw [if_neg few, Step.pure_apply]
    dsimp only
    rw [offered]
    exact ⟨r, c₁, rfl, fun lack => absurd lack few, kept⟩

/-- A round is not decided for its command: the vote is against it, or too few members can be
reached to take one. -/
def Declined (c : Cluster) (name : String) (result : Except Fault Tally.SchemaDecision) : Prop :=
  (∃ d, result = .ok d ∧ d ≠ .apply) ∨
    ∃ n, c.node? name = some n ∧ (c.available name).size <
      n.settings.replication.maxWriteQuorum [] (c.available name).size

variable {result : Except Fault Tally.SchemaDecision}

theorem Unstored.declined (unstored : c.Unstored c') (declined : c.Declined name result) :
    c'.Declined name result := by
  refine declined.imp id fun ⟨n, running, few⟩ => ?_
  obtain ⟨n', running', same⟩ := unstored.nodes name n running
  refine ⟨n', running', ?_⟩
  rw [unstored.network.available, same.settings]
  exact few

/-- What a round ends with tells its decision, unless there was no vote. -/
theorem Declined.cases (declined : c.Declined name result) (running : c.node? name = some n) :
    (c.available name).size < n.settings.replication.maxWriteQuorum [] (c.available name).size ∨
      ∃ d, result = .ok d ∧ d ≠ .apply := by
  rcases declined with against | ⟨k, here, few⟩
  · exact .inr against
  · obtain rfl := Option.mem_unique running here
    exact .inl few

theorem schemaRound_declined (ordered : c.Ordered) (idle : c.Idle)
    (running : c.node? name = some n)
    (ended : schemaRound name command before after c = (result, c'))
    (declined : c.Declined name result) : c.Unstored c' := by
  obtain ⟨request, c₁, called, moved⟩ := nextRequest_spec running
  have unstored₁ := moved.unstored running (.refl n)
  obtain ⟨r, c₂, offered, without, against⟩ := offer_declined
    (ordered_nextRequest.of_eq called ordered)
    (idle.unstored unstored₁ fun x absent =>
      absent_endures.nextRequest.keeps.of_eq called absent)
    moved.node command before after request
    (n.settings.replication.maxWriteQuorum [] (c₁.available name).size)
  have closes (unstored₂ : c₁.Unstored c₂) :
      ∃ c₃, endRound name [after, before] r.stale c₂ = (.ok (), c₃) ∧ c.Unstored c₃ := by
    obtain ⟨n₂, running₂, -⟩ := unstored₂.nodes name n moved.node
    obtain ⟨⟨⟩, c₃, closed, unstored₃⟩ :=
      endRound_unnoticed [after, before] r.stale c₂ n₂ running₂
    exact ⟨c₃, closed, (unstored₁.trans unstored₂).trans unstored₃⟩
  have declined₁ := (unstored₁.declined declined).cases moved.node
  unfold schemaRound at ended
  simp only [Step.bind_apply, called, Step.get_apply, getNode_spec moved.node] at ended
  rw [offered] at ended
  dsimp only at ended
  cases decided : r.decision with
  | error fault =>
    rw [decided] at ended
    simp only [Step.bind_apply] at ended
    -- A command that is to be applied and fails ends in a fault too, but such a round is not
    -- declined.
    have few : (c₁.available name).size <
        n.settings.replication.maxWriteQuorum [] (c₁.available name).size := by
      refine declined₁.resolve_right ?_
      rintro ⟨d, rfl, -⟩
      rcases eq : endRound name [after, before] r.stale c₂ with ⟨_ | _, c₃⟩ <;> rw [eq] at ended <;>
        cases ended
    obtain ⟨c₃, closed, unstored₃⟩ := closes (without few).2
    rw [closed] at ended
    cases ended
    exact unstored₃
  | ok decision =>
    rw [decided] at ended
    cases decision with
    | apply =>
      cases ended
      rcases declined₁ with few | ⟨d, same, other⟩
      · obtain ⟨⟨fault, none⟩, -⟩ := without few
        rw [decided] at none
        cases none
      · cases same
        exact absurd rfl other
    | _ =>
      obtain ⟨c₃, closed, unstored₃⟩ := closes (against _ decided nofun)
      simp only [Step.bind_apply] at ended
      rw [closed] at ended
      cases ended
      exact unstored₃

theorem ordered_round : Step.Keeps Ordered (round name command) :=
  ordered_endures.round ordered_issue fun before after _ _ => ordered_offer command before after

theorem absent_round : Step.Keeps (fun c => c.node? x = none) (round name command) :=
  absent_endures.round absent_issue fun _ _ _ _ _ _ => absent_atNode _

theorem takeId_idle (ordered : c.Ordered) (idle : c.Idle) (running : c.node? name = some n) :
    ∃ id n' c', takeId name c = (.ok id, c') ∧ c'.Ordered ∧ c'.Idle ∧
      c'.node? name = some n' ∧ c.Unstored c' := by
  obtain ⟨id, c', taken, unstored⟩ := takeId_unnoticed c n running
  obtain ⟨n', running', -⟩ := unstored.nodes name n running
  exact ⟨id, n', c', taken, ordered_issue.take.keeps.of_eq taken ordered,
    idle.unstored unstored fun x absent => absent_issue.take.keeps.of_eq taken absent,
    running', unstored⟩

/-- A round begins with two new ids, which nobody can tell either. -/
theorem round_declined (ordered : c.Ordered) (idle : c.Idle)
    (ended : round name command c = (result, c')) (declined : c.Declined name result) :
    c.Unstored c' := by
  unfold round at ended
  cases running : c.node? name with
  | none =>
    have missing : takeId name c = (.error (notRunning name), c) := by
      unfold takeId atNode
      rw [running]
    rw [Step.bind_apply, missing] at ended
    cases ended
    exact .refl c
  | some n =>
    obtain ⟨before, n₁, c₁, first, ordered₁, idle₁, running₁, unstored₁⟩ :=
      takeId_idle ordered idle running
    obtain ⟨after, n₂, c₂, second, ordered₂, idle₂, running₂, unstored₂⟩ :=
      takeId_idle ordered₁ idle₁ running₁
    have unstored := unstored₁.trans unstored₂
    simp only [Step.bind_apply, first, second] at ended
    exact unstored.trans
      (schemaRound_declined ordered₂ idle₂ running₂ ended (unstored.declined declined))

/-- The states in which a run of the command begins its rounds: it goes on after each round that may
be tried again. -/
inductive Retried (name command : String) (c₀ : Cluster) : Cluster → Prop where
  | start : Retried name command c₀ c₀
  | again {c c' : Cluster} {fault : Fault} : Retried name command c₀ c →
      (round name command).run c = (.ok (.retry fault), c') →
      Retried name command c₀ ((atNode name fun n => ((), n.count .retries)).run c').2

/-- No round of a run finds what one before it has left. -/
theorem Retried.idle (retried : Retried name command c₀ c) (ordered : c₀.Ordered)
    (idle : c₀.Idle) : c.Ordered ∧ c.Idle := by
  -- By induction on the rounds: one that may be tried again is declined, so it leaves nothing
  -- behind.
  induction retried with
  | start => exact ⟨ordered, idle⟩
  | @again c c' fault _ ended ih =>
    obtain ⟨ordered₁, idle₁⟩ := ih
    rw [Step.run_apply] at ended
    have unstored := round_declined ordered₁ idle₁ ended (.inl ⟨_, rfl, nofun⟩)
    have ordered₂ := ordered_round.of_eq ended ordered₁
    have idle₂ := idle₁.unstored unstored fun x absent => absent_round.of_eq ended absent
    refine ⟨ordered_endures.count _ c' ordered₂, ?_⟩
    rw [Step.run_apply]
    cases running : c'.node? name with
    | none =>
      unfold atNode
      rw [running]
      exact idle₂
    | some n =>
      obtain ⟨⟨⟩, c₁, counted, unstored₁⟩ := count_unnoticed .retries c' n running
      refine idle₂.unstored ?_ fun x absent => absent_endures.count _ c' absent
      rw [counted]
      exact unstored₁

/-- Whatever has happened before, as long as no attempt waits anywhere: a round that is not decided
for its command leaves every node with the commands, the clusters, the records and the commits that
it had, and with nothing promised or waiting that was not before. -/
theorem round_declined_untraced (possible : c₀.Possible) (idle : c₀.Idle)
    (retried : Retried name command c₀ c) (ended : (round name command).run c = (result, c'))
    (declined : c.Declined name result) :
    ∀ x n, c.node? x = some n → ∃ n', c'.node? x = some n' ∧ n.Untraced n' ∧
      n'.store.commands = n.store.commands ∧ n'.store.clusterIds = n.store.clusterIds := by
  obtain ⟨ordered, idle⟩ := retried.idle possible.ordered idle
  intro x n running
  obtain ⟨n', running', same⟩ := (round_declined ordered idle ended declined).nodes x n running
  exact ⟨n', running', same.untraced, (congrArg Store.commands same.content :),
    (congrArg Store.clusterIds same.content :)⟩

def again? : Except Fault Tally.SchemaDecision → Option Fault
  | .ok (.retry fault) => some fault
  | _ => none

theorem again?_eq_some {fault : Fault} (h : again? result = some fault) :
    result = .ok (.retry fault) := by
  unfold again? at h
  split at h
  · cases h
    rfl
  · cases h

theorem halved_possible : halved.Possible :=
  .perform "a" _ <| .perform "a" _ <| .join "b" 2 hasty (.empty none) <|
    .join "a" 1 hasty (.empty none) (.empty "db")

/-- Twice `a` offers ids of which `b` has committed one; both times `a` agrees and `b` does not. -/
theorem round_declined_untraced_halved : ∃ fault c c',
    Retried "a" "noop" halved c ∧ (round "a" "noop").run c = (.ok (.retry fault), c') ∧
      ∀ x n, c.node? x = some n → ∃ n', c'.node? x = some n' ∧ n.Untraced n' ∧
        n'.store.commands = n.store.commands ∧ n'.store.clusterIds = n.store.clusterIds := by
  have retries (c : Cluster) (tried : (again? ((round "a" "noop").run c).1).isSome) :
      ∃ fault, (round "a" "noop").run c = (.ok (.retry fault), ((round "a" "noop").run c).2) := by
    obtain ⟨fault, retried⟩ := Option.isSome_iff_exists.1 tried
    exact ⟨fault, Prod.ext (again?_eq_some retried) rfl⟩
  obtain ⟨_, first⟩ := retries halved (by decide +kernel)
  have retried := Retried.again .start first
  obtain ⟨fault, second⟩ := retries ((atNode "a" fun n => ((), n.count .retries)).run
    ((round "a" "noop").run halved).2).2 (by decide +kernel)
  exact ⟨fault, _, _, retried, second, round_declined_untraced halved_possible
    (.of_members (by decide +kernel)) retried second (.inl ⟨_, rfl, nofun⟩)⟩

end Cluster

end QuorumCommit
