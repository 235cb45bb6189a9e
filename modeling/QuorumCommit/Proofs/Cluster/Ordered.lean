import QuorumCommit.Proofs.Cluster.History

/-!
Clusters in order. Members join and leave, are cut off and come back, and each is asked for this and
that with any ids; through all of it, whatever is locked, promised or reserved at a node is so for
an attempt that waits there.
-/
namespace QuorumCommit

/-- What a member may run: a node whose work is sound, or nothing at all. A store that is put
away can be opened again. -/
def Role.Ordered (own : Nat) : Role → Prop
  | .running n => Discipline.plain.Upheld own n
  | .closed _ store => store.Tidy
  | .silent => True
  | .scripted .. => False

namespace Cluster

open Node

variable {c c' : Cluster} {name x : String} {own : Nat} {n : Node} {m : Member} {role : Role}

/-- Every member is in order, and its broadcasts meet no fault. -/
def Ordered (c : Cluster) : Prop :=
  ∀ x m, c.member? x = some m → m.sendFaults = [] ∧ m.role.Ordered m.id

namespace Ordered

theorem congr (h : c.Ordered) (members : c'.members = c.members) : c'.Ordered := by
  intro x m found
  unfold member? at found
  rw [members] at found
  exact h x m found

theorem setMember (h : c.Ordered) (faults : m.sendFaults = []) (role : m.role.Ordered m.id) :
    (c.setMember x m).Ordered := by
  intro y k found
  rw [member?_setMember] at found
  split at found
  · cases found
    exact ⟨faults, role⟩
  · exact h y k found

theorem setRole (h : c.Ordered) (fits : ∀ m, c.member? x = some m → role.Ordered m.id) :
    (c.setRole x role).Ordered := by
  unfold Cluster.setRole onMember
  cases found : c.member? x with
  | none => exact h
  | some m => exact h.setMember (h x m found).1 (fits m found)

/-- The node of a member upholds what every node does. -/
theorem node (h : c.Ordered) (running : c.node? x = some n) :
    ∃ m, c.member? x = some m ∧ Discipline.plain.Upheld m.id n := by
  obtain ⟨m, found, role⟩ := node?_eq_some.1 running
  have ordered := (h x m found).2
  rw [role] at ordered
  exact ⟨m, found, ordered⟩

theorem takeBack (h : c.Ordered) (found : c.member? x = some m)
    (upheld : Discipline.plain.Upheld m.id n) : (c.takeBack x n).Ordered := by
  unfold Cluster.takeBack
  refine Ordered.congr (c := { c with disk := n.resources.disk }.setRole x
    (.running { n with asks := 0 })) ?_ (passAsks_members x n.asks).1
  refine Ordered.setRole (h.congr rfl) fun k here => ?_
  obtain rfl := Option.mem_unique found here
  exact upheld.congr rfl rfl

end Ordered

/-- Whatever a node is asked for that comes to acts, the cluster stays in order. -/
theorem ordered_atNode {α : Type} {work : Node → α × Node}
    (moves : ∀ n, n.Orderly → MovesBy Discipline.plain.ok n (work n).2) :
    Step.Keeps Ordered (atNode name work) := by
  intro c h
  unfold atNode
  cases running : c.node? name with
  | none => exact h
  | some n =>
    obtain ⟨m, found, upheld⟩ := h.node running
    have butDisk := upheld_lend (c := c) upheld
    exact h.takeBack found (butDisk.movesBy_ok (moves _ butDisk.orderly))

theorem ordered_stepNode {α : Type} {step : Step Node α}
    (moves : ∀ n, n.Orderly → MovesBy Discipline.plain.ok n (step n).2) :
    Step.Keeps Ordered (stepNode name step) := by
  intro c h
  rw [stepNode_snd]
  exact ordered_atNode moves c h

/-- What no attempt depends on may change. -/
theorem ordered_quiet {α : Type} {work : Node → α × Node}
    (quiet : ∀ n, (work n).2.registry = n.registry ∧ n.resources.Quiet (work n).2.resources) :
    Step.Keeps Ordered (atNode name work) :=
  ordered_atNode fun n orderly =>
    .quiet Discipline.plain.other orderly.keyed (quiet n).1 (quiet n).2

/-- Nothing is scripted. -/
theorem Ordered.not_scripted (h : c.Ordered) {prompts received} :
    c.role? x ≠ some (.scripted prompts received) := by
  intro role
  obtain ⟨m, found, eq⟩ := Option.map_eq_some_iff.1 role
  have ordered := (h x m found).2
  rw [eq] at ordered
  exact ordered

theorem Ordered.answerAt (h : c.Ordered) (sender target : String) (task : Task) :
    (c.answerAt sender target task).2.Ordered := by
  unfold Cluster.answerAt
  split
  · next n role =>
    obtain ⟨m, found, upheld⟩ := h.node (node?_of_role? role)
    have butDisk := upheld_lend (c := c) upheld
    refine h.takeBack found (butDisk.movesBy_ok
      (answer_movesBy Discipline.plain.other butDisk.orderly task ?_))
    exact ⟨fun _ _ => trivial, fun _ _ _ => trivial, fun _ _ _ => trivial⟩
  · next prompts received role => exact absurd role h.not_scripted
  · exact h

/-- Who runs no node gives no answer. -/
theorem Ordered.answerAt_of_none (h : c.Ordered) {target : String} (none : c.node? target = none)
    (sender : String) (task : Task) : c.answerAt sender target task = (.none, c) := by
  unfold Cluster.answerAt
  split
  · next n role =>
    rw [node?_of_role? role] at none
    cases none
  · next prompts received role => exact absurd role h.not_scripted
  · rfl

theorem ordered_answers : EnduresAnswers Ordered :=
  ⟨fun _ _ members h => h.congr members, fun _ sender target task h =>
    h.answerAt sender target task⟩

theorem Ordered.takeSendFault (h : c.Ordered) (name : String) :
    c.takeSendFault name = (none, c) := by
  unfold Cluster.takeSendFault
  cases found : c.member? name with
  | none => rfl
  | some m =>
    dsimp only
    rw [(h name m found).1]

theorem ordered_broadcast (targets : List String) (task : Task) (mode : ReplyMode) (t : Tally) :
    Step.Keeps Ordered (broadcast name targets task mode t) :=
  ordered_answers.broadcast (fun c h => by rwa [h.takeSendFault]) targets task mode t

theorem ordered_nextRequest : Step.Keeps Ordered (nextRequest name) := by
  intro c h
  unfold nextRequest nextMessage
  cases found : c.member? name with
  | none => exact h
  | some m => exact h.setMember (h name m found).1 (h name m found).2

/-- If a task is delivered, the target has answered it or runs no node. -/
theorem Ordered.deliver_evolved (h : c.Ordered) {sender target : String} (task : Task)
    (sends : c.isOnline sender = true) (hears : c.isOnline target = true) :
    Evolved (fun y k k' => if y = target then ∃ reply, Answered task k reply k' else k' = k) c
      (c.deliver sender target task).2 := by
  cases running : c.node? target with
  | some n =>
    obtain ⟨reply, n', c', delivered, moved, answered⟩ := deliver_spec task running sends hears
    rw [delivered]
    exact moved.evolved (R := fun k k' => ∃ reply, Answered task k reply k') running
      ⟨reply, answered⟩
  | none =>
    have unanswered := Ordered.answerAt_of_none (c := { c with sent := c.sent + 1 }) (h.congr rfl)
      running sender task
    have same : (c.deliver sender target task).2 = drop { c with sent := c.sent + 1 } := by
      unfold Cluster.deliver
      dsimp only
      rw [unanswered]
      split <;> rfl
    rw [same]
    refine ⟨⟨rfl, fun _ => rfl⟩, fun y k here => ⟨k, here, ?_⟩⟩
    rw [if_neg]
    rintro rfl
    rw [running] at here
    cases here

theorem Ordered.deliverAll_evolved (h : c.Ordered) {sender : String} (task : Task)
    (mode : ReplyMode) {targets : List String} (t : Tally) (sends : c.isOnline sender = true)
    (distinct : targets.Nodup) (hears : ∀ y ∈ targets, c.isOnline y = true) :
    Evolved (fun y k k' => if y ∈ targets then ∃ reply, Answered task k reply k' else k' = k) c
      (Cluster.deliverAll sender task mode targets t c).2 := by
  induction targets generalizing c t with
  | nil => exact .refl c fun y k _ => by simp
  | cons target rest ih =>
    rw [List.forall_mem_cons] at hears
    rw [List.nodup_cons] at distinct
    have first := h.deliver_evolved task sends hears.1
    have ordered := ordered_answers.deliver h sender target task
    have later (t : Tally) := ih ordered t ((first.network.isOnline sender).trans sends) distinct.2
      fun y mem => (first.network.isOnline y).trans (hears.2 y mem)
    have all (t : Tally) : Evolved (fun y k k' =>
        if y ∈ target :: rest then ∃ reply, Answered task k reply k' else k' = k) c
          (Cluster.deliverAll sender task mode rest t (c.deliver sender target task).2).2 := by
      refine (first.trans (later t)).mono ?_
      rintro y k k'' - ⟨k', change, change'⟩
      by_cases same : y = target
      · subst same
        rw [if_neg distinct.1] at change'
        subst change'
        rw [if_pos rfl] at change
        rw [if_pos List.mem_cons_self]
        exact change
      · rw [if_neg same] at change
        subst change
        simp only [List.mem_cons, same, false_or]
        exact change'
    unfold Cluster.deliverAll
    rcases eq : c.deliver sender target task with ⟨_ | reply, c'⟩
    · rw [eq] at all
      exact all t
    · rw [eq] at all
      exact all _

/-- A task for all that the sender can reach is answered by each of them that runs a node. -/
theorem Ordered.broadcast_evolved {c₀ : Cluster} (h : c.Ordered) (network : c₀.SameNetwork c)
    (member : c₀.members.contains name = true) (task : Task) (mode : ReplyMode) (t : Tally) :
    ∃ t' c', broadcast name (c₀.targets name) task mode t c = (.ok t', c') ∧
      Evolved (fun y k k' =>
        if y ∈ c₀.targets name then ∃ reply, Answered task k reply k' else k' = k) c c' := by
  have others : (c₀.targets name).filter (· ≠ name) = c₀.targets name :=
    List.filter_eq_self.2 fun y mem => by
      rw [decide_eq_true_eq]
      exact (mem_targets.1 mem).2
  unfold broadcast
  rw [h.takeSendFault]
  dsimp only
  rw [others]
  refine ⟨_, _, rfl, ?_⟩
  by_cases alone : c₀.targets name = []
  · rw [alone]
    exact .refl c fun y k _ => by simp
  · obtain ⟨target, mem⟩ := List.exists_mem_of_ne_nil _ alone
    refine h.deliverAll_evolved task mode t ?_ (targets_nodup c₀ name) fun y asked => ?_
    · exact (network.isOnline name).trans (targets_online member mem).1
    · exact (network.isOnline y).trans (targets_online member asked).2

theorem Ordered.notify_evolved {c₀ : Cluster} (h : c.Ordered) (network : c₀.SameNetwork c)
    (member : c₀.members.contains name = true) (task : Task) :
    ∃ c', notify name (c₀.targets name) task c = (.ok (), c') ∧
      Evolved (fun y k k' =>
        if y ∈ c₀.targets name then ∃ reply, Answered task k reply k' else k' = k) c c' := by
  obtain ⟨t', c', sent, evolved⟩ := h.broadcast_evolved network member task .ignored
    (Tally.start task.request (Std.ExtTreeSet.ofList (c₀.targets name)) (c₀.targets name).length 0)
  refine ⟨c', ?_, evolved⟩
  unfold notify
  simp only [Step.run_apply]
  rw [sent]

theorem ordered_endures : Endures Ordered name fun _ => True where
  nextRequest c h := ⟨ordered_nextRequest c h, fun _ _ => trivial⟩
  broadcast := ordered_broadcast
  count _ := ordered_atNode fun _ orderly => (MovesBy.refl orderly.keyed).congr rfl rfl
  askResync := ordered_atNode fun _ orderly => (MovesBy.refl orderly.keyed).congr rfl rfl
  commit _ _ := ordered_stepNode fun _ orderly =>
    commit_acts orderly (fun _ _ _ => trivial) fun _ _ => trivial
  rollback _ _ := ordered_atNode fun _ orderly => rollback_acts orderly fun _ _ _ => trivial
  settle _ apply _ := ordered_stepNode fun _ orderly => settleSchema_acts Discipline.plain.other
    orderly (fun _ _ _ => trivial) (fun _ _ => trivial) apply

theorem ordered_issue : EnduresIssue Ordered name fun _ => True where
  take c h := ⟨ordered_quiet (fun n => ⟨rfl, .nextId n.resources⟩) c h, fun _ _ => trivial⟩
  back id := ordered_quiet fun n => ⟨rfl, .releaseId n.resources id⟩

theorem ordered_draft (id : TxId) (changes : ChangeSet) :
    EnduresDraft Ordered name (fun _ => True) id changes := fun _ alone _ =>
  ordered_stepNode fun _ orderly =>
    prepareOwn_movesBy orderly trivial (fun _ _ _ => trivial) _ alone

theorem ordered_offer (command : String) (before after : TxId) :
    EnduresOffer Ordered name (fun _ => True) command before after := fun _ _ =>
  ordered_atNode fun _ orderly => (prepareSchema_acts orderly trivial fun _ _ _ => trivial).1

theorem Ordered.perform (h : c.Ordered) (name : String) (op : Operation) :
    (op.perform name c).Ordered := by
  unfold Operation.perform
  cases op with
  | call phase =>
    exact ordered_atNode (fun n orderly => Call.movesBy Discipline.plain.other orderly phase
      ⟨fun _ _ => trivial, fun _ _ _ => trivial, fun _ _ _ => trivial⟩) c h
  | answer sender task => exact h.answerAt sender name task
  | catchUp id changes =>
    exact ordered_stepNode
      (fun n orderly => catchUp_movesBy orderly trivial fun _ _ _ _ => trivial) c h
  | transact changes =>
    exact ordered_endures.transaction ordered_issue (fun id _ => ordered_draft id changes) c h
  | run command mode =>
    cases mode with
    | direct =>
      exact ordered_endures.runCommand ordered_issue
        (fun before after _ _ => ordered_offer command before after) c h
    | replicated =>
      exact ordered_stepNode (fun n orderly =>
        execute_movesBy Discipline.plain.other orderly.keyed command .replicated) c h
  | close => exact ordered_atNode (fun n _ => close_movesBy (fun _ _ => trivial) n) c h
  | failNext count =>
    exact ordered_quiet (fun n => ⟨rfl, rfl, rfl, rfl, fun _ => rfl, rfl, rfl, rfl, rfl, rfl⟩) c h

theorem Ordered.openNode (h : c.Ordered) (name : String) : (c.openNode name).2.Ordered := by
  unfold Cluster.openNode
  cases found : c.member? name with
  | none => exact h
  | some m =>
    have ordered := (h name m found).2
    dsimp only
    cases role : m.role with
    | closed settings store =>
      rw [role] at ordered
      dsimp only
      cases opened : Node.openOn c.database name m.id settings store c.disk with
      | error fault => exact h
      | ok n =>
        have started := openOn_started opened
        obtain ⟨keyed, sound⟩ := started.orderly_of_tidy ordered
        refine h.setRole fun k here => ?_
        obtain rfl := Option.mem_unique found here
        exact ⟨⟨keyed, sound⟩, fun _ => sound, started.origin⟩
    | _ => exact h

theorem Ordered.stop (h : c.Ordered) (name : String) : (c.stop name).Ordered := by
  unfold Cluster.stop
  split
  · next n role =>
    obtain ⟨m, -, upheld⟩ := h.node (node?_of_role? role)
    have closed := upheld.movesBy_ok (close_movesBy (fun _ _ => trivial) n)
    exact h.setRole fun _ _ => closed.orderly.sound.tidy
  · exact h.setRole fun _ _ => trivial
  · exact h

/-- The clusters that can come about. A member joins with a store that was built up, or without a
database; and what members are asked for, they are asked for one after the other. -/
inductive Possible : Cluster → Prop where
  | empty (database : String) : Possible (.empty database)
  | join {c : Cluster} (name : String) (id : Nat) (settings : Settings) {store : Store} :
      store.Built → Possible c → Possible (c.join name id (.closed settings store)).2
  | joinSilent {c : Cluster} (name : String) (id : Nat) :
      Possible c → Possible (c.join name id .silent).2
  | perform {c : Cluster} (name : String) (op : Operation) :
      Possible c → Possible (op.perform name c)
  | partition {c : Cluster} (name : String) : Possible c → Possible (c.partition name)
  | heal {c : Cluster} (name : String) : Possible c → Possible (c.heal name)
  | stop {c : Cluster} (name : String) : Possible c → Possible (c.stop name)
  | reopen {c : Cluster} (name : String) : Possible c → Possible (c.reopen name).2

theorem Possible.ordered (h : c.Possible) : c.Ordered := by
  induction h with
  | empty database =>
    intro x m found
    unfold member? Cluster.empty at found
    simp at found
  | join name id settings built _ ih =>
    exact (ih.setMember (m := ⟨id, 0, [], .closed settings _⟩) rfl built.tidy).openNode name
  | joinSilent name id _ ih => exact ih.setMember (m := ⟨id, 0, [], .silent⟩) rfl trivial
  | perform name op _ ih => exact ih.perform name op
  | partition _ _ ih | heal _ _ ih => exact ih.congr rfl
  | stop name _ ih => exact ih.stop name
  | reopen name _ ih => exact (ih.stop name).openNode name

end Cluster

end QuorumCommit
