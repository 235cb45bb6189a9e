import QuorumCommit.Proofs.Cluster.Member
import QuorumCommit.Proofs.Node.Opening

/-!
Histories of one member. Its node is asked for this and that, in any order and with any ids; in
between, anything may happen elsewhere in the cluster.
-/
namespace QuorumCommit.Cluster

open Node

/-- What the node of a member may be asked for. -/
inductive Operation where
  /-- One phase of a change set or of a command. -/
  | call (phase : Node.Call)
  /-- A task of another member is answered. -/
  | answer (sender : String) (task : Task)
  | catchUp (id : TxId) (changes : ChangeSet)
  /-- A change set is committed with the others. -/
  | transact (changes : ChangeSet)
  | run (command : String) (mode : RunMode)
  | close
  /-- The next commands on the store will fail. -/
  | failNext (count : Nat)

variable {D : Discipline} {name : String} {own : Nat} {c₀ c c' : Cluster} {P : Operation → Prop}

namespace Operation

def perform (name : String) (c : Cluster) : Operation → Cluster
  | call phase => ((atNode name fun n => ((), phase.perform n)).run c).2
  | answer sender task => (c.answerAt sender name task).2
  | catchUp id changes => ((stepNode name (Node.catchUp id changes)).run c).2
  | transact changes => ((Cluster.commit name changes).run c).2
  | run command mode => ((runCommand name command mode).run c).2
  | close => ((atNode name fun n => ((), n.close)).run c).2
  | failNext count =>
    ((atNode name fun n => ((), n.withStore { n.store with failing := count })).run c).2

end Operation

/-- The clusters that operations of some kind on a member lead to. Meanwhile others may do whatever
leaves the member what it is. -/
inductive History (name : String) (P : Operation → Prop) (c₀ : Cluster) : Cluster → Prop where
  | start : History name P c₀ c₀
  | step {c : Cluster} (op : Operation) : P op → History name P c₀ c →
      History name P c₀ (op.perform name c)
  | elsewhere {c c' : Cluster} : c'.station? name = c.station? name → History name P c₀ c →
      History name P c₀ c'

end QuorumCommit.Cluster

namespace QuorumCommit

open Node Cluster

def Discipline.Admits (D : Discipline) (own : Nat) : Operation → Prop
  | .call phase => ∀ n, D.Upheld own n → phase.Allowed (D.okFrom n) n
  | .answer _ task => ∀ n, D.Upheld own n → task.call.Allowed (D.okFrom n) n
  | .catchUp id t => (∀ A, D.ok A (.fetch id t)) ∧
      ∀ A a, a.held = [] → a.promised = [] → D.ok A (.finish a)
  | .transact t => D.Serves own ∧ ∀ A message id, D.ok A (.begin ⟨own, message⟩ (.data id t))
  | .run command .direct => D.Serves own ∧ ∀ A message before after, before.origin = own →
      after.origin = own → D.ok A (.begin ⟨own, message⟩ (.schema command before after))
  | .close => ∀ A a, D.ok A (.finish a)
  | .run _ .replicated | .failNext _ => True

def Cluster.Operation.Begins : Operation → Job → Prop
  | .call phase, job => phase.job? = some job
  | .answer _ task, job => task.call.job? = some job
  | .transact t, job => ∃ id, job = .data id t
  | .run command .direct, job => ∃ before after, job = .schema command before after
  | _, _ => False

/-- Where any attempt may be finished, and resumed if it waits, an operation is admitted as soon as
its jobs may be begun and what it catches up with may be fetched. -/
theorem Discipline.admits_of_begins {D : Discipline} {own : Nat} {op : Operation}
    (finish : ∀ A a, D.ok A (.finish a))
    (resume : ∀ n request, D.Upheld own n → MayResume (D.okFrom n) request n)
    (begins : ∀ A request job, op.Begins job → D.ok A (.begin request job))
    (fetch : ∀ A id t, op = .catchUp id t → D.ok A (.fetch id t)) : D.Admits own op := by
  have finishes (n : Node) (request : RequestId) : MayFinish (D.okFrom n) request :=
    fun A a _ _ => finish A a
  have serves : D.Serves own :=
    ⟨fun message n => finishes n ⟨own, message⟩, fun message n => resume n ⟨own, message⟩⟩
  cases op with
  | call phase =>
    exact fun n upheld =>
      ⟨fun job mine _ => begins _ _ job mine, finishes n _, fun _ => resume n _ upheld⟩
  | answer sender task =>
    exact fun n upheld =>
      ⟨fun job mine _ => begins _ _ job mine, finishes n _, fun _ => resume n _ upheld⟩
  | catchUp id t => exact ⟨fun A => fetch A id t rfl, fun A a _ _ => finish A a⟩
  | transact t => exact ⟨serves, fun A message id => begins A _ _ ⟨id, rfl⟩⟩
  | run command mode =>
    cases mode with
    | direct => exact ⟨serves, fun A message before after _ _ => begins A _ _ ⟨before, after, rfl⟩⟩
    | replicated => trivial
  | close => exact finish
  | failNext count => trivial

/-- A discipline without rules admits everything. -/
theorem Discipline.admits_of_all {D : Discipline} (all : ∀ A d, D.ok A d) (own : Nat)
    (op : Cluster.Operation) : D.Admits own op :=
  admits_of_begins (fun _ _ => all _ _) (fun _ _ _ _ _ _ => all _ _) (fun _ _ _ _ => all _ _)
    fun _ _ _ _ => all _ _

theorem Discipline.admits_plain (own : Nat) (op : Cluster.Operation) :
    Discipline.plain.Admits own op :=
  admits_of_all (fun _ _ => trivial) own op

namespace Cluster

variable {D : Discipline} {name : String} {own : Nat} {c₀ c c' : Cluster} {P : Operation → Prop}

/-- A call is made on the node itself, which keeps what the call has made of it. -/
theorem station?_call {n : Node} (station : c.station? name = some (own, .running n))
    (phase : Node.Call) : ((Operation.call phase).perform name c).station? name =
      some (own, .running (phase.perform (c.lend n)).seen) := by
  unfold Operation.perform
  dsimp only
  rw [Step.run_apply, atNode_running _ station]
  exact takeBack_running station _

/-- A task is answered on the node itself. -/
theorem Upholds.answerAt (h : c.Upholds D name own) (sender : String) {task : Task}
    (allowed : ∀ n, D.Upheld own n → task.call.Allowed (D.okFrom n) n) :
    (c.answerAt sender name task).2.Upholds D name own := by
  obtain ⟨n, station, upheld⟩ := h
  have butDisk := upheld_lend (c := c) upheld
  rw [answerAt_of_station? station]
  exact upholds_takeBack station
    (butDisk.movesBy (answer_movesBy (D.otherFrom _) butDisk.orderly task (allowed _ butDisk)))

/-- An admitted operation leaves the member upholding the discipline. -/
theorem Upholds.perform (h : c.Upholds D name own) (op : Operation) (admitted : D.Admits own op) :
    (op.perform name c).Upholds D name own := by
  have framed := upheld_framed D own
  unfold Operation.perform
  cases op with
  | call phase =>
    rw [Step.run_apply]
    exact keeps_atNode framed (fun n upheld =>
      upheld.movesBy (Call.movesBy (D.otherFrom n) upheld.orderly phase (admitted n upheld))) c h
  | answer sender task => exact h.answerAt sender admitted
  | catchUp id t =>
    rw [Step.run_apply]
    exact keeps_stepNode framed (fun n upheld =>
      upheld.movesBy (catchUp_movesBy upheld.orderly (fun _ => admitted.1 _)
        fun A a held promised _ => admitted.2 A a held promised)) c h
  | transact changes =>
    rw [Step.run_apply]
    exact upholds_commit admitted.1 admitted.2 c h
  | run command mode =>
    rw [Step.run_apply]
    cases mode with
    | direct => exact upholds_runCommand_direct admitted.1 admitted.2 c h
    | replicated => exact upholds_runCommand_replicated command c h
  | close =>
    rw [Step.run_apply]
    exact keeps_atNode framed (fun n upheld =>
      upheld.movesBy (close_movesBy (fun A a _ => admitted A a) n)) c h
  | failNext count =>
    rw [Step.run_apply]
    refine keeps_atNode framed (fun n upheld => ?_) c h
    exact upheld.quiet (m := n.withStore { n.store with failing := count }) rfl
      ⟨rfl, rfl, rfl, fun _ => rfl, rfl, rfl, rfl, rfl, rfl⟩

theorem Upholds.history (h : c₀.Upholds D name own) (admitted : ∀ op, P op → D.Admits own op)
    (history : History name P c₀ c) : c.Upholds D name own := by
  induction history with
  | start => exact h
  | step op allowed _ ih => exact ih.perform op (admitted op allowed)
  | elsewhere same _ ih => exact ih.of_station same

/-- A member that joins with a store runs a node that was opened on it. -/
theorem join_opened {settings : Settings} {store : Store}
    (joined : c.join name own (.closed settings store) = (.ok (), c₀)) :
    ∃ n, Node.openOn c.database name own settings store c.disk = .ok n ∧
      c₀.station? name = some (own, .running n) := by
  have added : (c.setMember name ⟨own, 0, [], .closed settings store⟩).member? name =
      some ⟨own, 0, [], .closed settings store⟩ := by
    rw [member?_setMember, if_pos rfl]
  unfold join openNode at joined
  dsimp only at joined
  rw [added] at joined
  dsimp only at joined
  split at joined
  · cases joined
  · next n opened =>
    cases joined
    refine ⟨n, opened, ?_⟩
    rw [station?_setRole, if_pos rfl]
    unfold station?
    rw [added]
    rfl

/-- A member that joins with a store runs a node on it, if its settings are accepted and its journal
can be read. -/
theorem join_started {settings : Settings} {store : Store}
    (joined : c.join name own (.closed settings store) = (.ok (), c₀)) :
    ∃ n, c₀.station? name = some (own, .running n) ∧ n.Started own settings store := by
  obtain ⟨n, opened, station⟩ := join_opened joined
  exact ⟨n, station, openOn_started opened⟩

def lone : Cluster := ((empty "db").join "a" 1 (.closed .default (.empty none))).2

theorem lone_joined : (empty "db").join "a" 1 (.closed .default (.empty none)) = (.ok (), lone) :=
  Prod.ext (by decide +kernel) rfl

end Cluster

end QuorumCommit
