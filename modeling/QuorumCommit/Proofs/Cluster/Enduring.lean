import QuorumCommit.Proofs.Cluster.Committing
import QuorumCommit.Proofs.Cluster.Polling

/-!
Properties of clusters that endure. Transactions and commands of a member are made of a few steps of
its own and of messages to others; what each of these leaves alone endures them as a whole.
-/
namespace QuorumCommit.Cluster

variable {I : Cluster → Prop} {name command : String} {r : RequestId → Prop} {q : TxId → Prop}
  {changes : ChangeSet}

/-- The property endures what a member does besides preparing its own change sets and commands. The
requests of the member have the property `r`. -/
structure Endures (I : Cluster → Prop) (name : String) (r : RequestId → Prop) : Prop where
  nextRequest : Step.Gives I (nextRequest name) r
  broadcast : ∀ targets task mode t, Step.Keeps I (broadcast name targets task mode t)
  count : ∀ counter, Step.Keeps I (atNode name fun n => ((), n.count counter))
  askResync : Step.Keeps I (atNode name fun n => ((), n.askResync))
  commit : ∀ request, r request → Step.Keeps I (stepNode name (Node.commit request))
  rollback : ∀ request, r request → Step.Keeps I (rollbackAt name request)
  settle : ∀ request apply, r request →
    Step.Keeps I (stepNode name (Node.settleSchema request apply))

structure EnduresIssue (I : Cluster → Prop) (name : String) (q : TxId → Prop) : Prop where
  take : Step.Gives I (takeId name) q
  back : ∀ id, Step.Keeps I (giveBackId name id)

def EnduresDraft (I : Cluster → Prop) (name : String) (r : RequestId → Prop) (id : TxId)
    (changes : ChangeSet) : Prop :=
  ∀ request alone, r request → Step.Keeps I (prepareAtOrigin name request id changes alone)

def EnduresOffer (I : Cluster → Prop) (name : String) (r : RequestId → Prop) (command : String)
    (before after : TxId) : Prop :=
  ∀ request, r request →
    Step.Keeps I (atNode name (Node.prepareSchema request command before after))

/-- A property of the members alone endures whatever is answered. -/
structure EnduresAnswers (I : Cluster → Prop) : Prop where
  members : ∀ c c' : Cluster, c'.members = c.members → I c → I c'
  answer : ∀ (c : Cluster) sender target task, I c → I (c.answerAt sender target task).2

namespace EnduresAnswers

variable {c : Cluster} (h : EnduresAnswers I)

include h

theorem deliver (start : I c) (sender target : String) (task : Task) :
    I (c.deliver sender target task).2 := by
  unfold Cluster.deliver
  dsimp only
  split
  · have answered := h.answer { c with sent := c.sent + 1 } sender target task
      (h.members c _ rfl start)
    split
    · next c' eq =>
      rw [eq] at answered
      exact h.members c' c'.drop rfl answered
    · exact answered
  · exact h.members c _ rfl start

theorem deliverAll (start : I c) (sender : String) (task : Task) (mode : ReplyMode)
    (targets : List String) (t : Tally) : I (deliverAll sender task mode targets t c).2 := by
  induction targets generalizing c t with
  | nil => exact start
  | cons target rest ih =>
    have delivered := h.deliver start sender target task
    unfold Cluster.deliverAll
    rcases eq : c.deliver sender target task with ⟨_ | reply, c'⟩
    · rw [eq] at delivered
      exact ih delivered t
    · rw [eq] at delivered
      exact ih delivered _

theorem broadcast (fault : ∀ c, I c → I (c.takeSendFault name).2) (targets : List String)
    (task : Task) (mode : ReplyMode) (t : Tally) :
    Step.Keeps I (broadcast name targets task mode t) := by
  intro c start
  have taken := fault c start
  unfold Cluster.broadcast
  rcases eq : c.takeSendFault name with ⟨_ | fault, c'⟩
  · rw [eq] at taken
    exact h.deliverAll taken name task mode _ t
  · rw [eq] at taken
    exact taken

end EnduresAnswers

/-- Looking at a node changes nothing. -/
theorem endures_getNode : Step.Keeps I (getNode name) := by
  intro c h
  unfold getNode
  split <;> exact h

theorem endRound_endures (issue : EnduresIssue I name q)
    (resync : Step.Keeps I (atNode name fun n => ((), n.askResync))) (ids stale : List TxId) :
    Step.Keeps I (endRound name ids stale) := by
  unfold endRound
  refine (Step.Keeps.forM issue.back _).bind fun _ => ?_
  split
  · exact .pure _
  · exact resync

namespace Endures

variable (h : Endures I name r)

include h

theorem notify (targets : List String) (task : Task) : Step.Keeps I (notify name targets task) :=
  fun c start => h.broadcast targets task .ignored _ c start

theorem requireQuorum (quorum : Nat) (nodes : Std.ExtTreeSet String) :
    Step.Keeps I (requireQuorum name quorum nodes) := by
  unfold Cluster.requireQuorum
  split
  · exact (h.count _).bind fun _ => .throw _
  · exact .pure _

theorem submit {id : TxId} (draft : EnduresDraft I name r id changes) :
    Step.Keeps I (submit name id changes) := by
  unfold Cluster.submit
  refine Step.Keeps.get.bind fun c => endures_getNode.bind fun n =>
    (h.requireQuorum _ _).bind fun _ => h.nextRequest.bind fun request own => ?_
  refine (draft request _ own).bind fun final => ?_
  split
  · exact .pure _
  · refine Step.Keeps.bind ?_ fun tally => (h.notify _ _).bind fun _ => ?_
    · exact (h.broadcast _ _ _ _).tryCatch fun fault =>
        (h.rollback request own).bind fun _ => .throw fault
    · split
      · exact (h.commit request own).bind fun _ => .pure _
      · exact (h.rollback request own).bind fun _ => .throw _

theorem attempt (issue : EnduresIssue I name q)
    (draft : ∀ id, q id → EnduresDraft I name r id changes) (number : Nat) :
    Step.Keeps I (attempt name changes number) := by
  have rest : Step.Keeps I (do
      let id ← takeId name
      tryCatch
        (do
          let final ← Cluster.submit name id changes
          pure (⟨id, final⟩ : Committed))
        fun fault => do
          giveBackId name id
          throw fault) :=
    issue.take.bind fun id mine => Step.Keeps.tryCatch
      ((h.submit (draft id mine)).bind fun _ => .pure _)
      fun fault => (issue.back id).bind fun _ => .throw fault
  unfold Cluster.attempt
  split
  · exact (h.count _).bind fun _ => rest
  · exact rest

/-- It endures whole transactions. -/
theorem transaction (issue : EnduresIssue I name q)
    (draft : ∀ id, q id → EnduresDraft I name r id changes) :
    Step.Keeps I (Cluster.commit name changes) := by
  unfold Cluster.commit
  refine endures_getNode.bind fun n => ?_
  split
  · exact .throw _
  · intro c start
    exact n.policy.run_spec (P := I) (Q := fun _ r => I r.2)
      (fun number c start => h.attempt issue draft number c start)
      (fun _ _ _ _ after => ⟨after, fun _ later => later⟩) start

theorem confirmSchema (targets : List String) {request : RequestId} (own : r request)
    (apply : Bool) : Step.Keeps I (confirmSchema name targets request apply) :=
  (h.notify _ _).bind fun _ => h.settle request apply own

theorem offerSchema {before after : TxId} (offer : EnduresOffer I name r command before after)
    {request : RequestId} (own : r request) (nodes : Std.ExtTreeSet String) (quorum : Nat) :
    Step.Keeps I (offerSchema name command before after request nodes quorum) := by
  unfold Cluster.offerSchema
  refine (offer request own).bind fun reply => endures_getNode.bind fun n => ?_
  intro c start
  have sent := h.broadcast (nodes.toList.filter (· ≠ name))
    (.schemaFirstPhase request command before after) .awaited
    ((Tally.start request nodes nodes.size quorum).receive name reply) c start
  have confirmed (c : Cluster) (start : I c) (apply : Bool) :=
    h.confirmSchema (nodes.toList.filter (· ≠ name)) own apply c start
  simp only [Step.run_apply]
  split
  · next fault c₁ eq =>
    rw [eq] at sent
    have after := confirmed c₁ sent false
    split
    · next eq' =>
      rw [eq'] at after
      exact after
    · next eq' =>
      rw [eq'] at after
      exact after
  · next tally c₁ eq =>
    rw [eq] at sent
    have after := confirmed c₁ sent (tally.schemaDecision = .apply)
    split
    · next eq' =>
      rw [eq'] at after
      exact after
    · next eq' =>
      rw [eq'] at after
      exact after

theorem schemaRound (issue : EnduresIssue I name q) {before after : TxId}
    (offer : EnduresOffer I name r command before after) :
    Step.Keeps I (schemaRound name command before after) := by
  unfold Cluster.schemaRound
  refine h.nextRequest.bind fun request own => Step.Keeps.get.bind fun c =>
    endures_getNode.bind fun n => Step.Keeps.bind ?_ fun round => ?_
  · exact Step.Keeps.tryCatch ((h.requireQuorum _ _).bind fun _ => h.offerSchema offer own _ _)
      fun _ => .pure _
  · split
    · exact .pure _
    · exact (endRound_endures issue h.askResync _ _).bind fun _ => .pure _
    · exact (endRound_endures issue h.askResync _ _).bind fun _ => .throw _

theorem round (issue : EnduresIssue I name q)
    (offer : ∀ before after, q before → q after → EnduresOffer I name r command before after) :
    Step.Keeps I (round name command) :=
  issue.take.bind fun before first => issue.take.bind fun after second =>
    h.schemaRound issue (offer before after first second)

theorem schemaRounds (issue : EnduresIssue I name q)
    (offer : ∀ before after, q before → q after → EnduresOffer I name r command before after)
    (rounds : Nat) (last : Fault) (more : Nat) :
    Step.Keeps I (schemaRounds name command rounds last more) := by
  induction more generalizing last with
  | zero => exact .throw _
  | succ more ih =>
    rw [schemaRounds_succ]
    refine (h.round issue offer).bind fun decision => ?_
    split
    · exact .pure _
    · exact .throw _
    · exact (h.count _).bind fun _ => ih _

/-- It endures commands that are distributed. -/
theorem runCommand (issue : EnduresIssue I name q)
    (offer : ∀ before after, q before → q after → EnduresOffer I name r command before after) :
    Step.Keeps I (runCommand name command .direct) :=
  endures_getNode.bind fun _ => h.schemaRounds issue offer _ _ _

end Endures

variable {x : String}

/-- Work at one node gives nobody else a node. -/
theorem absent_atNode {α : Type} (work : Node → α × Node) :
    Step.Keeps (fun c : Cluster => c.node? x = none) (atNode name work) := by
  intro c absent
  cases running : c.node? name with
  | none =>
    unfold atNode
    rw [running]
    exact absent
  | some n =>
    obtain ⟨_, n', c', done, moved, -⟩ := atNode_spec work running
    rw [done]
    refine (moved.others x ?_).trans absent
    rintro rfl
    rw [running] at absent
    cases absent

theorem absent_stepNode {α : Type} (step : Step Node α) :
    Step.Keeps (fun c : Cluster => c.node? x = none) (stepNode name step) := by
  intro c absent
  rw [stepNode_snd]
  exact absent_atNode _ c absent

theorem absent_answerAt {c : Cluster} (absent : c.node? x = none) (sender target : String)
    (task : Task) : (c.answerAt sender target task).2.node? x = none := by
  by_cases same : x = target
  · subst same
    have scripted (prompts received) :
        (c.setRole x (.scripted prompts received)).node? x = none := by
      unfold setRole onMember
      cases found : c.member? x with
      | none => exact absent
      | some m =>
        unfold node? role?
        rw [member?_setMember, if_pos rfl]
        rfl
    unfold answerAt
    split
    · next n role =>
      rw [node?_of_role? role] at absent
      cases absent
    · next prompts received _ =>
      cases prompts with
      | nil => exact scripted _ _
      | cons p rest =>
        unfold answerScripted
        exact (node?_of_same_station ((station?_reconnect _).trans (station?_cutOff _))).trans
          (scripted _ _)
    · exact absent
  · exact (node?_of_same_station (station?_answerAt same)).trans absent

/-- Whatever a member does, who runs no node gets none. -/
theorem absent_endures : Endures (fun c => c.node? x = none) name fun _ => True where
  nextRequest _ absent :=
    ⟨(node?_of_same_station (nextRequest_station name).1).trans absent, fun _ _ => trivial⟩
  broadcast := EnduresAnswers.broadcast
    ⟨fun _ _ members absent => (node?_of_same_station (station?_congr members)).trans absent,
      fun _ sender target task absent => absent_answerAt absent sender target task⟩
    fun _ absent => (node?_of_same_station (station?_takeSendFault name)).trans absent
  count _ := absent_atNode _
  askResync := absent_atNode _
  commit _ _ := absent_stepNode _
  rollback _ _ := absent_atNode _
  settle _ _ _ := absent_stepNode _

theorem absent_issue : EnduresIssue (fun c => c.node? x = none) name fun _ => True where
  take c absent := ⟨absent_atNode _ c absent, fun _ _ => trivial⟩
  back _ := absent_atNode _

end QuorumCommit.Cluster
