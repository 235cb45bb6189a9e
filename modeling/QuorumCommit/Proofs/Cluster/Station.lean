import QuorumCommit.Proofs.Cluster.Network

/-!
One member of a cluster. What other members do, and whatever happens to the network, leaves a member
what it is and what it runs; a task that it sends itself never comes back to it.
-/
namespace QuorumCommit.Cluster

variable {c c' : Cluster} {x y name : String} {n : Node} {task : Task}

def station? (c : Cluster) (name : String) : Option (Nat × Role) :=
  (c.member? name).map fun m => (m.id, m.role)

theorem station?_congr (members : c'.members = c.members) : c'.station? x = c.station? x := by
  unfold station? member?
  rw [members]

theorem station?_setMember (m : Member) :
    (c.setMember x m).station? y = if y = x then some (m.id, m.role) else c.station? y := by
  unfold station?
  rw [member?_setMember]
  split <;> rfl

/-- Messages and faults to come are no part of it. -/
theorem station?_setMember_of_same {m m' : Member} (found : c.member? x = some m)
    (same : (m'.id, m'.role) = (m.id, m.role)) : (c.setMember x m').station? y = c.station? y := by
  rw [station?_setMember]
  split
  · next eq =>
    subst eq
    unfold station?
    rw [found, Option.map_some, same]
  · rfl

theorem station?_setRole (role : Role) : (c.setRole x role).station? y =
    if y = x then (c.station? x).map fun s => (s.1, role) else c.station? y := by
  unfold setRole onMember
  cases found : c.member? x with
  | none =>
    dsimp only
    split
    · next eq =>
      subst eq
      unfold station?
      rw [found]
      rfl
    · rfl
  | some m =>
    dsimp only
    rw [station?_setMember]
    split
    · unfold station?
      rw [found]
      rfl
    · rfl

theorem node?_of_station? {own : Nat} (h : c.station? x = some (own, .running n)) :
    c.node? x = some n := by
  obtain ⟨m, found, eq⟩ := Option.map_eq_some_iff.1 h
  exact node?_eq_some.2 ⟨m, found, (congrArg (·.2) eq :)⟩

theorem node?_of_role? (role : c.role? x = some (.running n)) : c.node? x = some n := by
  unfold node?
  rw [role]
  rfl

/-- Which node a member runs is a matter of its station. -/
theorem node?_of_same_station (same : c'.station? x = c.station? x) : c'.node? x = c.node? x := by
  have station (c : Cluster) : c.node? x = (c.station? x).bind fun s => s.2.node? := by
    unfold node? role? station?
    cases c.member? x <;> rfl
  rw [station, station, same]

theorem station?_takeBack (n : Node) : (c.takeBack x n).station? y =
    if y = x then (c.station? x).map fun s => (s.1, .running n.seen) else c.station? y := by
  unfold takeBack
  refine (station?_congr (passAsks_members x n.asks).1).trans ?_
  refine (station?_setRole _).trans ?_
  rfl

/-- Taken back, the node is what the member runs. -/
theorem takeBack_running {own : Nat} (station : c.station? x = some (own, .running n)) (m : Node) :
    (c.takeBack x m).station? x = some (own, .running m.seen) := by
  rw [station?_takeBack, if_pos rfl, station]
  rfl

theorem station?_cutOff (names : List String) : (c.cutOff names).station? x = c.station? x := by
  induction names generalizing c with
  | nil => rfl
  | cons _ rest ih => exact ih.trans rfl

theorem station?_reconnect (names : List String) :
    (c.reconnect names).station? x = c.station? x := by
  induction names generalizing c with
  | nil => rfl
  | cons _ rest ih => exact ih.trans rfl

theorem station?_answerAt {sender target : String} (other : x ≠ target) :
    (c.answerAt sender target task).2.station? x = c.station? x := by
  have set (role : Role) : (c.setRole target role).station? x = c.station? x :=
    (station?_setRole role).trans (if_neg other)
  unfold answerAt
  split
  · exact (station?_takeBack _).trans (if_neg other)
  · next prompts received _ =>
    cases prompts with
    | nil => exact set _
    | cons p rest => exact (station?_reconnect _).trans ((station?_cutOff _).trans (set _))
  · rfl

/-- A task reaches the node that a member runs. -/
theorem answerAt_of_station? {own : Nat} (h : c.station? x = some (own, .running n))
    (sender : String) (task : Task) : c.answerAt sender x task =
      (some ((c.lend n).answer task).1, c.takeBack x ((c.lend n).answer task).2) := by
  have role : c.role? x = some (.running n) := by
    obtain ⟨m, found, eq⟩ := Option.map_eq_some_iff.1 h
    have running : m.role = .running n := (congrArg (·.2) eq :)
    unfold role?
    rw [found, Option.map_some, running]
  unfold answerAt
  rw [role]

theorem station?_deliver {sender target : String} (other : x ≠ target) :
    (c.deliver sender target task).2.station? x = c.station? x := by
  unfold deliver
  dsimp only
  split
  · have answered : (answerAt { c with sent := c.sent + 1 } sender target task).2.station? x =
        c.station? x := station?_answerAt other
    rcases eq : answerAt { c with sent := c.sent + 1 } sender target task with ⟨_ | reply, c'⟩
    · rw [eq] at answered
      exact answered
    · rw [eq] at answered
      exact answered
  · rfl

theorem station?_deliverAll {sender : String} (mode : ReplyMode) {targets : List String} (t : Tally)
    (others : x ∉ targets) :
    (deliverAll sender task mode targets t c).2.station? x = c.station? x := by
  induction targets generalizing c t with
  | nil => rfl
  | cons target rest ih =>
    rw [List.mem_cons, not_or] at others
    have delivered : (c.deliver sender target task).2.station? x = c.station? x :=
      station?_deliver others.1
    unfold deliverAll
    rcases eq : c.deliver sender target task with ⟨_ | reply, c'⟩
    · rw [eq] at delivered
      exact (ih t others.2).trans delivered
    · rw [eq] at delivered
      exact (ih _ others.2).trans delivered

theorem station?_takeSendFault (name : String) :
    (c.takeSendFault name).2.station? x = c.station? x := by
  unfold takeSendFault
  split
  · rfl
  · next m found =>
    split
    · rfl
    · exact station?_setMember_of_same found rfl

/-- A member does not send to itself. -/
theorem station?_broadcast {sender : String} (targets : List String) (mode : ReplyMode)
    (t : Tally) :
    (broadcast sender targets task mode t c).2.station? sender = c.station? sender := by
  have taken := station?_takeSendFault (c := c) (x := sender) sender
  unfold broadcast
  rcases eq : c.takeSendFault sender with ⟨_ | fault, c'⟩
  · rw [eq] at taken
    refine (station?_deliverAll mode t ?_).trans taken
    simp
  · rw [eq] at taken
    exact taken

theorem station?_notify {sender : String} (targets : List String) :
    (notify sender targets task c).2.station? sender = c.station? sender := by
  unfold notify
  exact station?_broadcast targets .ignored _

/-- A request is under the id of the member that it is for. -/
theorem nextRequest_station (name : String) :
    (nextRequest name c).2.station? x = c.station? x ∧
      ∀ own role, c.station? name = some (own, role) →
        ∃ message, (nextRequest name c).1 = .ok ⟨own, message⟩ := by
  unfold nextRequest nextMessage
  cases found : c.member? name with
  | none =>
    refine ⟨rfl, fun own role known => ?_⟩
    unfold station? at known
    rw [found] at known
    cases known
  | some m =>
    refine ⟨station?_setMember_of_same found rfl, fun own role known => ?_⟩
    unfold station? at known
    rw [found, Option.map_some, Option.some.injEq, Prod.mk.injEq] at known
    exact ⟨m.messages + 1, by rw [← known.1]; rfl⟩

end QuorumCommit.Cluster
