import QuorumCommit.Cluster.Commit
import QuorumCommit.Proofs.Node.Session
import QuorumCommit.Proofs.Tally

/-!
The network of a cluster and its nodes. Work on one node changes that node and no other, and
neither the members nor who is cut off; a broadcast does such work on one target after the other.
-/
namespace QuorumCommit

/-- What a member is, apart from what it runs and how many messages it has sent. -/
def Member.seat (m : Member) : Nat × List (Option Fault) := (m.id, m.sendFaults)

namespace Cluster

variable {c c' c'' : Cluster} {x y name : String} {n m : Node}

structure SameNetwork (c c' : Cluster) : Prop where
  partitioned : c'.partitioned = c.partitioned
  seats : ∀ x, (c'.member? x).map Member.seat = (c.member? x).map Member.seat

theorem SameNetwork.refl (c : Cluster) : c.SameNetwork c := ⟨rfl, fun _ => rfl⟩

theorem SameNetwork.trans (h : c.SameNetwork c') (h' : c'.SameNetwork c'') : c.SameNetwork c'' :=
  ⟨h'.partitioned.trans h.partitioned, fun x => (h'.seats x).trans (h.seats x)⟩

theorem SameNetwork.contains (h : c.SameNetwork c') (x : String) :
    c'.members.contains x = c.members.contains x := by
  have isSome (c : Cluster) : c.members.contains x = ((c.member? x).map Member.seat).isSome := by
    unfold member?
    rw [Std.ExtTreeMap.contains_eq_isSome_getElem?, Option.isSome_map]
  rw [isSome c', isSome c, h.seats]

theorem SameNetwork.isOnline (h : c.SameNetwork c') (x : String) :
    c'.isOnline x = c.isOnline x := by
  unfold Cluster.isOnline
  rw [h.contains, h.partitioned]

theorem mem_online : x ∈ c.online ↔ c.isOnline x = true := by
  unfold online isOnline
  rw [Std.ExtTreeSet.mem_ofList, List.contains_iff_mem, List.mem_filter, Std.ExtTreeMap.mem_keys,
    Bool.and_eq_true, Std.ExtTreeMap.contains_iff_mem]

theorem SameNetwork.available (h : c.SameNetwork c') (name : String) :
    c'.available name = c.available name := by
  have online : c'.online = c.online := Std.ExtTreeSet.ext_mem fun x => by
    rw [mem_online, mem_online, h.isOnline]
  unfold Cluster.available
  rw [h.isOnline, online]

/-- A member can always reach itself, and others only if all are online. -/
theorem mem_available (member : c.members.contains name = true) :
    x ∈ c.available name ↔ x = name ∨ (c.isOnline name = true ∧ c.isOnline x = true) := by
  unfold available
  by_cases online : c.isOnline name = true
  · rw [if_pos online, mem_online]
    constructor
    · exact fun h => .inr ⟨online, h⟩
    · rintro (rfl | h)
      · exact online
      · exact h.2
  · rw [if_neg online, Std.ExtTreeSet.mem_ofList, List.contains_iff_mem, List.mem_singleton]
    simp [online]

structure Moved (c : Cluster) (x : String) (n : Node) (c' : Cluster) : Prop where
  network : c.SameNetwork c'
  node : c'.node? x = some n
  others : ∀ y, y ≠ x → c'.node? y = c.node? y

theorem member?_setMember (m : Member) :
    (c.setMember x m).member? y = if y = x then some m else c.member? y := by
  unfold member? setMember
  rw [Std.ExtTreeMap.getElem?_insert]
  simp only [Std.compare_eq_iff_eq]
  grind

theorem node?_eq_some : c.node? x = some n ↔
    ∃ m, c.member? x = some m ∧ m.role = .running n := by
  unfold node? role?
  cases c.member? x with
  | none => simp
  | some m =>
    cases h : m.role <;> simp [h, Role.node?]

/-- What all nodes have can be checked member by member. -/
theorem forall_node_iff {P : Node → Prop} : (∀ x n, c.node? x = some n → P n) ↔
    ∀ m ∈ c.members.toList, ∀ n ∈ m.2.role.node?, P n := by
  constructor
  · rintro all ⟨x, m⟩ mem n running
    rw [Std.ExtTreeMap.mem_toList_iff_getElem?_eq_some] at mem
    refine all x n ?_
    unfold node? role? member?
    rw [mem]
    exact running
  · intro all x n running
    obtain ⟨m, found, role⟩ := node?_eq_some.1 running
    refine all (x, m) (Std.ExtTreeMap.mem_toList_iff_getElem?_eq_some.2 found) n ?_
    rw [role]
    exact rfl

instance {P : Node → Prop} [DecidablePred P] : Decidable (∀ x n, c.node? x = some n → P n) :=
  decidable_of_iff _ forall_node_iff.symm

theorem setMember_moved {m : Member} (member : c.member? x = some m) {m' : Member}
    (seat : m'.seat = m.seat) (n : Node) (role : m'.role = .running n) :
    c.Moved x n (c.setMember x m') := by
  refine ⟨⟨rfl, fun y => ?_⟩, ?_, fun y other => ?_⟩
  · rw [member?_setMember]
    split
    · next eq => rw [eq, member, Option.map_some, Option.map_some, seat]
    · rfl
  · rw [node?_eq_some]
    exact ⟨m', by rw [member?_setMember, if_pos rfl], role⟩
  · unfold node? role?
    rw [member?_setMember, if_neg other]

theorem Moved.trans (h : c.Moved x n c') (h' : c'.Moved x m c'') : c.Moved x m c'' :=
  ⟨h.network.trans h'.network, h'.node, fun y other => (h'.others y other).trans (h.others y other)⟩

/-- What is not a matter of members or partitions has no part in it. -/
theorem Moved.congr (h : c.Moved x n c') (members : c''.members = c'.members)
    (partitioned : c''.partitioned = c'.partitioned) : c.Moved x n c'' := by
  have member (y : String) : c''.member? y = c'.member? y := by
    unfold member?
    rw [members]
  have node (y : String) : c''.node? y = c'.node? y := by
    unfold node? role?
    rw [member]
  refine ⟨⟨partitioned.trans h.network.partitioned, fun y => ?_⟩, ?_, fun y other => ?_⟩
  · rw [member]
    exact h.network.seats y
  · rw [node]
    exact h.node
  · rw [node]
    exact h.others y other

theorem passAsks_members (name : String) (asks : Nat) :
    (c.passAsks name asks).members = c.members ∧
      (c.passAsks name asks).partitioned = c.partitioned := by
  unfold passAsks
  split <;> exact ⟨rfl, rfl⟩

theorem takeBack_moved (running : c.node? x = some n) (n' : Node) :
    c.Moved x n'.seen (c.takeBack x n') := by
  obtain ⟨member, found, -⟩ := node?_eq_some.1 running
  have passed := passAsks_members (c := { c with disk := n'.resources.disk }.setRole x
    (.running { n' with asks := 0 })) x n'.asks
  refine Moved.congr ?_ passed.1 passed.2
  have found : Cluster.member? { c with disk := n'.resources.disk } x = some member := found
  have set : { c with disk := n'.resources.disk }.setRole x (.running { n' with asks := 0 }) =
      { c with disk := n'.resources.disk }.setMember x
        { member with role := .running { n' with asks := 0 } } := by
    unfold setRole onMember
    rw [found]
  rw [set]
  have moved := setMember_moved (c := { c with disk := n'.resources.disk }) found
    (show Member.seat { member with role := .running { n' with asks := 0 } } = _ from rfl)
    n'.seen rfl
  exact ⟨⟨moved.network.partitioned, moved.network.seats⟩, moved.node, moved.others⟩

theorem lend_sameButDisk (c : Cluster) (n : Node) : n.SameButDisk (c.lend n) :=
  ⟨c.disk, n.asks, rfl⟩

/-- Some work on a node, done on the disk that it was lent, and what came of it. -/
def Worked {α : Type} (work : Node → α × Node) (n : Node) (a : α) (n' : Node) : Prop :=
  ∃ m, n.SameButDisk m ∧ (work m).1 = a ∧ n' = (work m).2.seen

theorem atNode_spec {α : Type} (work : Node → α × Node) (running : c.node? x = some n) :
    ∃ a n' c', atNode x work c = (.ok a, c') ∧ c.Moved x n' c' ∧ Worked work n a n' := by
  unfold atNode
  rw [running]
  exact ⟨_, _, _, rfl, takeBack_moved running _, _, lend_sameButDisk c n, rfl, rfl⟩

theorem stepNode_spec {α : Type} (step : Step Node α) (running : c.node? x = some n) :
    ∃ r n' c', stepNode x step c = (r, c') ∧ c.Moved x n' c' ∧ Worked step n r n' := by
  unfold stepNode
  rw [running]
  exact ⟨_, _, _, rfl, takeBack_moved running _, _, lend_sameButDisk c n, rfl, rfl⟩

/-- A step on a node changes the cluster as any work there does. -/
theorem stepNode_snd {α : Type} (step : Step Node α) (c : Cluster) :
    (stepNode x step c).2 = (atNode x (fun n => step n) c).2 := by
  unfold stepNode atNode
  cases c.node? x <;> rfl

theorem nextRequest_spec (running : c.node? x = some n) :
    ∃ request c', nextRequest x c = (.ok request, c') ∧ c.Moved x n c' := by
  obtain ⟨m, found, role⟩ := node?_eq_some.1 running
  have next : c.nextMessage x =
      (m.messages + 1, c.setMember x { m with messages := m.messages + 1 }) := by
    unfold nextMessage
    rw [found]
  have moved := setMember_moved found
    (show Member.seat { m with messages := m.messages + 1 } = m.seat from rfl) n role
  refine ⟨⟨((c.member? x).map (·.id)).getD 0, m.messages + 1⟩, _, ?_, moved⟩
  unfold nextRequest
  rw [next]

theorem getNode_spec (running : c.node? x = some n) : getNode x c = (.ok n, c) := by
  unfold getNode
  rw [running]

/-- Every node of the cluster has changed as `R` tells for its name. -/
structure Evolved (R : String → Node → Node → Prop) (c c' : Cluster) : Prop where
  network : c.SameNetwork c'
  nodes : ∀ x n, c.node? x = some n → ∃ n', c'.node? x = some n' ∧ R x n n'

variable {R S : String → Node → Node → Prop}

theorem Evolved.trans (h : Evolved R c c') (h' : Evolved S c' c'') :
    Evolved (fun x n n'' => ∃ n', R x n n' ∧ S x n' n'') c c'' where
  network := h.network.trans h'.network
  nodes x n running := by
    obtain ⟨n', running', first⟩ := h.nodes x n running
    obtain ⟨n'', running'', second⟩ := h'.nodes x n' running'
    exact ⟨n'', running'', n', first, second⟩

theorem Evolved.mono (h : Evolved R c c')
    (weaker : ∀ x n n', c.node? x = some n → R x n n' → S x n n') : Evolved S c c' where
  network := h.network
  nodes x n running := by
    obtain ⟨n', running', change⟩ := h.nodes x n running
    exact ⟨n', running', weaker x n n' running change⟩

theorem Evolved.refl (c : Cluster) (h : ∀ x n, c.node? x = some n → R x n n) : Evolved R c c :=
  ⟨.refl c, fun x n running => ⟨n, running, h x n running⟩⟩

theorem Moved.evolved {R : Node → Node → Prop} (h : c.Moved x m c')
    (running : c.node? x = some n) (change : R n m) :
    Evolved (fun y k k' => if y = x then R k k' else k' = k) c c' where
  network := h.network
  nodes y k found := by
    by_cases same : y = x
    · subst same
      obtain rfl := Option.mem_unique running found
      exact ⟨m, h.node, by rw [if_pos rfl]; exact change⟩
    · exact ⟨k, by rw [h.others y same, found], by rw [if_neg same]⟩

theorem Moved.evolved_of_refl {R : Node → Node → Prop} (h : c.Moved x m c')
    (running : c.node? x = some n) (refl : ∀ k, R k k) (change : R n m) :
    Evolved (fun _ => R) c c' :=
  (h.evolved running change).mono fun y k k' _ change => by
    split at change
    · exact change
    · rw [change]
      exact refl k

/-- A member runs a node, and its broadcasts meet no fault. -/
def Healthy (c : Cluster) : Prop :=
  ∀ x m, c.member? x = some m → m.sendFaults = [] ∧ ∃ n, m.role = .running n

theorem Healthy.running (h : c.Healthy) (member : c.members.contains x = true) :
    ∃ n, c.node? x = some n := by
  rw [Std.ExtTreeMap.contains_eq_isSome_getElem?, Option.isSome_iff_exists] at member
  obtain ⟨m, found⟩ := member
  obtain ⟨-, n, role⟩ := h x m found
  exact ⟨n, node?_eq_some.2 ⟨m, found, role⟩⟩

theorem contains_of_node? (running : c.node? x = some n) : c.members.contains x = true := by
  obtain ⟨m, found, -⟩ := node?_eq_some.1 running
  rw [Std.ExtTreeMap.contains_eq_isSome_getElem?]
  exact Option.isSome_of_eq_some found

/-- Where all members run nodes, a node is what became of one. -/
theorem Evolved.source (e : Evolved R c c') (h : c.Healthy) {n' : Node}
    (running : c'.node? x = some n') : ∃ n, c.node? x = some n ∧ R x n n' := by
  have member : c.members.contains x = true := by
    rw [← e.network.contains]
    exact contains_of_node? running
  obtain ⟨n, before⟩ := h.running member
  obtain ⟨m, found, change⟩ := e.nodes x n before
  obtain rfl := Option.mem_unique running found
  exact ⟨n, before, change⟩

theorem Healthy.evolved (h : c.Healthy) (e : Evolved R c c') : c'.Healthy := by
  intro x m' found'
  have seat := e.network.seats x
  rw [found', Option.map_some] at seat
  cases found : c.member? x with
  | none =>
    rw [found] at seat
    cases seat
  | some m =>
    rw [found, Option.map_some, Option.some.injEq] at seat
    obtain ⟨faults, n, role⟩ := h x m found
    obtain ⟨n', running', -⟩ := e.nodes x n (node?_eq_some.2 ⟨m, found, role⟩)
    obtain ⟨m'', found'', role''⟩ := node?_eq_some.1 running'
    obtain rfl := Option.mem_unique found' found''
    exact ⟨(congrArg (·.2) seat).trans faults, n', role''⟩

theorem Healthy.available (h : c.Healthy) (running : c.node? name = some n)
    (mem : x ∈ c.available name) : ∃ n, c.node? x = some n := by
  rcases (mem_available (contains_of_node? running)).1 mem with rfl | ⟨-, online⟩
  · exact ⟨n, running⟩
  · unfold isOnline at online
    rw [Bool.and_eq_true] at online
    exact h.running online.1

def Answered (task : Task) : Node → Reply → Node → Prop := Worked (Node.answer task)

/-- A task reaches a node that runs if both ends are online. -/
theorem deliver_spec {sender target : String} (task : Task) (running : c.node? target = some n)
    (sends : c.isOnline sender = true) (hears : c.isOnline target = true) :
    ∃ reply n' c', deliver c sender target task = (some reply, c') ∧ c.Moved target n' c' ∧
      Answered task n reply n' := by
  have sent : Cluster.node? { c with sent := c.sent + 1 } target = some n := running
  have role : role? { c with sent := c.sent + 1 } target = some (.running n) := by
    obtain ⟨m, found, role⟩ := node?_eq_some.1 sent
    unfold role?
    rw [found, Option.map_some, role]
  have moved := takeBack_moved sent ((lend { c with sent := c.sent + 1 } n).answer task).2
  refine ⟨((lend { c with sent := c.sent + 1 } n).answer task).1, _, _, ?_,
    ⟨⟨moved.network.partitioned, moved.network.seats⟩, moved.node, moved.others⟩,
    ⟨_, lend_sameButDisk _ n, rfl, rfl⟩⟩
  have online : (isOnline { c with sent := c.sent + 1 } sender &&
      isOnline { c with sent := c.sent + 1 } target) = true := by
    rw [Bool.and_eq_true]
    exact ⟨sends, hears⟩
  unfold deliver answerAt
  dsimp only
  rw [if_pos online, role]

/-- A broadcast to nodes that can be reached is answered by each of them. -/
theorem deliverAll_spec {sender : String} (task : Task) (mode : ReplyMode)
    {targets : List String} (t : Tally) (sends : c.isOnline sender = true)
    (distinct : targets.Nodup)
    (hears : ∀ x ∈ targets, c.isOnline x = true)
    (running : ∀ x ∈ targets, ∃ n, c.node? x = some n) :
    ∃ (reply : String → Reply) (c' : Cluster), deliverAll sender task mode targets t c =
        (if mode = .awaited then t.receiveAll (targets.map fun x => (x, reply x)) else t, c') ∧
      Evolved (fun x n n' => if x ∈ targets then Answered task n (reply x) n' else n' = n)
        c c' := by
  induction targets generalizing c t with
  | nil =>
    exact ⟨fun _ => .success, c, by simp [deliverAll, Tally.receiveAll],
      .refl c fun x n _ => by simp⟩
  | cons target rest ih =>
    -- Targets are distinct, so what the later ones are told leaves the first as it answered.
    rw [List.forall_mem_cons] at hears running
    rw [List.nodup_cons] at distinct
    obtain ⟨n, here⟩ := running.1
    obtain ⟨first, n', c₁, delivered, moved, answered⟩ :=
      deliver_spec task here sends hears.1
    have later (x : String) (mem : x ∈ rest) : ∃ n, c₁.node? x = some n := by
      obtain ⟨m, there⟩ := running.2 x mem
      exact ⟨m, by rw [moved.others x fun eq => distinct.1 (eq ▸ mem), there]⟩
    obtain ⟨reply, c', rest_eq, evolved⟩ :=
      ih (c := c₁) (if mode = .awaited then t.receive target first else t)
        ((moved.network.isOnline sender).trans sends) distinct.2
        (fun x mem => (moved.network.isOnline x).trans (hears.2 x mem)) later
    refine ⟨fun x => if x = target then first else reply x, c', ?_, ?_⟩
    · have same : (rest.map fun x => (x, if x = target then first else reply x)) =
          rest.map fun x => (x, reply x) := by
        refine List.map_congr_left fun x mem => ?_
        have other : x ≠ target := fun eq => distinct.1 (eq ▸ mem)
        rw [if_neg other]
      unfold deliverAll
      rw [delivered]
      dsimp only
      rw [rest_eq]
      rw [List.map_cons, same]
      cases mode with
      | awaited => simp [Tally.receiveAll]
      | ignored => simp
    · have step := moved.evolved (R := fun n n' => Answered task n first n') here answered
      refine (step.trans evolved).mono fun x m m'' _ change => ?_
      obtain ⟨m', first_change, later_change⟩ := change
      by_cases same : x = target
      · subst same
        rw [if_pos rfl] at first_change
        rw [if_neg distinct.1] at later_change
        subst later_change
        rw [if_pos List.mem_cons_self]
        simpa using first_change
      · rw [if_neg same] at first_change
        subst first_change
        simp only [List.mem_cons, same, false_or, if_false]
        exact later_change

def targets (c : Cluster) (name : String) : List String :=
  (c.available name).toList.filter (· ≠ name)

theorem mem_targets : x ∈ c.targets name ↔ x ∈ c.available name ∧ x ≠ name := by
  unfold targets
  rw [List.mem_filter, Std.ExtTreeSet.mem_toList, decide_eq_true_eq]

theorem targets_online (member : c.members.contains name = true) (mem : x ∈ c.targets name) :
    c.isOnline name = true ∧ c.isOnline x = true := by
  rw [mem_targets, mem_available member] at mem
  exact mem.1.resolve_left mem.2

theorem targets_nodup (c : Cluster) (name : String) : (c.targets name).Nodup :=
  (nodup_toList _).filter _

theorem size_available (member : c.members.contains name = true) :
    (c.available name).size = (c.targets name).length + 1 := by
  have mem : name ∈ (c.available name).toList :=
    Std.ExtTreeSet.mem_toList.2 ((mem_available member).2 (.inl rfl))
  have length := List.length_erase_of_mem mem
  rw [(nodup_toList _).erase_eq_filter, Std.ExtTreeSet.length_toList] at length
  have pos : 0 < (c.available name).size := by
    rw [← Std.ExtTreeSet.length_toList]
    exact List.length_pos_of_mem mem
  have same : c.targets name = (c.available name).toList.filter (· != name) := by
    unfold targets
    refine List.filter_congr fun x _ => ?_
    rw [Bool.eq_iff_iff, decide_eq_true_eq, bne_iff_ne]
  rw [same]
  omega

/-- A task for all that the sender can reach is answered by each of them. -/
theorem broadcast_spec (task : Task) (mode : ReplyMode) (t : Tally) (healthy : c'.Healthy)
    (network : c.SameNetwork c') (member : c.members.contains name = true) :
    ∃ (reply : String → Reply) (c'' : Cluster),
      broadcast name (c.targets name) task mode t c' =
        (.ok (if mode = .awaited then
          t.receiveAll ((c.targets name).map fun x => (x, reply x)) else t), c'') ∧
      Evolved (fun x n n' =>
        if x ∈ c.targets name then Answered task n (reply x) n' else n' = n) c' c'' := by
  have quiet : c'.takeSendFault name = (none, c') := by
    unfold takeSendFault
    cases found : c'.member? name with
    | none => rfl
    | some m => simp [(healthy name m found).1]
  have others : (c.targets name).filter (· ≠ name) = c.targets name :=
    List.filter_eq_self.2 fun x mem => by
      rw [decide_eq_true_eq]
      exact (mem_targets.1 mem).2
  have online (x : String) (mem : x ∈ c.targets name) :
      c'.isOnline name = true ∧ c'.isOnline x = true := by
    rw [network.isOnline, network.isOnline]
    exact targets_online member mem
  have running (x : String) (mem : x ∈ c.targets name) : ∃ n, c'.node? x = some n := by
    refine healthy.running ?_
    have online := (online x mem).2
    unfold isOnline at online
    rw [Bool.and_eq_true] at online
    exact online.1
  unfold broadcast
  rw [quiet]
  dsimp only
  rw [others]
  by_cases alone : c.targets name = []
  · rw [alone]
    exact ⟨fun _ => .success, c', by simp [deliverAll, Tally.receiveAll],
      .refl c' fun x n _ => by simp⟩
  · obtain ⟨target, mem⟩ := List.exists_mem_of_ne_nil _ alone
    obtain ⟨reply, c'', delivered, evolved⟩ := deliverAll_spec task mode t (online target mem).1
      (targets_nodup c name) (fun x mem => (online x mem).2) running
    exact ⟨reply, c'', by rw [delivered], evolved⟩

theorem notify_spec (task : Task) (healthy : c'.Healthy) (network : c.SameNetwork c')
    (member : c.members.contains name = true) :
    ∃ (reply : String → Reply) (c'' : Cluster),
      notify name (c.targets name) task c' = (.ok (), c'') ∧
      Evolved (fun x n n' =>
        if x ∈ c.targets name then Answered task n (reply x) n' else n' = n) c' c'' := by
  obtain ⟨reply, c'', sent, evolved⟩ := broadcast_spec task .ignored
    (Tally.start task.request (Std.ExtTreeSet.ofList (c.targets name)) (c.targets name).length 0)
    healthy network member
  refine ⟨reply, c'', ?_, evolved⟩
  unfold notify
  simp only [Step.run_apply]
  rw [sent]

end Cluster

end QuorumCommit
