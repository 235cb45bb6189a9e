import QuorumCommit.Cluster.Schema
import QuorumCommit.Proofs.Cluster.Station

/-!
First phases. An attempt to commit a change set, and a round for a command, first ask everyone and
then decide by the answers; here the two are told apart, so that it can be said who answered what.
-/
namespace QuorumCommit.Cluster

variable {c c' : Cluster} {name sender : String} {task : Task} {targets : List String}

/-- Delivers a task to each target in turn, with the answers; who cannot be reached gives none. -/
def ask (sender : String) (task : Task) :
    List String → Cluster → List (String × Reply) × Cluster
  | [], c => ([], c)
  | target :: rest, c =>
    match c.deliver sender target task with
    | (some reply, c) =>
      let (replies, c) := ask sender task rest c
      ((target, reply) :: replies, c)
    | (none, c) => ask sender task rest c

def askAll (sender : String) (targets : List String) (task : Task) :
    Step Cluster (List (String × Reply)) := fun c =>
  match c.takeSendFault sender with
  | (some fault, c) => (.error fault, c)
  | (none, c) =>
    let (replies, c) := ask sender task (targets.filter (· ≠ sender)) c
    (.ok replies, c)

/-- A tally of a broadcast counts just what is answered. -/
theorem deliverAll_awaited (t : Tally) : deliverAll sender task .awaited targets t c =
    (t.receiveAll (ask sender task targets c).1, (ask sender task targets c).2) := by
  induction targets generalizing c t with
  | nil => rfl
  | cons target rest ih =>
    unfold deliverAll ask
    rcases c.deliver sender target task with ⟨_ | reply, c'⟩
    · exact ih t
    · exact ih (t.receive target reply)

theorem broadcast_awaited (t : Tally) : broadcast sender targets task .awaited t =
    (do
      let replies ← askAll sender targets task
      pure (t.receiveAll replies) : Step Cluster Tally) := by
  funext c
  rw [Step.bind_apply]
  unfold broadcast askAll
  rcases c.takeSendFault sender with ⟨_ | fault, c'⟩
  · dsimp only
    rw [deliverAll_awaited]
    rfl
  · rfl

/-- A member does not ask itself. -/
theorem station?_askAll {result : Except Fault (List (String × Reply))}
    (asked : askAll sender targets task c = (result, c')) :
    c'.station? sender = c.station? sender := by
  have same : (broadcast sender targets task .awaited (Tally.start task.request ∅ 0 0)
      c).2.station? sender = c.station? sender :=
    station?_broadcast targets .awaited _
  rw [broadcast_awaited, Step.bind_apply, asked] at same
  cases result <;> exact same

/-- Nobody answers out of turn. -/
theorem ask_names : ((ask sender task targets c).1.map (·.1)).Sublist targets := by
  induction targets generalizing c with
  | nil => exact .slnil
  | cons target rest ih =>
    unfold ask
    rcases c.deliver sender target task with ⟨_ | reply, c'⟩
    · exact ih.cons target
    · exact ih.cons_cons target

theorem askAll_names {replies : List (String × Reply)}
    (asked : askAll sender targets task c = (.ok replies, c')) :
    (replies.map (·.1)).Sublist (targets.filter (· ≠ sender)) := by
  unfold askAll at asked
  rcases eq : c.takeSendFault sender with ⟨_ | fault, c₁⟩
  · rw [eq] at asked
    cases asked
    exact ask_names
  · rw [eq] at asked
    cases asked

/-- A first phase: the ids that it offers, whom it counts, how many it needs, and what each of them
answered. -/
structure Poll where
  ids : List TxId
  request : RequestId
  nodes : Std.ExtTreeSet String
  quorum : Nat
  replies : List (String × Reply)

namespace Poll

def tally (p : Poll) : Tally :=
  (Tally.start p.request p.nodes p.nodes.size p.quorum).receiveAll p.replies

def commits (p : Poll) : Bool := p.tally.result matches .ok .success

theorem commits_iff {p : Poll} : p.commits = true ↔ p.tally.result = .ok .success := by
  unfold commits
  split
  · next decided => simp [decided]
  · next other => exact iff_of_false Bool.false_ne_true other

def voters (p : Poll) : List String := (p.replies.filter (·.2.isSuccess)).map (·.1)

/-- Whoever answered was to be counted, and answered once. -/
structure Regular (p : Poll) : Prop where
  known : ∀ q ∈ p.replies, q.1 ∈ p.nodes
  distinct : (p.replies.map (·.1)).Nodup

theorem Regular.counted {p : Poll} (h : p.Regular) : p.tally.replies = p.replies := by
  unfold tally
  rw [Tally.receiveAll_of_admits h.known h.distinct (by simp [Tally.start])]
  rfl

theorem Regular.voters_nodup {p : Poll} (h : p.Regular) : p.voters.Nodup :=
  (List.filter_sublist.map _).nodup h.distinct

theorem mem_voters {p : Poll} {x : String} : x ∈ p.voters ↔ (x, .success) ∈ p.replies := by
  unfold voters
  simp only [List.mem_map, List.mem_filter, Prod.exists]
  constructor
  · rintro ⟨_, reply, ⟨mem, success⟩, rfl⟩
    cases reply with
    | success => exact mem
    | _ => cases success
  · exact fun mem => ⟨x, .success, ⟨mem, rfl⟩, rfl⟩

/-- A decision for success has a quorum of voters behind it. -/
theorem Regular.quorum_le {p : Poll} (h : p.Regular) (decided : p.tally.result = .ok .success) :
    p.quorum ≤ p.voters.length := by
  have votes := Tally.quorum_of_result decided
  have quorum : p.tally.quorum = p.quorum := by
    unfold tally
    rw [Tally.receiveAll_of_admits h.known h.distinct (by simp [Tally.start])]
    rfl
  rw [Tally.votes_success, h.counted, quorum] at votes
  unfold voters
  rw [List.length_map, ← List.countP_eq_length_filter]
  refine Nat.le_trans votes (List.countP_mono_left fun q _ success => ?_)
  rw [of_decide_eq_true success]
  rfl

end Poll

/-- Puts a change set to the vote of others, if there are any. If it cannot be sent, the origin
gives it up. -/
def askOthers (name : String) (request : RequestId) (id : TxId) (final : ChangeSet)
    (targets : List String) : Step Cluster (List (String × Reply)) :=
  if targets.isEmpty then pure []
  else
    tryCatch (askAll name targets (.firstPhase request id final)) fun fault => do
      rollbackAt name request
      throw fault

def poll (name : String) (id : TxId) (changes : ChangeSet) : Step Cluster (ChangeSet × Poll) := do
  let nodes := (← get).available name
  let quorum := (← getNode name).settings.replication.maxWriteQuorum
    changes.clusters.toList nodes.size
  requireQuorum name quorum nodes
  let request ← nextRequest name
  let targets := nodes.toList.filter (· ≠ name)
  let final ← prepareAtOrigin name request id changes targets.isEmpty
  let others ← askOthers name request id final targets
  pure (final, ⟨[id], request, nodes, quorum, (name, .success) :: others⟩)

/-- The second phase of an attempt. A change set that nobody else was asked about is applied
already. -/
def conclude (name : String) (final : ChangeSet) (p : Poll) : Step Cluster ChangeSet :=
  let targets := p.nodes.toList.filter (· ≠ name)
  if targets.isEmpty then pure final
  else do
    notify name targets (.secondPhase p.request p.commits)
    if p.commits then
      let _ ← stepNode name (Node.commit p.request)
      pure final
    else
      rollbackAt name p.request
      throw (refusal p.tally.result)

theorem submit_eq (name : String) (id : TxId) (changes : ChangeSet) :
    submit name id changes = (do
      let (final, p) ← poll name id changes
      conclude name final p : Step Cluster ChangeSet) := by
  unfold submit poll
  simp only [bind_assoc]
  refine bind_congr fun c => bind_congr fun n => bind_congr fun _ => bind_congr fun request =>
    bind_congr fun final => ?_
  by_cases alone : ((c.available name).toList.filter (· ≠ name)).isEmpty = true
  · rw [askOthers, if_pos alone, if_pos alone, pure_bind, pure_bind]
    unfold conclude
    rw [if_pos alone]
  · rw [askOthers, if_neg alone, if_neg alone, broadcast_awaited]
    funext c₁
    simp only [Step.bind_apply, Step.tryCatch_apply]
    rcases askAll name ((c.available name).toList.filter (· ≠ name))
      (.firstPhase request id final) c₁ with ⟨fault | replies, c₂⟩
    · dsimp only
      rcases rollbackAt name request c₂ with ⟨_ | _, c₃⟩ <;> rfl
    · simp only [Step.pure_apply]
      unfold conclude
      rw [if_neg alone]
      rfl

def begin (name : String) (number : Nat) : Step Cluster TxId := do
  if 1 < number then atNode name fun n => ((), n.count .retries)
  takeId name

theorem attempt_eq (name : String) (changes : ChangeSet) (number : Nat) :
    attempt name changes number = (do
      let id ← begin name number
      tryCatch
        (do
          let final ← submit name id changes
          pure ⟨id, final⟩)
        fun fault => do
          giveBackId name id
          throw fault : Step Cluster Committed) := by
  unfold attempt begin
  split
  · exact (bind_assoc _ _ _).symm
  · rfl

def attemptPoll (name : String) (changes : ChangeSet) (number : Nat) :
    Step Cluster (ChangeSet × Poll) := do
  let id ← begin name number
  poll name id changes

def askSchema (name command : String) (before after : TxId) (request : RequestId)
    (nodes : Std.ExtTreeSet String) (quorum : Nat) : Step Cluster Poll := do
  let reply ← atNode name (Node.prepareSchema request command before after)
  let others ← askAll name (nodes.toList.filter (· ≠ name))
    (.schemaFirstPhase request command before after)
  pure ⟨[before, after], request, nodes, quorum, (name, reply) :: others⟩

def schemaPoll (name command : String) (before after : TxId) : Step Cluster Poll := do
  let request ← nextRequest name
  let nodes := (← get).available name
  let quorum := (← getNode name).settings.replication.maxWriteQuorum [] nodes.size
  requireQuorum name quorum nodes
  askSchema name command before after request nodes quorum

def round (name command : String) : Step Cluster Tally.SchemaDecision := do
  let before ← takeId name
  let after ← takeId name
  schemaRound name command before after

/-- A run of a command is one round after the other. -/
theorem schemaRounds_succ (name command : String) (rounds : Nat) (last : Fault) (more : Nat) :
    schemaRounds name command rounds last (more + 1) = (do
      match ← round name command with
      | .apply => pure ()
      | .abort fault => throw fault
      | .retry fault => do
        atNode name fun n => ((), n.count .retries)
        schemaRounds name command rounds fault more : Step Cluster Unit) := by
  rw [schemaRounds, round, bind_assoc]
  exact bind_congr fun before => (bind_assoc _ _ _).symm

def roundPoll (name command : String) : Step Cluster Poll := do
  let before ← takeId name
  let after ← takeId name
  schemaPoll name command before after

/-- The sender and those that it asked, each once. -/
theorem regular_of_asked {ids : List TxId} {request : RequestId} {quorum : Nat} {reply : Reply}
    {nodes : Std.ExtTreeSet String} {others : List (String × Reply)} (sender : name ∈ nodes)
    (asked : (others.map (·.1)).Sublist ((nodes.toList.filter (· ≠ name)).filter (· ≠ name))) :
    (Poll.mk ids request nodes quorum ((name, reply) :: others)).Regular where
  known := by
    intro q mem
    rcases List.mem_cons.1 mem with rfl | mem
    · exact sender
    · have listed := asked.subset (List.mem_map.2 ⟨q, mem, rfl⟩)
      simp only [List.mem_filter, Std.ExtTreeSet.mem_toList] at listed
      exact listed.1.1
  distinct := by
    rw [List.map_cons, List.nodup_cons]
    refine ⟨fun mem => ?_, asked.nodup (((nodup_toList nodes).filter _).filter _)⟩
    have listed := asked.subset mem
    simp at listed

/-- Counting an attempt and taking an id for it leaves the network alone. -/
theorem begin_moved {number : Nat} {id : TxId} (ok : begin name number c = (.ok id, c')) :
    ∃ n n', c.node? name = some n ∧ c.Moved name n' c' ∧ n'.settings = n.settings := by
  have take {c c' : Cluster} {id : TxId} (ok : takeId name c = (.ok id, c')) :
      ∃ n n', c.node? name = some n ∧ c.Moved name n' c' ∧ n'.settings = n.settings := by
    cases running : c.node? name with
    | none =>
      unfold takeId atNode at ok
      rw [running] at ok
      cases ok
    | some n =>
      obtain ⟨_, n', c₁, taken, moved, m, ⟨_, _, rfl⟩, -, rfl⟩ := atNode_spec
        (fun n => (n.sequencer.nextId.1, n.withSequencer n.sequencer.nextId.2)) running
      have taken : takeId name c = (.ok _, c₁) := taken
      rw [taken] at ok
      cases ok
      exact ⟨n, _, rfl, moved, rfl⟩
  unfold begin at ok
  split at ok
  · obtain ⟨⟨⟩, c₁, counted, taken⟩ := Step.bind_eq_ok.1 ok
    obtain ⟨n₁, n₂, running₁, moved₂, settings₂⟩ := take taken
    cases running : c.node? name with
    | none =>
      unfold atNode at counted
      rw [running] at counted
      cases counted
    | some n =>
      obtain ⟨_, n', _, done, moved, m, ⟨_, _, rfl⟩, -, rfl⟩ :=
        atNode_spec (fun n => ((), n.count .retries)) running
      rw [done] at counted
      cases counted
      obtain rfl := Option.mem_unique running₁ moved.node
      exact ⟨n, n₂, rfl, moved.trans moved₂, settings₂⟩
  · exact take ok

theorem requireQuorum_ok {quorum : Nat} {nodes : Std.ExtTreeSet String}
    (ok : requireQuorum name quorum nodes c = (.ok (), c')) : quorum ≤ nodes.size ∧ c = c' := by
  unfold requireQuorum at ok
  split at ok
  · obtain ⟨_, _, _, thrown⟩ := Step.bind_eq_ok.1 ok
    cases thrown
  · cases ok
    exact ⟨by omega, rfl⟩

theorem getNode_ok {n : Node} (ok : getNode name c = (.ok n, c')) :
    c.node? name = some n ∧ c = c' := by
  unfold getNode at ok
  split at ok
  · cases ok
  · next running =>
    cases ok
    exact ⟨running, rfl⟩

/-- What a first phase counts, and how many votes it needs, is told by the members that can be
reached and by the settings of the origin; and the origin has voted for its change set. -/
structure Poll.Of (p : Poll) (c : Cluster) (name : String) (clusters : List String) : Prop where
  regular : p.Regular
  nodes : p.nodes = c.available name
  quorum : ∃ n, c.node? name = some n ∧
    p.quorum = n.settings.replication.maxWriteQuorum clusters p.nodes.size
  enough : p.quorum ≤ p.nodes.size
  sender : name ∈ p.voters

/-- The steps of a first phase that comes about. -/
theorem poll_parts {id : TxId} {changes final : ChangeSet} {p : Poll}
    (ok : poll name id changes c = (.ok (final, p), c')) : ∃ n request c₁ c₂ others,
    c.node? name = some n ∧ p.quorum ≤ p.nodes.size ∧
      nextRequest name c = (.ok request, c₁) ∧
      prepareAtOrigin name request id changes
        ((c.available name).toList.filter (· ≠ name)).isEmpty c₁ = (.ok final, c₂) ∧
      askOthers name request id final ((c.available name).toList.filter (· ≠ name)) c₂ =
        (.ok others, c') ∧
      p = ⟨[id], request, c.available name, n.settings.replication.maxWriteQuorum
        changes.clusters.toList (c.available name).size, (name, .success) :: others⟩ := by
  obtain ⟨_, _, got, ok⟩ := Step.bind_eq_ok.1 ok
  cases got
  obtain ⟨n, _, got, ok⟩ := Step.bind_eq_ok.1 ok
  obtain ⟨running, rfl⟩ := getNode_ok got
  obtain ⟨⟨⟩, _, passed, ok⟩ := Step.bind_eq_ok.1 ok
  obtain ⟨enough, rfl⟩ := requireQuorum_ok passed
  obtain ⟨request, c₁, called, ok⟩ := Step.bind_eq_ok.1 ok
  obtain ⟨placed, c₂, prepared, ok⟩ := Step.bind_eq_ok.1 ok
  obtain ⟨others, c₃, asked, ok⟩ := Step.bind_eq_ok.1 ok
  cases ok
  exact ⟨n, request, c₁, c₂, others, running, enough, called, prepared, asked, rfl⟩

/-- Others are asked once the change set is prepared, unless there are none. -/
theorem askOthers_ok {request : RequestId} {id : TxId} {final : ChangeSet}
    {others : List (String × Reply)}
    (ok : askOthers name request id final targets c = (.ok others, c')) :
    targets = [] ∧ others = [] ∧ c' = c ∨
      targets ≠ [] ∧ askAll name targets (.firstPhase request id final) c = (.ok others, c') := by
  unfold askOthers at ok
  split at ok
  · next none =>
    cases ok
    exact .inl ⟨List.isEmpty_iff.1 none, rfl, rfl⟩
  · next some =>
    refine .inr ⟨fun none => some (List.isEmpty_iff.2 none), ?_⟩
    rw [Step.tryCatch_apply] at ok
    split at ok
    · next eq =>
      cases ok
      exact eq
    · obtain ⟨_, _, _, thrown⟩ := Step.bind_eq_ok.1 ok
      cases thrown

theorem poll_of {id : TxId} {changes final : ChangeSet} {p : Poll}
    (ok : poll name id changes c = (.ok (final, p), c')) :
    p.ids = [id] ∧ p.Of c name changes.clusters.toList := by
  obtain ⟨n, request, c₁, c₂, others, running, enough, -, -, asked, rfl⟩ := poll_parts ok
  have names : (others.map (·.1)).Sublist
      (((c.available name).toList.filter (· ≠ name)).filter (· ≠ name)) := by
    rcases askOthers_ok asked with ⟨-, rfl, -⟩ | ⟨-, asked⟩
    · exact List.nil_sublist _
    · exact askAll_names asked
  have sender : name ∈ c.available name := (mem_available (contains_of_node? running)).2 (.inl rfl)
  exact ⟨rfl, regular_of_asked sender names, rfl, ⟨n, running, rfl⟩, enough,
    Poll.mem_voters.2 List.mem_cons_self⟩

/-- The steps of the first phase of a round that comes about. -/
theorem schemaPoll_parts {command : String} {before after : TxId} {p : Poll}
    (ok : schemaPoll name command before after c = (.ok p, c')) :
    ∃ n request c₁ reply c₂ others quorum, nextRequest name c = (.ok request, c₁) ∧
      c₁.node? name = some n ∧
      atNode name (Node.prepareSchema request command before after) c₁ = (.ok reply, c₂) ∧
      askAll name ((c₁.available name).toList.filter (· ≠ name))
        (.schemaFirstPhase request command before after) c₂ = (.ok others, c') ∧
      p = ⟨[before, after], request, c₁.available name, quorum, (name, reply) :: others⟩ := by
  obtain ⟨request, c₁, called, ok⟩ := Step.bind_eq_ok.1 ok
  obtain ⟨_, _, got, ok⟩ := Step.bind_eq_ok.1 ok
  cases got
  obtain ⟨n, _, got, ok⟩ := Step.bind_eq_ok.1 ok
  obtain ⟨running, rfl⟩ := getNode_ok got
  obtain ⟨⟨⟩, _, passed, ok⟩ := Step.bind_eq_ok.1 ok
  obtain ⟨-, rfl⟩ := requireQuorum_ok passed
  obtain ⟨reply, c₂, judged, ok⟩ := Step.bind_eq_ok.1 ok
  obtain ⟨others, c₃, asked, ok⟩ := Step.bind_eq_ok.1 ok
  cases ok
  exact ⟨n, request, c₁, reply, c₂, others, _, called, running, judged, asked, rfl⟩

theorem schemaPoll_regular {command : String} {before after : TxId} {p : Poll}
    (ok : schemaPoll name command before after c = (.ok p, c')) : p.Regular := by
  obtain ⟨n, request, c₁, reply, c₂, others, quorum, -, running, -, asked, rfl⟩ :=
    schemaPoll_parts ok
  have sender := (mem_available (contains_of_node? running)).2 (.inl rfl)
  exact regular_of_asked sender (askAll_names asked)

/-- What is reported of an id of the origin is found among the replies. -/
theorem schemaPoll_reported {command : String} {before after id : TxId} {p : Poll} {x : String}
    (ok : schemaPoll name command before after c = (.ok p, c'))
    (reported : (x, .invalid id .alreadyPresent) ∈ p.replies) :
    id ∈ p.tally.committedElsewhere id.origin := by
  unfold Tally.committedElsewhere
  rw [(schemaPoll_regular ok).counted, List.mem_filterMap]
  exact ⟨_, reported, if_pos rfl⟩

/-- A second phase that succeeds has told all to commit, and the origin has done so. -/
theorem conclude_ok {final final' : ChangeSet} {p : Poll}
    (ok : conclude name final p c = (.ok final', c')) : final' = final ∧
      (p.nodes.toList.filter (· ≠ name) = [] ∧ c' = c ∨
        p.tally.result = .ok .success ∧ ∃ c₁ waited,
          notify name (p.nodes.toList.filter (· ≠ name)) (.secondPhase p.request true) c =
            (.ok (), c₁) ∧ stepNode name (Node.commit p.request) c₁ = (.ok waited, c')) := by
  unfold conclude at ok
  split at ok
  · next alone =>
    cases ok
    exact ⟨rfl, .inl ⟨List.isEmpty_iff.1 alone, rfl⟩⟩
  · obtain ⟨⟨⟩, c₁, told, ok⟩ := Step.bind_eq_ok.1 ok
    split at ok
    · next decided =>
      rw [decided] at told
      obtain ⟨waited, c₂, committed, ok⟩ := Step.bind_eq_ok.1 ok
      cases ok
      exact ⟨rfl, .inr ⟨Poll.commits_iff.1 decided, c₁, waited, told, committed⟩⟩
    · obtain ⟨_, _, _, thrown⟩ := Step.bind_eq_ok.1 ok
      cases thrown

/-- An attempt that succeeds has asked first, and then concluded from the answers. -/
theorem attempt_ok {changes : ChangeSet} {number : Nat} {done : Committed}
    (ok : attempt name changes number c = (.ok done, c')) :
    ∃ p c₁, attemptPoll name changes number c = (.ok (done.changes, p), c₁) ∧
      p.ids = [done.id] ∧ p.Of c name changes.clusters.toList ∧
      conclude name done.changes p c₁ = (.ok done.changes, c') := by
  rw [attempt_eq] at ok
  obtain ⟨id, c₁, begun, ok⟩ := Step.bind_eq_ok.1 ok
  rw [Step.tryCatch_apply] at ok
  split at ok
  · next eq =>
    cases ok
    obtain ⟨final, c₂, submitted, ok⟩ := Step.bind_eq_ok.1 eq
    cases ok
    rw [submit_eq] at submitted
    obtain ⟨⟨final', p⟩, c₃, polled, concluded⟩ := Step.bind_eq_ok.1 submitted
    obtain ⟨ids, of⟩ := poll_of polled
    obtain ⟨n, n', running, moved, settings⟩ := begin_moved begun
    obtain ⟨rfl, -⟩ := conclude_ok concluded
    refine ⟨p, c₃, ?_, ids, ?_, concluded⟩
    · exact Step.bind_eq_ok.2 ⟨id, c₁, begun, polled⟩
    · obtain ⟨k, here, quorum⟩ := of.quorum
      obtain rfl := Option.mem_unique here moved.node
      exact ⟨of.regular, of.nodes.trans (moved.network.available name),
        ⟨n, running, settings ▸ quorum⟩, of.enough, of.sender⟩
  · obtain ⟨_, _, _, thrown⟩ := Step.bind_eq_ok.1 ok
    cases thrown

end QuorumCommit.Cluster
