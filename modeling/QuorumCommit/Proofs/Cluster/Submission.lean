import QuorumCommit.Proofs.Cluster.Network
import QuorumCommit.Proofs.Node.Origin

/-!
One attempt to commit a change set. The origin prepares it, the others vote on it, and all are told
the decision. If it is against the commit every node is left as it was; otherwise the origin has
committed the change set, and so has every voter whose next id of that origin it was.
-/
namespace QuorumCommit.Cluster

variable {c c' c'' : Cluster} {name x : String} {n n' n'' : Node} {out : Nat} {id : TxId}
  {t changes final : ChangeSet} {request : RequestId} {reply reply' : Reply}

theorem Answered.vote (calm : n.Calm out) (a : Answered (.firstPhase request id t) n reply n') :
    n.Voted request id t reply n' := by
  obtain ⟨m, butDisk, rfl, rfl⟩ := a
  exact (Node.answerPrepare_spec (calm.butDisk butDisk) request id t).butDisk butDisk.symm
    (Node.sameButDisk_seen _)

/-- A voter that is told to commit does so if it voted for that and the id is its next one. -/
theorem Answered.commit (calm : n.Calm out) (v : n.Voted request id t reply n')
    (a : Answered (.secondPhase request true) n' reply' n'') :
    n.MayAdvance id n'' ∧ (n''.store.HasRoom → n'.store.HasRoom) ∧
      (t.hasTemporary = false → n''.store.HasRoom →
        (reply = .success ∧ n.resources.view.IsNext id → n.Enacted id t n'') ∧
          (¬ (reply = .success ∧ n.resources.view.IsNext id) → n.Kept n'')) := by
  obtain ⟨m, butDisk, -, rfl⟩ := a
  have seen := Node.sameButDisk_seen (Node.commit request m).2
  obtain ⟨decided, back, told⟩ := (v.butDisk (.refl n) butDisk).commit calm
  have answer : (m.answer (.secondPhase request true)).2 = (Node.commit request m).2 := by
    unfold Node.answer Node.answerCommit
    simp only [Step.run_apply]
    rcases Node.commit request m with ⟨fault | _, m'⟩ <;> rfl
  rw [answer]
  refine ⟨decided.butDisk (.refl n) seen, fun room => butDisk.hasRoom (back (seen.hasRoom room)),
    fun placed room => ?_⟩
  obtain ⟨yes, no⟩ := told placed (seen.hasRoom room)
  exact ⟨fun h => (yes h).butDisk (.refl n) seen, fun h => (no h).butDisk (.refl n) seen⟩

/-- A voter that is told not to commit keeps nothing of the vote. -/
theorem Answered.rollback (calm : n.Calm out) (v : n.Voted request id t reply n')
    (a : Answered (.secondPhase request false) n' reply' n'') : n.Kept n'' := by
  obtain ⟨m, butDisk, -, rfl⟩ := a
  exact ((v.butDisk (.refl n) butDisk).rollback calm).butDisk (.refl n) (Node.sameButDisk_seen _)

/-- Whoever votes for a change set whose places are chosen admits it, as long as there is room. -/
theorem admits_iff_vote (v : n.Voted request id t reply n') (placed : t.hasTemporary = false)
    (room : n'.store.HasRoom) : n.resources.Admits id t ↔ reply = .success := by
  cases v with
  | yes parked ready admits status => exact ⟨fun _ => rfl, fun _ => admits placed room⟩
  | no parked refuses request_eq job kept status answer =>
    exact ⟨fun admits => absurd admits (refuses placed room), fun eq => absurd eq answer⟩

/-- Nothing is going on at any node, and of the ids of one the next `out` are in use. -/
structure CalmAt (name : String) (out : Nat) (c : Cluster) : Prop where
  healthy : c.Healthy
  nodes : ∀ x n, c.node? x = some n → n.Calm (if x = name then out else 0)

theorem CalmAt.sender (h : c.CalmAt name out) (running : c.node? name = some n) : n.Calm out := by
  have calm := h.nodes name n running
  rw [if_pos rfl] at calm
  exact calm

theorem CalmAt.other (h : c.CalmAt name out) (running : c.node? x = some n) (ne : x ≠ name) :
    n.Calm 0 := by
  have calm := h.nodes x n running
  rw [if_neg ne] at calm
  exact calm

/-- A relation between states of nodes that brings calm nodes to calm nodes. -/
theorem CalmAt.evolved {R : String → Node → Node → Prop} {out' : Nat} (h : c.CalmAt name out)
    (e : Evolved R c c')
    (sender : ∀ n n', c.node? name = some n → R name n n' → n.Calm out → n'.Calm out')
    (other : ∀ x n n', c.node? x = some n → x ≠ name → R x n n' → n.Calm 0 → n'.Calm 0) :
    c'.CalmAt name out' where
  healthy := h.healthy.evolved e
  nodes x n' running' := by
    obtain ⟨n, running, change⟩ := e.source h.healthy running'
    by_cases same : x = name
    · subst same
      rw [if_pos rfl]
      exact sender n n' running change (h.sender running)
    · rw [if_neg same]
      exact other x n n' running same change (h.other running same)

/-- Work on one node that leaves it calm. -/
theorem CalmAt.moved {out' : Nat} (h : c.CalmAt name out) (running : c.node? name = some n)
    (moved : c.Moved name n' c') (quiet : n'.Calm out') : c'.CalmAt name out' where
  healthy := h.healthy.evolved (moved.evolved (R := fun _ _ => True) running trivial)
  nodes x k found := by
    by_cases same : x = name
    · subst same
      rw [moved.node, Option.some.injEq] at found
      subst found
      rwa [if_pos rfl]
    · rw [moved.others x same] at found
      rw [if_neg same]
      exact h.other found same

def HasRoom (c : Cluster) : Prop := ∀ x n, c.node? x = some n → n.store.HasRoom

instance : Decidable c.HasRoom :=
  inferInstanceAs (Decidable (∀ x n, c.node? x = some n → n.store.HasRoom))

theorem HasRoom.evolved {R : String → Node → Node → Prop} (room : c'.HasRoom) (e : Evolved R c c')
    (back : ∀ x n n', R x n n' → n'.store.HasRoom → n.store.HasRoom) : c.HasRoom := by
  intro x n running
  obtain ⟨n', running', change⟩ := e.nodes x n running
  exact back x n n' change (room x n' running')

/-- The origin ends up with an attempt that waits, or with a commit if it is alone, or as before. -/
theorem prepareAtOrigin_spec (running : c.node? name = some n) (calm : n.Calm out)
    (next : n.resources.view.IsNext id) (request : RequestId) (changes : ChangeSet)
    (alone : Bool) :
    ∃ r n' c', prepareAtOrigin name request id changes alone c = (r, c') ∧ c.Moved name n' c' ∧
      match r with
      | .error _ => n.Kept n'
      | .ok final =>
        if alone = true then n.Issued id changes final n'
        else ∃ b, n.Pending request id changes final b n' := by
  obtain ⟨r, n', c', stepped, moved, m, butDisk, rfl, rfl⟩ := stepNode_spec (do
    let b ← Node.prepareOwn request id changes
    let final := b.attempt.job.changes?.getD changes
    if alone then
      Node.finish b
      pure final
    else
      modify (·.park b)
      pure final) running
  refine ⟨_, _, c', stepped, moved, ?_⟩
  have calm := calm.butDisk butDisk
  have spec := Node.prepareOwn_spec calm request id changes
  simp only [Step.bind_apply]
  rcases prepared : Node.prepareOwn request id changes m with ⟨fault | b, m₁⟩
  · rw [prepared] at spec
    exact Node.Kept.butDisk spec butDisk.symm (Node.sameButDisk_seen m₁)
  rw [prepared] at spec
  obtain ⟨⟨final, ready, passes⟩, status, settings, registry⟩ := spec
  have result : b.attempt.job.changes?.getD changes = final := by
    rw [ready.job]
    rfl
  cases alone with
  | true =>
    have next : m.resources.view.IsNext id := butDisk.same.toAlike.isNext.2 next
    obtain ⟨ok, advanced, reserved⟩ :=
      Node.finish_next settings registry ready calm.view.path next
    have issued : m.Issued id changes final (Node.finish b m₁).2 :=
      ⟨(Node.drafted ready passes).mono (Node.hasRoom_of_finish ready.job), advanced, reserved⟩
    simp only [↓reduceIte, Step.bind_apply, result]
    rcases finished : Node.finish b m₁ with ⟨fault | _, m₂⟩
    · rw [finished] at ok
      cases ok
    · rw [finished] at issued
      exact issued.butDisk butDisk.symm (Node.sameButDisk_seen m₂)
  | false =>
    have pending : m.Pending request id changes final b (m₁.park b) :=
      ⟨.park settings (registry.trans calm.registry) ready.stands, ready, passes, status⟩
    simp only [Bool.false_eq_true, ↓reduceIte, Step.bind_apply, Step.modify_apply, result]
    exact pending.butDisk butDisk.symm (Node.sameButDisk_seen _)

def Polled (name : String) (request : RequestId) (id : TxId) (changes final : ChangeSet)
    (reply : String → Reply) (c c' : Cluster) : Prop :=
  Evolved (fun x n n' =>
    if x = name then ∃ b, n.Pending request id changes final b n'
    else if x ∈ c.targets name then n.Voted request id final (reply x) n'
    else n' = n) c c'

def Takes (c : Cluster) (name : String) (id : TxId) (t : ChangeSet) (x : String) (n : Node) :
    Prop :=
  x ∈ c.available name ∧ n.resources.Admits id t ∧ n.resources.view.IsNext id

theorem not_mem_targets : name ∉ c.targets name := fun mem => (mem_targets.1 mem).2 rfl

/-- If the decision is against the commit, nothing is left of the attempt. -/
theorem Polled.refuse {reply : String → Reply} (calm : c.CalmAt name out)
    (running : c.node? name = some n) (p : Polled name request id changes final reply c c') :
    ∃ c₁ c₂, notify name (c.targets name) (.secondPhase request false) c' = (.ok (), c₁) ∧
      rollbackAt name request c₁ = (.ok (), c₂) ∧ Evolved (fun _ => Node.Kept) c c₂ := by
  obtain ⟨answers, c₁, told, e₁⟩ := notify_spec (.secondPhase request false)
    (calm.healthy.evolved p) p.network (contains_of_node? running)
  obtain ⟨n₁, running₁, -⟩ := (p.trans e₁).nodes name n running
  obtain ⟨⟨⟩, n₂, c₂, rolled, moved, worked⟩ :=
    atNode_spec (fun n => ((), (Node.rollback request n).2)) running₁
  have e₂ := moved.evolved (R := fun n n' => Worked _ n () n') running₁ worked
  refine ⟨c₁, c₂, told, rolled, ((p.trans e₁).trans e₂).mono ?_⟩
  rintro x k k₃ here ⟨k₂, ⟨k₁, voted, answered⟩, last⟩
  by_cases origin : x = name
  · subst origin
    rw [if_pos rfl] at voted last
    rw [if_neg not_mem_targets] at answered
    subst answered
    obtain ⟨b, pending⟩ := voted
    obtain ⟨m, butDisk, -, rfl⟩ := last
    obtain ⟨b', pending⟩ := pending.butDisk (.refl k) butDisk
    exact (pending.rollback (calm.sender here)).butDisk (.refl k) (Node.sameButDisk_seen _)
  · rw [if_neg origin] at voted last
    subst last
    have quiet := calm.other here origin
    by_cases asked : x ∈ c.targets name
    · rw [if_pos asked] at voted answered
      exact answered.rollback quiet voted
    · rw [if_neg asked] at voted answered
      subst voted answered
      exact .refl quiet.tidy

/-- How a node comes out of an attempt to commit. Who takes the change set up is known if its places
are chosen and there is room for them. -/
def Upheld (c : Cluster) (name : String) (id : TxId) (changes final : ChangeSet) (x : String)
    (n n' : Node) : Prop :=
  if x = name then n.Issued id changes final n'
  else n.MayAdvance id n' ∧ (final.hasTemporary = false → n'.store.HasRoom →
    (c.Takes name id final x n → n.Enacted id final n') ∧
      (¬ c.Takes name id final x n → n.Kept n'))

def VotesRight (c : Cluster) (name : String) (id : TxId) (final : ChangeSet)
    (reply : String → Reply) (x : String) (n n' : Node) : Prop :=
  x ∈ c.targets name → final.hasTemporary = false → n'.store.HasRoom →
    (n.resources.Admits id final ↔ reply x = .success)

/-- If the decision is to commit, the origin commits, and so does everyone who takes the change
set up. -/
theorem Polled.carry {reply : String → Reply} (calm : c.CalmAt name out)
    (running : c.node? name = some n) (next : n.resources.view.IsNext id)
    (p : Polled name request id changes final reply c c') :
    ∃ c₁ c₂, notify name (c.targets name) (.secondPhase request true) c' = (.ok (), c₁) ∧
      stepNode name (Node.commit request) c₁ = (.ok true, c₂) ∧
      Evolved (fun x n n' => c.Upheld name id changes final x n n' ∧
        c.VotesRight name id final reply x n n') c c₂ := by
  obtain ⟨answers, c₁, told, e₁⟩ := notify_spec (.secondPhase request true)
    (calm.healthy.evolved p) p.network (contains_of_node? running)
  obtain ⟨n₁, running₁, n₀, voted, answered⟩ := (p.trans e₁).nodes name n running
  rw [if_pos rfl] at voted
  rw [if_neg not_mem_targets] at answered
  subst answered
  obtain ⟨b, pending⟩ := voted
  obtain ⟨r, n₂, c₂, stepped, moved, worked⟩ :=
    stepNode_spec (Node.commit request) running₁
  have issued : r = .ok true ∧ n.Issued id changes final n₂ := by
    obtain ⟨m, butDisk, rfl, rfl⟩ := worked
    obtain ⟨b', pending⟩ := pending.butDisk (.refl n) butDisk
    obtain ⟨ok, issued⟩ := pending.commit (calm.sender running) next
    exact ⟨ok, issued.butDisk (.refl n) (Node.sameButDisk_seen _)⟩
  obtain ⟨rfl, issued⟩ := issued
  have e₂ := moved.evolved (R := fun _ n' => n.Issued id changes final n') running₁ issued
  refine ⟨c₁, c₂, told, stepped, ((p.trans e₁).trans e₂).mono ?_⟩
  rintro x k k₃ here ⟨k₂, ⟨k₁, voted, answered⟩, last⟩
  unfold Upheld
  by_cases origin : x = name
  · subst origin
    rw [if_pos rfl] at last ⊢
    obtain rfl := Option.mem_unique running here
    exact ⟨last, fun asked => absurd asked not_mem_targets⟩
  · rw [if_neg origin] at voted last ⊢
    subst last
    have quiet := calm.other here origin
    by_cases asked : x ∈ c.targets name
    · rw [if_pos asked] at voted answered
      obtain ⟨decided, back, told⟩ := answered.commit quiet voted
      refine ⟨⟨decided, fun placed room => ?_⟩, fun _ placed room =>
        admits_iff_vote voted placed (back room)⟩
      have admits := admits_iff_vote voted placed (back room)
      obtain ⟨yes, no⟩ := told placed room
      refine ⟨fun takes => yes ⟨admits.1 takes.2.1, takes.2.2⟩, fun leaves => no fun h => leaves ?_⟩
      exact ⟨(mem_targets.1 asked).1, admits.2 h.1, h.2⟩
    · rw [if_neg asked] at voted answered
      subst voted answered
      refine ⟨⟨.kept (.refl quiet.tidy), fun _ _ => ⟨fun takes => absurd ?_ asked, fun _ =>
        .refl quiet.tidy⟩⟩, fun mem => absurd mem asked⟩
      exact mem_targets.2 ⟨takes.1, origin⟩

def quorumOf (c : Cluster) (name : String) (n : Node) (changes : ChangeSet) : Nat :=
  n.settings.replication.maxWriteQuorum changes.clusters.toList (c.available name).size

/-- A quorum of members, with the origin, is for a change set. -/
def Carried (c : Cluster) (name : String) (quorum : Nat) (id : TxId) (t : ChangeSet) : Prop :=
  ∃ voters : List String, voters.Nodup ∧ quorum ≤ voters.length + 1 ∧
    ∀ x ∈ voters, x ≠ name ∧ x ∈ c.available name ∧
      ∃ n, c.node? x = some n ∧ n.resources.Admits id t

/-- A tally that decides for success has counted the votes of a quorum. -/
theorem carried_of_votes {reply : String → Reply}
    (votes : Evolved (c.VotesRight name id final reply) c c') (placed : final.hasTemporary = false)
    (room : c'.HasRoom) (running : c.node? name = some n) (healthy : c.Healthy)
    {expected quorum : Nat}
    (decided : (((Tally.start request (c.available name) expected quorum).receive name
      .success).receiveAll ((c.targets name).map fun x => (x, reply x))).result = .ok .success) :
    c.Carried name quorum id final := by
  have member := contains_of_node? running
  have counted := Tally.quorum_of_result decided
  rw [Tally.round_replies .success reply ((mem_available member).2 (.inl rfl))
    (fun x mem => (mem_targets.1 mem).1) not_mem_targets (targets_nodup c name),
    Tally.votes_success, List.countP_cons_of_pos (by simp), List.countP_map] at counted
  refine ⟨(c.targets name).filter (fun x => reply x = .success),
    (targets_nodup c name).filter _, ?_, fun x mem => ?_⟩
  · rw [← List.countP_eq_length_filter]
    exact counted
  · rw [List.mem_filter, decide_eq_true_eq] at mem
    obtain ⟨asked, yes⟩ := mem
    obtain ⟨available, other⟩ := mem_targets.1 asked
    obtain ⟨m, found⟩ := healthy.available running available
    obtain ⟨m', found', right⟩ := votes.nodes x m found
    exact ⟨other, available, m, found, (right asked placed (room x m' found')).2 yes⟩

theorem requireQuorum_spec (running : c.node? name = some n) (calm : n.Calm out) (quorum : Nat)
    (nodes : Std.ExtTreeSet String) :
    (nodes.size < quorum ∧ ∃ fault n' c', requireQuorum name quorum nodes c = (.error fault, c') ∧
      c.Moved name n' c' ∧ n.Kept n') ∨
    (quorum ≤ nodes.size ∧ requireQuorum name quorum nodes c = (.ok (), c)) := by
  unfold requireQuorum
  by_cases few : nodes.size < quorum
  · obtain ⟨⟨⟩, n', c', counted, moved, m, butDisk, -, rfl⟩ :=
      atNode_spec (fun n => ((), n.count .insufficientNodes)) running
    left
    refine ⟨few, .tooFewNodes quorum nodes.size nodes, _, c', ?_, moved, ?_⟩
    · rw [if_pos few, Step.bind_apply, counted]
      rfl
    · have kept : m.Kept (m.count .insufficientNodes) :=
        ⟨rfl, rfl, .refl (calm.butDisk butDisk).tidy⟩
      exact kept.butDisk butDisk.symm (Node.sameButDisk_seen _)
  · right
    rw [if_neg few]
    exact ⟨by omega, rfl⟩

theorem Moved.kept (calm : c.CalmAt name out) (running : c.node? name = some n)
    (moved : c.Moved name n' c') (kept : n.Kept n') : Evolved (fun _ => Node.Kept) c c' := by
  refine (moved.evolved running kept).mono fun x k k' here change => ?_
  by_cases same : x = name
  · rwa [if_pos same] at change
  · rw [if_neg same] at change
    subst change
    exact .refl (calm.other here same).tidy

/-- An origin that is alone commits by itself. -/
theorem Moved.reached (calm : c.CalmAt name out) (running : c.node? name = some n)
    (alone : c.targets name = []) (moved : c.Moved name n' c')
    (issued : n.Issued id changes final n') : Evolved (c.Upheld name id changes final) c c' := by
  have step := moved.evolved (R := fun n n' => n.Issued id changes final n') running issued
  refine step.mono fun x k k' here change => ?_
  unfold Upheld
  by_cases same : x = name
  · rwa [if_pos same] at change ⊢
  · rw [if_neg same] at change ⊢
    subst change
    have kept : Node.Kept k' k' := .refl (calm.other here same).tidy
    refine ⟨.kept kept, fun _ _ => ⟨fun takes => ?_, fun _ => kept⟩⟩
    have asked := mem_targets.2 ⟨takes.1, same⟩
    rw [alone] at asked
    cases asked

/-- The first phase leaves the origin waiting and everyone who was asked with a vote. -/
theorem poll_spec (calm : c.CalmAt name out) (running : c.node? name = some n)
    (moved : c.Moved name n' c') {b : Attempt.State}
    (pending : n.Pending request id changes final b n') (t : Tally) :
    ∃ (reply : String → Reply) (c'' : Cluster),
      broadcast name (c.targets name) (.firstPhase request id final) .awaited t c' =
        (.ok (t.receiveAll ((c.targets name).map fun x => (x, reply x))), c'') ∧
      Polled name request id changes final reply c c'' := by
  have step := moved.evolved (R := fun n n' => ∃ b, n.Pending request id changes final b n')
    running ⟨b, pending⟩
  obtain ⟨reply, c'', sent, evolved⟩ := broadcast_spec (.firstPhase request id final) .awaited t
    (calm.healthy.evolved step) moved.network (contains_of_node? running)
  refine ⟨reply, c'', sent, (step.trans evolved).mono ?_⟩
  rintro x k k₂ here ⟨k₁, change, answered⟩
  by_cases same : x = name
  · subst same
    rw [if_pos rfl] at change ⊢
    rw [if_neg not_mem_targets] at answered
    subst answered
    exact change
  · rw [if_neg same] at change ⊢
    subst change
    by_cases asked : x ∈ c.targets name
    · rw [if_pos asked] at answered ⊢
      exact answered.vote (calm.other here same)
    · rw [if_neg asked] at answered ⊢
      exact answered

/-- What an attempt under the next id of its origin comes to. -/
theorem submit_spec (calm : c.CalmAt name out) (running : c.node? name = some n)
    (next : n.resources.view.IsNext id) (changes : ChangeSet) :
    ∃ r c', submit name id changes c = (r, c') ∧
      match r with
      | .error _ => Evolved (fun _ => Node.Kept) c c'
      | .ok final => (c'.HasRoom → c.Carried name (c.quorumOf name n changes) id final) ∧
          Node.Drafted c'.HasRoom n id changes final ∧
          Evolved (c.Upheld name id changes final) c c' := by
  have quiet := calm.sender running
  have fold : (c.available name).toList.filter (· ≠ name) = c.targets name := rfl
  -- The origin's own draft is part of how it comes out of the attempt.
  have draft {final : ChangeSet} {c' : Cluster}
      (e : Evolved (c.Upheld name id changes final) c c') :
      Node.Drafted c'.HasRoom n id changes final := by
    obtain ⟨n', running', change⟩ := e.nodes name n running
    unfold Upheld at change
    rw [if_pos rfl] at change
    exact change.drafted.mono fun room => room name n' running'
  unfold submit
  simp only [Step.bind_apply, Step.get_apply, getNode_spec running]
  rw [fold]
  obtain ⟨-, fault, n', c', refused, moved, kept⟩ | ⟨enough, passed⟩ :=
    requireQuorum_spec running quiet (c.quorumOf name n changes) (c.available name)
  · unfold quorumOf at refused
    rw [refused]
    exact ⟨_, c', rfl, moved.kept calm running kept⟩
  unfold quorumOf at passed
  rw [passed]
  dsimp only
  obtain ⟨request, c₁, asked, moved₁⟩ := nextRequest_spec running
  rw [asked]
  dsimp only
  obtain ⟨r, n₂, c₂, prepared, moved₂, outcome⟩ :=
    prepareAtOrigin_spec moved₁.node quiet next request changes (c.targets name).isEmpty
  have moved := moved₁.trans moved₂
  rw [prepared]
  rcases r with fault | final
  · exact ⟨_, c₂, rfl, moved.kept calm running outcome⟩
  by_cases alone : (c.targets name).isEmpty = true
  · dsimp only at outcome ⊢
    rw [if_pos alone] at outcome ⊢
    rw [List.isEmpty_iff] at alone
    rw [size_available (contains_of_node? running), alone] at enough
    have reached := moved.reached calm running alone outcome
    exact ⟨_, c₂, rfl, fun _ => ⟨[], .nil, enough, by simp⟩, draft reached, reached⟩
  dsimp only at outcome ⊢
  rw [if_neg alone] at outcome ⊢
  obtain ⟨b, pending⟩ := outcome
  obtain ⟨reply, c₃, sent, polled⟩ := poll_spec calm running moved pending
    ((Tally.start request (c.available name) (c.available name).size
      (c.quorumOf name n changes)).receive name .success)
  have carried {c' : Cluster} (votes : Evolved (c.VotesRight name id final reply) c c')
      (placed : final.hasTemporary = false) (room : c'.HasRoom) :
      (((Tally.start request (c.available name) (c.available name).size
        (c.quorumOf name n changes)).receive name .success).receiveAll
          ((c.targets name).map fun x => (x, reply x))).result = .ok .success →
        c.Carried name (c.quorumOf name n changes) id final :=
    carried_of_votes votes placed room running calm.healthy
  unfold quorumOf at sent carried
  simp only [Step.bind_apply, Step.tryCatch_apply, sent]
  generalize Tally.result _ = result at carried ⊢
  by_cases yes : result = .ok .success
  · obtain ⟨c₄, c₅, told, committed, reached⟩ := polled.carry calm running next
    subst yes
    simp only [told, ↓reduceIte, Step.bind_apply, committed]
    have upheld := reached.mono fun _ _ _ _ change => change.1
    have votes := reached.mono fun _ _ _ _ change => change.2
    have drafted := draft upheld
    exact ⟨_, c₅, rfl, fun room => carried votes (drafted.placed room) room rfl, drafted, upheld⟩
  · obtain ⟨c₄, c₅, told, rolled, kept⟩ := polled.refuse calm running
    simp only [told, Bool.false_eq_true, ↓reduceIte, Step.bind_apply, rolled]
    exact ⟨_, c₅, rfl, kept⟩

end QuorumCommit.Cluster
