import QuorumCommit.Cluster.Schema
import QuorumCommit.Proofs.Cluster.Committing
import QuorumCommit.Proofs.Node.SchemaSession

/-!
One round for a command. As long as no node has committed the ids that are offered, the vote reports
none of them as stale. A round that is not decided for the command leaves every node as it was; one
that is runs the command at the origin and wherever its first id is the next one.
-/
namespace QuorumCommit.Cluster

variable {c c' c'' : Cluster} {name x : String} {n n' n'' : Node} {out : Nat}
  {before after id : TxId} {command : String} {request : RequestId} {reply reply' : Reply}

theorem Worked.schemaVote (still : n.Still)
    (w : Worked (Node.prepareSchema request command before after) n reply n') :
    n.SchemaVoted request command before after reply n' := by
  obtain ⟨m, butDisk, rfl, rfl⟩ := w
  exact (Node.prepareSchema_spec (still.butDisk butDisk) request command before after).butDisk
    butDisk.symm
    (Node.sameButDisk_seen _)

theorem Answered.schemaVote (still : n.Still)
    (a : Answered (.schemaFirstPhase request command before after) n reply n') :
    n.SchemaVoted request command before after reply n' :=
  Worked.schemaVote still a

theorem answer_settle (request : RequestId) (apply : Bool) (m : Node) :
    (m.answer (.schemaSecondPhase request apply)).2 = (Node.settleSchema request apply m).2 := by
  unfold Node.answer
  rfl

/-- A node applies a command, on the decision to do so, if its first id is the next one. -/
theorem SchemaVoted.settle {r : Except Fault Unit} (calm : n.Calm out)
    (v : n.SchemaVoted request command before before.next reply n')
    (w : Worked (Node.settleSchema request true) n' r n'') :
    (n.resources.view.IsNext before → n.Ran command before n'' ∧
      r.isOk = !n.bodyFails command before) ∧
      (¬ n.resources.view.IsNext before → n.Kept n'') := by
  obtain ⟨m, butDisk, rfl, rfl⟩ := w
  obtain ⟨yes, no⟩ := (v.butDisk (.refl n) butDisk).apply calm
  refine ⟨fun next => ?_, fun other => ?_⟩
  · obtain ⟨ran, result⟩ := yes next
    exact ⟨ran.butDisk (.refl n) (Node.sameButDisk_seen _), result⟩
  · exact (no other).butDisk (.refl n) (Node.sameButDisk_seen _)

theorem SchemaVoted.drop {r : Except Fault Unit} (none : n.registry = Registry.empty)
    (v : n.SchemaVoted request command before after reply n')
    (w : Worked (Node.settleSchema request false) n' r n'') : r = .ok () ∧ n.Dropped n'' := by
  obtain ⟨m, butDisk, rfl, rfl⟩ := w
  obtain ⟨ok, kept⟩ := (v.butDisk (.refl n) butDisk).discard none
  exact ⟨ok, kept.butDisk (.refl n) (Node.sameButDisk_seen _)⟩

theorem Answered.settled {apply : Bool}
    (a : Answered (.schemaSecondPhase request apply) n reply n') :
    ∃ r, Worked (Node.settleSchema request apply) n r n' := by
  obtain ⟨m, butDisk, -, rfl⟩ := a
  rw [answer_settle]
  exact ⟨_, m, butDisk, rfl, rfl⟩

def Heard (name : String) (request : RequestId) (command : String) (before : TxId)
    (reply : String → Reply) (c c' : Cluster) : Prop :=
  Evolved (fun x n n' =>
    if x ∈ c.available name then n.SchemaVoted request command before before.next (reply x) n'
    else n' = n) c c'

def Follows (c : Cluster) (name : String) (before : TxId) (x : String) (n : Node) : Prop :=
  x ∈ c.available name ∧ n.resources.view.IsNext before

theorem mem_available_self (running : c.node? name = some n) : name ∈ c.available name :=
  (mem_available (contains_of_node? running)).2 (.inl rfl)

/-- Every voter is told the decision, and the origin, whose result is that of the round, is last. -/
theorem confirmSchema_spec {reply : String → Reply} (healthy : c.Healthy)
    (running : c.node? name = some n) (h : Heard name request command before reply c c')
    (apply : Bool) :
    ∃ (result : Except Fault Unit) (c'' : Cluster),
      confirmSchema name (c.targets name) request apply c' = (result, c'') ∧
      Evolved (fun x k k'' =>
        if x ∈ c.available name then
          ∃ k' r, k.SchemaVoted request command before before.next (reply x) k' ∧
            Worked (Node.settleSchema request apply) k' r k'' ∧ (x = name → r = result)
        else k'' = k) c c'' := by
  obtain ⟨answers, c₁, told, e₁⟩ := notify_spec (.schemaSecondPhase request apply)
    (healthy.evolved h) h.network (contains_of_node? running)
  have e := Evolved.trans h e₁
  obtain ⟨n₁, running₁, -⟩ := e.nodes name n running
  obtain ⟨result, n₂, c₂, settled, moved, worked⟩ :=
    stepNode_spec (Node.settleSchema request apply) running₁
  have e₂ := moved.evolved (R := fun k k' => Worked (Node.settleSchema request apply) k result k')
    running₁ worked
  refine ⟨result, c₂, ?_, (e.trans e₂).mono ?_⟩
  · unfold confirmSchema
    rw [Step.bind_apply, told]
    exact settled
  · rintro x k k₃ here ⟨k₂, ⟨k₁, voted, answered⟩, last⟩
    by_cases origin : x = name
    · subst origin
      have available := mem_available_self running
      rw [if_pos available] at voted ⊢
      rw [if_neg not_mem_targets] at answered
      rw [if_pos rfl] at last
      subst answered
      exact ⟨k₂, result, voted, last, fun _ => rfl⟩
    · rw [if_neg origin] at last
      subst last
      by_cases available : x ∈ c.available name
      · rw [if_pos available] at voted ⊢
        rw [if_pos (mem_targets.2 ⟨available, origin⟩)] at answered
        obtain ⟨r, worked⟩ := answered.settled
        exact ⟨k₁, r, voted, worked, fun eq => absurd eq origin⟩
      · rw [if_neg available] at voted ⊢
        rw [if_neg fun mem => available (mem_targets.1 mem).1] at answered
        rw [answered, voted]

def Judged (name : String) (request : RequestId) (command : String) (before after : TxId)
    (c c' : Cluster) : Prop :=
  Evolved (fun x n n' =>
    if x ∈ c.available name then ∃ reply, n.SchemaVoted request command before after reply n'
    else n' = n) c c'

/-- The origin judges the command first, and then the others whom it asks. -/
theorem Judged.of_answers {c₁ : Cluster} (running : c.node? name = some n)
    (still : ∀ x n, c.node? x = some n → n.Still) (moved : c.Moved name n' c₁)
    (own : n.SchemaVoted request command before after reply n')
    (answered : Evolved (fun x n n' => if x ∈ c.targets name then
      ∃ reply, Answered (.schemaFirstPhase request command before after) n reply n'
      else n' = n) c₁ c') : Judged name request command before after c c' := by
  have first := moved.evolved (R := fun n n' => ∃ reply,
    n.SchemaVoted request command before after reply n') running ⟨reply, own⟩
  refine (first.trans answered).mono ?_
  rintro x k k₂ here ⟨k₁, change, change'⟩
  by_cases origin : x = name
  · subst origin
    rw [if_pos rfl] at change
    rw [if_neg not_mem_targets] at change'
    subst change'
    rw [if_pos (mem_available_self running)]
    exact change
  · rw [if_neg origin] at change
    subst change
    by_cases asked : x ∈ c.available name
    · rw [if_pos (mem_targets.2 ⟨asked, origin⟩)] at change'
      rw [if_pos asked]
      obtain ⟨reply, answer⟩ := change'
      exact ⟨reply, answer.schemaVote (still x k₁ here)⟩
    · rw [if_neg fun mem => asked (mem_targets.1 mem).1] at change'
      rw [if_neg asked]
      exact change'

theorem Heard.judged {reply : String → Reply} (h : Heard name request command before reply c c') :
    Judged name request command before before.next c c' :=
  h.mono fun x n n' _ change => by
    split at change
    · next available =>
      rw [if_pos available]
      exact ⟨_, change⟩
    · next other =>
      rw [if_neg other]
      exact change

/-- When all voters are told to drop the command, nothing of the vote is left. -/
theorem Judged.drop {c₁ : Cluster} (running : c.node? name = some n)
    (still : ∀ x n, c.node? x = some n → n.Still)
    (h : Judged name request command before after c c')
    (told : notify name (c.targets name) (.schemaSecondPhase request false) c' = (.ok (), c₁))
    (heard : Evolved (fun x n n' => if x ∈ c.targets name then
      ∃ reply, Answered (.schemaSecondPhase request false) n reply n' else n' = n) c' c₁) :
    ∃ c'', confirmSchema name (c.targets name) request false c' = (.ok (), c'') ∧
      Evolved (fun _ => Node.Dropped) c c'' := by
  have available := mem_available_self running
  have e := Evolved.trans h heard
  obtain ⟨n₁, running₁, n', voted, quiet⟩ := e.nodes name n running
  rw [if_pos available] at voted
  rw [if_neg not_mem_targets] at quiet
  subst quiet
  obtain ⟨reply, voted⟩ := voted
  obtain ⟨result, n₂, c₂, settled, moved, worked⟩ :=
    stepNode_spec (Node.settleSchema request false) running₁
  obtain ⟨rfl, kept⟩ := SchemaVoted.drop (still name n running).registry voted worked
  refine ⟨c₂, ?_, e.network.trans moved.network, fun x k here => ?_⟩
  · unfold confirmSchema
    rw [Step.bind_apply, told]
    exact settled
  · by_cases origin : x = name
    · subst origin
      obtain rfl := Option.mem_unique running here
      exact ⟨n₂, moved.node, kept⟩
    · obtain ⟨k₂, there, k₁, voted, answered⟩ := e.nodes x k here
      refine ⟨k₂, (moved.others x origin).trans there, ?_⟩
      by_cases asked : x ∈ c.available name
      · rw [if_pos asked] at voted
        rw [if_pos (mem_targets.2 ⟨asked, origin⟩)] at answered
        obtain ⟨reply, voted⟩ := voted
        obtain ⟨reply', answered⟩ := answered
        obtain ⟨r, worked⟩ := answered.settled
        exact (SchemaVoted.drop (still x k here).registry voted worked).2
      · rw [if_neg asked] at voted
        rw [if_neg fun mem => asked (mem_targets.1 mem).1] at answered
        rw [answered, voted]
        exact .refl (still x k here).tidy

/-- A round that is not decided for the command leaves nothing. -/
theorem Heard.drop {reply : String → Reply} (calm : c.CalmAt name out)
    (running : c.node? name = some n) (h : Heard name request command before reply c c') :
    ∃ c'', confirmSchema name (c.targets name) request false c' = (.ok (), c'') ∧
      Evolved (fun _ => Node.Kept) c c'' := by
  obtain ⟨answers, c₁, told, heard⟩ := notify_spec (.schemaSecondPhase request false)
    (calm.healthy.evolved h) h.network (contains_of_node? running)
  obtain ⟨c'', confirmed, dropped⟩ := h.judged.drop running
    (fun x k here => (calm.nodes x k here).still) told <| heard.mono fun x k k' _ change => by
      split at change
      · next asked =>
        rw [if_pos asked]
        exact ⟨_, change⟩
      · next other =>
        rw [if_neg other]
        exact change
  exact ⟨c'', confirmed, dropped.mono fun _ _ _ _ dropped => dropped.toKept⟩

/-- A round that is decided for the command runs it wherever its first id is the next one. -/
theorem Heard.apply {reply : String → Reply} (calm : c.CalmAt name out)
    (running : c.node? name = some n) (next : n.resources.view.IsNext before)
    (h : Heard name request command before reply c c') :
    ∃ result c'', confirmSchema name (c.targets name) request true c' = (result, c'') ∧
      result.isOk = !n.bodyFails command before ∧
      Evolved (fun x k k'' => (c.Follows name before x k → k.Ran command before k'') ∧
        (¬ c.Follows name before x k → k.Kept k'')) c c'' := by
  obtain ⟨result, c'', confirmed, e⟩ := confirmSchema_spec calm.healthy running h true
  obtain ⟨n'', -, own⟩ := e.nodes name n running
  rw [if_pos (mem_available_self running)] at own
  obtain ⟨n', r, voted, worked, same⟩ := own
  have ok := ((SchemaVoted.settle (calm.sender running) voted worked).1 next).2
  rw [same rfl] at ok
  refine ⟨result, c'', confirmed, ok, e.mono fun x k k'' here change => ?_⟩
  have quiet := calm.nodes x k here
  by_cases available : x ∈ c.available name
  · rw [if_pos available] at change
    obtain ⟨k', r, voted, worked, -⟩ := change
    obtain ⟨yes, no⟩ := SchemaVoted.settle quiet voted worked
    exact ⟨fun follows => (yes follows.2).1,
      fun stays => no fun next => stays ⟨available, next⟩⟩
  · rw [if_neg available] at change
    subst change
    exact ⟨fun follows => absurd follows.1 available, fun _ => .refl quiet.tidy⟩

/-- No node has committed the first id of a command or any later one. -/
def Unused (c : Cluster) (before : TxId) : Prop :=
  ∀ x n, c.node? x = some n → (n.sequencer.slot before.origin).last < before.sequence

/-- Unused ids are not reported as committed elsewhere. -/
theorem Unused.vote (unused : c.Unused before) (running : c.node? x = some n)
    (v : n.SchemaVoted request command before before.next reply n') (id : TxId) :
    reply ≠ .invalid id .alreadyPresent := by
  have behind := unused x n running
  cases v with
  | yes drawn agrees promised status => exact nofun
  | @no _ _ about drawn refuses status either =>
    intro eq
    rw [Reply.invalid.injEq] at eq
    have done := Slot.classify_eq_alreadyPresent.1 eq.2
    rcases either with rfl | rfl
    · omega
    · have done : before.sequence + 1 ≤ (n.sequencer.slot before.origin).last := done
      omega

/-- All members that can be reached vote on a command, the origin first. -/
theorem hear_spec (calm : c.CalmAt name out) (running : c.node? name = some n)
    (request : RequestId) (command : String) (before : TxId) (expected quorum : Nat) :
    ∃ (reply : String → Reply) (c₁ c₂ : Cluster),
      atNode name (Node.prepareSchema request command before before.next) c =
        (.ok (reply name), c₁) ∧ (∃ n₁, c₁.node? name = some n₁) ∧
      broadcast name (c.targets name) (.schemaFirstPhase request command before before.next)
          .awaited ((Tally.start request (c.available name) expected quorum).receive name
            (reply name)) c₁ =
        (.ok { Tally.start request (c.available name) expected quorum with
          replies := (name, reply name) :: (c.targets name).map fun x => (x, reply x) }, c₂) ∧
      Heard name request command before reply c c₂ := by
  obtain ⟨own, n₁, c₁, judged, moved, worked⟩ :=
    atNode_spec (Node.prepareSchema request command before before.next) running
  have voted : n.SchemaVoted request command before before.next own n₁ :=
    worked.schemaVote (calm.sender running).still
  have e₁ := moved.evolved
    (R := fun k k' => k.SchemaVoted request command before before.next own k') running voted
  obtain ⟨reply, c₂, sent, e₂⟩ := broadcast_spec
    (.schemaFirstPhase request command before before.next) .awaited
    ((Tally.start request (c.available name) expected quorum).receive name own)
    (calm.healthy.evolved e₁) moved.network (contains_of_node? running)
  have others : ((c.targets name).map fun x => (x, if x = name then own else reply x)) =
      (c.targets name).map fun x => (x, reply x) :=
    List.map_congr_left fun x mem => by rw [if_neg (mem_targets.1 mem).2]
  refine ⟨fun x => if x = name then own else reply x, c₁, c₂, ?_, ⟨_, moved.node⟩, ?_,
    (e₁.trans e₂).mono ?_⟩
  · simp only [↓reduceIte]
    exact judged
  · simp only [↓reduceIte]
    rw [others, sent, if_pos rfl, Tally.round_replies own reply (mem_available_self running)
      (fun x mem => (mem_targets.1 mem).1) not_mem_targets (targets_nodup c name)]
  · rintro x k k₂ here ⟨k₁, change, answered⟩
    by_cases origin : x = name
    · subst origin
      rw [if_pos rfl] at change
      rw [if_neg not_mem_targets] at answered
      dsimp only
      rw [if_pos (mem_available_self running), if_pos rfl, answered]
      exact change
    · rw [if_neg origin] at change
      subst change
      dsimp only
      rw [if_neg origin]
      by_cases available : x ∈ c.available name
      · rw [if_pos (mem_targets.2 ⟨available, origin⟩)] at answered
        rw [if_pos available]
        exact answered.schemaVote (calm.other here origin).still
      · rw [if_neg fun mem => available (mem_targets.1 mem).1] at answered
        rw [if_neg available]
        exact answered

/-- What offering unused ids to all members comes to. -/
theorem offerSchema_spec (calm : c.CalmAt name out) (running : c.node? name = some n)
    (next : n.resources.view.IsNext before) (unused : c.Unused before) (request : RequestId)
    (command : String) (quorum : Nat) :
    ∃ decision c', offerSchema name command before before.next request (c.available name) quorum c =
        (.ok ⟨decision, []⟩, c') ∧
      ((decision ≠ .ok .apply ∧ Evolved (fun _ => Node.Kept) c c') ∨
        (Evolved (fun x k k' => (c.Follows name before x k → k.Ran command before k') ∧
          (¬ c.Follows name before x k → k.Kept k')) c c' ∧
          if n.bodyFails command before then ∃ fault, decision = .error fault
          else decision = .ok .apply)) := by
  obtain ⟨reply, c₁, c₂, judged, ⟨n₁, running₁⟩, sent, heard⟩ :=
    hear_spec calm running request command before (c.available name).size quorum
  have fold : (c.available name).toList.filter (· ≠ name) = c.targets name := rfl
  unfold offerSchema
  simp only [Step.bind_apply, Step.run_apply, judged, getNode_spec running₁]
  rw [fold, sent]
  generalize counted : ({ Tally.start request (c.available name) (c.available name).size quorum with
    replies := (name, reply name) :: (c.targets name).map fun x => (x, reply x) } : Tally) = t
  have voted (x : String) (mem : x ∈ c.available name) (id : TxId) :
      reply x ≠ .invalid id .alreadyPresent := by
    obtain ⟨k, here⟩ := calm.healthy.available running mem
    obtain ⟨k', -, vote⟩ := heard.nodes x k here
    rw [if_pos mem] at vote
    exact unused.vote here vote id
  have fresh : t.committedElsewhere n₁.sequencer.origin = [] := by
    refine Tally.committedElsewhere_eq_nil fun p mem id reports => ?_
    rw [← counted, List.mem_cons, List.mem_map] at mem
    rcases mem with rfl | ⟨x, asked, rfl⟩
    · exact absurd reports (voted name (mem_available_self running) id)
    · exact absurd reports (voted x (mem_targets.1 asked).1 id)
  dsimp only
  rw [fresh]
  by_cases apply : t.schemaDecision = .apply
  · obtain ⟨result, c₃, confirmed, ok, evolved⟩ := heard.apply calm running next
    rw [decide_eq_true apply, confirmed]
    rcases result with fault | _
    · have fails : n.bodyFails command before = true := by
        simpa [Except.isOk, Except.toBool] using ok
      rw [fails]
      exact ⟨_, c₃, rfl, .inr ⟨evolved, fault, rfl⟩⟩
    · have fails : n.bodyFails command before = false := by
        simpa [Except.isOk, Except.toBool] using ok
      rw [fails]
      exact ⟨_, c₃, rfl, .inr ⟨evolved, congrArg Except.ok apply⟩⟩
  · obtain ⟨c₃, confirmed, evolved⟩ := heard.drop calm running
    rw [decide_eq_false apply, confirmed]
    refine ⟨_, c₃, rfl, .inl ⟨?_, evolved⟩⟩
    rw [ne_eq, Except.ok.injEq]
    exact apply

end QuorumCommit.Cluster
