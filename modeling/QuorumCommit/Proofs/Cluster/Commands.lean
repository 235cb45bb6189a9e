import QuorumCommit.Proofs.Cluster.Rounds

/-!
The call that runs a command on all nodes. Rounds that come to nothing give their ids back, so the
next round offers the same ones; the first round that is decided for the command ends the call. If
the body fails at the origin, the second id is given back although others may have committed it.
-/
namespace QuorumCommit.Cluster

variable {c c' c'' : Cluster} {name x : String} {n n' n'' : Node} {out : Nat}
  {before id : TxId} {command : String} {request : RequestId}

theorem giveBackId_done (calm : c.CalmAt name out) (running : c.node? name = some n)
    (own : id.origin = n.sequencer.origin)
    (done : id.sequence ≤ (n.sequencer.slot n.sequencer.origin).last) :
    ∃ c', giveBackId name id c = (.ok (), c') ∧ c'.CalmAt name out ∧ c.Untouched c' := by
  obtain ⟨m, c', given, -, -, calm', untouched⟩ := atNode_untouched
    (fun m => ((), m.withSequencer (m.sequencer.releaseId id))) calm running
    fun m same calm => by
      have origin : m.sequencer.origin = n.sequencer.origin := same.origin
      refine calm.giveBack_committed (own.trans origin.symm) ?_
      rw [origin, same.last]
      exact done
  exact ⟨c', given, calm', untouched⟩

theorem endRound_eq (name : String) (before : TxId) (c : Cluster) :
    endRound name [before.next, before] [] c =
      (do giveBackId name before.next; giveBackId name before : Step Cluster Unit) c := by
  have all : [before.next, before].filter (· ∉ ([] : List TxId)) = [before.next, before] := by simp
  unfold endRound
  rw [all]
  simp only [List.forM, List.isEmpty_nil, ↓reduceIte, Step.bind_apply, Step.pure_apply]
  rcases giveBackId name before.next c with ⟨fault | _, c₁⟩
  · rfl
  · dsimp only
    rcases giveBackId name before c₁ with ⟨fault | _, c₂⟩ <;> rfl

/-- The ids of a round that is given up are issued again. -/
theorem endRound_spec (calm : c.CalmAt name 2) (running : c.node? name = some n) :
    ∃ c', endRound name [(n.upcoming 0).next, n.upcoming 0] [] c = (.ok (), c') ∧ c'.Calm ∧
      c.Untouched c' := by
  have second : (n.upcoming 0).next = n.upcoming 1 := rfl
  obtain ⟨c₁, given₁, calm₁, untouched₁⟩ := giveBackId_spec calm running
  obtain ⟨n₁, running₁, same₁⟩ := untouched₁.nodes name n running
  obtain ⟨c₂, given₂, calm₂, untouched₂⟩ := giveBackId_spec calm₁ running₁
  rw [same₁.upcoming] at given₂
  refine ⟨c₂, ?_, calm₂.calm, untouched₁.trans untouched₂⟩
  rw [endRound_eq, second, Step.bind_apply, given₁]
  exact given₂

/-- If only the first id is committed, the second one is issued again. -/
theorem endRound_half (calm : c.CalmAt name 1) (running : c.node? name = some n)
    (own : before.origin = n.sequencer.origin)
    (last : (n.sequencer.slot n.sequencer.origin).last = before.sequence) :
    ∃ c', endRound name [before.next, before] [] c = (.ok (), c') ∧ c'.Calm ∧ c.Untouched c' := by
  have second : before.next = n.upcoming 0 := by
    unfold TxId.next Node.upcoming
    rw [own, last]
  obtain ⟨c₁, given₁, calm₁, untouched₁⟩ := giveBackId_spec calm running
  obtain ⟨n₁, running₁, same₁⟩ := untouched₁.nodes name n running
  obtain ⟨c₂, given₂, calm₂, untouched₂⟩ := giveBackId_done calm₁ running₁
    (own.trans same₁.origin.symm) (by
      have origin : n₁.sequencer.origin = n.sequencer.origin := same₁.origin
      rw [origin, same₁.last]
      exact Nat.le_of_eq last.symm)
  refine ⟨c₂, ?_, calm₂.calm, untouched₁.trans untouched₂⟩
  rw [endRound_eq, second, Step.bind_apply, given₁]
  exact given₂

/-- A command is run at the origin under its next ids, and wherever these are the next ones too. -/
def Executed (c : Cluster) (name command : String) (c' : Cluster) : Prop :=
  ∃ n, c.node? name = some n ∧
    Evolved (fun x k k' =>
      (c.Follows name (n.upcoming 0) x k → k.Executed command (n.upcoming 0) k') ∧
      (¬ c.Follows name (n.upcoming 0) x k → k.Same k')) c c'

theorem Untouched.executed (h : c.Untouched c') (healthy : c.Healthy)
    (e : c'.Executed name command c'') : c.Executed name command c'' := by
  obtain ⟨n', running', evolved⟩ := e
  obtain ⟨n, running, same⟩ := Evolved.source h healthy running'
  refine ⟨n, running, (Evolved.trans h evolved).mono ?_⟩
  rintro x k k'' here ⟨k', sameₖ, yes, no⟩
  have follows : c'.Follows name (n'.upcoming 0) x k' ↔ c.Follows name (n.upcoming 0) x k := by
    unfold Follows
    rw [h.network.available, same.upcoming, sameₖ.toAlike.isNext]
  rw [follows, same.upcoming] at yes
  rw [follows] at no
  exact ⟨fun takes => sameₖ.executed (yes takes), fun stays => sameₖ.trans (no stays)⟩

theorem Executed.untouched (e : c.Executed name command c') (h : c'.Untouched c'') :
    c.Executed name command c'' := by
  obtain ⟨n, running, evolved⟩ := e
  refine ⟨n, running, (Evolved.trans evolved h).mono ?_⟩
  rintro x k k'' here ⟨k', ⟨yes, no⟩, same⟩
  refine ⟨fun takes => ?_, fun stays => (no stays).trans same⟩
  have executed := yes takes
  exact ⟨same.settings.trans executed.settings, same.registry.trans executed.registry,
    same.shared.trans executed.shared, executed.places.trans ⟨same.room, same.reserved⟩,
    same.origin.trans executed.origin⟩

def Leads (c : Cluster) (name : String) : Prop :=
  ∀ n, c.node? name = some n → c.Unused (n.upcoming 0)

theorem Untouched.unused (h : c.Untouched c') (healthy : c.Healthy) (unused : c.Unused before) :
    c'.Unused before := by
  intro x k' running'
  obtain ⟨k, running, same⟩ := Evolved.source h healthy running'
  rw [same.last]
  exact unused x k running

theorem Untouched.leads (h : c.Untouched c') (healthy : c.Healthy) (leads : c.Leads name) :
    c'.Leads name := by
  intro n' running'
  obtain ⟨n, running, same⟩ := Evolved.source h healthy running'
  rw [same.upcoming]
  exact h.unused healthy (leads n running)

def RoundOutcome (name command : String) (c : Cluster) :
    Except Fault Tally.SchemaDecision × Cluster → Prop
  | (.ok .apply, c') => c'.Calm ∧ c.Executed name command c'
  | (.ok _, c') => c'.Calm ∧ c.Untouched c'
  | (.error _, c') => c'.Calm ∧ (c.Untouched c' ∨ c.Executed name command c')

/-- After a command has run, the ids in use are those that it did not commit. -/
theorem CalmAt.ran (calm : c.CalmAt name 2) (running : c.node? name = some n)
    (e : Evolved (fun x k k' =>
      (c.Follows name (n.upcoming 0) x k → k.Ran command (n.upcoming 0) k') ∧
      (¬ c.Follows name (n.upcoming 0) x k → k.Kept k')) c c') :
    c'.CalmAt name (if n.bodyFails command (n.upcoming 0) then 1 else 0) := by
  refine calm.evolved e ?_ ?_
  · intro k k' here change quiet
    obtain rfl := Option.mem_unique running here
    have ran := change.1 ⟨mem_available_self running, upcoming_isNext n⟩
    have after := quiet.ran (upcoming_isNext n) ran
    rwa [if_pos (show (n.upcoming 0).origin = n.sequencer.origin from rfl)] at after
  · intro x k k' _ _ change quiet
    by_cases follows : c.Follows name (n.upcoming 0) x k
    · have after := quiet.ran follows.2 (change.1 follows)
      simp only [Nat.zero_sub, ite_self] at after
      exact after
    · exact quiet.kept (change.2 follows)

theorem executed_of_ran (running : c.node? name = some n)
    (e : Evolved (fun x k k' =>
      (c.Follows name (n.upcoming 0) x k → k.Ran command (n.upcoming 0) k') ∧
      (¬ c.Follows name (n.upcoming 0) x k → k.Kept k')) c c') : c.Executed name command c' :=
  ⟨n, running, e.mono fun _ _ _ _ change =>
    ⟨fun follows => (change.1 follows).executed, fun stays => (change.2 stays).same⟩⟩

/-- The vote of a round and its decision, or its refusal for want of members. -/
theorem offer_spec (calm : c.CalmAt name 2) (running : c.node? name = some n)
    (unused : c.Unused (n.upcoming 0)) (command : String) (request : RequestId) (quorum : Nat) :
    ∃ decision c', (tryCatch (do
        requireQuorum name quorum (c.available name)
        offerSchema name command (n.upcoming 0) (n.upcoming 0).next request
          (c.available name) quorum)
      fun fault => pure ⟨.error fault, []⟩ : Step Cluster Round) c = (.ok ⟨decision, []⟩, c') ∧
      ((decision ≠ .ok .apply ∧ c'.CalmAt name 2 ∧ c.Untouched c') ∨
        (c.Executed name command c' ∧
          c'.CalmAt name (if n.bodyFails command (n.upcoming 0) then 1 else 0) ∧
          (∃ n', c'.node? name = some n' ∧ n.Ran command (n.upcoming 0) n') ∧
          if n.bodyFails command (n.upcoming 0) then ∃ fault, decision = .error fault
          else decision = .ok .apply)) := by
  have keeps {c' : Cluster} (e : Evolved (fun _ => Node.Kept) c c') :
      c'.CalmAt name 2 ∧ c.Untouched c' :=
    ⟨calm.evolved e (fun _ _ _ kept calm => calm.kept kept) fun _ _ _ _ _ kept calm =>
      calm.kept kept, e.mono fun _ _ _ _ kept => kept.same⟩
  simp only [Step.tryCatch_apply, Step.bind_apply]
  obtain ⟨-, fault, n', c', refused, moved, kept⟩ | ⟨-, passed⟩ :=
    requireQuorum_spec running (calm.sender running) quorum (c.available name)
  · rw [refused]
    exact ⟨_, c', rfl, .inl ⟨nofun, keeps (moved.kept calm running kept)⟩⟩
  · obtain ⟨decision, c', offered, outcome⟩ := offerSchema_spec calm running (upcoming_isNext n)
      unused request command quorum
    rw [passed]
    dsimp only
    rw [offered]
    refine ⟨decision, c', rfl, ?_⟩
    rcases outcome with ⟨against, kept⟩ | ⟨ran, result⟩
    · exact .inl ⟨against, keeps kept⟩
    · obtain ⟨n', running', own, -⟩ := ran.nodes name n running
      exact .inr ⟨executed_of_ran running ran, calm.ran running ran,
        ⟨n', running', own ⟨mem_available_self running, upcoming_isNext n⟩⟩, result⟩

/-- A round ends with its ids used or given back. -/
theorem schemaRound_spec (calm : c.CalmAt name 2) (running : c.node? name = some n)
    (unused : c.Unused (n.upcoming 0)) (command : String) :
    RoundOutcome name command c
      (schemaRound name command (n.upcoming 0) (n.upcoming 0).next c) := by
  obtain ⟨request, c₁, asked, moved⟩ := nextRequest_spec running
  have untouched := moved.untouched running (.refl n)
  have calm₁ : c₁.CalmAt name 2 := calm.moved running moved (calm.sender running)
  have unused₁ := untouched.unused calm.healthy unused
  unfold schemaRound
  simp only [Step.bind_apply, asked, Step.get_apply, getNode_spec moved.node]
  obtain ⟨decision, c₂, offered, outcome⟩ := offer_spec calm₁ moved.node unused₁ command request
    (n.settings.replication.maxWriteQuorum [] (c₁.available name).size)
  rw [offered]
  dsimp only
  rcases outcome with ⟨against, calm₂, untouched₂⟩ | ⟨executed, calm₂, ⟨n₂, running₂, ran⟩, result⟩
  · obtain ⟨n₂, running₂, same⟩ := untouched₂.nodes name n moved.node
    obtain ⟨c₃, ended, calm₃, untouched₃⟩ := endRound_spec calm₂ running₂
    rw [same.upcoming] at ended
    have all := (untouched.trans untouched₂).trans untouched₃
    rcases decision with fault | (_ | fault | fault)
    · simp only [Step.bind_apply, ended]
      exact ⟨calm₃, .inl all⟩
    · exact absurd rfl against
    · simp only [Step.bind_apply, ended]
      exact ⟨calm₃, all⟩
    · simp only [Step.bind_apply, ended]
      exact ⟨calm₃, all⟩
  · have done := untouched.executed calm.healthy executed
    cases fails : n.bodyFails command (n.upcoming 0) with
    | true =>
      rw [fails] at calm₂ result
      obtain ⟨fault, rfl⟩ := result
      have own : (n.upcoming 0).origin = n₂.sequencer.origin := ran.executed.origin.symm
      have last : (n₂.sequencer.slot n₂.sequencer.origin).last = (n.upcoming 0).sequence := by
        rw [← own]
        have slots : n₂.sequencer.slot = _ := congrArg View.slots ran.view
        rw [slots, View.last_between]
        exact if_pos fails
      obtain ⟨c₃, ended, calm₃, untouched₃⟩ := endRound_half calm₂ running₂ own last
      simp only [Step.bind_apply, ended]
      exact ⟨calm₃, .inr (done.untouched untouched₃)⟩
    | false =>
      rw [fails] at calm₂ result
      have result : decision = .ok .apply := result
      subst result
      exact ⟨calm₂.calm, done⟩

def CommandOutcome (name command : String) (c : Cluster) : Except Fault Unit × Cluster → Prop
  | (.ok _, c') => c'.Calm ∧ c.Executed name command c'
  | (.error _, c') => c'.Calm ∧ (c.Untouched c' ∨ c.Executed name command c')

theorem Untouched.commandOutcome (h : c.Untouched c') (healthy : c.Healthy)
    {r : Except Fault Unit × Cluster} (o : CommandOutcome name command c' r) :
    CommandOutcome name command c r := by
  rcases r with ⟨fault | _, c''⟩
  · exact ⟨o.1, o.2.imp h.trans (h.executed healthy)⟩
  · exact ⟨o.1, h.executed healthy o.2⟩

theorem schemaRounds_spec (calm : c.Calm) (ids : c.HasIds) (running : c.node? name = some n)
    (leads : c.Leads name) (command : String) (rounds : Nat) (last : Fault) (more : Nat) :
    CommandOutcome name command c (schemaRounds name command rounds last more c) := by
  induction more generalizing c n last with
  | zero => exact ⟨calm, .inl (.refl c)⟩
  | succ more ih =>
    obtain ⟨c₁, first, calm₁, untouched₁⟩ :=
      takeId_spec (calm.at name) running ids (Nat.zero_le 1)
    obtain ⟨n₁, running₁, same₁⟩ := untouched₁.nodes name n running
    obtain ⟨c₂, second, calm₂, untouched₂⟩ :=
      takeId_spec calm₁ running₁ (untouched₁.hasIds calm.healthy ids) (Nat.le_refl 1)
    obtain ⟨n₂, running₂, same₂⟩ := untouched₂.nodes name n₁ running₁
    have taken := untouched₁.trans untouched₂
    have round := schemaRound_spec calm₂ running₂
      (taken.leads calm.healthy leads n₂ running₂) command
    rw [(same₁.trans same₂).upcoming] at round
    rw [same₁.upcoming] at second
    have after : n.upcoming (0 + 1) = (n.upcoming 0).next := rfl
    unfold schemaRounds
    simp only [Step.bind_apply, first, second, after]
    rcases eq : schemaRound name command (n.upcoming 0) (n.upcoming 0).next c₂ with
      ⟨fault | (_ | fault | fault), c₃⟩
    · rw [eq] at round
      exact taken.commandOutcome calm.healthy (r := (.error fault, c₃)) round
    · rw [eq] at round
      exact taken.commandOutcome calm.healthy (r := (.ok (), c₃)) round
    · rw [eq] at round
      obtain ⟨calm₃, untouched₃⟩ := round
      obtain ⟨n₃, running₃, -⟩ := untouched₃.nodes name n₂ running₂
      obtain ⟨c₄, counted, calm₄, untouched₄⟩ :=
        count_untouched (calm₃.at name) running₃ .retries
      obtain ⟨n₄, running₄, -⟩ := untouched₄.nodes name n₃ running₃
      -- The round was given up, so the rest starts where this one did, with the same ids.
      have all := (taken.trans untouched₃).trans untouched₄
      simp only [Step.bind_apply, counted]
      exact all.commandOutcome calm.healthy
        (ih calm₄.calm (all.hasIds calm.healthy ids) running₄ (all.leads calm.healthy leads) fault)
    · rw [eq] at round
      exact ⟨round.1, .inl (taken.trans round.2)⟩

/-- A call to run a command runs it between the next two ids of its origin, or leaves everything as
it was, as long as no other node is ahead of the origin. -/
theorem runCommand_spec (calm : c.Calm) (ids : c.HasIds) (leads : c.Leads name)
    (command : String) :
    CommandOutcome name command c (runCommand name command .direct c) := by
  unfold runCommand
  cases running : c.node? name with
  | none =>
    have missing : getNode name c = (.error (notRunning name), c) := by
      unfold getNode
      rw [running]
    simp only [Step.bind_apply, missing]
    exact ⟨calm, .inl (.refl c)⟩
  | some n =>
    simp only [Step.bind_apply, getNode_spec running]
    exact schemaRounds_spec calm ids running leads command _ _ _

end QuorumCommit.Cluster
