import QuorumCommit.Proofs.Node.Exclusive

/-!
What the decision on a command comes to, on a node with a journal in memory. The command runs
through, with its body between its two ids, or it stops at some point before its second id and the
node asks for a copy of the database. Either way nothing waits under the request any more, and
nothing is promised on its account.
-/
namespace QuorumCommit.Node

open Attempt InFlight

variable {n m n' m' : Node} {a : Attempt} {request : RequestId} {k : Bracket}

/-- The command runs through: both of its ids are committed, one directly behind the other, and its
body succeeds once. -/
structure Completed (k : Bracket) (n n' : Node) : Prop where
  fresh : ¬ n.resources.HasDone k.before ∧ ¬ n.resources.HasDone k.after
  done : n'.resources.HasDone k.before ∧ n'.resources.HasDone k.after
  applied : n'.store.applied = n.store.applied ++ [⟨k.before, n.sequencer.nextOffset⟩,
    ⟨k.after, Sequencer.following n.sequencer.nextOffset⟩]
  ran : n'.store.commands = n.store.commands ++ [(k.command, .replicated)]

/-- The command stops: its second id is not committed, its first one may be, and its body succeeds
once or not at all. -/
structure Stopped (k : Bracket) (n n' : Node) : Prop where
  kept : n'.resources.HasDone k.after ↔ n.resources.HasDone k.after
  applied : n'.store.applied = n.store.applied ∨
    n'.store.applied = n.store.applied ++ [⟨k.before, n.sequencer.nextOffset⟩]
  ran : n'.store.commands = n.store.commands ∨
    n'.store.commands = n.store.commands ++ [(k.command, .replicated)]

def Concluded (k : Bracket) (n n' : Node) : Prop :=
  Xor (Completed k n n' ∧ n'.meter.resyncs = n.meter.resyncs)
    (Stopped k n n' ∧ n'.meter.resyncs = n.meter.resyncs + 1)

/-- A command that waits under a request is settled: nothing waits there any more, nothing is
promised that was not promised before or that its attempt lists, and it has run through or stopped.
-/
structure SchemaSettled (request : RequestId) (a : Attempt) (k : Bracket) (n n' : Node) : Prop where
  waits : n'.registry.get? request = none
  promises : ∀ p, n'.resources.HasPromised p → n.resources.HasPromised p ∧ p ∉ a.promised
  outcome : Concluded k n n'

theorem Completed.concluded (h : Completed k n n') (resyncs : n'.meter.resyncs = n.meter.resyncs) :
    Concluded k n n' := by
  refine .inl ⟨⟨h, resyncs⟩, fun ⟨_, more⟩ => ?_⟩
  simp [resyncs] at more

theorem Stopped.concluded (h : Stopped k n n')
    (resyncs : n'.meter.resyncs = n.meter.resyncs + 1) : Concluded k n n' := by
  refine .inr ⟨⟨h, resyncs⟩, fun ⟨_, same⟩ => ?_⟩
  simp [resyncs] at same

structure Abreast (n m : Node) : Prop where
  hasDone : ∀ p, m.resources.HasDone p ↔ n.resources.HasDone p
  nextOffset : m.sequencer.nextOffset = n.sequencer.nextOffset
  applied : m.store.applied = n.store.applied
  commands : m.store.commands = n.store.commands

theorem Abreast.refl (n : Node) : n.Abreast n := ⟨fun _ => Iff.rfl, rfl, rfl, rfl⟩

theorem Completed.congr (h : Completed k m m') (start : n.Abreast m) (last : n'.Abreast m') :
    Completed k n n' where
  fresh := h.fresh.imp (mt (start.hasDone _).2) (mt (start.hasDone _).2)
  done := h.done.imp (last.hasDone _).1 (last.hasDone _).1
  applied := by
    rw [← start.applied, ← start.nextOffset, ← last.applied]
    exact h.applied
  ran := by
    rw [← start.commands, ← last.commands]
    exact h.ran

theorem Stopped.congr (h : Stopped k m m') (start : n.Abreast m) (last : n'.Abreast m') :
    Stopped k n n' where
  kept := (last.hasDone _).symm.trans (h.kept.trans (start.hasDone _))
  applied := by
    rw [← start.applied, ← start.nextOffset, ← last.applied]
    exact h.applied
  ran := by
    rw [← start.commands, ← last.commands]
    exact h.ran

theorem Concluded.congr (h : Concluded k m m') (start : n.Abreast m) (last : n'.Abreast m')
    (meter : m.meter = n.meter) (meter' : m'.meter = n'.meter) : Concluded k n n' := by
  rw [Concluded, meter, meter'] at h
  rcases h with ⟨⟨completed, resyncs⟩, -⟩ | ⟨⟨stopped, resyncs⟩, -⟩
  · exact (completed.congr start last).concluded resyncs
  · exact (stopped.congr start last).concluded resyncs

/-- Giving an attempt up commits and notes nothing. -/
theorem abreast_released (released : Released a m.resources n.resources) : n.Abreast m where
  hasDone p := by
    unfold Resources.HasDone
    rw [Slot.last_of_bare (released.bare p.origin)]
  nextOffset := (congrArg (·.2.2) released.frame :).symm
  applied := (Store.applied_of_content released.content).symm
  commands := (congrArg Store.commands released.content :).symm

structure Noted (id : TxId) (n n' : Node) : Prop where
  fresh : ¬ n.resources.HasDone id
  done : n'.resources.HasDone id
  others : ∀ p, p ≠ id → (n'.resources.HasDone p ↔ n.resources.HasDone p)
  promises : ∀ p, n'.resources.HasPromised p ↔ p ≠ id ∧ n.resources.HasPromised p
  applied : n'.store.applied = n.store.applied ++ [⟨id, n.sequencer.nextOffset⟩]
  nextOffset : n'.sequencer.nextOffset = Sequencer.following n.sequencer.nextOffset
  commands : n'.store.commands = n.store.commands
  path : n'.resources.journal.path = n.resources.journal.path
  resyncs : n'.meter.resyncs = n.meter.resyncs

/-- In memory, the next id of an origin is committed, and any other id is refused. -/
theorem commitId_unfiled (path : n.resources.journal.path = none) (id : TxId) :
    (∃ fault, commitId id n = (.error fault, n)) ∨
      ∃ n', commitId id n = (.ok (), n') ∧ Noted id n n' := by
  obtain ⟨-, commands, kept, others⟩ := commitId_frame n id
  by_cases next : n.resources.IsNext id
  · let r := n.resources.advanceOn n.resources.disk id (n.store.note ⟨id, n.sequencer.nextOffset⟩)
    have committed : commitId id n = (.ok (), { n with resources := r }) := by
      unfold commitId
      dsimp only
      rw [Journal.commit_next path n.resources.disk next]
      rfl
    obtain ⟨fresh, done⟩ := commitId_ok committed
    rw [committed] at commands kept others
    exact .inr ⟨_, committed, fresh, done, fun p other => ⟨others p other, kept p⟩,
      fun p => Resources.hasPromised_advanceOn, rfl, rfl, commands, rfl, rfl⟩
  · unfold commitId
    dsimp only
    rcases Journal.commit_other n.resources.disk next with refused | refused <;> rw [refused]
    · exact .inl ⟨_, rfl⟩
    · exact .inl ⟨_, rfl⟩

/-- However often the body of a command is run, no copy of the database is asked for. -/
theorem resyncs_runBody (command : String) (more : Nat) (n : Node) :
    (runBody command more n).2.meter.resyncs = n.meter.resyncs := by
  induction more generalizing n with
  | zero => rfl
  | succ more ih =>
    have meter : (execute command .replicated n).2.meter = n.meter := rfl
    unfold runBody
    simp only [Step.run_apply]
    rcases eq : execute command .replicated n with ⟨fault | _, m⟩ <;> rw [eq] at meter
    · exact (ih (m.count .retries)).trans (congrArg Meter.resyncs meter :)
    · exact congrArg Meter.resyncs meter

/-- A body that is run commits and promises nothing, and is noted just when it succeeds. -/
structure RanBody (command : String) (n : Node) (out : Except Fault Unit × Node) : Prop
    extends n.resources.Quiet out.2.resources where
  journal : out.2.resources.journal = n.resources.journal
  commands : out.2.store.commands =
    n.store.commands ++ if out.1 = .ok () then [(command, .replicated)] else []
  resyncs : out.2.meter.resyncs = n.meter.resyncs

theorem ranBody (command : String) (more : Nat) (n : Node) :
    RanBody command n (runBody command more n) :=
  ⟨(runBody_quiet n command more).2, (runBody_noted command more n).1,
    (runBody_noted command more n).2.2, resyncs_runBody command more n⟩

structure Between (k : Bracket) (n : Node) (out : Except Fault Unit × Node) : Prop where
  ok : out.1 = .ok () → Completed k n out.2 ∧
    ∀ p, out.2.resources.HasPromised p → n.resources.HasPromised p ∧ p ≠ k.before ∧ p ≠ k.after
  error : ∀ fault, out.1 = .error fault → Stopped k n out.2 ∧
    ∀ p, out.2.resources.HasPromised p → n.resources.HasPromised p
  resyncs : out.2.meter.resyncs = n.meter.resyncs

theorem between_runBetween (path : n.resources.journal.path = none) (ne : k.before ≠ k.after) :
    Between k n (runBetween k.command k.before k.after n) := by
  unfold runBetween
  simp only [Step.run_apply, Step.bind_apply]
  -- Each of the three steps may fail, and what those before it have done is not undone.
  rcases commitId_unfiled path k.before with ⟨fault, refused⟩ | ⟨n₁, first, noted⟩
  · rw [refused]
    exact ⟨nofun, fun _ _ => ⟨⟨Iff.rfl, .inl rfl, .inl rfl⟩, fun _ promised => promised⟩, rfl⟩
  rw [first]
  have body := ranBody k.command (n.settings.maxAutoRetry - 1) n₁
  have after₁ := noted.others k.after (Ne.symm ne)
  dsimp only
  rcases ran : runBody k.command (n.settings.maxAutoRetry - 1) n₁ with ⟨fault | _, n₂⟩ <;>
    rw [ran] at body
  · refine ⟨nofun, fun _ _ => ⟨⟨body.hasDone.trans after₁, .inr (body.applied.trans noted.applied),
      .inl ?_⟩, fun p promised => ((noted.promises p).1 (body.hasPromised.1 promised)).2⟩,
      body.resyncs.trans noted.resyncs⟩
    exact (body.commands.trans (List.append_nil _)).trans noted.commands
  dsimp only
  have commands : n₂.store.commands = n.store.commands ++ [(k.command, .replicated)] := by
    rw [← noted.commands]
    exact body.commands
  have applied : n₂.store.applied = n.store.applied ++ [⟨k.before, n.sequencer.nextOffset⟩] :=
    body.applied.trans noted.applied
  have resyncs : n₂.meter.resyncs = n.meter.resyncs := body.resyncs.trans noted.resyncs
  have path₂ : n₂.resources.journal.path = none := body.path.trans (noted.path.trans path)
  rcases commitId_unfiled path₂ k.after with ⟨fault, refused⟩ | ⟨n₃, last, noted'⟩
  · rw [refused]
    exact ⟨nofun, fun _ _ => ⟨⟨body.hasDone.trans after₁, .inr applied, .inr commands⟩,
      fun p promised => ((noted.promises p).1 (body.hasPromised.1 promised)).2⟩, resyncs⟩
  · rw [last]
    have offset : n₂.sequencer.nextOffset = Sequencer.following n.sequencer.nextOffset :=
      (congrArg (·.sequencer.nextOffset) body.journal :).trans noted.nextOffset
    refine ⟨fun _ => ⟨⟨⟨noted.fresh, fun done => ?_⟩, ⟨?_, noted'.done⟩, ?_, ?_⟩,
      fun p promised => ?_⟩,
      nofun, noted'.resyncs.trans resyncs⟩
    · exact noted'.fresh (body.hasDone.2 (after₁.2 done))
    · exact (noted'.others k.before ne).2 (body.hasDone.2 noted.done)
    · rw [noted'.applied, applied, offset, List.append_assoc]
      rfl
    · exact noted'.commands.trans commands
    · obtain ⟨other', promised⟩ := (noted'.promises p).1 promised
      obtain ⟨other, promised⟩ := (noted.promises p).1 (body.hasPromised.1 promised)
      exact ⟨promised, other, other'⟩

/-- An attempt is applied, and given up in any case. -/
theorem finishSchema_concludes (path : n.resources.journal.path = none) (sane : a.Sane)
    (job : a.job = .schema k.command k.before k.after) (ne : k.before ≠ k.after) :
    Concluded k n (finishSchema ⟨a, n.resources⟩ k.command k.before k.after n).2 ∧
      ∀ p, (finishSchema ⟨a, n.resources⟩ k.command k.before k.after n).2.resources.HasPromised p →
        n.resources.HasPromised p ∧ p ∉ a.promised := by
  have between := between_runBetween path ne
  unfold finishSchema
  dsimp only
  rcases ran : runBetween k.command k.before k.after n with ⟨fault | _, m⟩ <;> rw [ran] at between
  · obtain ⟨stopped, promises⟩ := between.error fault rfl
    have released := released_destroy (b := ⟨a, m.resources⟩) sane.live
    have given : ((m.discard ⟨a, m.resources⟩).askResync).Abreast m := abreast_released released
    refine ⟨(stopped.congr (.refl n) given).concluded (congrArg (· + 1) between.resyncs),
      fun p mem => ?_⟩
    obtain ⟨kept, other⟩ := (released.promised p.origin p.sequence).1 mem
    exact ⟨promises p kept, other⟩
  · obtain ⟨completed, promises⟩ := between.ok rfl
    have released := released_destroy (b := markApplied ⟨a, m.resources⟩) sane.live
    have given : ((m.discard (markApplied ⟨a, m.resources⟩)).count .schemaExecuted).Abreast m :=
      abreast_released released
    refine ⟨(completed.congr (.refl n) given).concluded between.resyncs, fun p mem => ?_⟩
    obtain ⟨kept, first, last⟩ := promises p ((released.promised p.origin p.sequence).1 mem).1
    refine ⟨kept, fun mine => ?_⟩
    have listed := sane.promised p mine
    rw [job] at listed
    rcases List.mem_pair.1 listed with same | same
    · exact first same
    · exact last same

/-- A command that was agreed to is applied. -/
theorem settleSchema_agreed (found : n.registry.get? request = some a)
    (success : a.status = .success)
    (job : a.job = .schema k.command k.before k.after) :
    settleSchema request true n =
      finishSchema ⟨a, n.resources⟩ k.command k.before k.after (n.forget request) := by
  unfold settleSchema waiting?
  rw [found]
  dsimp only [Option.map_some]
  rw [if_pos rfl, job]
  dsimp only
  rw [if_pos success]

/-- A command that waits is settled, whether it was agreed to or refused. One that was refused is
judged anew, and what is promised for it in between is given up with it. -/
theorem settleSchema_settles (orderly : n.Orderly) (path : n.resources.journal.path = none)
    (tries : 1 ≤ n.settings.maxAutoRetry) (found : n.registry.get? request = some a)
    (job : a.job = .schema k.command k.before k.after) (ne : k.before ≠ k.after) :
    SchemaSettled request a k n (settleSchema request true n).2 := by
  have sane := orderly.sound.sane a (Registry.mem_all.2 ⟨request, found⟩)
  suffices settled : (∀ p, (settleSchema request true n).2.resources.HasPromised p →
      n.resources.HasPromised p ∧ p ∉ a.promised) ∧
        Concluded k n (settleSchema request true n).2 from
    ⟨settleSchema_clears n request true, settled.1, settled.2⟩
  by_cases success : a.status = .success
  · rw [settleSchema_agreed found success job]
    obtain ⟨concluded, promises⟩ :=
      finishSchema_concludes (n := n.forget request) path sane job ne
    exact ⟨promises, concluded.congr ⟨fun _ => Iff.rfl, rfl, rfl, rfl⟩ (.refl _) rfl rfl⟩
  have judged : Call.judges? n (.settleSchema request true) = some k := by
    have judges : Call.judges? n (.settleSchema request true) =
        ((n.registry.get? request).filter (·.status ≠ .success)).bind (bracketOf? ·.job) := rfl
    rw [judges, found, Option.filter_some, if_pos (by simpa using success), Option.bind_some, job]
    rfl
  -- A refused attempt lists nothing; whatever is promised from here on is listed by a new one.
  obtain ⟨anew, same⟩ := settleSchema_anew orderly tries judged
  rw [(sane.idle success).2.1]
  by_cases agrees : n.Agrees k.before k.after
  · let m : Node := { n.forget request with resources := n.resources.offer k.before k.after }
    obtain ⟨concluded, promises⟩ := finishSchema_concludes (n := m) path
      (offered_sane request k.command k.before k.after) rfl ne
    rw [anew agrees]
    have offered : n.resources.Idle m.resources := ⟨rfl, rfl, Resources.slot_offer⟩
    refine ⟨fun p mem => ?_,
      concluded.congr ⟨fun _ => offered.hasDone, rfl, rfl, rfl⟩ (.refl _) rfl rfl⟩
    obtain ⟨promised, other⟩ := promises p mem
    rcases Resources.hasPromised_offer.1 promised with known | ⟨-, new⟩
    · exact ⟨known, List.not_mem_nil⟩
    · exact absurd new other
  · rw [same agrees]
    exact ⟨fun _ promised => ⟨promised, List.not_mem_nil⟩,
      Stopped.concluded ⟨Iff.rfl, .inl rfl, .inl rfl⟩ rfl⟩

end QuorumCommit.Node
