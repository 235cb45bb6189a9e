import QuorumCommit.Proofs.Node.Onward
import QuorumCommit.Proofs.Node.Opening
import QuorumCommit.Proofs.Node.SchemaSession
import QuorumCommit.Proofs.Node.Writing

/-!
Bodies of commands. A body succeeds behind its first id and before its second one, in a call that
decides to apply its command. As an id is committed only once, no two bodies that succeed stand
behind the same id, whichever requests they are run for and however often those are delivered.
-/
namespace QuorumCommit

/-- No record has changed, no command has succeeded and no id was committed in between. -/
structure Resources.Idle (r r' : Resources) : Prop where
  records : r'.store.records = r.store.records
  commands : r'.store.commands = r.store.commands
  last : ∀ o, (r'.sequencer.slot o).last = (r.sequencer.slot o).last

namespace Resources.Idle

variable {r r' r'' : Resources}

theorem refl (r : Resources) : r.Idle r := ⟨rfl, rfl, fun _ => rfl⟩

theorem trans (h : r.Idle r') (h' : r'.Idle r'') : r.Idle r'' :=
  ⟨h'.records.trans h.records, h'.commands.trans h.commands,
    fun o => (h'.last o).trans (h.last o)⟩

theorem hasDone (h : r.Idle r') {id : TxId} : r'.HasDone id ↔ r.HasDone id := by
  unfold HasDone
  rw [h.last]

theorem releaseAll (b : Attempt.State) : b.resources.Idle (Attempt.releaseAll b).resources := by
  have released := Attempt.released_releaseAll b
  exact ⟨(congrArg Store.records released.content :), (congrArg Store.commands released.content :),
    fun o => (congrArg Slot.last (released.bare o) :)⟩

theorem destroy (b : Attempt.State) : b.resources.Idle (Attempt.destroy b).resources := by
  unfold Attempt.destroy
  split
  · exact refl _
  · exact releaseAll b

theorem markPromised (r : Resources) (id : TxId) :
    r.Idle (r.withSequencer (r.sequencer.markPromised id)) := by
  refine ⟨rfl, rfl, fun o => ?_⟩
  simp only [Resources.withSequencer, Resources.sequencer, Sequencer.markPromised,
    Sequencer.slot_onSlot]
  split
  · next same =>
    subst same
    exact (congrArg Slot.last (Slot.bare_markPromised _ _) :)
  · rfl

end Resources.Idle

namespace Node

open Attempt InFlight

variable {n m n' : Node} {b : State} {request : RequestId} {id : TxId}

/-- A command between its two ids. -/
structure Bracket where
  command : String
  before : TxId
  after : TxId
  deriving DecidableEq, Repr

def bracketOf? : Job → Option Bracket
  | .data .. => none
  | .schema command before after => some ⟨command, before, after⟩

def bracket? (n : Node) (request : RequestId) : Option Bracket :=
  (n.registry.get? request).bind (bracketOf? ·.job)

variable {k : Bracket}

/-- The decision to apply the command `k` that waits under a request runs its body. The decision
comes to applying the attempt `b` at the node `m`. Up to there no body has succeeded and no id was
committed; then the first id is committed, which leads to `m₁`, and the body succeeds, which leads
to `m₂`. -/
structure RunsBody (n : Node) (request : RequestId) (k : Bracket) (b : State) (m m₁ m₂ : Node) :
    Prop where
  waits : n.bracket? request = some k
  idle : n.resources.Idle b.resources
  applies : settleSchema request true n = finishSchema b k.command k.before k.after m
  first : commitId k.before { m with resources := b.resources } = (.ok (), m₁)
  body : runBody k.command (m.settings.maxAutoRetry - 1) m₁ = (.ok (), m₂)

/-- An id is refused, or it was the next one and is committed. -/
theorem commitId_cases (n : Node) (id : TxId) :
    (∃ fault, commitId id n = (.error fault, n)) ∨
      (n.resources.IsNext id ∧ ∃ result disk store, store.records = n.store.records ∧
        store.commands = n.store.commands ∧
        commitId id n = (result, { n with resources := n.resources.advanceOn disk id store })) := by
  unfold commitId
  dsimp only
  rcases n.resources.journal.commit_cases n.resources.disk id with
    ⟨fault, refused⟩ | ⟨next, disk, committed | ⟨-, fault, unsaved⟩⟩
  · rw [refused]
    exact .inl ⟨fault, rfl⟩
  · rw [committed]
    exact .inr ⟨next, .ok (), disk, n.store.note ⟨id, n.sequencer.nextOffset⟩, rfl, rfl, rfl⟩
  · rw [unsaved]
    exact .inr ⟨next, .error fault, disk, n.store, rfl, rfl, rfl⟩

/-- Committing an id changes no record, runs no body and commits no other id. -/
theorem commitId_frame (n : Node) (id : TxId) :
    (commitId id n).2.store.records = n.store.records ∧
      (commitId id n).2.store.commands = n.store.commands ∧
      (∀ p, n.resources.HasDone p → (commitId id n).2.resources.HasDone p) ∧
      ∀ p, p ≠ id → (commitId id n).2.resources.HasDone p → n.resources.HasDone p := by
  rcases commitId_cases n id with ⟨fault, refused⟩
    | ⟨next, result, disk, store, records, same, committed⟩
  · rw [refused]
    exact ⟨rfl, rfl, fun _ done => done, fun _ _ done => done⟩
  · rw [committed]
    refine ⟨records, same, fun p done => Nat.le_trans done (next.last_le p.origin),
      fun p other done => ?_⟩
    obtain ⟨o, k⟩ := p
    obtain ⟨o', k'⟩ := id
    unfold Resources.HasDone at done ⊢
    unfold Resources.IsNext at next
    simp only [Resources.last_advanceOn, ne_eq, TxId.mk.injEq, not_and] at done next other ⊢
    split at done
    · next own =>
      subst own
      have := other rfl
      omega
    · exact done

theorem commitId_ok (ok : commitId id n = (.ok (), m)) :
    ¬ n.resources.HasDone id ∧ m.resources.HasDone id := by
  rcases commitId_cases n id with ⟨fault, refused⟩ | ⟨next, result, disk, store, -, -, committed⟩
  · rw [refused] at ok
    cases ok
  · rw [committed] at ok
    cases ok
    unfold Resources.IsNext at next
    unfold Resources.HasDone
    exact ⟨by omega, Resources.hasDone_advanceOn (r := n.resources)⟩

/-- A body commits no id and changes no record, and is noted just when it succeeds. -/
theorem runBody_noted (command : String) (more : Nat) (n : Node) :
    (runBody command more n).2.resources.journal = n.resources.journal ∧
      (runBody command more n).2.store.records = n.store.records ∧
      (runBody command more n).2.store.commands = n.store.commands ++
        if (runBody command more n).1 = .ok () then [(command, .replicated)] else [] := by
  obtain ⟨meter, ran⟩ := runBody_eq command more n
  have noted := n.store.commands_runBody command more
  rw [ran]
  refine ⟨rfl, (Store.runBody_frame n.store command more).2, ?_⟩
  show (Store.runBody command more n.store).2.commands = _
  rcases eq : Store.runBody command more n.store with ⟨fault | _, s⟩
  · rw [eq] at noted
    exact noted.trans (List.append_nil _).symm
  · rw [eq] at noted
    exact noted

/-- What applying a command comes to: its body succeeds behind its first id, or neither does a body
succeed nor is an id other than the first one committed. -/
inductive Finished (b : State) (k : Bracket) (m n' : Node) : Prop where
  | ran {m₁ m₂ : Node}
      (first : commitId k.before { m with resources := b.resources } = (.ok (), m₁))
      (body : runBody k.command (m.settings.maxAutoRetry - 1) m₁ = (.ok (), m₂))
      (done : n'.resources.HasDone k.before)
      (noted : n'.store.commands = b.resources.store.commands ++ [(k.command, .replicated)])
  | failed (same : n'.store.commands = b.resources.store.commands)
      (kept : ∀ id, id ≠ k.before → n'.resources.HasDone id → b.resources.HasDone id)

theorem Finished.idle {m' : Node} (h : Finished b k m m') (idle : m'.resources.Idle n'.resources) :
    Finished b k m n' := by
  cases h with
  | ran first body done noted =>
    exact .ran first body (idle.hasDone.2 done) (idle.commands.trans noted)
  | failed same kept =>
    exact .failed (idle.commands.trans same) fun id other done =>
      kept id other (idle.hasDone.1 done)

theorem runBetween_finished (b : State) (k : Bracket) (m : Node) :
    Finished b k m
      (runBetween k.command k.before k.after { m with resources := b.resources }).2 := by
  obtain ⟨-, same, -, others⟩ := commitId_frame { m with resources := b.resources } k.before
  unfold runBetween
  simp only [Step.run_apply, Step.bind_apply]
  rcases first : commitId k.before { m with resources := b.resources } with ⟨fault | _, m₁⟩
  · rw [first] at same others
    exact .failed same others
  rw [first] at same others
  obtain ⟨journal, -, noted⟩ := runBody_noted k.command (m.settings.maxAutoRetry - 1) m₁
  dsimp only at same others ⊢
  rcases body : runBody k.command (m.settings.maxAutoRetry - 1) m₁ with ⟨fault | _, m₂⟩
  · rw [body] at journal noted
    refine .failed (noted.trans ((List.append_nil _).trans same)) fun id other done =>
      others id other ?_
    unfold Resources.HasDone Resources.sequencer at done ⊢
    rwa [show m₂.resources.journal = m₁.resources.journal from journal] at done
  · rw [body] at journal noted
    obtain ⟨-, same', kept, -⟩ := commitId_frame m₂ k.after
    refine .ran first body (kept k.before ?_) (same'.trans (noted.trans ?_))
    · have done := (commitId_ok first).2
      unfold Resources.HasDone Resources.sequencer at done ⊢
      rwa [show m₂.resources.journal = m₁.resources.journal from journal]
    · exact congrArg (· ++ [(k.command, RunMode.replicated)]) same

/-- Between its ids and in them, a command changes no record. -/
theorem runBetween_records (command : String) (before after : TxId) (m : Node) :
    (runBetween command before after m).2.store.records = m.store.records := by
  have first := (commitId_frame m before).1
  unfold runBetween
  simp only [Step.run_apply, Step.bind_apply]
  rcases noted : commitId before m with ⟨fault | _, m₁⟩ <;> rw [noted] at first
  · exact first
  have body := (runBody_noted command (m.settings.maxAutoRetry - 1) m₁).2.1
  dsimp only at first ⊢
  rcases ran : runBody command (m.settings.maxAutoRetry - 1) m₁ with ⟨fault | _, m₂⟩ <;>
    rw [ran] at body
  · exact body.trans first
  · exact (commitId_frame m₂ after).1.trans (body.trans first)

theorem finishSchema_records (b : State) (command : String) (before after : TxId) (m : Node) :
    (finishSchema b command before after m).2.store.records = b.resources.store.records := by
  have between := runBetween_records command before after { m with resources := b.resources }
  unfold finishSchema
  rcases ran : runBetween command before after { m with resources := b.resources } with
    ⟨fault | _, m'⟩ <;> rw [ran] at between
  · exact (Resources.Idle.destroy ⟨b.attempt, m'.resources⟩).records.trans between
  · exact (Resources.Idle.destroy (markApplied ⟨b.attempt, m'.resources⟩)).records.trans between

theorem finishSchema_finished (b : State) (k : Bracket) (m : Node) :
    Finished b k m (finishSchema b k.command k.before k.after m).2 := by
  have between := runBetween_finished b k m
  unfold finishSchema
  rcases eq : runBetween k.command k.before k.after { m with resources := b.resources } with
    ⟨fault | _, m'⟩
  · rw [eq] at between
    exact between.idle (.destroy ⟨b.attempt, m'.resources⟩)
  · rw [eq] at between
    exact between.idle (.destroy (markApplied ⟨b.attempt, m'.resources⟩))

theorem park_idle (m : Node) (b : State) : b.resources.Idle (m.park b).resources := by
  unfold park Registry.register
  cases m.registry.get? b.attempt.request with
  | none => exact .refl _
  | some old => exact .destroy ⟨old, b.resources⟩

theorem prepareSchema_idle (n : Node) (request : RequestId) (command : String)
    (before after : TxId) :
    n.resources.Idle (prepareSchema request command before after n).2.resources := by
  cases judged : Tally.schemaConflict (n.sequencer.validate before)
      (n.sequencer.validate after) with
  | true =>
    obtain ⟨id, -, eq⟩ := prepareSchema_refused request command judged
    rw [eq]
    exact park_idle n ⟨refused request command before after, n.resources⟩
  | false =>
    rw [prepareSchema_agreed request command judged]
    refine .trans ?_ (park_idle _ _)
    exact .trans (.markPromised n.resources before) (.markPromised _ after)

/-- Judging a command anew comes to applying it, or to nothing. -/
theorem resolveSchema_cases (request : RequestId) (command : String) (before after : TxId)
    (more : Nat) (n : Node) :
    n.resources.Idle (resolveSchema request command before after more n).2.resources ∨
      ∃ b m, n.resources.Idle b.resources ∧
        resolveSchema request command before after more n =
          finishSchema b command before after m := by
  induction more generalizing n with
  | zero => exact .inl (.refl _)
  | succ more ih =>
    have judged := prepareSchema_idle n request command before after
    unfold resolveSchema waiting?
    dsimp only
    generalize prepareSchema request command before after n = answer at judged ⊢
    obtain ⟨reply, m⟩ := answer
    have later (m' : Node) (idle : n.resources.Idle m'.resources) :
        n.resources.Idle (resolveSchema request command before after more m').2.resources ∨
          ∃ b m, n.resources.Idle b.resources ∧
            resolveSchema request command before after more m' =
              finishSchema b command before after m := by
      rcases ih m' with rest | ⟨b, m, rest, same⟩
      · exact .inl (idle.trans rest)
      · exact .inr ⟨b, m, idle.trans rest, same⟩
    dsimp only
    cases m.registry.get? request with
    | none => exact later m judged
    | some a =>
      dsimp only [Option.map_some]
      split
      · exact .inr ⟨⟨a, m.resources⟩, m.forget request, judged, rfl⟩
      · exact later _ (judged.trans (.destroy ⟨a, m.resources⟩))

/-- A decision comes to applying the command that waits, or to nothing. -/
theorem settleSchema_cases (request : RequestId) (apply : Bool) (n : Node) :
    n.resources.Idle (settleSchema request apply n).2.resources ∨
      apply = true ∧ ∃ k b m, n.bracket? request = some k ∧ n.resources.Idle b.resources ∧
        settleSchema request apply n = finishSchema b k.command k.before k.after m := by
  unfold settleSchema waiting? bracket?
  cases n.registry.get? request with
  | none => exact .inl (.refl _)
  | some a =>
    have discarded : n.resources.Idle ((n.forget request).discard ⟨a, n.resources⟩).resources :=
      .destroy ⟨a, n.resources⟩
    dsimp only [Option.map_some]
    cases apply with
    | false => exact .inl discarded
    | true =>
      simp only [↓reduceIte, true_and]
      cases job : a.job with
      | data id t => exact .inl discarded
      | schema command before after =>
        have waits : (some a).bind (bracketOf? ·.job) = some ⟨command, before, after⟩ :=
          congrArg bracketOf? job
        dsimp only
        split
        · exact .inr ⟨⟨command, before, after⟩, ⟨a, n.resources⟩, n.forget request, waits,
            .refl _, rfl⟩
        · rcases resolveSchema_cases request command before after n.settings.maxAutoRetry
            ((n.forget request).discard ⟨a, n.resources⟩) with idle | ⟨b, m, idle, same⟩
          · exact .inl (discarded.trans idle)
          · exact .inr ⟨⟨command, before, after⟩, b, m, waits, discarded.trans idle, same⟩

/-- The command whose body succeeds in a call, if any: the one that waits under the request, if the
store notes a command that it had not noted before. -/
def Call.ran? (n : Node) (call : Call) : Option Bracket :=
  if (call.perform n).store.commands = n.store.commands then none else n.bracket? call.request

/-- Nothing but commands is noted as a command. -/
theorem commands_keptBy (commands : List (String × RunMode)) :
    KeptBy (fun _ d => d ≠ .other) fun w => w.resources.store.commands = commands := by
  intro w d w' h plain act
  cases act with
  | tried work => exact (congrArg Store.commands work.took.undone.content).trans h
  | begun fit status => exact (congrArg Store.commands fit.took.store.content).trans h
  | fetched fetched => exact (congrArg Store.commands fetched.took.store.content).trans h
  | missed undone holders => exact (congrArg Store.commands undone.content).trans h
  | shelved shelved => exact h
  | offered request command before after => exact h
  | @applied A r a id t success job =>
    have same : (Attempt.apply ⟨a, r⟩).2.resources.store.commands = r.store.commands := by
      have written := congrArg Store.commands (content_apply ⟨a, r⟩)
      refine Eq.trans written ?_
      cases eq : written? ⟨a, r⟩ with
      | none => rfl
      | some w =>
        rw [← (written?_store eq).1]
        exact Store.commands_commit
    exact (Resources.Idle.destroy _).commands.trans (same.trans h)
  | settled job before after => exact (Resources.Idle.destroy _).commands.trans h
  | discarded => exact (Resources.Idle.destroy _).commands.trans h
  | noted | unsaved | quiet => exact absurd rfl plain

/-- A call of a change set, or the first phase of a command, runs no body. -/
theorem Call.perform_commands (orderly : n.Orderly) (call : Call)
    (plain : ∀ request, call ≠ .settleSchema request true) :
    (call.perform n).store.commands = n.store.commands := by
  have finish (request : RequestId) :
      MayFinish (fun _ d => d ≠ .other) request := fun _ _ _ => nofun
  have none {m : Node} (moves : MovesBy (fun _ d => d ≠ .other) n m) :
      m.store.commands = n.store.commands := (commands_keptBy _).acts moves.acts rfl
  cases call with
  | prepare request id changes atOrigin retries =>
    exact none (prepare_acts orderly atOrigin retries nofun (finish request)).1
  | commit request => exact none (commit_acts orderly (finish request) fun _ _ => nofun)
  | rollback request => exact none (rollback_acts orderly (finish request))
  | prepareSchema request command before after =>
    exact (prepareSchema_idle n request command before after).commands
  | settleSchema request apply =>
    rcases settleSchema_cases request apply n with idle | ⟨rfl, -⟩
    · exact idle.commands
    · exact absurd rfl (plain request)

/-- What a call does to the list of commands, and to the ids of the command that waits. -/
theorem Call.perform_cases (orderly : n.Orderly) (call : Call) :
    (call.ran? n = none ∧ (call.perform n).store.commands = n.store.commands ∧
      ∀ request k, call = .settleSchema request true → n.bracket? request = some k →
        ∀ id, id ≠ k.before → (call.perform n).resources.HasDone id → n.resources.HasDone id) ∨
    ∃ request k b m m₁ m₂, call = .settleSchema request true ∧ call.ran? n = some k ∧
      (call.perform n).store.commands = n.store.commands ++ [(k.command, .replicated)] ∧
      n.RunsBody request k b m m₁ m₂ ∧ (call.perform n).resources.HasDone k.before := by
  have none (same : (call.perform n).store.commands = n.store.commands) : call.ran? n = none :=
    if_pos same
  by_cases decides : ∃ request, call = .settleSchema request true
  · obtain ⟨request, rfl⟩ := decides
    rcases settleSchema_cases request true n with idle | ⟨-, k, b, m, waits, idle, applies⟩
    · refine .inl ⟨none idle.commands, idle.commands, fun _ _ same _ id _ done => ?_⟩
      exact idle.hasDone.1 done
    · have finished := finishSchema_finished b k m
      rw [← applies] at finished
      cases finished with
      | failed same kept =>
        have same : (Call.perform n (.settleSchema request true)).store.commands =
            n.store.commands := same.trans idle.commands
        refine .inl ⟨none same, same, ?_⟩
        rintro _ k' ⟨⟩ waits' id other done
        rw [waits, Option.some.injEq] at waits'
        exact idle.hasDone.1 (kept id (waits' ▸ other) done)
      | @ran m₁ m₂ first body done noted =>
        have noted : (Call.perform n (.settleSchema request true)).store.commands =
            n.store.commands ++ [(k.command, .replicated)] := by
          rw [← idle.commands]
          exact noted
        refine .inr ⟨request, k, b, m, m₁, m₂, rfl, ?_, noted,
          ⟨waits, idle, applies, first, body⟩, done⟩
        refine (if_neg fun same => ?_).trans waits
        rw [noted] at same
        simp at same
  · have plain (request : RequestId) : call ≠ .settleSchema request true :=
      fun same => decides ⟨request, same⟩
    have same := call.perform_commands orderly plain
    exact .inl ⟨none same, same, fun request _ decision => absurd decision (plain request)⟩

theorem RunsBody.fresh {m₁ m₂ : Node} (h : n.RunsBody request k b m m₁ m₂) :
    ¬ n.resources.HasDone k.before :=
  fun done => (commitId_ok h.first).1 (h.idle.hasDone.2 done)

/-- One step of a run: a call, or failures that the next commands will meet. -/
inductive RunStep where
  | call (call : Call)
  | failNext (count : Nat)

def RunStep.perform (n : Node) : RunStep → Node
  | call c => c.perform n
  | failNext count => n.withStore { n.store with failing := count }

def RunStep.ran? (n : Node) : RunStep → Option Bracket
  | call c => c.ran? n
  | failNext _ => none

def run (n : Node) (steps : List RunStep) : Node := steps.foldl RunStep.perform n

def bodies (n : Node) : List RunStep → List Bracket
  | [] => []
  | step :: rest => (step.ran? n).toList ++ bodies (step.perform n) rest

theorem Orderly.runStep (orderly : n.Orderly) (step : RunStep) : (step.perform n).Orderly := by
  cases step with
  | call c =>
    have moves : MovesBy (fun _ _ => True) n (c.perform n) :=
      c.movesBy (fun _ => trivial) orderly ⟨fun _ _ => trivial, fun _ _ _ => trivial,
        fun _ _ _ => trivial⟩
    exact moves.orderly orderly
  | failNext count =>
    have moves : MovesBy (fun _ _ => True) n (RunStep.perform n (.failNext count)) :=
      .quiet (fun _ => trivial) orderly.keyed rfl
        ⟨rfl, rfl, rfl, fun _ => rfl, rfl, rfl, rfl, rfl, rfl⟩
    exact moves.orderly orderly

theorem Orderly.run (orderly : n.Orderly) (steps : List RunStep) : (n.run steps).Orderly := by
  induction steps generalizing n with
  | nil => exact orderly
  | cons step rest ih => exact ih (orderly.runStep step)

theorem RunStep.hasDone (step : RunStep) (done : n.resources.HasDone id) :
    (step.perform n).resources.HasDone id := by
  cases step with
  | call c => exact Nat.le_trans done ((onward_call (.start n) c).sequencer.slots id.origin).last
  | failNext count => exact done

/-- What a body that succeeds in a step leaves: it is noted, and its first id is committed. -/
theorem RunStep.ran?_spec (orderly : n.Orderly) (step : RunStep) :
    (step.perform n).store.commands =
        n.store.commands ++ (step.ran? n).toList.map (fun k => (k.command, .replicated)) ∧
      ∀ k, step.ran? n = some k →
        ¬ n.resources.HasDone k.before ∧ (step.perform n).resources.HasDone k.before := by
  cases step with
  | failNext count => exact ⟨(List.append_nil _).symm, nofun⟩
  | call c =>
    have same_ran : ran? n (.call c) = c.ran? n := rfl
    rw [same_ran]
    rcases c.perform_cases orderly with
      ⟨none, same, -⟩ | ⟨request, k, b, m, m₁, m₂, -, ran, noted, runs, done⟩
    · rw [none]
      exact ⟨same.trans (List.append_nil _).symm, nofun⟩
    · rw [ran]
      refine ⟨noted, ?_⟩
      rintro _ ⟨⟩
      exact ⟨runs.fresh, done⟩

theorem commands_run (orderly : n.Orderly) (steps : List RunStep) :
    (n.run steps).store.commands =
      n.store.commands ++ (n.bodies steps).map (fun k => (k.command, .replicated)) := by
  induction steps generalizing n with
  | nil => exact (List.append_nil _).symm
  | cons step rest ih =>
    unfold bodies
    rw [List.map_append, ← List.append_assoc, ← (step.ran?_spec orderly).1]
    exact ih (orderly.runStep step)

/-- A body does not succeed once its first id is committed. -/
theorem not_hasDone_of_mem_bodies (orderly : n.Orderly) {steps : List RunStep}
    (mem : k ∈ n.bodies steps) : ¬ n.resources.HasDone k.before := by
  induction steps generalizing n with
  | nil => cases mem
  | cons step rest ih =>
    rcases List.mem_append.1 mem with now | later
    · exact ((step.ran?_spec orderly).2 k (Option.mem_toList.1 now)).1
    · exact fun done => ih (orderly.runStep step) later (step.hasDone done)

/-- No two bodies that succeed stand behind the same id. -/
theorem bodies_nodup (orderly : n.Orderly) (steps : List RunStep) :
    ((n.bodies steps).map (·.before)).Nodup := by
  induction steps generalizing n with
  | nil => exact .nil
  | cons step rest ih =>
    have later := ih (orderly.runStep step)
    unfold bodies
    cases ran : step.ran? n with
    | none => exact later
    | some k =>
      refine List.nodup_cons.2 ⟨fun mem => ?_, later⟩
      obtain ⟨k', mem, same⟩ := List.mem_map.1 mem
      have open_ := not_hasDone_of_mem_bodies (orderly.runStep step) mem
      rw [same] at open_
      exact open_ ((step.ran?_spec orderly).2 k ran).2

/-- In a run from an opened node, no two bodies that succeed stand behind the same id, and each
success is noted in the store. Whatever call comes next, a body succeeds in it only as `RunsBody`
tells, and an id that follows the body is only committed in a call in which it succeeds. -/
theorem openOn_bodies {database name : String} {id : Nat} {settings : Settings} {store : Store}
    {disk : FileTree} (opened : openOn database name id settings store disk = .ok n)
    (built : store.Built) (steps : List RunStep) :
    ((n.bodies steps).map (·.before)).Nodup ∧
      (n.run steps).store.commands =
        store.commands ++ (n.bodies steps).map (fun k => (k.command, .replicated)) ∧
      ∀ call : Call,
        (∀ k, call.ran? (n.run steps) = some k → ∃ request b m m₁ m₂,
          call = .settleSchema request true ∧
            (n.run steps).RunsBody request k b m m₁ m₂) ∧
        ∀ request k, call = .settleSchema request true →
          (n.run steps).bracket? request = some k → k.after ≠ k.before →
          ¬ (n.run steps).resources.HasDone k.after →
          (call.perform (n.run steps)).resources.HasDone k.after →
          call.ran? (n.run steps) = some k := by
  have started := openOn_started opened
  have orderly : n.Orderly := started.orderly built
  refine ⟨bodies_nodup orderly steps, ?_, fun call => ?_⟩
  · rw [← started.store]
    exact commands_run orderly steps
  · rcases call.perform_cases (orderly.run steps) with
      ⟨none, -, kept⟩ | ⟨request, k, b, m, m₁, m₂, decides, ran, -, runs, -⟩
    · rw [none]
      refine ⟨nofun, fun request k decides waits ne open_ done => ?_⟩
      exact absurd (kept request k decides waits k.after ne done) open_
    · rw [ran]
      refine ⟨?_, fun request' k' decides' waits _ _ _ => ?_⟩
      · rintro _ ⟨⟩
        exact ⟨request, b, m, m₁, m₂, decides, runs⟩
      · rw [decides] at decides'
        cases decides'
        rw [← runs.waits, waits]

def stocked : Node where
  database := "db"
  name := "a"
  settings := .default
  resources := ⟨.empty, .inMemory 1 1, (Store.empty none).insertRecord ⟨9, 0⟩ 1 [1], .empty⟩
  registry := .empty
  meter := .zero
  asks := 0

/-- Three commands are offered, two of them behind the same id, and one of those twice. The first
one is refused as its ids are ahead. Its body fails when it is judged anew, so its second id stays
open; a change set takes that id. -/
def offers : List RunStep :=
  [.call (.prepareSchema ⟨2, 1⟩ "drop cluster log" ⟨2, 3⟩ ⟨2, 4⟩),
    .call (.prepareSchema ⟨2, 2⟩ "create cluster log" ⟨2, 1⟩ ⟨2, 2⟩),
    .call (.prepareSchema ⟨3, 1⟩ "create cluster audit" ⟨2, 1⟩ ⟨2, 2⟩),
    .call (.prepareSchema ⟨2, 2⟩ "create cluster log" ⟨2, 1⟩ ⟨2, 2⟩), .failNext 1,
    .call (.settleSchema ⟨2, 2⟩ true), .call (.settleSchema ⟨2, 2⟩ true),
    .call (.settleSchema ⟨3, 1⟩ true), .failNext 20, .call (.settleSchema ⟨2, 1⟩ true),
    .failNext 0, .call (.prepare ⟨3, 2⟩ ⟨2, 4⟩ (.delete .empty "person" ⟨9, 0⟩ 1) false 0),
    .call (.commit ⟨3, 2⟩)]

theorem openOn_bodies_offers :
    openOn "db" "a" 1 .default ((Store.empty none).insertRecord ⟨9, 0⟩ 1 [1]) .empty = .ok stocked ∧
      stocked.bodies offers = [⟨"create cluster log", ⟨2, 1⟩, ⟨2, 2⟩⟩] ∧
      (stocked.run offers).resources.HasDone ⟨2, 4⟩ ∧
      ((stocked.bodies offers).map (·.before)).Nodup ∧
      (stocked.run offers).store.commands =
        (stocked.bodies offers).map (fun k => (k.command, .replicated)) ∧
      ∃ b m m₁ m₂, (stocked.run (offers.take 5)).RunsBody ⟨2, 2⟩
        ⟨"create cluster log", ⟨2, 1⟩, ⟨2, 2⟩⟩ b m m₁ m₂ := by
  have opened : openOn "db" "a" 1 .default ((Store.empty none).insertRecord ⟨9, 0⟩ 1 [1]) .empty =
      .ok stocked := rfl
  have built : ((Store.empty none).insertRecord ⟨9, 0⟩ 1 [1]).Built :=
    .insertRecord _ _ _ (.empty none)
  have done : 4 ≤ ((stocked.run offers).sequencer.slot 2).last := by decide +kernel
  have ran : Call.ran? (stocked.run (offers.take 5)) (.settleSchema ⟨2, 2⟩ true) =
      some ⟨"create cluster log", ⟨2, 1⟩, ⟨2, 2⟩⟩ := by decide +kernel
  obtain ⟨once, noted, -⟩ := openOn_bodies opened built offers
  obtain ⟨request, b, m, m₁, m₂, decides, runs⟩ :=
    ((openOn_bodies opened built (offers.take 5)).2.2 (.settleSchema ⟨2, 2⟩ true)).1 _ ran
  cases decides
  exact ⟨opened, by decide +kernel, done, once, noted, b, m, m₁, m₂, runs⟩

end Node

end QuorumCommit
