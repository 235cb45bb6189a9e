import QuorumCommit.Node.Schema
import QuorumCommit.Proofs.Node.Acts
import QuorumCommit.Proofs.Store.Commands

/-!
Commands of a node, as acts on what is in flight there. A command in hand commits its ids one after
the other and is settled when both are committed; otherwise it is given up.
-/
namespace QuorumCommit

namespace Resources.Quiet

variable {r r' r'' : Resources}

theorem refl (r : Resources) : r.Quiet r :=
  ⟨rfl, rfl, rfl, fun _ => rfl, rfl, rfl, rfl, rfl, rfl⟩

theorem trans (h : r.Quiet r') (h' : r'.Quiet r'') : r.Quiet r'' where
  locks := h'.locks.trans h.locks
  origin := h'.origin.trans h.origin
  path := h'.path.trans h.path
  standing o := (h'.standing o).trans (h.standing o)
  places := h'.places.trans h.places
  records := h'.records.trans h.records
  indexKinds := h'.indexKinds.trans h.indexKinds
  indexValues := h'.indexValues.trans h.indexValues
  applied := h'.applied.trans h.applied

/-- Running a command. -/
theorem execute (r : Resources) (command : String) (mode : RunMode) :
    r.Quiet { r with store := (r.store.execute command mode).2 } := by
  obtain ⟨places, records⟩ := r.store.execute_frame command mode
  obtain ⟨kinds, values, applied⟩ := r.store.execute_rest command mode
  exact ⟨rfl, rfl, rfl, fun _ => rfl, places, records, kinds, values, applied⟩

theorem hasDone (h : r.Quiet r') {id : TxId} : r'.HasDone id ↔ r.HasDone id := by
  unfold HasDone
  rw [h.last]

end Resources.Quiet

namespace Node

open Attempt InFlight

variable {n m : Node} {b : State} {request : RequestId} {id before after : TxId}
  {command : String} {ok : Multiset Attempt → Deed → Prop} {A : Multiset Attempt}

/-- Committing an id of a command. Ids that were committed stay so. -/
theorem commitId_acts (other : ∀ A, ok A .other) (n : Node) (id : TxId) (A : Multiset Attempt) :
    (commitId id n).2.registry = n.registry ∧
      Acts ok ⟨A, n.resources⟩ ⟨A, (commitId id n).2.resources⟩ ∧
      (∀ p, n.resources.HasDone p → (commitId id n).2.resources.HasDone p) ∧
      ((commitId id n).1 = .ok () → (commitId id n).2.resources.HasDone id) := by
  unfold commitId
  dsimp only
  rcases n.resources.journal.commit_cases n.resources.disk id with
    ⟨fault, refused⟩ | ⟨next, disk, committed | ⟨file, fault, unsaved⟩⟩
  · rw [refused]
    exact ⟨rfl, .refl _, fun _ done => done, nofun⟩
  · rw [committed]
    have next : n.resources.IsNext id := next
    refine ⟨rfl, .one (other A) (.noted disk next), fun p done => ?_, fun _ => ?_⟩
    · exact Nat.le_trans done (next.last_le p.origin)
    · exact Resources.hasDone_advanceOn (r := n.resources)
  · rw [unsaved]
    have next : n.resources.IsNext id := next
    refine ⟨rfl, .one (other A) (.unsaved disk next file), fun p done => ?_, nofun⟩
    exact Nat.le_trans done (next.last_le p.origin)

theorem execute_quiet (n : Node) (command : String) (mode : RunMode) :
    (execute command mode n).2.registry = n.registry ∧
      n.resources.Quiet (execute command mode n).2.resources := by
  have quiet := Resources.Quiet.execute n.resources command mode
  unfold execute
  rcases eq : n.store.execute command mode with ⟨result, store⟩
  rw [eq] at quiet
  exact ⟨rfl, quiet⟩

theorem runBody_quiet (n : Node) (command : String) (more : Nat) :
    (runBody command more n).2.registry = n.registry ∧
      n.resources.Quiet (runBody command more n).2.resources := by
  induction more generalizing n with
  | zero => exact execute_quiet n command .replicated
  | succ more ih =>
    obtain ⟨registry, quiet⟩ := execute_quiet n command .replicated
    unfold runBody
    simp only [Step.run_apply]
    rcases eq : execute command .replicated n with ⟨fault | _, m⟩
    · rw [eq] at registry quiet
      obtain ⟨registry', quiet'⟩ := ih (m.count .retries)
      exact ⟨registry'.trans registry, quiet.trans quiet'⟩
    · rw [eq] at registry quiet
      exact ⟨registry, quiet⟩

/-- When a command has run through, both of its ids are committed. -/
theorem runBetween_acts (other : ∀ A, ok A .other) (n : Node) (command : String)
    (before after : TxId) (A : Multiset Attempt) :
    (runBetween command before after n).2.registry = n.registry ∧
      Acts ok ⟨A, n.resources⟩ ⟨A, (runBetween command before after n).2.resources⟩ ∧
      ((runBetween command before after n).1 = .ok () →
        (runBetween command before after n).2.resources.HasDone before ∧
          (runBetween command before after n).2.resources.HasDone after) := by
  unfold runBetween
  simp only [Step.run_apply, Step.bind_apply]
  obtain ⟨registry, acts, -, done⟩ := commitId_acts other n before A
  rcases first : commitId before n with ⟨fault | _, n₁⟩
  · rw [first] at registry acts
    exact ⟨registry, acts, nofun⟩
  · rw [first] at registry acts done
    obtain ⟨registry₁, quiet⟩ := runBody_quiet n₁ command (n.settings.maxAutoRetry - 1)
    dsimp only at registry acts ⊢
    rcases body : runBody command (n.settings.maxAutoRetry - 1) n₁ with ⟨fault | _, n₂⟩
    · rw [body] at registry₁ quiet
      exact ⟨registry₁.trans registry, acts.trans (.one (other A) (.quiet quiet)), nofun⟩
    · rw [body] at registry₁ quiet
      obtain ⟨registry₂, acts₂, kept, done₂⟩ := commitId_acts other n₂ after A
      refine ⟨registry₂.trans (registry₁.trans registry),
        acts.trans (.trans (.one (other A) (.quiet quiet)) acts₂), fun all => ?_⟩
      exact ⟨kept before (quiet.hasDone.2 (done rfl)), done₂ all⟩

/-- A command in hand is settled or given up. -/
theorem finishSchema_acts (other : ∀ A, ok A .other) (n : Node) (b : State)
    (job : b.attempt.job = .schema command before after)
    (finish : MayFinish ok b.attempt.request) :
    (finishSchema b command before after n).2.registry = n.registry ∧
      Acts ok ⟨b.attempt ::ₘ n.registry.all, b.resources⟩
        (finishSchema b command before after n).2.inFlight := by
  obtain ⟨registry, acts, done⟩ := runBetween_acts other { n with resources := b.resources }
    command before after (b.attempt ::ₘ n.registry.all)
  unfold finishSchema
  rcases eq : runBetween command before after { n with resources := b.resources } with
    ⟨fault | _, m⟩
  · rw [eq] at registry acts
    refine ⟨registry, acts.trans ?_⟩
    have registry : m.registry = n.registry := registry
    have left : (((m.discard ⟨b.attempt, m.resources⟩).askResync).inFlight) =
        ⟨n.registry.all, b.attempt.discard m.resources⟩ := by
      unfold inFlight
      rw [← registry]
      rfl
    dsimp only
    rw [left]
    exact .one (finish _ _ rfl) .discarded
  · rw [eq] at registry acts done
    refine ⟨registry, acts.trans ?_⟩
    have registry : m.registry = n.registry := registry
    obtain ⟨first, second⟩ := done rfl
    have left : (((m.discard (markApplied ⟨b.attempt, m.resources⟩)).count
        .schemaExecuted).inFlight) =
        ⟨n.registry.all, (destroy (markApplied ⟨b.attempt, m.resources⟩)).resources⟩ := by
      unfold inFlight
      rw [← registry]
      rfl
    dsimp only
    rw [left]
    exact .one (finish _ _ rfl) (.settled job first second)

theorem prepareSchema_refused (request : RequestId) (command : String)
    (refuses : Tally.schemaConflict (n.sequencer.validate before) (n.sequencer.validate after) =
      true) : ∃ id ∈ [before, after], prepareSchema request command before after n =
        (.invalid id (n.sequencer.validate id),
          n.park ⟨refused request command before after, n.resources⟩) := by
  unfold prepareSchema
  dsimp only
  rw [if_pos refuses]
  by_cases valid : n.sequencer.validate before = .valid
  · rw [if_pos valid]
    exact ⟨after, by simp, rfl⟩
  · rw [if_neg valid]
    exact ⟨before, by simp, rfl⟩

theorem prepareSchema_agreed (request : RequestId) (command : String)
    (agrees : Tally.schemaConflict (n.sequencer.validate before) (n.sequencer.validate after) =
      false) : prepareSchema request command before after n = (.success,
        n.park ⟨offered request command before after, n.resources.offer before after⟩) := by
  unfold prepareSchema
  dsimp only
  rw [agrees, if_neg Bool.false_ne_true]
  rfl

/-- Judging a command registers an attempt for it, whether it is offered or refused. -/
theorem prepareSchema_acts (orderly : n.Orderly)
    (begins : ok n.registry.all (.begin request (.schema command before after)))
    (finish : MayFinish ok request) :
    MovesBy ok n (prepareSchema request command before after n).2 ∧
      ∃ a, (prepareSchema request command before after n).2.registry = n.registry.insert a ∧
        a.request = request ∧ a.job = .schema command before after := by
  cases judged : Tally.schemaConflict (n.sequencer.validate before)
      (n.sequencer.validate after) with
  | true =>
    obtain ⟨id, -, eq⟩ := prepareSchema_refused request command judged
    obtain ⟨keyed, parked⟩ := park_acts (m := n)
      (b := ⟨refused request command before after, n.resources⟩) orderly.keyed finish
    have shelved := refused_shelved n.store.HasRoom request command before after
    rw [eq]
    exact ⟨⟨keyed, .trans (.one begins (.shelved shelved)) parked⟩, _, park_registry _ _, rfl, rfl⟩
  | false =>
    obtain ⟨keyed, parked⟩ := park_acts (m := n)
      (b := ⟨offered request command before after, n.resources.offer before after⟩)
      orderly.keyed finish
    rw [prepareSchema_agreed request command judged]
    exact ⟨⟨keyed, .trans (.one begins (.offered request command before after)) parked⟩, _,
      park_registry _ _, rfl, rfl⟩

/-- Judging a refused command again is about its request and its ids alone. -/
theorem resolveSchema_acts (other : ∀ A, ok A .other) (orderly : n.Orderly)
    (none : n.registry.get? request = none) (more : Nat)
    (begins : ok n.registry.all (.begin request (.schema command before after)))
    (finish : MayFinish ok request) :
    MovesBy ok n (resolveSchema request command before after more n).2 := by
  induction more generalizing n with
  | zero => exact (MovesBy.refl orderly.keyed).congr rfl rfl
  | succ more ih =>
    obtain ⟨moves, a, registry, same, job⟩ := prepareSchema_acts orderly begins finish
    unfold resolveSchema
    generalize prepareSchema request command before after n = out at moves registry
    obtain ⟨reply, m⟩ := out
    dsimp only at moves registry ⊢
    have found : m.waiting? request = some ⟨a, m.resources⟩ := by
      unfold waiting?
      rw [registry, Registry.get?_insert, if_pos same.symm]
      rfl
    obtain ⟨-, -, start⟩ := inFlight_of_waiting? found
    have rest : (m.registry.erase request).all = n.registry.all := by
      rw [registry, ← same, Registry.erase_insert, Registry.erase_of_none (same ▸ none)]
    rw [found]
    dsimp only
    split
    · obtain ⟨registry', acts⟩ := finishSchema_acts other (m.forget request) ⟨a, m.resources⟩ job
        (by rw [same]; exact finish)
      refine moves.trans ⟨registry' ▸ moves.keyed.erase request, ?_⟩
      rw [start]
      exact acts
    · have discarded : MovesBy ok m ((m.forget request).discard ⟨a, m.resources⟩) :=
        discard_acts (moves.orderly orderly) found finish
      refine moves.trans (discarded.trans (ih (discarded.orderly (moves.orderly orderly)) ?_ ?_))
      · show (m.registry.erase request).get? request = _
        rw [Registry.get?_erase, if_pos rfl]
      · show ok (m.registry.erase request).all _
        rw [rest]
        exact begins

/-- The decision on a command is about its request, and may judge the command anew that waits
there. -/
theorem settleSchema_acts (other : ∀ A, ok A .other) (orderly : n.Orderly)
    (finish : MayFinish ok request) (resume : MayResume ok request n) (apply : Bool) :
    MovesBy ok n (settleSchema request apply n).2 := by
  unfold settleSchema
  cases waits : n.waiting? request with
  | none => exact .refl orderly.keyed
  | some b =>
    obtain ⟨found, -, start⟩ := inFlight_of_waiting? waits
    have same : b.attempt.request = request := orderly.keyed _ _ found
    have discarded := discard_acts orderly waits finish
    dsimp only
    cases apply with
    | false => exact discarded
    | true =>
      simp only [↓reduceIte]
      cases job : b.attempt.job with
      | data id t => exact discarded
      | schema command before after =>
        dsimp only
        split
        · obtain ⟨registry, acts⟩ := finishSchema_acts other (n.forget request) b job
            (same ▸ finish)
          refine ⟨registry ▸ orderly.keyed.erase request, ?_⟩
          rw [start]
          exact acts
        · have begins := resume _ found
          rw [job] at begins
          refine discarded.trans (resolveSchema_acts other (discarded.orderly orderly) ?_ _ begins
            finish)
          show (n.registry.erase request).get? request = _
          rw [Registry.get?_erase, if_pos rfl]

end Node

end QuorumCommit
