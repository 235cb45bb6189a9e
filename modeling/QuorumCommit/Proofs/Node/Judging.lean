import QuorumCommit.Proofs.Node.Bodies
import QuorumCommit.Proofs.Node.Confined
import QuorumCommit.Proofs.InFlight.Owned

/-!
How a node judges a command. One that it refuses leaves an attempt that lists nothing, and is
refused again as long as nothing else changes. One that was refused and is decided upon is judged
anew, and applied at once if the node agrees to it by then.
-/
namespace QuorumCommit

open Attempt InFlight

/-- Giving up an attempt that lists nothing leaves everything as it is. -/
theorem Attempt.destroy_idle {b : State} (held : b.attempt.held = [])
    (promised : b.attempt.promised = [])
    (reserved : b.attempt.reserved = []) : (destroy b).resources = b.resources := by
  unfold destroy
  split
  · rfl
  · unfold releaseAll releaseReserved releasePromises releaseLocks
    dsimp only
    rw [held, promised, reserved]
    rfl

namespace Node

variable {n : Node} {b : State} {request : RequestId} {command : String} {before after id : TxId}

instance (n : Node) (before after : TxId) : Decidable (n.Agrees before after) :=
  inferInstanceAs (Decidable (_ = _))

/-- A node does not agree to ids that it has committed. -/
theorem Agrees.undone (h : n.Agrees before after) (mem : id ∈ [before, after]) :
    ¬ n.resources.HasDone id := by
  intro done
  have present : n.sequencer.validate id = .alreadyPresent := Slot.classify_eq_alreadyPresent.2 done
  unfold Agrees Tally.schemaConflict at h
  rcases List.mem_pair.1 mem with rfl | rfl <;> simp [present] at h

/-- A command that is refused once is refused each time, as nothing changes in between. -/
theorem resolveSchema_refused (refuses : ¬ n.Agrees before after)
    (none : n.registry.get? request = none) (more : Nat) :
    resolveSchema request command before after more n = (.ok (), n.askResync) := by
  induction more with
  | zero => rfl
  | succ more ih =>
    obtain ⟨id, -, answer⟩ :=
      prepareSchema_refused request command ((Bool.not_eq_false _).mp refuses)
    obtain ⟨waits, left⟩ :=
      park_forget (b := ⟨refused request command before after, n.resources⟩) request rfl none
    have same : (({ n with resources := n.resources } : Node).discard
        ⟨refused request command before after, n.resources⟩) = n := by
      unfold discard
      rw [destroy_idle rfl rfl rfl]
    have no : Reply.invalid id (n.sequencer.validate id) ≠ .success := by simp
    unfold resolveSchema
    rw [answer]
    dsimp only
    rw [waits]
    dsimp only
    rw [if_neg no, left, same, ih]

/-- A command that is agreed to is applied at once. -/
theorem resolveSchema_agreed (agrees : n.Agrees before after)
    (none : n.registry.get? request = none) (more : Nat) :
    resolveSchema request command before after (more + 1) n =
      finishSchema ⟨offered request command before after, n.resources.offer before after⟩ command
        before after { n with resources := n.resources.offer before after } := by
  obtain ⟨waits, left⟩ := park_forget
    (b := ⟨offered request command before after, n.resources.offer before after⟩) request rfl none
  unfold resolveSchema
  rw [prepareSchema_agreed request command agrees]
  dsimp only
  rw [waits]
  dsimp only
  rw [if_pos rfl, left]

/-- The command that a call judges: one that is offered, or one that was refused and waits. -/
def Call.judges? (n : Node) : Call → Option Bracket
  | prepareSchema _ command before after => some ⟨command, before, after⟩
  | settleSchema request true =>
    ((n.registry.get? request).filter (·.status ≠ .success)).bind (bracketOf? ·.job)
  | _ => none

/-- An attempt for a command that was refused lists nothing, so giving it up changes nothing but
that it waits no longer. -/
theorem discard_refused (orderly : n.Orderly) {k : Bracket}
    (judged : Call.judges? n (.settleSchema request true) = some k) :
    ∃ a, n.registry.get? request = some a ∧ a.status ≠ .success ∧
      a.job = .schema k.command k.before k.after ∧
      (n.forget request).discard ⟨a, n.resources⟩ = n.forget request := by
  obtain ⟨a, waits, bracket⟩ := Option.bind_eq_some_iff.1 judged
  obtain ⟨found, refused⟩ := Option.filter_eq_some_iff.1 waits
  have refused : a.status ≠ .success := by simpa using refused
  obtain ⟨held, promised, reserved⟩ :=
    (orderly.sound.sane a (Registry.mem_all.2 ⟨request, found⟩)).idle refused
  refine ⟨a, found, refused, ?_, ?_⟩
  · cases job : a.job with
    | data id t =>
      rw [job] at bracket
      cases bracket
    | schema command before after =>
      rw [job] at bracket
      cases bracket
      rfl
  · unfold discard
    rw [destroy_idle held promised reserved]
    rfl

/-- A command that was refused is judged anew. If the node agrees to it by now, it is applied. -/
theorem settleSchema_anew (orderly : n.Orderly) (tries : 1 ≤ n.settings.maxAutoRetry) {k : Bracket}
    (judged : Call.judges? n (.settleSchema request true) = some k) :
    (n.Agrees k.before k.after → settleSchema request true n =
        finishSchema ⟨offered request k.command k.before k.after,
            n.resources.offer k.before k.after⟩ k.command k.before k.after
          { n.forget request with resources := n.resources.offer k.before k.after }) ∧
      (¬ n.Agrees k.before k.after →
        (settleSchema request true n).2 = (n.forget request).askResync) := by
  obtain ⟨a, found, refused, job, left⟩ := discard_refused orderly judged
  obtain ⟨more, eq⟩ := Nat.exists_eq_add_of_le' tries
  have eq : (n.forget request).settings.maxAutoRetry = more + 1 := eq
  have settles : settleSchema request true n = resolveSchema request k.command k.before k.after
      (more + 1) (n.forget request) := by
    unfold settleSchema waiting?
    rw [found]
    dsimp only [Option.map_some]
    rw [if_pos rfl, job]
    dsimp only
    rw [if_neg refused, left, eq]
  rw [settles]
  constructor
  · exact fun agrees => resolveSchema_agreed (n := n.forget request) agrees
      (forget_clears n request) more
  · intro refuses
    rw [resolveSchema_refused (n := n.forget request) refuses (forget_clears n request)]

theorem mayFinish_plain (request : RequestId) : MayFinish (fun _ d => d.Plain) request :=
  fun _ _ _ => trivial

/-- A decision that judges no command anew applies the attempt that waits, or gives it up. -/
theorem settleSchema_movesBy {apply : Bool} (orderly : n.Orderly)
    (judged : Call.judges? n (.settleSchema request apply) = none) :
    MovesBy (fun _ d => d.Plain) n (settleSchema request apply n).2 := by
  unfold settleSchema
  cases waits : n.waiting? request with
  | none => exact .refl orderly.keyed
  | some b =>
    obtain ⟨found, -, start⟩ := inFlight_of_waiting? waits
    have discarded := discard_acts orderly waits (mayFinish_plain request)
    dsimp only
    cases apply with
    | false => exact discarded
    | true =>
      simp only [↓reduceIte]
      cases job : b.attempt.job with
      | data id t => exact discarded
      | schema command before after =>
        dsimp only
        split
        · obtain ⟨registry, acts⟩ :=
            finishSchema_acts (fun _ => trivial) (n.forget request) b job (mayFinish_plain _)
          refine ⟨registry ▸ orderly.keyed.erase request, ?_⟩
          rw [start]
          exact acts
        · next refused =>
          have waits : ((n.registry.get? request).filter (·.status ≠ .success)).bind
              (bracketOf? ·.job) = some ⟨command, before, after⟩ := by
            rw [found, Option.filter_some, if_pos (by simpa using refused), Option.bind_some, job]
            rfl
          cases judged.symm.trans waits

/-- When a command is over, each id that it listed is committed or promised no longer. -/
theorem finishSchema_frees (request : RequestId) (command : String) (r : Resources) (m : Node)
    (mem : id ∈ [before, after]) :
    (finishSchema ⟨offered request command before after, r⟩ command before after
        m).2.resources.HasDone id ∨
      ¬ (finishSchema ⟨offered request command before after, r⟩ command before after
        m).2.resources.HasPromised id := by
  have both := (runBetween_acts (fun _ => trivial) { m with resources := r } command before
    after 0 :
    _ ∧ InFlight.Acts (fun _ _ => True) _ _ ∧ _).2.2
  unfold finishSchema
  dsimp only
  rcases ran : runBetween command before after { m with resources := r } with ⟨fault | _, m'⟩
  · refine .inr fun promised => ?_
    have freed := (released_destroy (b := ⟨offered request command before after, m'.resources⟩)
      rfl).promised id.origin id.sequence
    exact (freed.1 promised).2 mem
  · rw [ran] at both
    obtain ⟨first, second⟩ := both rfl
    refine .inl (hasDone_destroy (b := markApplied ⟨offered request command before after,
      m'.resources⟩) ?_)
    rcases List.mem_pair.1 mem with rfl | rfl
    · exact first
    · exact second

end Node

end QuorumCommit
