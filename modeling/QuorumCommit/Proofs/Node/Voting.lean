import QuorumCommit.Proofs.Node.Discipline
import QuorumCommit.Proofs.InFlight.Vote

/-!
Votes. A first phase that is answered with success leaves an attempt that stands: it holds what it
lists until it is decided, unless the node is told something else about its request. Another first
phase for the request, be it the same one again, always puts an end to it.
-/
namespace QuorumCommit

open Attempt InFlight

namespace Node

variable {n m : Node} {b : State} {request : RequestId} {id : TxId} {t : ChangeSet} {v : Attempt}

/-- The node holds a vote: a prepared attempt waits under the request, with all that it lists. Of
the places that is so as long as there is room. -/
structure HoldsVote (n : Node) (request : RequestId) (id : TxId) (v : Attempt) : Prop where
  registered : n.registry.get? request = some v
  success : v.status = .success
  job : ∃ t, v.job = .data id t
  held : ∀ key ∈ v.held, n.locks.holder? key = some request
  known : n.resources.HasPromised id ∨ n.resources.HasDone id
  reserved : n.store.HasRoom → ∀ place ∈ v.reserved, n.store.isReserved place = true

/-- An attempt that stands is a vote that is held. -/
theorem holdsVote_of_standing (keyed : n.registry.Keyed) (standing : Standing v id n.inFlight)
    (same : v.request = request) (job : ∃ t, v.job = .data id t) : n.HoldsVote request id v where
  registered := by
    obtain ⟨B, split, -⟩ := standing.waits
    have mem : v ∈ n.registry.all := by
      rw [show n.registry.all = v ::ₘ B from split]
      exact Multiset.mem_cons_self v B
    exact same ▸ keyed.get?_of_mem mem
  success := standing.success
  job := job
  held key mem := same ▸ standing.held key mem
  known := standing.known
  reserved room _ := standing.isReserved room

/-- No attempt that waits at the node claims the id, and none is prepared under the request. -/
structure OpenTo (n : Node) (request : RequestId) (id : TxId) : Prop where
  idle : ∀ a, n.registry.get? request = some a → a.status ≠ .success
  free : ∀ q a, n.registry.get? q = some a → ¬ a.Claims id

/-- Registering an attempt that stands gives up one that holds nothing, if any. -/
theorem park_standing (standing : Standing b.attempt id ⟨b.attempt ::ₘ m.registry.all, b.resources⟩)
    (idle : ∀ old, m.registry.get? b.attempt.request = some old →
      old.held = [] ∧ old.promised = []) : Standing b.attempt id (m.park b).inFlight := by
  unfold park Registry.register
  cases found : m.registry.get? b.attempt.request with
  | none =>
    unfold inFlight
    rw [Registry.all_insert, Registry.erase_of_none found]
    exact standing
  | some old =>
    rw [Registry.all_erase found, Multiset.cons_swap] at standing
    unfold inFlight
    rw [Registry.all_insert]
    exact standing.ended standing.toSound.ended_discarded fun _ => idle old found

/-- A first phase that succeeds registers an attempt that stands. -/
theorem prepare_standing (orderly : n.Orderly) (ready : n.OpenTo request id) {atOrigin : Bool}
    {retries : Nat} (ok : (prepare request id t atOrigin retries n).1 = .ok true) :
    ∃ v, (prepare request id t atOrigin retries n).2.registry = n.registry.insert v ∧
      v.request = request ∧ (∃ t', v.job = .data id t') ∧
      Standing v id (prepare request id t atOrigin retries n).2.inFlight := by
  have first := firstPhase_prepare orderly.sound.tidy request id t atOrigin retries
  generalize prepare request id t atOrigin retries n = out at first ok ⊢
  cases first with
  | declined => cases ok
  | failed => cases ok
  | @waits m b u t' registry fit status =>
    have idle (a : Attempt) (found : n.registry.get? request = some a) :
        a.held = [] ∧ a.promised = [] := by
      have sane := orderly.sound.sane a (Registry.mem_all.2 ⟨request, found⟩)
      exact ⟨(sane.idle (ready.idle a found)).1, (sane.idle (ready.idle a found)).2.1⟩
    have standing := Standing.new orderly.sound fit status
      (fun a mem => ready.free _ a (orderly.keyed.get?_of_mem mem))
      fun a mem same => idle a (same ▸ orderly.keyed.get?_of_mem mem)
    refine ⟨b.attempt, (park_registry m b).trans (by rw [registry]), fit.request, ⟨t', fit.job⟩, ?_⟩
    rw [← registry] at standing idle
    exact park_standing standing fun old found => idle old (fit.request ▸ found)

/-- A first phase that is to be tried again has changed nothing that lasts. -/
theorem prepare_again (orderly : n.Orderly) {atOrigin : Bool} {retries : Nat}
    (again : (prepare request id t atOrigin retries n).1 = .ok false) :
    retries < n.settings.maxAutoRetry ∧
      (prepare request id t atOrigin retries n).2.settings = n.settings ∧
      (prepare request id t atOrigin retries n).2.registry = n.registry ∧
      Undone request n.resources (prepare request id t atOrigin retries n).2.resources := by
  have first := firstPhase_prepare orderly.sound.tidy request id t atOrigin retries
  generalize prepare request id t atOrigin retries n = out at first again ⊢
  cases first with
  | waits => cases again
  | failed => cases again
  | @declined m b registry settings lags work =>
    exact ⟨lags, settings, registry, work.request ▸ work.took.undone⟩

/-- A first phase that is not tried again registers an attempt, which is not prepared unless the id
was valid. -/
theorem prepare_registers (orderly : n.Orderly) {atOrigin : Bool} {retries : Nat}
    (final : (prepare request id t atOrigin retries n).1 ≠ .ok false) :
    ∃ a, (prepare request id t atOrigin retries n).2.registry = n.registry.insert a ∧
      a.request = request ∧
      (a.status = .success → (∃ t', a.job = .data id t') ∧ n.sequencer.validate id = .valid) := by
  have first := firstPhase_prepare orderly.sound.tidy request id t atOrigin retries
  generalize prepare request id t atOrigin retries n = out at first final ⊢
  cases first with
  | declined => exact absurd rfl final
  | @waits m b u t' registry fit status =>
    exact ⟨_, (park_registry m b).trans (by rw [registry]), fit.request,
      fun _ => ⟨⟨t', fit.job⟩, fit.valid⟩⟩
  | @failed m b fault registry work =>
    obtain ⟨shelved, -⟩ := work.fail fault
    exact ⟨_, (park_registry m _).trans (by rw [registry]), shelved.request,
      fun success => absurd success shelved.status⟩

theorem Orderly.undone {request : RequestId} (h : n.Orderly) (registry : m.registry = n.registry)
    (undone : Undone request n.resources m.resources) : m.Orderly := by
  refine ⟨registry ▸ h.keyed, ?_⟩
  unfold inFlight
  rw [registry]
  exact h.sound.undone undone

/-- The answer to a first phase is that of its last try, which finds what the first one found. -/
theorem prepareFrom_last (orderly : n.Orderly) (request : RequestId) (id : TxId) (t : ChangeSet)
    (retries more : Nat)
    (tries : retries + more = n.settings.maxAutoRetry) :
    ∃ m last, m.Orderly ∧ m.registry = n.registry ∧
      (∀ o, m.sequencer.slot o = n.sequencer.slot o) ∧
      (prepare request id t false last m).1 ≠ .ok false ∧
      prepareFrom request id t retries more n =
        (Reply.ofResult (prepare request id t false last m).1,
          (prepare request id t false last m).2) := by
  induction more generalizing n retries with
  | zero =>
    refine ⟨n, retries, orderly, rfl, fun _ => rfl, fun again => ?_, ?_⟩
    · have less := (prepare_again orderly again).1
      omega
    · unfold prepareFrom
      simp only [Step.run_apply]
      rfl
  | succ more ih =>
    by_cases again : (prepare request id t false retries n).1 = .ok false
    · obtain ⟨-, settings, registry, undone⟩ := prepare_again orderly again
      obtain ⟨m, last, orderly', registry', slots, final, eq⟩ :=
        ih (orderly.undone registry undone) (retries + 1) (by rw [settings]; omega)
      refine ⟨m, last, orderly', registry'.trans registry,
        fun o => (slots o).trans (undone.slots o), final, ?_⟩
      rw [← eq]
      unfold prepareFrom
      simp only [Step.run_apply]
      rcases out : prepare request id t false retries n with ⟨r, k⟩
      rw [out] at again
      dsimp only at again
      rw [again]
      cases more <;> rfl
    · refine ⟨n, retries, orderly, rfl, fun _ => rfl, again, ?_⟩
      unfold prepareFrom
      simp only [Step.run_apply]
      rcases out : prepare request id t false retries n with ⟨r, k⟩
      rw [out] at again
      rcases r with fault | _ | _
      · rfl
      · exact absurd rfl again
      · rfl

theorem Reply.ofFault_ne_success (fault : Fault) : Reply.ofFault fault ≠ .success := by
  cases fault <;> nofun

/-- A first phase is answered with success only when an attempt is registered that stands. -/
theorem answerPrepare_standing (orderly : n.Orderly) (ready : n.OpenTo request id)
    (ok : (answerPrepare request id t n).1 = .success) :
    ∃ v, (answerPrepare request id t n).2.registry = n.registry.insert v ∧
      v.request = request ∧ (∃ t', v.job = .data id t') ∧
      Standing v id (answerPrepare request id t n).2.inFlight := by
  obtain ⟨m, last, orderly', registry, -, final, eq⟩ :=
    prepareFrom_last orderly request id t 0 n.settings.maxAutoRetry
      (Nat.zero_add _)
  unfold answerPrepare at ok ⊢
  rw [eq] at ok ⊢
  have ready' : m.OpenTo request id := by
    obtain ⟨idle, free⟩ := ready
    rw [← registry] at idle free
    exact ⟨idle, free⟩
  have done : (prepare request id t false last m).1 = .ok true := by
    rcases result : (prepare request id t false last m).1 with fault | _ | _
    · rw [result] at ok
      exact absurd ok (Reply.ofFault_ne_success fault)
    · exact absurd result final
    · rfl
  rw [← registry]
  exact prepare_standing orderly' ready' done

/-- Whatever a first phase is about, it puts an end to the vote that its request had for an id that
is promised or committed. -/
theorem not_holdsVote_answerPrepare (orderly : n.Orderly)
    (known : n.resources.HasPromised id ∨ n.resources.HasDone id) (other : TxId) (v : Attempt) :
    ¬ (answerPrepare request other t n).2.HoldsVote request id v := by
  intro holds
  obtain ⟨m, last, orderly', registry, slots, final, eq⟩ :=
    prepareFrom_last orderly request other t 0 n.settings.maxAutoRetry
      (Nat.zero_add _)
  unfold answerPrepare at holds
  rw [eq] at holds
  obtain ⟨a, registers, same, prepared⟩ := prepare_registers orderly' final
  have registered := holds.registered
  dsimp only at registered
  rw [registers, Registry.get?_insert, if_pos same.symm, Option.some.injEq] at registered
  subst registered
  obtain ⟨⟨t', job⟩, valid⟩ := prepared holds.success
  obtain ⟨t'', job'⟩ := holds.job
  rw [job, Job.data.injEq] at job'
  obtain ⟨rfl, -⟩ := job'
  obtain ⟨after, fresh, -⟩ := Slot.classify_eq_valid.1 valid
  rw [slots] at after fresh
  rcases known with promised | done
  · exact fresh promised
  · exact Nat.not_le.2 after done

def Call.Spares (request : RequestId) (id : TxId) : Call → Prop
  | prepareSchema q _ before after => q ≠ request ∧ id ∉ [before, after]
  | call => call.request ≠ request

theorem Call.Spares.request_ne {request : RequestId} {id : TxId} {call : Call}
    (h : call.Spares request id) : call.request ≠ request := by
  cases call with
  | prepareSchema q command before after => exact h.1
  | prepare | commit | rollback | settleSchema => exact h

end Node

def Discipline.voting (v : Attempt) (id : TxId) : Discipline where
  ok _ d := d.Spares v.request id
  binds _ := True
  invariant := Standing v id
  back := .trivial
  kept := Standing.keptBy.keptWhile _
  other _ := trivial

namespace Node

variable {n : Node} {own : Nat} {request : RequestId} {id : TxId} {v : Attempt}

theorem mayFinish_voting (n : Node) (other : request ≠ v.request) :
    MayFinish ((Discipline.voting v id).okFrom n) request :=
  fun _ _ same _ about => absurd (same.symm.trans about) other

/-- What waits under another request does not claim the id. -/
theorem mayResume_voting (upheld : (Discipline.voting v id).Upheld own n)
    (other : request ≠ v.request) :
    MayResume ((Discipline.voting v id).okFrom n) request n := by
  intro a found _
  show (Deed.begin request a.job).Spares v.request id
  cases job : a.job with
  | data p t => exact other
  | schema command before after =>
    refine ⟨other, fun named => ?_⟩
    obtain ⟨B, split, others⟩ := (upheld.holds trivial).waits
    have mem : a ∈ v ::ₘ B := split ▸ Registry.mem_all.2 ⟨request, found⟩
    rcases Multiset.mem_cons.1 mem with rfl | mem
    · exact other (upheld.keyed _ _ found).symm
    · exact (others a mem).1 (.inr ⟨command, before, after, job, named⟩)

theorem allowed_voting {call : Call} (spares : call.Spares v.request id)
    (upheld : (Discipline.voting v id).Upheld own n) :
    call.Allowed ((Discipline.voting v id).okFrom n) n where
  begins job begins _ := by
    cases call with
    | prepare q p t atOrigin retries =>
      cases begins
      exact spares
    | prepareSchema q command before after =>
      cases begins
      exact spares
    | commit q | rollback q | settleSchema q apply => cases begins
  finish := mayFinish_voting n spares.request_ne
  resume _ := mayResume_voting upheld spares.request_ne

theorem serves_voting (other : v.request.node ≠ own) : (Discipline.voting v id).Serves own where
  finish _ n := mayFinish_voting n fun same => other (by rw [← same])
  resume _ _ upheld := mayResume_voting upheld fun same => other (by rw [← same])

end Node

end QuorumCommit
