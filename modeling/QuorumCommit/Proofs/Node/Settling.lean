import QuorumCommit.Proofs.Node.Acts
import QuorumCommit.Proofs.Node.Pledge
import QuorumCommit.Proofs.InFlight.Chronicle
import QuorumCommit.Proofs.InFlight.Leaks

/-!
What a commit comes to. An attempt that waits is applied, if need be after it was prepared anew. In
the end its id is committed, or the node asks for one copy of the database and has changed nothing;
and either way nothing is left that was taken for the attempt.
-/
namespace QuorumCommit

namespace Attempt

variable {a : Attempt} {r r' r'' : Resources} {id : TxId} {t t' u : ChangeSet}
  {request : RequestId} {b : State}

/-- Nothing is promised or reserved in `r'` that was not so in `r`, and nothing that the attempt
lists. For places, there has to be room, and the records that its change set creates have to be
distinct. -/
structure Frees (a : Attempt) (t : ChangeSet) (r r' : Resources) : Prop where
  promises : ∀ id, r'.HasPromised id → r.HasPromised id ∧ id ∉ a.promised
  reserved : r'.store.HasRoom → t.createdRecords.Nodup → ∀ place,
    r'.store.isReserved place = true → r.store.isReserved place = true ∧ place ∉ a.reserved

theorem Ended.frees (h : Ended a r r')
    (gone : t.createdRecords = a.reserved → ∀ place ∈ a.reserved, r'.store.isReserved place = false)
    (frugal : r'.store.HasRoom → t.createdRecords.Nodup → t.createdRecords = a.reserved) :
    Frees a t r r' where
  promises := h.promised
  reserved room nodup place held := by
    refine ⟨h.reserved place held, fun mem => ?_⟩
    rw [gone (frugal room nodup) place mem] at held
    cases held

/-- An attempt that lists nothing has nothing more to give back. -/
theorem Undone.frees (h : Undone request r r') (promised : a.promised = [])
    (reserved : a.reserved = []) : Frees a t r r' where
  promises id mem := by
    rw [promised]
    exact ⟨h.hasPromised.1 mem, List.not_mem_nil⟩
  reserved room _ place held := by
    rw [reserved]
    rw [h.reserved room] at held
    exact ⟨held, List.not_mem_nil⟩

/-- Places that are used stay used, so there was room before if there still is. -/
theorem Frees.after (h : Frees a t r r'') (undone : Undone request r' r)
    (back : r''.store.HasRoom → r.store.HasRoom) : Frees a t r' r'' where
  promises id mem := by
    rw [← undone.hasPromised]
    exact h.promises id mem
  reserved room nodup place held := by
    rw [← undone.reserved (back room)]
    exact h.reserved room nodup place held

/-- What was taken for an attempt that fits is given back with it. -/
theorem Fit.frees (fit : Fit r request id t u t' b) (h : Frees b.attempt t' b.resources r')
    (promised : a.promised = []) (reserved : a.reserved = [])
    (back : r'.store.HasRoom → b.resources.store.HasRoom) : Frees a t r r' where
  promises p mem := by
    obtain ⟨before, other⟩ := h.promises p mem
    rw [promised]
    exact ⟨(fit.took.hasPromised.1 before).resolve_right fun mine => other mine.2,
      List.not_mem_nil⟩
  reserved room nodup place held := by
    have before := back room
    have distinct : t'.createdRecords.Nodup := by
      rw [fit.placed.distinct (fit.took.store.final before) nodup]
      exact fit.took.store.distinct before
    obtain ⟨taken, other⟩ := h.reserved room distinct place held
    rw [reserved]
    exact ⟨((fit.took.store.reserved before place).1 taken).resolve_right other,
      List.not_mem_nil⟩

/-- What an attempt that fits updates or removes is stored. -/
theorem Fit.stored (fit : Fit r request id t u t' b) :
    ∀ c ∈ t'.changes, c.kind ≠ .created → b.resources.store.isStored c.record = true := by
  intro c mem kind
  rw [fit.took.store.isStored]
  exact Store.isStored_of_checkVersion (forM_eq_ok.1 fit.versions c mem) kind

/-- Applying an attempt that fits, and giving it up, leaves nothing of it. -/
theorem Fit.applied (fit : Fit r request id t u t' b) :
    Frees b.attempt t' b.resources (destroy (Attempt.apply b).2).resources := by
  have mine : ∀ p ∈ b.attempt.promised, p = id := by
    rw [fit.promised]
    exact fun p => List.mem_singleton.1
  obtain ⟨ended, -, gone⟩ := ended_apply fit.took.live fit.job mine fit.placed.created
    (fun room place mem => (fit.took.store.reserved room place).2 (.inr mem)) fit.took.store.tidy
  refine ended.frees gone fun room nodup => ?_
  have final := fit.took.store.final (hasRoom_of_apply fit.job (hasRoom_of_destroy room))
  exact fit.placed.distinct final (fit.placed.apart nodup)

end Attempt

namespace Node

open Attempt

variable {n m : Node} {a : Attempt} {b : State} {request : RequestId} {id : TxId} {t : ChangeSet}

/-- The id is committed and no copy of the database is asked for; or it is not committed, one copy
is asked for, and the content is as it was. -/
def Outcome (id : TxId) (resyncs : UInt64) (content : Store) (n : Node) : Prop :=
  n.resources.HasDone id ∧ n.meter.resyncs = resyncs ∨
    ¬ n.resources.HasDone id ∧ n.meter.resyncs = resyncs + 1 ∧ n.store.content = content

/-- An attempt for a change set is settled: nothing is held on its account any more, and its id is
committed or a copy of the database is asked for. -/
structure Settled (request : RequestId) (a : Attempt) (id : TxId) (t : ChangeSet) (n n' : Node) :
    Prop extends Frees a t n.resources n'.resources where
  waits : n'.registry.get? request = none
  locks : ∀ key, n'.locks.holder? key ≠ some request
  outcome : Outcome id n.meter.resyncs n.store.content n'

/-- Applying an attempt commits its id, unless it is not the next one yet. -/
theorem finish_outcome (live : b.attempt.destroyed = false) (job : b.attempt.job = .data id t)
    (path : b.resources.journal.path = none)
    (stored : ∀ c ∈ t.changes, c.kind ≠ .created → b.resources.store.isStored c.record = true)
    (m : Node) : Outcome id m.meter.resyncs b.resources.store.content (finish b m).2 := by
  by_cases done : b.resources.HasDone id
  · have refused := apply_of_done job done
    unfold finish
    rw [Step.run_apply, refused]
    exact .inl ⟨hasDone_destroy done, rfl⟩
  · by_cases next : b.resources.IsNext id
    · have ok := apply_of_next job next path stored
      have committed := hasDone_apply job next
      unfold finish
      rw [Step.run_apply]
      rcases eq : Attempt.apply b with ⟨fault | _, b'⟩
      · rw [eq] at ok
        cases ok
      · rw [eq] at committed
        exact .inl ⟨hasDone_destroy committed, rfl⟩
    · have last : ¬ id.sequence ≤ (b.resources.sequencer.slot id.origin).last := done
      have apart : id.sequence ≠ (b.resources.sequencer.slot id.origin).last + 1 := next
      have refused := apply_of_ahead job (by omega)
      have released := released_destroy live
      unfold finish
      rw [Step.run_apply, refused]
      refine .inr ⟨fun done' => done ?_, rfl, released.content⟩
      have done' : (destroy b).resources.HasDone id := done'
      unfold Resources.HasDone at done' ⊢
      rwa [released.last] at done'

structure Unmoved (request : RequestId) (n m : Node) : Prop
    extends Undone request n.resources m.resources where
  registry : m.registry = n.registry
  resyncs : m.meter.resyncs = n.meter.resyncs

theorem Unmoved.refl (tidy : n.store.Tidy) : Unmoved request n n := ⟨.refl tidy, rfl, rfl⟩

theorem Unmoved.trans {n' : Node} (h : Unmoved request n m) (h' : Unmoved request m n') :
    Unmoved request n n' :=
  ⟨h.toUndone.trans h'.toUndone, h'.registry.trans h.registry, h'.resyncs.trans h.resyncs⟩

theorem Unmoved.hasDone (h : Unmoved request n m) :
    m.resources.HasDone id ↔ n.resources.HasDone id := by
  unfold Resources.HasDone
  rw [h.last]

theorem Unmoved.noteFailure (h : Unmoved request n m) (fault : Fault) :
    Unmoved request n (m.noteFailure fault) := by
  obtain ⟨resources, registry, -⟩ := noteFailure_resources m fault
  refine ⟨resources ▸ h.toUndone, registry.trans h.registry, Eq.trans ?_ h.resyncs⟩
  unfold Node.noteFailure
  split
  · rfl
  · split <;> rfl

def Renewed (request : RequestId) (id : TxId) (t : ChangeSet) (n : Node) :
    Resolution × Node → Prop
  | (.present, m) => Unmoved request n m ∧ m.resources.HasDone id
  | (.prepared b, m) => Unmoved request n m ∧ ∃ u t', Fit m.resources request id t u t' b
  | (.unresolved, m) => Unmoved request n m ∧ ¬ m.resources.HasDone id

theorem Renewed.after {x : Resolution × Node} (h : Renewed request id t m x)
    (unmoved : Unmoved request n m) : Renewed request id t n x := by
  obtain ⟨_ | b | _, m'⟩ := x
  · exact ⟨unmoved.trans h.1, h.2⟩
  · exact ⟨unmoved.trans h.1, h.2⟩
  · exact ⟨unmoved.trans h.1, h.2⟩

/-- The first round of preparing finds out whether the id is committed. -/
theorem prepareAnew_renewed (request : RequestId) (id : TxId) (t : ChangeSet)
    (tidy : n.store.Tidy) (more : Nat) (first : more = 0 → ¬ n.resources.HasDone id) :
    Renewed request id t n (prepareAnew request id t more n) := by
  induction more generalizing n with
  | zero => exact ⟨.refl tidy, first rfl⟩
  | succ more ih =>
    have counted : Unmoved request n (n.count .retries) := ⟨.refl tidy, rfl, rfl⟩
    have again {m : Node} (unmoved : Unmoved request n m) (stale : ¬ n.resources.HasDone id) :
        Renewed request id t n (prepareAnew request id t more m) :=
      (ih unmoved.tidy fun _ => unmoved.hasDone.not.2 stale).after unmoved
    have spec := prepared tidy request id t false
    have present : n.sequencer.validate id = .alreadyPresent ↔ n.resources.HasDone id :=
      Slot.classify_eq_alreadyPresent
    unfold prepareAnew
    dsimp only
    have same : (n.count .retries).sequencer.validate id = n.sequencer.validate id := rfl
    rw [same]
    cases verdict : n.sequencer.validate id with
    | alreadyPresent => exact ⟨counted, present.1 verdict⟩
    | missingPrevious => exact again counted (present.not.1 (by simp [verdict]))
    | alreadyPromised | valid =>
      have stale : ¬ n.resources.HasDone id := present.not.1 (by simp [verdict])
      dsimp only
      simp only [Step.run_apply]
      have newAttempt : (n.count .retries).newAttempt request (.data id t) =
        n.newAttempt request (.data id t) := rfl
      rw [newAttempt]
      rcases eq : Attempt.prepare false (n.newAttempt request (.data id t)) with ⟨fault | _, b⟩
      · rw [eq] at spec
        have undone := spec.took.undone
        rw [spec.request] at undone
        have discarded : Unmoved request n ((n.count .retries).discard b) := ⟨undone, rfl, rfl⟩
        dsimp only
        split
        · exact again (discarded.noteFailure _) stale
        · exact again discarded stale
        · exact ⟨discarded, discarded.hasDone.not.2 stale⟩
      · rw [eq] at spec
        exact ⟨counted, spec.1⟩

/-- A failed attempt is prepared anew and applied, or it is committed already, or a copy of the
database is asked for. -/
theorem resolve_settles (request : RequestId) (id : TxId) (t : ChangeSet) (tidy : n.store.Tidy)
    (path : n.resources.journal.path = none) (tries : 1 ≤ n.settings.maxAutoRetry)
    (promised : a.promised = []) (reserved : a.reserved = []) :
    (resolve request id t n).2.registry = n.registry ∧
      ((resolve request id t n).2.store.HasRoom → n.store.HasRoom) ∧
      Frees a t n.resources (resolve request id t n).2.resources ∧
      Outcome id n.meter.resyncs n.store.content (resolve request id t n).2 := by
  have renewed := prepareAnew_renewed request id t tidy n.settings.maxAutoRetry
    fun none => absurd none (by omega)
  unfold resolve
  rcases eq : prepareAnew request id t n.settings.maxAutoRetry n with ⟨_ | b | _, m⟩
  · rw [eq] at renewed
    obtain ⟨unmoved, done⟩ := renewed
    exact ⟨unmoved.registry, unmoved.room, unmoved.frees promised reserved,
      .inl ⟨done, unmoved.resyncs⟩⟩
  · rw [eq] at renewed
    obtain ⟨unmoved, u, t', fit⟩ := renewed
    obtain ⟨registry, resources⟩ := finish_frame b m
    have outcome := finish_outcome fit.took.live fit.job
      (fit.took.path.trans (unmoved.path.trans path)) fit.stored m
    have content : b.resources.store.content = n.store.content :=
      fit.took.store.content.trans unmoved.content
    rw [unmoved.resyncs, content] at outcome
    have back (room : (destroy (Attempt.apply b).2).resources.store.HasRoom) :
        b.resources.store.HasRoom := hasRoom_of_apply fit.job (hasRoom_of_destroy room)
    have frees : Frees a t m.resources (destroy (Attempt.apply b).2).resources :=
      fit.frees fit.applied promised reserved back
    have back' (room : (destroy (Attempt.apply b).2).resources.store.HasRoom) :
        m.resources.store.HasRoom := fit.took.store.room (back room)
    have frees := frees.after unmoved.toUndone back'
    rw [← resources] at frees back'
    exact ⟨registry.trans unmoved.registry, fun room => unmoved.room (back' room), frees, outcome⟩
  · rw [eq] at renewed
    obtain ⟨unmoved, stale⟩ := renewed
    exact ⟨unmoved.registry, unmoved.room, unmoved.frees promised reserved,
      .inr ⟨stale, congrArg (· + 1) unmoved.resyncs, unmoved.content⟩⟩

/-- An attempt that waits is taken out of the registry, and settled. -/
theorem settle_settles (orderly : n.Orderly) (recorded : n.inFlight.Recorded)
    (frugal : n.inFlight.HasRoom → n.inFlight.Frugal) (tries : 1 ≤ n.settings.maxAutoRetry)
    (found : n.registry.get? a.request = some a) (job : a.job = .data id t) :
    (settle ⟨a, n.resources⟩ (n.forget a.request)).2.registry = n.registry.erase a.request ∧
      Frees a t n.resources (settle ⟨a, n.resources⟩ (n.forget a.request)).2.resources ∧
      Outcome id n.meter.resyncs n.store.content
        (settle ⟨a, n.resources⟩ (n.forget a.request)).2 := by
  have mem : a ∈ n.registry.all := Registry.mem_all.2 ⟨_, found⟩
  have sane := orderly.sound.sane a mem
  unfold settle
  by_cases status : a.status = .success
  · have hand : n.inFlight = ⟨a ::ₘ (n.forget a.request).registry.all, n.resources⟩ := by
      unfold inFlight
      rw [Registry.all_erase found]
      rfl
    obtain ⟨ended, -, gone⟩ := (hand ▸ orderly.sound).ended_applied status job
    obtain ⟨registry, resources⟩ := finish_frame ⟨a, n.resources⟩ (n.forget a.request)
    have frees := ended.frees gone fun room =>
      (frugal (hasRoom_of_apply (b := ⟨a, n.resources⟩) job (hasRoom_of_destroy room))).frugal a mem
        status id t job
    rw [← resources] at frees
    rw [if_pos status]
    exact ⟨registry, frees, finish_outcome (b := ⟨a, n.resources⟩) sane.live job recorded.path
      (recorded.grounded a mem status id t job) _⟩
  · obtain ⟨held, promised, reserved⟩ := sane.idle status
    have released := released_destroy (b := ⟨a, n.resources⟩) sane.live
    have undone : Undone a.request n.resources (a.discard n.resources) :=
      released.undone held promised reserved orderly.sound.tidy
    rw [if_neg status]
    dsimp only
    rw [job]
    obtain ⟨registry, back, frees, outcome⟩ := resolve_settles a.request id t
      (n := (n.forget a.request).discard ⟨a, n.resources⟩) undone.tidy
      (undone.path.trans recorded.path) tries promised reserved
    have content : ((n.forget a.request).discard ⟨a, n.resources⟩).store.content =
        n.store.content := undone.content
    rw [content] at outcome
    exact ⟨registry, frees.after undone back, outcome⟩

/-- A commit settles an attempt that waits for a change set, whatever its status. -/
theorem commit_settles (keyed : n.registry.Keyed) (recorded : n.inFlight.Recorded)
    (frugal : n.inFlight.HasRoom → n.inFlight.Frugal) (tries : 1 ≤ n.settings.maxAutoRetry)
    (found : n.registry.get? request = some a) (job : a.job = .data id t) :
    Settled request a id t n (Node.commit request n).2 := by
  have orderly : n.Orderly := ⟨keyed, recorded.toSound⟩
  obtain rfl : a.request = request := keyed _ _ found
  obtain ⟨registry, frees, outcome⟩ := settle_settles orderly recorded frugal tries found job
  have waits : n.waiting? a.request = some ⟨a, n.resources⟩ := by
    unfold waiting?
    rw [found]
    rfl
  have moves : MovesBy (fun _ _ => True) n (Node.commit a.request n).2 :=
    commit_acts orderly (fun _ _ _ => trivial) fun _ _ => trivial
  have after := moves.orderly orderly
  rw [commit_waiting waits] at after ⊢
  have gone : (settle ⟨a, n.resources⟩ (n.forget a.request)).2.registry.get? a.request = none := by
    rw [registry, Registry.get?_erase, if_pos rfl]
  refine ⟨frees, gone, fun key held => ?_, outcome⟩
  -- Keys are locked for requests, and only attempts of the request could hold them.
  obtain ⟨c, mem, same, -⟩ := after.sound.locks key a.request held
  have found := after.keyed.get?_of_mem mem
  rw [same, gone] at found
  cases found

end Node

end QuorumCommit
