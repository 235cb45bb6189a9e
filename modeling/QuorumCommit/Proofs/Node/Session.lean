import QuorumCommit.Node.Answer
import QuorumCommit.Proofs.Node.Calm

/-!
A change set on a node that does not issue its id. The node votes, which leaves one attempt
waiting, and is then told to commit or to discard it. It ends as it began unless it voted for the
change set, was told to commit, and had committed the id before.
-/
namespace QuorumCommit

namespace Attempt

variable {r : Resources} {b : State} {id : TxId} {t t' : ChangeSet} {request : RequestId}

/-- Marking a prepared attempt takes nothing from it. -/
theorem Ready.succeed (h : Ready r request id t t' b) :
    Ready r request id t t' (succeed b) ∧
      (b.attempt.status = .pending → (Attempt.succeed b).attempt.status = .success) := by
  have stands := h.stands.succeed
  unfold Attempt.succeed setStatus at *
  split at stands
  · next eq =>
    rw [if_pos eq]
    refine ⟨h, fun pending => ?_⟩
    rcases eq with decided | same
    · exact absurd pending decided
    · cases same
  · next eq =>
    rw [if_neg eq]
    exact ⟨⟨stands, h.request, h.job, h.promised, h.placed, h.versions⟩, fun _ => rfl⟩

/-- A failed attempt is still for the same request and job. -/
theorem AtWork.fail (h : AtWork r request id t b) (fault : Fault) :
    (Attempt.fail fault b).attempt.request = request ∧
      (Attempt.fail fault b).attempt.job = b.attempt.job ∧
      (Attempt.fail fault b).attempt.status ≠ .success := by
  rw [fail_eq h.pending]
  refine ⟨h.request, rfl, fun success => ?_⟩
  have failure := isFailure_ofFault fault
  dsimp only at success
  rw [success] at failure
  cases failure

end Attempt

namespace Node

variable {n n' : Node} {out : Nat} {id : TxId} {t : ChangeSet} {request : RequestId}

open Attempt

/-- How a node has voted on a change set. In any case an attempt waits for the decision; if all
places were chosen and there is room for them, the vote tells whether the node admits the change
set. -/
inductive Voted (n : Node) (request : RequestId) (id : TxId) (t : ChangeSet) :
    Reply → Node → Prop where
  | yes {n' : Node} {b : State} {t' : ChangeSet} (parked : n.Parked b n')
      (ready : Ready n.resources request id t t' b)
      (admits : t.hasTemporary = false → n'.store.HasRoom → n.resources.Admits id t)
      (status : b.attempt.status = .success) : Voted n request id t .success n'
  | no {n' : Node} {b : State} {t' : ChangeSet} {reply : Reply} (parked : n.Parked b n')
      (refuses : t.hasTemporary = false → n'.store.HasRoom → ¬ n.resources.Admits id t)
      (request_eq : b.attempt.request = request) (job : b.attempt.job = .data id t')
      (kept : t.hasTemporary = false → t' = t) (status : b.attempt.status ≠ .success)
      (answer : reply ≠ .success) : Voted n request id t reply n'

theorem Calm.begun (h : n.Calm out) (request : RequestId) (id : TxId) (t : ChangeSet) :
    Begun n.resources request id t (n.newAttempt request (.data id t)) :=
  .new h.tidy (h.stranger request) id t

theorem Calm.atWork (h : n.Calm out) (request : RequestId) (id : TxId) (t : ChangeSet)
    (atOrigin : Bool) :
    AtWork n.resources request id t
      (Attempt.prepare atOrigin (n.newAttempt request (.data id t))).2 :=
  (underway_prepare h.tidy request id t atOrigin).atWork (h.stranger request)

/-- What an attempt to prepare a change set comes to on a calm node. -/
theorem Calm.prepared (h : n.Calm out) (request : RequestId) (id : TxId) (t : ChangeSet) :
    match Attempt.prepare false (n.newAttempt request (.data id t)) with
    | (.ok _, b) => (∃ t', Ready n.resources request id t t' b) ∧
        (t.hasTemporary = false → n.resources.Admits id t) ∧ b.attempt.status = .pending
    | (.error _, b) => (t.hasTemporary = false → ¬ n.resources.Admits id t) ∧
        AtWork n.resources request id t b := by
  have work := h.atWork request id t false
  have begun := h.begun request id t
  rcases eq : Attempt.prepare false (n.newAttempt request (.data id t)) with ⟨fault | _, b⟩
  · rw [eq] at work
    refine ⟨fun final admits => ?_, work⟩
    have ok := prepare_replica_ok begun final admits
    rw [eq] at ok
    cases ok
  · rw [eq] at work
    obtain ⟨ready, admits⟩ := prepare_replica begun eq
    exact ⟨ready, admits, work.pending⟩

theorem prepare_spec (h : n.Calm out) (request : RequestId) (id : TxId) (t : ChangeSet)
    (retries : Nat) :
    match Node.prepare request id t false retries n with
    | (.ok true, n') => n.Voted request id t .success n'
    | (.ok false, n') => n.Kept n' ∧ retries < n.settings.maxAutoRetry
    | (.error fault, n') => n.Voted request id t (.ofFault fault) n' := by
  have spec := h.prepared request id t
  unfold Node.prepare
  simp only [Step.run_apply]
  rcases eq : Attempt.prepare false (n.newAttempt request (.data id t)) with ⟨fault | _, b⟩
  · rw [eq] at spec
    obtain ⟨refuses, work⟩ := spec
    have noted := noteFailure_resources ((n.count .started).timePhase1) fault
    have registry : (((n.count .started).timePhase1).noteFailure fault).registry = n.registry :=
      noted.2.1
    have settings : (((n.count .started).timePhase1).noteFailure fault).settings = n.settings :=
      noted.2.2
    dsimp only
    rw [settings]
    by_cases lagging : (fault.isLagging && decide (retries < n.settings.maxAutoRetry)) = true
    · rw [if_pos lagging]
      refine ⟨⟨settings, registry, work.stands.destroy⟩, ?_⟩
      rw [Bool.and_eq_true, decide_eq_true_eq] at lagging
      exact lagging.2
    · rw [if_neg lagging]
      obtain ⟨request_eq, job, status⟩ := work.fail fault
      obtain ⟨t', job', kept⟩ := work.job
      refine .no (.park settings (registry.trans h.registry) (work.stands.fail fault))
        (fun final _ => refuses final) request_eq (job.trans job') kept status ?_
      cases fault <;> simp [Reply.ofFault]
  · rw [eq] at spec
    obtain ⟨⟨t', ready⟩, admits, pending⟩ := spec
    obtain ⟨ready, success⟩ := ready.succeed
    exact .yes (.park rfl h.registry ready.stands) ready (fun final _ => admits final)
      (success pending)

theorem Kept.voted (k : n.Kept n') {reply : Reply} {n'' : Node}
    (v : n'.Voted request id t reply n'') : n.Voted request id t reply n'' := by
  have same {b : State} (parked : n'.Parked b n'') (room : n''.store.HasRoom) :
      n'.resources.Admits id t ↔ n.resources.Admits id t :=
    k.resources.admits_iff (parked.room room)
  cases v with
  | yes parked ready admits status =>
    exact .yes (k.parked parked) (ready.of_restored k.resources)
      (fun final room => (same parked room).1 (admits final room)) status
  | no parked refuses request_eq job kept status answer =>
    exact .no (k.parked parked) (fun final room => mt (same parked room).2 (refuses final room))
      request_eq job kept status answer

/-- A vote does not depend on the disk. -/
theorem Voted.butDisk {m m' : Node} {reply : Reply} (v : n.Voted request id t reply n')
    (l : n.SameButDisk m) (l' : n'.SameButDisk m') : m.Voted request id t reply m' := by
  have admits {n m : Node} (l : n.SameButDisk m) (a : n.resources.Admits id t) :
      m.resources.Admits id t := by
    obtain ⟨disk, asks, rfl⟩ := l
    exact ⟨⟨a.valid, a.keys, a.unique, a.versions⟩, a.distinct, a.untaken⟩
  have room (after : m'.store.HasRoom) : n'.store.HasRoom := by
    obtain ⟨disk, asks, rfl⟩ := l'
    exact after
  cases v with
  | yes parked ready yes status =>
    obtain ⟨disk, parked⟩ := parked.butDisk l l'
    have rest := fun final after => admits l (yes final (room after))
    obtain ⟨disk₀, asks, rfl⟩ := l
    exact .yes parked (ready.onDisk disk₀ disk) rest status
  | no parked refuses request_eq job kept status answer =>
    obtain ⟨disk, parked⟩ := parked.butDisk l l'
    exact .no parked (fun final after a => refuses final (room after) (admits l.symm a)) request_eq
      job kept status answer

theorem prepareFrom_spec (h : n.Calm out) (request : RequestId) (id : TxId) (t : ChangeSet)
    (retries more : Nat) (bound : retries + more = n.settings.maxAutoRetry) :
    n.Voted request id t (prepareFrom request id t retries more n).1
      (prepareFrom request id t retries more n).2 := by
  induction more generalizing n retries with
  | zero =>
    have spec := prepare_spec h request id t retries
    unfold prepareFrom
    simp only [Step.run_apply]
    rcases eq : Node.prepare request id t false retries n with ⟨fault | answer, n'⟩
    · rw [eq] at spec
      exact spec
    · rw [eq] at spec
      cases answer with
      | true => exact spec
      | false =>
        have := spec.2
        omega
  | succ more ih =>
    have spec := prepare_spec h request id t retries
    unfold prepareFrom
    simp only [Step.run_apply]
    rcases eq : Node.prepare request id t false retries n with ⟨fault | answer, n'⟩
    · rw [eq] at spec
      exact spec
    · rw [eq] at spec
      cases answer with
      | true => exact spec
      | false =>
        obtain ⟨kept, -⟩ := spec
        refine kept.voted (ih (h.kept kept) (retries + 1) ?_)
        rw [kept.settings]
        omega

/-- A node votes for a change set just when it admits it. -/
theorem answerPrepare_spec (h : n.Calm out) (request : RequestId) (id : TxId) (t : ChangeSet) :
    n.Voted request id t (answerPrepare request id t n).1 (answerPrepare request id t n).2 :=
  prepareFrom_spec h request id t 0 _ (Nat.zero_add _)

/-- A node other than the voter's may differ from it in what no session depends on. -/
theorem finish_next {m : Node} {b : State} {t' : ChangeSet} (settings : m.settings = n.settings)
    (registry : m.registry = n.registry) (ready : Ready n.resources request id t t' b)
    (path : n.resources.view.path = none) (next : n.resources.view.IsNext id) :
    (finish b m).1 = .ok () ∧
      n.Advanced id (n.store.content.committed t' ⟨id, n.sequencer.nextOffset⟩) (finish b m).2 ∧
      ((finish b m).2.store.HasRoom → t.createdRecords.Nodup →
        ∀ place, (finish b m).2.store.isReserved place = n.store.isReserved place) := by
  obtain ⟨b', applied, enacted, reserved⟩ := ready.apply path next
  unfold finish
  simp only [Step.run_apply]
  rw [applied]
  exact ⟨rfl, ⟨settings, registry, enacted.view, enacted.tidy, enacted.room⟩, reserved⟩

theorem finish_other {m : Node} {b : State} {t' : ChangeSet} (settings : m.settings = n.settings)
    (registry : m.registry = n.registry) (ready : Ready n.resources request id t t' b)
    (other : ¬ n.resources.view.IsNext id) : n.Kept (finish b m).2 := by
  unfold finish
  simp only [Step.run_apply]
  rcases ready.stands.apply_other ready.job other with refused | refused
  · rw [refused]
    exact ⟨settings, registry, ready.stands.destroy⟩
  · rw [refused]
    exact ⟨settings, registry, ready.stands.destroy⟩

/-- A prepared attempt is applied if its id is the next one, and given up otherwise. -/
theorem finish_decided {m : Node} {b : State} {t' : ChangeSet} (settings : m.settings = n.settings)
    (registry : m.registry = n.registry) (ready : Ready n.resources request id t t' b)
    (path : n.resources.view.path = none) : n.MayAdvance id (finish b m).2 := by
  by_cases next : n.resources.view.IsNext id
  · exact .advanced next (finish_next settings registry ready path next).2.1
  · exact .kept (finish_other settings registry ready next)

theorem hasRoom_of_finish {m : Node} {b : State} {t' : ChangeSet}
    (job : b.attempt.job = .data id t') (room : (finish b m).2.store.HasRoom) :
    b.resources.store.HasRoom := by
  refine hasRoom_of_apply job (hasRoom_of_destroy ?_)
  unfold finish at room
  simp only [Step.run_apply] at room
  rcases eq : Attempt.apply b with ⟨fault | _, b'⟩ <;> rw [eq] at room
  · cases fault <;> exact room
  · exact room

/-- What preparing anew comes to. A change set that is not admitted is not admitted the next time
either. -/
theorem prepareAnew_spec (h : n.Calm out) (request : RequestId) (id : TxId) (t : ChangeSet)
    (more : Nat) :
    match prepareAnew request id t more n with
    | (.prepared b, m) => (∃ t', Ready n.resources request id t t' b) ∧
        m.settings = n.settings ∧ m.registry = n.registry ∧
        (t.hasTemporary = false → b.resources.store.HasRoom → n.resources.Admits id t)
    | (_, m) => n.Kept m := by
  induction more generalizing n with
  | zero => exact .refl h.tidy
  | succ more ih =>
    have again {m : Node} (kept : n.Kept m) :
        match prepareAnew request id t more m with
        | (.prepared b, m) => (∃ t', Ready n.resources request id t t' b) ∧
            m.settings = n.settings ∧ m.registry = n.registry ∧
            (t.hasTemporary = false → b.resources.store.HasRoom → n.resources.Admits id t)
        | (_, m) => n.Kept m := by
      have later := ih (h.kept kept)
      rcases eq : prepareAnew request id t more m with ⟨_ | b | _, m'⟩
      · rw [eq] at later
        exact kept.trans later
      · rw [eq] at later
        obtain ⟨⟨t', ready⟩, settings, registry, admits⟩ := later
        exact ⟨⟨t', ready.of_restored kept.resources⟩, settings.trans kept.settings,
          registry.trans kept.registry, fun final room =>
            (kept.resources.admits_iff (ready.stands.store.room room)).1 (admits final room)⟩
      · rw [eq] at later
        exact kept.trans later
    have counted : n.Kept (n.count .retries) := ⟨rfl, rfl, .refl h.tidy⟩
    have spec := h.prepared request id t
    unfold prepareAnew
    dsimp only
    have newAttempt : (n.count .retries).newAttempt request (.data id t) =
      n.newAttempt request (.data id t) := rfl
    rw [newAttempt]
    rcases eq : Attempt.prepare false (n.newAttempt request (.data id t)) with ⟨fault | _, b⟩
    · rw [eq] at spec
      have discarded : n.Kept ((n.count .retries).discard b) := ⟨rfl, rfl, spec.2.stands.destroy⟩
      have noted (fault : Fault) : n.Kept (((n.count .retries).discard b).noteFailure fault) := by
        obtain ⟨resources, registry, settings⟩ :=
          noteFailure_resources ((n.count .retries).discard b) fault
        exact ⟨settings, registry, by rw [resources]; exact discarded.resources⟩
      cases (n.count .retries).sequencer.validate id with
      | alreadyPresent => exact counted
      | missingPrevious => exact again counted
      | alreadyPromised | valid =>
        simp only [Step.run_apply]
        rw [eq]
        cases fault with
        | lockTimeout key holder waited => exact again (noted _)
        | outOfSequence id verdict => exact again discarded
        | _ => exact discarded
    · rw [eq] at spec
      obtain ⟨⟨t', ready⟩, admits, -⟩ := spec
      cases (n.count .retries).sequencer.validate id with
      | alreadyPresent => exact counted
      | missingPrevious => exact again counted
      | alreadyPromised | valid =>
        simp only [Step.run_apply]
        rw [eq]
        exact ⟨⟨t', ready.succeed.1⟩, rfl, rfl, fun final _ => admits final⟩

/-- Settling an attempt whose vote was against the change set changes nothing. -/
theorem resolve_spec (h : n.Calm out) (request : RequestId) (id : TxId) (t : ChangeSet) :
    n.MayAdvance id (resolve request id t n).2 ∧
      (t.hasTemporary = false → (resolve request id t n).2.store.HasRoom →
        ¬ n.resources.Admits id t → n.Kept (resolve request id t n).2) := by
  have spec := prepareAnew_spec h request id t n.settings.maxAutoRetry
  unfold resolve
  rcases eq : prepareAnew request id t n.settings.maxAutoRetry n with ⟨_ | b | _, m⟩
  · rw [eq] at spec
    exact ⟨.kept spec, fun _ _ _ => spec⟩
  · rw [eq] at spec
    obtain ⟨⟨t', ready⟩, settings, registry, admits⟩ := spec
    exact ⟨finish_decided settings registry ready h.view.path, fun final room refuses =>
      absurd (admits final (hasRoom_of_finish ready.job room)) refuses⟩
  · rw [eq] at spec
    have kept : n.Kept m.askResync := ⟨spec.settings, spec.registry, spec.resources⟩
    exact ⟨.kept kept, fun _ _ _ => kept⟩

namespace Parked

variable {b : State} {t' : ChangeSet}

theorem rollback (parked : n.Parked b n') (h : n.Calm out) :
    n.Kept (Node.rollback b.attempt.request n').2 := by
  have kept := parked.discard h.registry
  unfold Node.rollback
  rw [parked.waiting?]
  exact ⟨kept.settings, kept.registry, kept.resources⟩

theorem commit_eq (parked : n.Parked b n') (status : b.attempt.status = .success) :
    Node.commit b.attempt.request n' =
      ((finish b (n'.forget b.attempt.request)).1.map fun _ => true,
        (finish b (n'.forget b.attempt.request)).2) := by
  unfold Node.commit settle
  rw [parked.waiting?]
  simp only [status, ↓reduceIte]
  rcases finish b (n'.forget b.attempt.request) with ⟨fault | _, m⟩ <;> rfl

/-- A prepared attempt that is told to commit the next id of its origin does so. -/
theorem commit_next (parked : n.Parked b n') (h : n.Calm out)
    (ready : Ready n.resources request id t t' b) (status : b.attempt.status = .success)
    (next : n.resources.view.IsNext id) :
    (Node.commit request n').1 = .ok true ∧
      n.Advanced id (n.store.content.committed t' ⟨id, n.sequencer.nextOffset⟩)
        (Node.commit request n').2 ∧
      ((Node.commit request n').2.store.HasRoom → t.createdRecords.Nodup → ∀ place,
        (Node.commit request n').2.store.isReserved place = n.store.isReserved place) := by
  obtain rfl := ready.request
  obtain ⟨registry, -, settings⟩ := parked.forget
  obtain ⟨ok, advanced, reserved⟩ := finish_next settings (registry.trans h.registry.symm) ready
    h.view.path next
  rw [parked.commit_eq status, ok]
  exact ⟨rfl, advanced, reserved⟩

theorem commit_other (parked : n.Parked b n') (h : n.Calm out)
    (ready : Ready n.resources request id t t' b) (status : b.attempt.status = .success)
    (other : ¬ n.resources.view.IsNext id) : n.Kept (Node.commit request n').2 := by
  obtain rfl := ready.request
  obtain ⟨registry, -, settings⟩ := parked.forget
  rw [parked.commit_eq status]
  exact finish_other settings (registry.trans h.registry.symm) ready other

end Parked

/-- A vote that is not taken up leaves nothing. -/
theorem Voted.rollback (h : n.Calm out) {reply : Reply} (v : n.Voted request id t reply n') :
    n.Kept (Node.rollback request n').2 := by
  cases v with
  | yes parked ready =>
    obtain rfl := ready.request
    exact parked.rollback h
  | no parked _ request_eq =>
    subst request_eq
    exact parked.rollback h

/-- The decision to commit takes effect where the vote was for it and the id is the next one. A node
that has voted against it may commit it all the same if its places were not chosen yet, or have come
round. -/
theorem Voted.commit (h : n.Calm out) {reply : Reply} (v : n.Voted request id t reply n') :
    n.MayAdvance id (Node.commit request n').2 ∧
      ((Node.commit request n').2.store.HasRoom → n'.store.HasRoom) ∧
      (t.hasTemporary = false → (Node.commit request n').2.store.HasRoom →
        (reply = .success ∧ n.resources.view.IsNext id →
          n.Enacted id t (Node.commit request n').2) ∧
        (¬ (reply = .success ∧ n.resources.view.IsNext id) →
          n.Kept (Node.commit request n').2)) := by
  cases v with
  | @yes _ b t' parked ready admits status =>
    have before (room : (Node.commit request n').2.store.HasRoom) : n'.store.HasRoom := by
      obtain rfl := ready.request
      rw [parked.commit_eq status] at room
      have taken := hasRoom_of_finish ready.job room
      unfold Node.store
      rwa [parked.resources]
    by_cases next : n.resources.view.IsNext id
    · obtain ⟨-, advanced, reserved⟩ := parked.commit_next h ready status next
      refine ⟨.advanced next advanced, before, fun final room => ⟨fun _ => ?_, fun no => ?_⟩⟩
      · obtain rfl := ready.placed.kept final
        exact ⟨advanced, fun after => reserved after (admits final (before room)).distinct⟩
      · exact absurd ⟨rfl, next⟩ no
    · have kept := parked.commit_other h ready status next
      exact ⟨.kept kept, before, fun _ _ => ⟨fun yes => absurd yes.2 next, fun _ => kept⟩⟩
  | @no _ b t' _ parked refuses request_eq job same status answer =>
    subst request_eq
    have kept := parked.discard h.registry
    obtain ⟨decided, exact_⟩ := resolve_spec (h.kept kept) b.attempt.request id t'
    have run : (Node.commit b.attempt.request n').2 = (resolve b.attempt.request id t'
        ((n'.forget b.attempt.request).discard b)).2 := by
      unfold Node.commit settle
      rw [parked.waiting?]
      simp only [status, ↓reduceIte, job]
      rcases resolve b.attempt.request id t' ((n'.forget b.attempt.request).discard b) with
        ⟨fault | _, m⟩ <;> rfl
    rw [run]
    have voted (room : ((n'.forget b.attempt.request).discard b).store.HasRoom) :
        n'.store.HasRoom := by
      unfold Node.store
      rw [parked.resources]
      exact hasRoom_of_destroy room
    refine ⟨kept.decided decided, fun room => voted (decided.room room),
      fun final room => ⟨fun yes => absurd yes.1 answer, fun _ => ?_⟩⟩
    obtain rfl := same final
    have before := decided.room room
    exact kept.trans (exact_ final room fun a =>
      refuses final (voted before) ((kept.resources.admits_iff before).1 a))

end Node

end QuorumCommit
