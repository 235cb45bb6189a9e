import QuorumCommit.Proofs.Attempt.Keeping
import QuorumCommit.Proofs.Attempt.Taking
import QuorumCommit.Proofs.Store.Admission

/-!
What preparing a change set comes to. Whether it succeeds or not, the attempt holds what it lists;
if it succeeds, it holds all that its change set needs, and the checks have passed.
-/
namespace QuorumCommit.Attempt

variable {r : Resources} {b b' : State} {id : TxId} {t t' u : ChangeSet} {request : RequestId}
  {atOrigin : Bool}

/-- What may become of a change set while it is prepared: one with final ids stays as it is, and
distinct records stay distinct as long as there is room for them. -/
structure Becomes (room : Prop) (t t' : ChangeSet) : Prop where
  kept : t.hasTemporary = false → t' = t
  distinct : room → t.createdRecords.Nodup → t'.createdRecords.Nodup

theorem Becomes.refl (room : Prop) (t : ChangeSet) : Becomes room t t := ⟨fun _ => rfl, fun _ => id⟩

theorem Becomes.mono {room room' : Prop} (h : Becomes room t t') (back : room' → room) :
    Becomes room' t t' :=
  ⟨h.kept, fun after => h.distinct (back after)⟩

theorem Becomes.trans {room : Prop} {t'' : ChangeSet} (h : Becomes room t t')
    (h' : Becomes room t' t'') : Becomes room t t'' where
  kept final := by
    have same := h.kept final
    exact (h'.kept (same ▸ final)).trans same
  distinct left nodup := h'.distinct left (h.distinct left nodup)

structure Underway (r : Resources) (request : RequestId) (id : TxId) (t : ChangeSet) (b : State) :
    Prop where
  took : Took r b
  request : b.attempt.request = request
  pending : b.attempt.status = .pending
  job : ∃ t', b.attempt.job = .data id t' ∧ Becomes b.resources.store.HasRoom t t'

theorem Underway.new (tidy : r.store.Tidy) (request : RequestId) (id : TxId) (t : ChangeSet) :
    Underway r request id t ⟨Attempt.new request (.data id t), r⟩ :=
  ⟨.new tidy request _, rfl, rfl, t, rfl, .refl _ t⟩

/-- What a step does to the attempt while it is underway. -/
theorem Underway.congr (h : Underway r request id t b) (took : Took r b')
    (request' : b'.attempt.request = b.attempt.request)
    (status : b'.attempt.status = b.attempt.status)
    (job : ∃ t', b'.attempt.job = .data id t' ∧ Becomes b'.resources.store.HasRoom t t') :
    Underway r request id t b' :=
  ⟨took, request'.trans h.request, status.trans h.pending, job⟩

theorem promiseId_keeps : Step.Keeps (Underway r request id t) promiseId := by
  intro b work
  obtain ⟨t', job, becomes⟩ := work.job
  have step := work.took.promise id
  have store := store_promise id b
  rw [promiseId_eq job]
  rcases eq : Attempt.promise id b with ⟨fault | _, b'⟩ <;> rw [eq] at step store
  · obtain ⟨rfl, -⟩ := step
    exact work
  · obtain ⟨-, -, took, attempt⟩ := step
    refine work.congr took (by rw [attempt]) (by rw [attempt]) ⟨t', by rw [attempt, job], ?_⟩
    exact becomes.mono (store ▸ fun room => room)

theorem preallocate_keeps : Step.Keeps (Underway r request id t) preallocate := by
  intro b work
  obtain ⟨t', job, becomes⟩ := work.job
  have step := work.took.preallocate job
  have before := hasRoom_of_preallocate (b := b)
  rcases eq : Attempt.preallocate b with ⟨fault | _, b'⟩ <;> rw [eq] at step before
  · obtain ⟨took, attempt⟩ := step
    exact work.congr took (by rw [attempt]) (by rw [attempt])
      ⟨t', by rw [attempt, job], becomes.mono before⟩
  · obtain ⟨took, reserved, t'', placed, -, -, attempt⟩ := step
    have more : b'.attempt.reserved = b.attempt.reserved ++ reserved := by rw [attempt]
    refine work.congr took (by rw [attempt]) (by rw [attempt])
      ⟨t'', by rw [attempt], (becomes.mono before).trans ⟨placed.kept, fun room nodup => ?_⟩⟩
    have distinct := took.store.distinct room
    have final := took.store.final room
    rw [more] at distinct final
    rw [placed.distinct (fun id mem => final id (List.mem_append_right _ mem)) nodup]
    exact (List.nodup_append.1 distinct).2.1

theorem lockKeys_keeps : Step.Keeps (Underway r request id t) lockKeys := by
  intro b work
  obtain ⟨t', job, becomes⟩ := work.job
  obtain ⟨took, ⟨held, attempt, -⟩, -⟩ := work.took.lockKeys job
  refine work.congr took (by rw [attempt]) (by rw [attempt]) ⟨t', by rw [attempt, job], ?_⟩
  exact becomes.mono (store_lockKeys b ▸ fun room => room)

theorem check_keeps : Step.Keeps (Underway r request id t) check := by
  intro b work
  obtain ⟨t', job, becomes⟩ := work.job
  rw [(work.took.check job).1]
  exact work

/-- Whether it succeeds or not, preparing leaves an attempt underway that holds what it lists. -/
theorem prepare_keeps (atOrigin : Bool) :
    Step.Keeps (Underway r request id t) (Attempt.prepare atOrigin) := by
  unfold Attempt.prepare
  split
  · exact promiseId_keeps.bind fun _ => preallocate_keeps.bind fun _ =>
      lockKeys_keeps.bind fun _ => check_keeps
  · exact promiseId_keeps.bind fun _ => lockKeys_keeps.bind fun _ =>
      preallocate_keeps.bind fun _ => check_keeps

theorem underway_prepare (tidy : r.store.Tidy) (request : RequestId) (id : TxId) (t : ChangeSet)
    (atOrigin : Bool) :
    Underway r request id t (Attempt.prepare atOrigin ⟨Attempt.new request (.data id t), r⟩).2 :=
  prepare_keeps atOrigin _ (.new tidy request id t)

/-- An attempt that has all that its change set needs. The change set `t` was asked for and `t'` is
what it became when its places were reserved; the keys are those of `u`, which is one of the two. -/
structure Fit (r : Resources) (request : RequestId) (id : TxId) (t u t' : ChangeSet) (b : State) :
    Prop where
  took : Took r b
  request : b.attempt.request = request
  job : b.attempt.job = .data id t'
  promised : b.attempt.promised = [id]
  placed : Store.Placed t b.attempt.reserved t'
  granted : t.hasTemporary = false → b.attempt.reserved = t.createdRecords
  renamed : ∃ renames, t' = u.renameAll renames ∧ ∀ p ∈ renames, p.2 ∈ b.attempt.reserved
  valid : r.sequencer.validate id = .valid
  locked : ∃ keys, r.store.lockKeys u = .ok keys ∧ keys ⊆ b.attempt.held
  unique : r.store.checkUniqueKeys t' = .ok ()
  versions : r.store.checkVersions t' = .ok ()

/-- An attempt that has listed nothing promises its id first. -/
theorem Took.promiseId (h : Took r b) (job : b.attempt.job = .data id t)
    (promised : b.attempt.promised = []) {v : Unit} (ok : promiseId b = (.ok v, b')) :
    r.sequencer.validate id = .valid ∧ Took r b' ∧
      b'.attempt = { b.attempt with promised := [id] } := by
  rw [promiseId_eq job] at ok
  have step := h.promise id
  rw [ok] at step
  obtain ⟨valid, -, took, attempt⟩ := step
  rw [promised] at attempt
  exact ⟨valid, took, attempt⟩

/-- The origin chooses the places of its records before it locks. -/
theorem Took.prepare_origin (h : Took r b) (job : b.attempt.job = .data id t)
    (promised : b.attempt.promised = []) (reserved : b.attempt.reserved = [])
    (ok : Attempt.prepare true b = (.ok (), b')) :
    ∃ t', Fit r b.attempt.request id t t' t' b' := by
  unfold Attempt.prepare at ok
  rw [if_pos rfl] at ok
  obtain ⟨_, b₁, first, ok⟩ := Step.bind_eq_ok.1 ok
  obtain ⟨_, b₂, second, ok⟩ := Step.bind_eq_ok.1 ok
  obtain ⟨_, b₃, third, fourth⟩ := Step.bind_eq_ok.1 ok
  obtain ⟨valid, took₁, attempt₁⟩ := h.promiseId job promised first
  have job₁ : b₁.attempt.job = .data id t := by rw [attempt₁, job]
  have step := took₁.preallocate job₁
  rw [second] at step
  obtain ⟨took₂, places, t', placed, renamed, granted, attempt₂⟩ := step
  rw [attempt₁, reserved, List.nil_append] at attempt₂
  have job₂ : b₂.attempt.job = .data id t' := by rw [attempt₂]
  obtain ⟨took₃, ⟨held, attempt₃, all⟩, keys⟩ := took₂.lockKeys job₂
  rw [third] at took₃ attempt₃ keys all
  have job₃ : b₃.attempt.job = .data id t' := by rw [attempt₃, job₂]
  obtain ⟨same, passed⟩ := took₃.check job₃
  rw [fourth] at same passed
  dsimp only at same attempt₃
  subst same
  obtain ⟨unique, versions⟩ := passed.1 rfl
  obtain ⟨locked, known, -⟩ := keys.1 rfl
  rw [attempt₂] at attempt₃
  refine ⟨t', took₃, ?_, job₃, ?_, ?_, ?_, ⟨[], rfl, by simp⟩, valid, ⟨locked, known, ?_⟩,
    unique, versions⟩
  · rw [attempt₃]
  · rw [attempt₃]
  · rw [attempt₃]
    exact placed
  · rw [attempt₃]
    exact granted
  · rw [attempt₃]
    exact all rfl locked known

/-- The other nodes lock first, and reserve the places that the origin chose. -/
theorem Took.prepare_replica (h : Took r b) (job : b.attempt.job = .data id t)
    (promised : b.attempt.promised = []) (reserved : b.attempt.reserved = [])
    (ok : Attempt.prepare false b = (.ok (), b')) :
    ∃ t', Fit r b.attempt.request id t t t' b' := by
  unfold Attempt.prepare at ok
  rw [if_neg Bool.false_ne_true] at ok
  obtain ⟨_, b₁, first, ok⟩ := Step.bind_eq_ok.1 ok
  obtain ⟨_, b₂, second, ok⟩ := Step.bind_eq_ok.1 ok
  obtain ⟨_, b₃, third, fourth⟩ := Step.bind_eq_ok.1 ok
  obtain ⟨valid, took₁, attempt₁⟩ := h.promiseId job promised first
  have job₁ : b₁.attempt.job = .data id t := by rw [attempt₁, job]
  obtain ⟨took₂, ⟨held, attempt₂, all⟩, keys⟩ := took₁.lockKeys job₁
  rw [second] at took₂ attempt₂ keys all
  dsimp only at attempt₂
  rw [attempt₁] at attempt₂
  have job₂ : b₂.attempt.job = .data id t := by rw [attempt₂, job]
  have step := took₂.preallocate job₂
  rw [third] at step
  obtain ⟨took₃, places, t', placed, renamed, granted, attempt₃⟩ := step
  rw [attempt₂, reserved, List.nil_append] at attempt₃
  have job₃ : b₃.attempt.job = .data id t' := by rw [attempt₃]
  obtain ⟨same, passed⟩ := took₃.check job₃
  rw [fourth] at same passed
  dsimp only at same
  subst same
  obtain ⟨unique, versions⟩ := passed.1 rfl
  obtain ⟨locked, known, -⟩ := keys.1 rfl
  refine ⟨t', took₃, ?_, job₃, ?_, ?_, ?_, ?_, valid, ⟨locked, known, ?_⟩, unique, versions⟩
  · rw [attempt₃]
  · rw [attempt₃]
  · rw [attempt₃]
    exact placed
  · rw [attempt₃]
    exact granted
  · rw [attempt₃]
    exact renamed
  · rw [attempt₃]
    exact all rfl locked known

theorem succeed_eq (pending : b.attempt.status = .pending) :
    succeed b = ⟨{ b.attempt with status := .success }, b.resources⟩ := by
  unfold succeed setStatus
  rw [if_neg (by simp [pending])]
  rfl

/-- Marking an attempt as prepared takes nothing from it. -/
theorem Took.succeed (h : Took r b) (pending : b.attempt.status = .pending) :
    Took r (succeed b) := by
  rw [succeed_eq pending]
  obtain ⟨store, frame, bare, promised, apart, path, locks, allowed, live⟩ := h
  exact ⟨store, frame, bare, promised, apart, path, locks, allowed, live⟩

theorem Fit.succeed (h : Fit r request id t u t' b) (pending : b.attempt.status = .pending) :
    Fit r request id t u t' (succeed b) ∧ (Attempt.succeed b).attempt.status = .success := by
  have took := h.took.succeed pending
  rw [succeed_eq pending] at took ⊢
  exact ⟨⟨took, h.request, h.job, h.promised, h.placed, h.granted, h.renamed, h.valid, h.locked,
    h.unique, h.versions⟩, rfl⟩

theorem isFailure_ofFault (fault : Fault) : (AttemptStatus.ofFault fault).isFailure = true := by
  cases fault <;> rfl

/-- A failing attempt gives back all it holds, and notes why. -/
theorem fail_eq (pending : b.attempt.status = .pending) (fault : Fault) :
    fail fault b =
      ⟨{ b.attempt with
          status := .ofFault fault, fault := some fault, held := [], promised := [],
          reserved := [] },
        (releaseAll b).resources⟩ := by
  have failure := isFailure_ofFault fault
  have decided : AttemptStatus.ofFault fault ≠ .pending := by
    intro same
    rw [same] at failure
    cases failure
  unfold fail setStatus
  rw [if_neg (by simp [pending, decided])]
  dsimp only
  rw [if_pos failure]
  rfl

end QuorumCommit.Attempt
