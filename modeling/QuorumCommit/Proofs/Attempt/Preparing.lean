import QuorumCommit.Proofs.Attempt.Fitting
import QuorumCommit.Proofs.Attempt.Holding

/-!
Preparing a change set. Each step of it keeps the attempt standing on the resources that it found,
and whether it succeeds is a matter of these resources and of the change set alone.
-/
namespace QuorumCommit

namespace Resources

/-- The id may be promised, all keys are free, and keys and versions agree with the store. -/
structure Passes (r : Resources) (id : TxId) (t : ChangeSet) : Prop where
  valid : r.sequencer.validate id = .valid
  keys : ∃ keys, r.store.lockKeys t = .ok keys ∧ ∀ key ∈ keys, r.locks.holder? key = none
  unique : r.store.checkUniqueKeys t = .ok ()
  versions : r.store.checkVersions t = .ok ()

structure Admits (r : Resources) (id : TxId) (t : ChangeSet) : Prop extends Passes r id t where
  distinct : t.createdRecords.Nodup
  untaken : ∀ id ∈ t.createdRecords, r.store.isTaken id = false

theorem Restored.isTaken {r r' : Resources} (h : Restored r r') (room : r'.store.HasRoom)
    (id : RecordId) : r'.store.isTaken id = r.store.isTaken id := by
  unfold Store.isTaken
  rw [h.reserved room, Store.isStored_of_content (congrArg View.content h.view :)]

theorem validate_of_view {r r' : Resources} (h : r'.view = r.view) (id : TxId) :
    r'.sequencer.validate id = r.sequencer.validate id := by
  have slot : r'.sequencer.slot = r.sequencer.slot := congrArg View.slots h
  have depth : r'.sequencer.depth = r.sequencer.depth := congrArg View.depth h
  unfold Sequencer.validate
  rw [slot, depth]

theorem Passes.of_view {r r' : Resources} (view : r'.view = r.view) {id : TxId} {t : ChangeSet}
    (p : r.Passes id t) : r'.Passes id t := by
  have content : r'.store.content = r.store.content := congrArg View.content view
  have locks : r'.locks = r.locks := congrArg View.locks view
  refine ⟨?_, ?_, ?_, ?_⟩
  · rw [validate_of_view view]
    exact p.valid
  · rw [← Store.lockKeys_content, content, locks]
    exact p.keys
  · rw [← Store.checkUniqueKeys_content, content]
    exact p.unique
  · rw [← Store.checkVersions_content, content]
    exact p.versions

theorem Restored.admits_iff {r r' : Resources} (h : Restored r r') (room : r'.store.HasRoom)
    {id : TxId} {t : ChangeSet} : r'.Admits id t ↔ r.Admits id t := by
  constructor
  · intro a
    exact ⟨a.toPasses.of_view h.view.symm, a.distinct,
      fun id mem => (h.isTaken room id).symm.trans (a.untaken id mem)⟩
  · intro a
    exact ⟨a.toPasses.of_view h.view, a.distinct,
      fun id mem => (h.isTaken room id).trans (a.untaken id mem)⟩

end Resources

namespace Attempt

variable {r : Resources} {b b' : State} {id : TxId} {t t' u : ChangeSet} {request : RequestId}

namespace StandsOn

/-- For a request without locks, a key that nobody else holds is free. -/
theorem unheld (h : StandsOn r b) {key : LockKey} :
    (∀ holder, r.locks.holder? key = some holder → holder = b.attempt.request) ↔
      r.locks.holder? key = none := by
  have stranger := h.stranger key
  cases taken : r.locks.holder? key with
  | none => simp
  | some holder =>
    rw [taken] at stranger
    simpa using stranger

/-- Promising an id of which nothing is promised yet. -/
theorem promise (h : StandsOn r b) (id : TxId) :
    match Attempt.promise id b with
    | (.ok _, b') => r.sequencer.validate id = .valid ∧ id ∉ b.attempt.promised ∧ StandsOn r b' ∧
        b'.attempt = { b.attempt with promised := b.attempt.promised ++ [id] }
    | (.error _, b') =>
      b' = b ∧ ¬ (r.sequencer.validate id = .valid ∧ id ∉ b.attempt.promised) := by
  have step := h.took.promise id
  rcases eq : Attempt.promise id b with ⟨fault | _, b'⟩
  · rw [eq] at step
    exact step
  · rw [eq] at step
    obtain ⟨valid, fresh, took, attempt⟩ := step
    refine ⟨valid, fresh, .of_took took ?_, attempt⟩
    rw [attempt]
    exact h.stranger

theorem preallocate (h : StandsOn r b) (job : b.attempt.job = .data id t) :
    match Attempt.preallocate b with
    | (.ok _, b') => StandsOn r b' ∧ ∃ reserved t', Store.Placed t reserved t' ∧
        b'.attempt = { b.attempt with
          job := .data id t', reserved := b.attempt.reserved ++ reserved }
    | (.error _, b') => StandsOn r b' ∧ b'.attempt = b.attempt := by
  have step := h.took.preallocate job
  rcases eq : Attempt.preallocate b with ⟨fault | _, b'⟩
  · rw [eq] at step
    obtain ⟨took, attempt⟩ := step
    refine ⟨.of_took took ?_, attempt⟩
    rw [attempt]
    exact h.stranger
  · rw [eq] at step
    obtain ⟨took, reserved, t', placed, -, -, attempt⟩ := step
    refine ⟨.of_took took ?_, reserved, t', placed, attempt⟩
    rw [attempt]
    exact h.stranger

theorem lockKeys (h : StandsOn r b) (job : b.attempt.job = .data id t) :
    StandsOn r (Attempt.lockKeys b).2 ∧
      (∃ held, (Attempt.lockKeys b).2.attempt = { b.attempt with held := held }) ∧
      ((Attempt.lockKeys b).1 = .ok () ↔
        ∃ keys, r.store.lockKeys t = .ok keys ∧ ∀ key ∈ keys, r.locks.holder? key = none) := by
  obtain ⟨took, ⟨held, attempt, -⟩, ok⟩ := h.took.lockKeys job
  refine ⟨.of_took took ?_, ⟨held, attempt⟩, ?_⟩
  · rw [attempt]
    exact h.stranger
  · simpa only [h.unheld] using ok

end StandsOn

/-- Places that were chosen elsewhere are reserved just when all differ and none is taken. -/
theorem preallocate_eq_ok (job : b.attempt.job = .data id t) (final : t.hasTemporary = false) :
    (Attempt.preallocate b).1 = .ok () ↔ t.createdRecords.Nodup ∧
      ∀ id ∈ t.createdRecords, b.resources.store.isTaken id = false := by
  rw [← Store.preallocate_eq_ok final]
  unfold Attempt.preallocate
  rw [job]
  dsimp only
  rcases b.resources.store.preallocate t with ⟨fault | ⟨reserved, t'⟩, store⟩
  · simp
  · simp

/-- What stands on restored resources stands on what they were. -/
theorem StandsOn.of_restored {r₀ : Resources} (h : r₀.Restored r) (s : StandsOn r b) :
    StandsOn r₀ b where
  store := by
    have reserves := s.store
    refine ⟨reserves.content.trans (congrArg View.content h.view :),
      reserves.failing.trans (congrArg View.failing h.view :), reserves.tidy,
      fun after => h.room (reserves.room after), fun after id => ?_, reserves.distinct,
      fun after id mem => ?_, reserves.final⟩
    · rw [reserves.reserved after, h.reserved (reserves.room after)]
    · rw [← h.isTaken (reserves.room after)]
      exact reserves.untaken after id mem
  frame := by
    rw [s.frame]
    unfold Sequencer.frame
    exact congrArg (fun v : View => (v.origin, v.depth, v.nextOffset)) h.view
  bare o := (s.bare o).trans (congrArg (fun v : View => (v.slots o).bare) h.view :)
  promised o k := (s.promised o k).trans
    (congrArg (fun v : View => k ∈ (v.slots o).promised ∨
      ((v.slots o).last < k ∧ (⟨o, k⟩ : TxId) ∈ b.attempt.promised)) h.view).to_iff
  apart o k mem held := s.apart o k mem
    ((congrArg (fun v : View => k ∈ (v.slots o).promised) h.view).to_iff.2 held)
  path := s.path.trans (congrArg View.path h.view :)
  locks key := by
    rw [s.locks]
    exact congrArg (fun v : View =>
      if key ∈ b.attempt.held then some b.attempt.request else v.locks.holder? key) h.view
  free key mem := (congrArg (fun v : View => v.locks.holder? key) h.view :).symm.trans
    (s.free key mem)
  stranger key held := s.stranger key
    ((congrArg (fun v : View => v.locks.holder? key) h.view :).trans held)
  live := s.live

structure AtWork (r : Resources) (request : RequestId) (id : TxId) (t : ChangeSet) (b : State) :
    Prop where
  stands : StandsOn r b
  request : b.attempt.request = request
  pending : b.attempt.status = .pending
  job : ∃ t', b.attempt.job = .data id t' ∧ (t.hasTemporary = false → t' = t)

/-- An attempt that has all that its change set needs. The change set `t` was asked for, and `t'`
is what it became when its places were reserved. -/
structure Ready (r : Resources) (request : RequestId) (id : TxId) (t t' : ChangeSet) (b : State) :
    Prop where
  stands : StandsOn r b
  request : b.attempt.request = request
  job : b.attempt.job = .data id t'
  promised : b.attempt.promised = [id]
  placed : Store.Placed t b.attempt.reserved t'
  versions : r.store.checkVersions t' = .ok ()

/-- An attempt underway is at work if its request held nothing before. -/
theorem Underway.atWork (h : Underway r request id t b)
    (stranger : ∀ key, r.locks.holder? key ≠ some request) : AtWork r request id t b where
  stands := .of_took h.took (by
    rw [h.request]
    exact stranger)
  request := h.request
  pending := h.pending
  job := by
    obtain ⟨t', job, becomes⟩ := h.job
    exact ⟨t', job, becomes.kept⟩

/-- What fits is ready if its request held nothing before. -/
theorem Fit.ready (h : Fit r request id t u t' b)
    (stranger : ∀ key, r.locks.holder? key ≠ some request) : Ready r request id t t' b :=
  ⟨.of_took h.took fun key => h.request ▸ stranger key, h.request, h.job, h.promised, h.placed,
    h.versions⟩

/-- The checks have passed on the change set whose keys are locked. -/
theorem Fit.passes (h : Fit r request id t t' t' b)
    (stranger : ∀ key, r.locks.holder? key ≠ some request) : r.Passes id t' := by
  obtain ⟨keys, known, sub⟩ := h.locked
  exact ⟨h.valid, ⟨keys, known, fun key mem => (h.ready stranger).stands.free key (sub mem)⟩,
    h.unique, h.versions⟩

structure Begun (r : Resources) (request : RequestId) (id : TxId) (t : ChangeSet) (b : State) :
    Prop where
  stands : StandsOn r b
  store : b.resources.store = r.store
  request : b.attempt.request = request
  job : b.attempt.job = .data id t
  promised : b.attempt.promised = []
  reserved : b.attempt.reserved = []

theorem Begun.new (tidy : r.store.Tidy) (stranger : ∀ key, r.locks.holder? key ≠ some request)
    (id : TxId) (t : ChangeSet) : Begun r request id t ⟨Attempt.new request (.data id t), r⟩ :=
  ⟨.new tidy request _ stranger, rfl, rfl, rfl, rfl, rfl⟩

theorem Begun.promise (h : Begun r request id t b) {u : Unit} (ok : promiseId b = (.ok u, b')) :
    StandsOn r b' ∧ b'.attempt = { b.attempt with promised := [id] } ∧
      b'.resources.store = r.store := by
  rw [promiseId_eq h.job] at ok
  have step := h.stands.promise id
  have store := store_promise id b
  rw [ok] at step store
  obtain ⟨-, -, stands, attempt⟩ := step
  rw [h.promised] at attempt
  exact ⟨stands, attempt, store.trans h.store⟩

/-- The origin chooses the places of its records before it locks. -/
theorem prepare_origin (h : Begun r request id t b)
    (ok : Attempt.prepare true b = (.ok (), b')) :
    ∃ t', Ready r request id t t' b' ∧ r.Passes id t' := by
  obtain ⟨t', fit⟩ := h.stands.took.prepare_origin h.job h.promised h.reserved ok
  have ready := fit.ready h.stands.stranger
  rw [h.request] at ready
  exact ⟨t', ready, fit.passes h.stands.stranger⟩

/-- A prepared attempt does not depend on the disk. -/
theorem Ready.onDisk (h : Ready r request id t t' b) (disk disk' : FileTree) :
    Ready { r with disk := disk } request id t t'
      ⟨b.attempt, { b.resources with disk := disk' }⟩ :=
  ⟨h.stands.onDisk disk disk', h.request, h.job, h.promised, h.placed, h.versions⟩

theorem Ready.of_restored {r₀ : Resources} (h : r₀.Restored r) (ready : Ready r request id t t' b) :
    Ready r₀ request id t t' b := by
  have content : r.store.content = r₀.store.content := congrArg View.content h.view
  refine ⟨ready.stands.of_restored h, ready.request, ready.job, ready.promised, ready.placed, ?_⟩
  rw [← Store.checkVersions_content, ← content]
  exact ready.versions

/-- If the records that it creates are distinct, what the origin prepared others may admit. -/
theorem Ready.admits (h : Ready r request id t t' b) (passes : r.Passes id t')
    (distinct : t.createdRecords.Nodup) (room : b.resources.store.HasRoom) : r.Admits id t' := by
  have created := h.placed.distinct (h.stands.store.final room) distinct
  refine ⟨passes, ?_, ?_⟩
  · rw [created]
    exact h.stands.store.distinct room
  · rw [created]
    exact h.stands.store.untaken room

/-- Only what is not taken can be prepared. -/
theorem Begun.untaken (h : Begun r request id t b) (final : t.hasTemporary = false)
    (ok : Attempt.prepare false b = (.ok (), b')) :
    t.createdRecords.Nodup ∧ ∀ id ∈ t.createdRecords, r.store.isTaken id = false := by
  unfold Attempt.prepare at ok
  rw [if_neg Bool.false_ne_true] at ok
  obtain ⟨_, b₁, first, ok⟩ := Step.bind_eq_ok.1 ok
  obtain ⟨_, b₂, second, ok⟩ := Step.bind_eq_ok.1 ok
  obtain ⟨_, b₃, third, -⟩ := Step.bind_eq_ok.1 ok
  obtain ⟨stands₁, attempt₁, store₁⟩ := h.promise first
  have job₁ : b₁.attempt.job = .data id t := by rw [attempt₁, h.job]
  obtain ⟨-, ⟨held, attempt₂⟩, -⟩ := stands₁.lockKeys job₁
  have store₂ := store_lockKeys b₁
  rw [second] at attempt₂ store₂
  have job₂ : b₂.attempt.job = .data id t := by rw [attempt₂, job₁]
  have store : b₂.resources.store = r.store := store₂.trans store₁
  rw [← store]
  exact (preallocate_eq_ok job₂ final).1 (by rw [third])

/-- The other nodes lock first, and reserve the places that the origin chose. -/
theorem prepare_replica (h : Begun r request id t b)
    (ok : Attempt.prepare false b = (.ok (), b')) :
    (∃ t', Ready r request id t t' b') ∧ (t.hasTemporary = false → r.Admits id t) := by
  obtain ⟨t', fit⟩ := h.stands.took.prepare_replica h.job h.promised h.reserved ok
  have ready := fit.ready h.stands.stranger
  rw [h.request] at ready
  refine ⟨⟨t', ready⟩, fun final => ?_⟩
  obtain rfl := fit.placed.kept final
  obtain ⟨distinct, untaken⟩ := h.untaken final ok
  exact ⟨fit.passes h.stands.stranger, distinct, untaken⟩

/-- What the resources admit can be prepared. -/
theorem prepare_replica_ok (h : Begun r request id t b) (final : t.hasTemporary = false)
    (admits : r.Admits id t) : (Attempt.prepare false b).1 = .ok () := by
  unfold Attempt.prepare
  rw [if_neg Bool.false_ne_true]
  rcases promised : promiseId b with ⟨fault | _, b₁⟩
  · rw [promiseId_eq h.job] at promised
    have step := h.stands.promise id
    rw [promised, h.promised] at step
    exact absurd ⟨admits.valid, by simp⟩ step.2
  rw [Step.bind_apply, promised]
  dsimp only
  obtain ⟨stands₁, attempt₁, store₁⟩ := h.promise promised
  have job₁ : b₁.attempt.job = .data id t := by rw [attempt₁, h.job]
  obtain ⟨stands₂, ⟨held, attempt₂⟩, keys⟩ := stands₁.lockKeys job₁
  have locked := keys.2 admits.keys
  have store₂ := (store_lockKeys b₁).trans store₁
  rcases eq₂ : lockKeys b₁ with ⟨fault | _, b₂⟩
  · rw [eq₂] at locked
    cases locked
  rw [eq₂] at stands₂ attempt₂ store₂
  rw [Step.bind_apply, eq₂]
  dsimp only
  have job₂ : b₂.attempt.job = .data id t := by rw [attempt₂, job₁]
  have placed := (preallocate_eq_ok job₂ final).2 ⟨admits.distinct, store₂ ▸ admits.untaken⟩
  have step := stands₂.preallocate job₂
  rcases eq₃ : preallocate b₂ with ⟨fault | _, b₃⟩
  · rw [eq₃] at placed
    cases placed
  rw [eq₃] at step
  obtain ⟨stands₃, reserved, t', placed, attempt₃⟩ := step
  obtain rfl := placed.kept final
  have job₃ : b₃.attempt.job = .data id t' := by rw [attempt₃]
  rw [Step.bind_apply, eq₃]
  exact (stands₃.took.check job₃).2.2 ⟨admits.unique, admits.versions⟩

end Attempt

end QuorumCommit
