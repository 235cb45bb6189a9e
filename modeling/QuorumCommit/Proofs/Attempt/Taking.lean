import Mathlib.Tactic.Tauto
import QuorumCommit.Attempt.Phases
import QuorumCommit.Proofs.LockTable
import QuorumCommit.Proofs.Sequencer
import QuorumCommit.Proofs.Step
import QuorumCommit.Proofs.Store.Reservation

/-!
Taking and giving back. Whatever else goes on at a node, an attempt at work adds to the resources
that it found exactly what it lists, and giving up takes exactly that away. Keys may be held by the
request of the attempt already, for locks belong to requests and not to attempts.
-/
namespace QuorumCommit.Attempt

variable {r r' : Resources} {b b' : State} {id : TxId} {t t' : ChangeSet} {request : RequestId}

/-- The resources are `r` with just what the attempt lists on top. An id that is committed meanwhile
is promised no longer, even if the attempt lists it. -/
structure Took (r : Resources) (b : State) : Prop where
  store : r.store.Reserves b.attempt.reserved b.resources.store
  frame : b.resources.sequencer.frame = r.sequencer.frame
  bare : ∀ o, (b.resources.sequencer.slot o).bare = (r.sequencer.slot o).bare
  promised : ∀ o k, k ∈ (b.resources.sequencer.slot o).promised ↔
    k ∈ (r.sequencer.slot o).promised ∨
      ((r.sequencer.slot o).last < k ∧ (⟨o, k⟩ : TxId) ∈ b.attempt.promised)
  apart : ∀ o k, (⟨o, k⟩ : TxId) ∈ b.attempt.promised → k ∉ (r.sequencer.slot o).promised
  path : b.resources.journal.path = r.journal.path
  locks : ∀ key, b.resources.locks.holder? key =
    if key ∈ b.attempt.held then some b.attempt.request else r.locks.holder? key
  allowed : ∀ key ∈ b.attempt.held, ∀ holder, r.locks.holder? key = some holder →
    holder = b.attempt.request
  live : b.attempt.destroyed = false

theorem hold_eq (a : Attempt) (key : LockKey) :
    a.hold key = { a with held := (a.hold key).held } := by
  unfold hold
  split <;> rfl

theorem mem_hold {a : Attempt} {key other : LockKey} :
    other ∈ (a.hold key).held ↔ other = key ∨ other ∈ a.held := by
  unfold hold
  split
  · next known =>
    constructor
    · exact .inr
    · rintro (rfl | known)
      · exact known
      · exact known
  · simp [or_comm]

namespace Took

/-- An attempt that has taken nothing yet. -/
theorem new (tidy : r.store.Tidy) (request : RequestId) (job : Job) :
    Took r ⟨Attempt.new request job, r⟩ where
  store := .nothing tidy
  frame := rfl
  bare o := rfl
  promised o k := by simp [Attempt.new]
  apart o k h := by simp [Attempt.new] at h
  path := rfl
  locks key := by simp [Attempt.new]
  allowed key h := by simp [Attempt.new] at h
  live := rfl

theorem last (h : Took r b) (o : Nat) :
    (b.resources.sequencer.slot o).last = (r.sequencer.slot o).last :=
  Slot.last_of_bare (h.bare o)

theorem depth (h : Took r b) : b.resources.sequencer.depth = r.sequencer.depth :=
  congrArg (·.2.1) h.frame

theorem validate (h : Took r b) (id : TxId) :
    b.resources.sequencer.validate id = .valid ↔
      r.sequencer.validate id = .valid ∧ id ∉ b.attempt.promised := by
  obtain ⟨o, k⟩ := id
  simp only [Sequencer.validate, Slot.classify_eq_valid, h.last, h.depth, h.promised o k, not_or]
  tauto

/-- Promising an id of which nothing is promised yet. -/
theorem promise (h : Took r b) (id : TxId) :
    match Attempt.promise id b with
    | (.ok _, b') => r.sequencer.validate id = .valid ∧ id ∉ b.attempt.promised ∧ Took r b' ∧
        b'.attempt = { b.attempt with promised := b.attempt.promised ++ [id] }
    | (.error _, b') =>
      b' = b ∧ ¬ (r.sequencer.validate id = .valid ∧ id ∉ b.attempt.promised) := by
  have judged := h.validate id
  unfold Attempt.promise
  cases tried : b.resources.sequencer.tryPromise id with
  | error fault =>
    refine ⟨rfl, fun valid => ?_⟩
    rw [Sequencer.tryPromise_eq_ok.2 ⟨judged.2 valid, rfl⟩] at tried
    cases tried
  | ok s =>
    obtain ⟨valid, rfl⟩ := Sequencer.tryPromise_eq_ok.1 tried
    obtain ⟨fresh, new⟩ := judged.1 valid
    refine ⟨fresh, new, ⟨h.store, h.frame, fun o => ?_, fun o k => ?_, fun o k mem => ?_, h.path,
      h.locks, h.allowed, h.live⟩, rfl⟩
    · refine Eq.trans ?_ (h.bare o)
      simp only [Resources.withSequencer, Resources.sequencer, Sequencer.slot_onSlot]
      split
      · next eq =>
        subst eq
        exact Slot.bare_promise _ _
      · rfl
    · have known := h.promised o k
      have after := (Slot.classify_eq_valid.1 fresh).1
      simp only [Resources.withSequencer, Resources.sequencer, Sequencer.slot_onSlot] at *
      cases id
      grind [Slot.mem_promise]
    · rw [List.mem_append, List.mem_singleton] at mem
      rcases mem with mem | eq
      · exact h.apart o k mem
      · subst eq
        exact (Slot.classify_eq_valid.1 fresh).2.1

/-- A key is had just when no other request held it before the attempt. -/
theorem lock_eq_ok (h : Took r b) (key : LockKey) :
    (∃ locks, b.resources.locks.lock key b.attempt.request = .ok locks) ↔
      ∀ holder, r.locks.holder? key = some holder → holder = b.attempt.request := by
  have held := h.locks key
  rw [LockTable.lock_eq_ok, held]
  by_cases mine : key ∈ b.attempt.held
  · rw [if_pos mine]
    exact ⟨fun _ => h.allowed key mine, fun _ _ eq => (Option.some.inj eq).symm⟩
  · rw [if_neg mine]

theorem hold {key : LockKey} {locks : LockTable} (h : Took r b)
    (locked : b.resources.locks.lock key b.attempt.request = .ok locks) :
    Took r ⟨b.attempt.hold key, { b.resources with locks := locks }⟩ := by
  rw [hold_eq]
  refine ⟨h.store, h.frame, h.bare, h.promised, h.apart, h.path, fun other => ?_,
    fun other known => ?_, h.live⟩
  · refine (LockTable.holder?_lock locked other).trans ?_
    have := h.locks other
    simp only [mem_hold]
    grind
  · rcases mem_hold.1 known with rfl | known
    · exact (h.lock_eq_ok other).1 ⟨locks, locked⟩
    · exact h.allowed other known

/-- A whole list of keys is locked if nobody else holds one of them. -/
theorem acquire (h : Took r b) (keys : List LockKey) :
    Took r (Attempt.acquire keys b).2 ∧
      (∃ held, (Attempt.acquire keys b).2.attempt = { b.attempt with held := held } ∧
        b.attempt.held ⊆ held ∧ ((Attempt.acquire keys b).1 = .ok () → keys ⊆ held)) ∧
      ((Attempt.acquire keys b).1 = .ok () ↔
        ∀ key ∈ keys, ∀ holder, r.locks.holder? key = some holder →
          holder = b.attempt.request) := by
  induction keys generalizing b with
  | nil => exact ⟨h, ⟨_, rfl, fun _ => id, fun _ => nofun⟩, by simp [Attempt.acquire]⟩
  | cons key rest ih =>
    have granted := h.lock_eq_ok key
    unfold Attempt.acquire
    cases locked : b.resources.locks.lock key b.attempt.request with
    | error fault =>
      refine ⟨h, ⟨_, rfl, fun _ => id, nofun⟩, nofun, fun free => ?_⟩
      obtain ⟨locks, ok⟩ := granted.2 (free key List.mem_cons_self)
      rw [ok] at locked
      cases locked
    | ok locks =>
      obtain ⟨took, ⟨held, shape, more, all⟩, ok⟩ := ih (h.hold locked)
      refine ⟨took, ⟨held, shape.trans (by rw [hold_eq]), fun other known => ?_,
        fun done other known => ?_⟩, ?_⟩
      · exact more (mem_hold.2 (.inr known))
      · rcases List.mem_cons.1 known with rfl | known
        · exact more (mem_hold.2 (.inl rfl))
        · exact all done known
      · have same : (b.attempt.hold key).request = b.attempt.request := by rw [hold_eq]
        rw [List.forall_mem_cons]
        dsimp only at ok
        rw [same] at ok
        exact ok.trans ⟨fun later => ⟨granted.1 ⟨locks, locked⟩, later⟩, And.right⟩

theorem preallocate (h : Took r b) (job : b.attempt.job = .data id t) :
    match Attempt.preallocate b with
    | (.ok _, b') => Took r b' ∧ ∃ reserved t', Store.Placed t reserved t' ∧
        (∃ renames, t' = t.renameAll renames ∧ ∀ p ∈ renames, p.2 ∈ reserved) ∧
        (t.hasTemporary = false → reserved = t.createdRecords) ∧
        b'.attempt = { b.attempt with
          job := .data id t', reserved := b.attempt.reserved ++ reserved }
    | (.error _, b') => Took r b' ∧ b'.attempt = b.attempt := by
  have spec := Store.preallocate_spec h.store.tidy t
  unfold Attempt.preallocate
  rw [job]
  dsimp only
  rcases eq : b.resources.store.preallocate t with ⟨fault | ⟨reserved, t'⟩, store⟩
  · rw [eq] at spec
    have reserves := h.store.trans spec
    rw [List.append_nil] at reserves
    exact ⟨⟨reserves, h.frame, h.bare, h.promised, h.apart, h.path, h.locks, h.allowed, h.live⟩,
      rfl⟩
  · rw [eq] at spec
    obtain ⟨reserves, placed⟩ := spec
    obtain ⟨renamed, granted⟩ := Store.preallocate_renames h.store.tidy eq
    exact ⟨⟨h.store.trans reserves, h.frame, h.bare, h.promised, h.apart, h.path, h.locks,
      h.allowed, h.live⟩, reserved, t', placed, renamed, granted, rfl⟩

theorem lockKeys (h : Took r b) (job : b.attempt.job = .data id t) :
    Took r (Attempt.lockKeys b).2 ∧
      (∃ held, (Attempt.lockKeys b).2.attempt = { b.attempt with held := held } ∧
        ((Attempt.lockKeys b).1 = .ok () → ∀ keys, r.store.lockKeys t = .ok keys → keys ⊆ held)) ∧
      ((Attempt.lockKeys b).1 = .ok () ↔
        ∃ keys, r.store.lockKeys t = .ok keys ∧
          ∀ key ∈ keys, ∀ holder, r.locks.holder? key = some holder →
            holder = b.attempt.request) := by
  have same : b.resources.store.lockKeys t = r.store.lockKeys t := by
    rw [← Store.lockKeys_content, h.store.content, Store.lockKeys_content]
  unfold Attempt.lockKeys
  rw [job]
  dsimp only
  rw [same]
  cases r.store.lockKeys t with
  | error fault => exact ⟨h, ⟨_, rfl, nofun⟩, by simp⟩
  | ok keys =>
    obtain ⟨took, ⟨held, shape, -, all⟩, ok⟩ := h.acquire keys
    refine ⟨took, ⟨held, shape, fun done keys' eq => ?_⟩, by simpa using ok⟩
    cases eq
    exact all done

/-- Checking takes nothing. -/
theorem check (h : Took r b) (job : b.attempt.job = .data id t) :
    (Attempt.check b).2 = b ∧ ((Attempt.check b).1 = .ok () ↔
      r.store.checkUniqueKeys t = .ok () ∧ r.store.checkVersions t = .ok ()) := by
  have unique : b.resources.store.checkUniqueKeys t = r.store.checkUniqueKeys t := by
    rw [← Store.checkUniqueKeys_content, h.store.content, Store.checkUniqueKeys_content]
  have versions : b.resources.store.checkVersions t = r.store.checkVersions t := by
    rw [← Store.checkVersions_content, h.store.content, Store.checkVersions_content]
  unfold Attempt.check
  rw [job]
  dsimp only
  rw [unique, versions]
  cases r.store.checkUniqueKeys t with
  | error fault => simp
  | ok u => simp

end Took

theorem promiseId_eq (job : b.attempt.job = .data id t) :
    promiseId b = Attempt.promise id b := by
  unfold promiseId
  rw [job]
  rfl

end QuorumCommit.Attempt
