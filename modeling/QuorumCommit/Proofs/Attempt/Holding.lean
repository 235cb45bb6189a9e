import QuorumCommit.Proofs.Attempt.Taking

/-!
What the only attempt of a request holds. An attempt at work stands on the resources that it found:
its node is what was there before, with exactly the locks, promises and reserved places that the
attempt lists on top. As its request held no lock before, giving all of it back restores what was
there.
-/
namespace QuorumCommit

/-- What can be seen of the resources of a node, apart from reserved places. -/
structure View where
  content : Store
  failing : Nat
  slots : Nat → Slot
  origin : Nat
  depth : Nat
  nextOffset : Nat
  path : Option String
  locks : LockTable

namespace Resources

def view (r : Resources) : View where
  content := r.store.content
  failing := r.store.failing
  slots := r.sequencer.slot
  origin := r.sequencer.origin
  depth := r.sequencer.depth
  nextOffset := r.sequencer.nextOffset
  path := r.journal.path
  locks := r.locks

/-- `r'` looks like `r` and has the same places reserved, unless the places of a cluster came round.
-/
structure Restored (r r' : Resources) : Prop where
  view : r'.view = r.view
  tidy : r'.store.Tidy
  room : r'.store.HasRoom → r.store.HasRoom
  reserved : r'.store.HasRoom → ∀ id, r'.store.isReserved id = r.store.isReserved id

theorem Restored.refl {r : Resources} (tidy : r.store.Tidy) : Restored r r :=
  ⟨rfl, tidy, id, fun _ _ => rfl⟩

theorem Restored.keepsPlaces {r r' : Resources} (h : Restored r r') :
    r.store.KeepsPlaces r'.store :=
  ⟨h.room, h.reserved⟩

theorem Restored.trans {r₀ r₁ r₂ : Resources} (h₁ : Restored r₀ r₁) (h₂ : Restored r₁ r₂) :
    Restored r₀ r₂ where
  view := h₂.view.trans h₁.view
  tidy := h₂.tidy
  room after := h₁.room (h₂.room after)
  reserved after id := (h₂.reserved after id).trans (h₁.reserved (h₂.room after) id)

theorem view_eq {r r' : Resources} (content : r'.store.content = r.store.content)
    (failing : r'.store.failing = r.store.failing)
    (frame : r'.sequencer.frame = r.sequencer.frame)
    (slots : ∀ o, r'.sequencer.slot o = r.sequencer.slot o)
    (path : r'.journal.path = r.journal.path)
    (locks : ∀ key, r'.locks.holder? key = r.locks.holder? key) : r'.view = r.view := by
  have origin : r'.sequencer.origin = r.sequencer.origin := congrArg (·.1) frame
  have depth : r'.sequencer.depth = r.sequencer.depth := congrArg (·.2.1) frame
  have next : r'.sequencer.nextOffset = r.sequencer.nextOffset := congrArg (·.2.2) frame
  unfold view
  rw [content, failing, funext slots, origin, depth, next, path, LockTable.eq_of_holder? locks]

end Resources

namespace Attempt

variable {r : Resources} {b b' : State} {id : TxId}

/-- The resources are `r` with just what the attempt lists on top. An id that is committed meanwhile
is promised no longer, even if the attempt lists it. -/
structure StandsOn (r : Resources) (b : State) : Prop where
  store : r.store.Reserves b.attempt.reserved b.resources.store
  frame : b.resources.sequencer.frame = r.sequencer.frame
  bare : ∀ o, (b.resources.sequencer.slot o).bare = (r.sequencer.slot o).bare
  promised : ∀ o k, k ∈ (b.resources.sequencer.slot o).promised ↔
    k ∈ (r.sequencer.slot o).promised ∨
      ((r.sequencer.slot o).last < k ∧ (⟨o, k⟩ : TxId) ∈ b.attempt.promised)
  apart : ∀ o k, (⟨o, k⟩ : TxId) ∈ b.attempt.promised → k ∉ (r.sequencer.slot o).promised
  path : b.resources.journal.path = r.journal.path
  locks : ∀ key, b.resources.locks.holder? key =
    if key ∈ b.attempt.held then some b.attempt.request else r.locks.holder? key
  free : ∀ key ∈ b.attempt.held, r.locks.holder? key = none
  stranger : ∀ key, r.locks.holder? key ≠ some b.attempt.request
  live : b.attempt.destroyed = false

namespace StandsOn

/-- Without the request in mind, this is what the attempt took. -/
theorem took (h : StandsOn r b) : Took r b where
  store := h.store
  frame := h.frame
  bare := h.bare
  promised := h.promised
  apart := h.apart
  path := h.path
  locks := h.locks
  allowed key mem holder taken := by
    rw [h.free key mem] at taken
    cases taken
  live := h.live

theorem of_took (h : Took r b) (stranger : ∀ key, r.locks.holder? key ≠ some b.attempt.request) :
    StandsOn r b where
  store := h.store
  frame := h.frame
  bare := h.bare
  promised := h.promised
  apart := h.apart
  path := h.path
  locks := h.locks
  free key mem := by
    cases taken : r.locks.holder? key with
    | none => rfl
    | some holder => exact absurd (h.allowed key mem holder taken ▸ taken) (stranger key)
  stranger := stranger
  live := h.live

/-- An attempt that has taken nothing yet. -/
theorem new (tidy : r.store.Tidy) (request : RequestId) (job : Job)
    (stranger : ∀ key, r.locks.holder? key ≠ some request) :
    StandsOn r ⟨Attempt.new request job, r⟩ :=
  .of_took (.new tidy request job) stranger

/-- What the attempt is for and how it stands has no part in what it holds. -/
theorem congr (h : StandsOn r b) {a : Attempt} (request : a.request = b.attempt.request)
    (held : a.held = b.attempt.held) (promised : a.promised = b.attempt.promised)
    (reserved : a.reserved = b.attempt.reserved)
    (destroyed : a.destroyed = b.attempt.destroyed) : StandsOn r ⟨a, b.resources⟩ where
  store := by
    rw [reserved]
    exact h.store
  frame := h.frame
  bare := h.bare
  promised := by
    rw [promised]
    exact h.promised
  apart := by
    rw [promised]
    exact h.apart
  path := h.path
  locks := by
    rw [held, request]
    exact h.locks
  free := by
    rw [held]
    exact h.free
  stranger := by
    rw [request]
    exact h.stranger
  live := destroyed.trans h.live

theorem last (h : StandsOn r b) (o : Nat) :
    (b.resources.sequencer.slot o).last = (r.sequencer.slot o).last :=
  h.took.last o

theorem releaseAll (h : StandsOn r b) : StandsOn r (releaseAll b) where
  store := h.store.releaseAll
  frame := ((Sequencer.releasePromises_spec _ _).1).trans h.frame
  bare o := ((Sequencer.releasePromises_spec _ _).2.1 o).trans (h.bare o)
  promised o k := by
    refine ((Sequencer.releasePromises_spec _ _).2.2 o k).trans ?_
    have mine := h.apart o k
    have known := h.promised o k
    simp only [releaseLocks] at *
    grind [Attempt.releaseAll, releaseReserved, releasePromises]
  apart o k mem := by simp [Attempt.releaseAll, releaseReserved, releasePromises] at mem
  path := h.path
  locks key := by
    refine (LockTable.holder?_unlockAll _ key).trans ?_
    have free := h.free key
    have locks := h.locks key
    have stranger := h.stranger key
    grind [Attempt.releaseAll, releaseReserved, releasePromises, releaseLocks]
  free key mem := by
    simp [Attempt.releaseAll, releaseReserved, releasePromises, releaseLocks] at mem
  stranger := h.stranger
  live := h.live

theorem restored (h : StandsOn r b) (held : b.attempt.held = [])
    (promised : b.attempt.promised = []) (reserved : b.attempt.reserved = []) :
    r.Restored b.resources where
  view := by
    refine Resources.view_eq h.store.content h.store.failing h.frame (fun o => ?_) h.path
      fun key => ?_
    · refine Slot.eq_of_bare (h.bare o) fun k => ?_
      rw [h.promised, promised]
      simp
    · rw [h.locks, held]
      simp
  tidy := h.store.tidy
  room := h.store.room
  reserved after id := by
    rw [Bool.eq_iff_iff, h.store.reserved after, reserved]
    simp

/-- Destroying an attempt restores what was there before it. -/
theorem destroy (h : StandsOn r b) : r.Restored (destroy b).resources := by
  unfold Attempt.destroy
  rw [h.live]
  exact h.releaseAll.restored rfl rfl rfl

/-- A failing attempt gives back all it holds. -/
theorem fail (h : StandsOn r b) (fault : Fault) : StandsOn r (fail fault b) := by
  unfold Attempt.fail setStatus
  split
  · next eq =>
    split at eq
    · cases eq
    · cases eq
      split
      · have marked : StandsOn r ⟨{ b.attempt with status := .ofFault fault }, b.resources⟩ :=
          h.congr rfl rfl rfl rfl rfl
        exact marked.releaseAll.congr rfl rfl rfl rfl rfl
      · exact h.congr rfl rfl rfl rfl rfl
  · next eq =>
    split at eq
    · cases eq
      exact h
    · cases eq

theorem succeed (h : StandsOn r b) : StandsOn r (setStatus .success b).2 := by
  unfold setStatus
  split
  · exact h
  · exact h.congr rfl rfl rfl rfl rfl

/-- An attempt does not depend on the disk. -/
theorem onDisk (h : StandsOn r b) (disk disk' : FileTree) :
    StandsOn { r with disk := disk } ⟨b.attempt, { b.resources with disk := disk' }⟩ :=
  ⟨h.store, h.frame, h.bare, h.promised, h.apart, h.path, h.locks, h.free, h.stranger, h.live⟩

end StandsOn

end Attempt

end QuorumCommit
