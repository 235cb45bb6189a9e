import QuorumCommit.Attempt.Phases
import QuorumCommit.Proofs.Step
import QuorumCommit.Proofs.Store.Reservation

/-!
What preparing an attempt keeps. Each of its steps writes to a few places only, so a property of the
state that does not look there, or survives what is written, is kept by the step, and by all of
them.
-/
namespace QuorumCommit.Attempt

variable {p : State → Prop}

def SurvivesLocks (p : State → Prop) : Prop :=
  ∀ b held locks, p b → p ⟨{ b.attempt with held := held }, { b.resources with locks := locks }⟩

def SurvivesPlaces (p : State → Prop) : Prop :=
  ∀ b id t t' reserved store, b.attempt.job = .data id t → p b →
    p ⟨{ b.attempt with job := .data id t', reserved := reserved },
      { b.resources with store := store }⟩

theorem kept_acquire (survives : SurvivesLocks p) (keys : List LockKey) :
    Step.Keeps p (acquire keys) := by
  induction keys with
  | nil => exact fun _ h => h
  | cons key rest ih =>
    intro b h
    unfold acquire
    split
    · exact h
    · refine ih _ ?_
      unfold hold
      split
      · exact survives b b.attempt.held _ h
      · exact survives b _ _ h

theorem kept_lockKeys (survives : SurvivesLocks p) : Step.Keeps p lockKeys := by
  intro b h
  unfold lockKeys
  split
  · exact h
  · split
    · exact h
    · exact kept_acquire survives _ b h

/-- Promises and locks leave the store alone. -/
theorem store_promise (id : TxId) (b : State) :
    (promise id b).2.resources.store = b.resources.store := by
  unfold promise
  split <;> rfl

theorem store_lockKeys (b : State) : (lockKeys b).2.resources.store = b.resources.store :=
  kept_lockKeys (p := fun b' => b'.resources.store = b.resources.store)
    (fun _ _ _ same => same) b rfl

/-- Reserving places comes no nearer to the last one than the store has come by then. -/
theorem hasRoom_of_preallocate {b : State} (room : (preallocate b).2.resources.store.HasRoom) :
    b.resources.store.HasRoom := by
  unfold preallocate at room
  split at room
  · exact room
  · next id t job =>
    refine Store.HasRoom.of_preallocate (t := t) ?_
    rcases eq : b.resources.store.preallocate t with ⟨fault | _, store⟩ <;> rw [eq] at room
    · exact room
    · exact room

theorem kept_preallocate (survives : SurvivesPlaces p) : Step.Keeps p preallocate := by
  intro b h
  unfold preallocate
  split
  · exact h
  · next id t job =>
    split
    · next store _ =>
      have kept := survives b id t t b.attempt.reserved store job h
      rwa [← job] at kept
    · exact survives b id t _ _ _ job h

/-- Checking writes nothing. -/
theorem kept_check : Step.Keeps p check := by
  intro b h
  unfold check
  split
  · exact h
  · split <;> exact h

theorem kept_prepare (promises : Step.Keeps p promiseId) (places : SurvivesPlaces p)
    (locks : SurvivesLocks p) (atOrigin : Bool) : Step.Keeps p (prepare atOrigin) := by
  unfold prepare
  split
  · exact promises.bind fun _ => (kept_preallocate places).bind fun _ =>
      (kept_lockKeys locks).bind fun _ => kept_check
  · exact promises.bind fun _ => (kept_lockKeys locks).bind fun _ =>
      (kept_preallocate places).bind fun _ => kept_check

end QuorumCommit.Attempt
