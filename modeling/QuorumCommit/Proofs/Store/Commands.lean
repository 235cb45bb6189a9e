import QuorumCommit.Proofs.Store.Reservation

/-!
Commands on a store. Running a command reads and writes neither records nor places, so what it does
is a matter of the content and of the failures that are due.
-/
namespace QuorumCommit.Store

variable {s : Store}

def displaced (s : Store) : Store := { s with places := ∅ }

theorem execute_displaced (s : Store) (command : String) (mode : RunMode) :
    s.displaced.execute command mode =
      ((s.execute command mode).1, (s.execute command mode).2.displaced) := by
  unfold execute
  cases failing : s.failing with
  | succ more =>
    have same : s.displaced.failing = more + 1 := failing
    rw [same]
    rfl
  | zero =>
    have same : s.displaced.failing = 0 := failing
    rw [same]
    dsimp only
    cases Command.ofString command with
    | createCluster name => rfl
    | dropCluster name =>
      simp only [runCommand, displaced]
      by_cases known : s.clusterIds.contains name = true
      · simp only [known, ↓reduceIte]
        rfl
      · simp only [known, Bool.false_eq_true, ↓reduceIte]
    | other => rfl

theorem execute_frame (s : Store) (command : String) (mode : RunMode) :
    (s.execute command mode).2.places = s.places ∧
      (s.execute command mode).2.records = s.records := by
  unfold execute
  cases s.failing with
  | succ more => exact ⟨rfl, rfl⟩
  | zero =>
    dsimp only
    cases Command.ofString command with
    | createCluster name => exact ⟨rfl, rfl⟩
    | dropCluster name =>
      simp only [runCommand]
      by_cases known : s.clusterIds.contains name = true
      · simp only [known, ↓reduceIte]
        exact ⟨rfl, rfl⟩
      · simp only [known, Bool.false_eq_true, ↓reduceIte, and_self]
    | other => exact ⟨rfl, rfl⟩

/-- Nor does a command touch indexes or the list of commits. -/
theorem execute_rest (s : Store) (command : String) (mode : RunMode) :
    (s.execute command mode).2.indexKinds = s.indexKinds ∧
      (s.execute command mode).2.indexValues = s.indexValues ∧
      (s.execute command mode).2.applied = s.applied := by
  unfold execute
  cases s.failing with
  | succ more => exact ⟨rfl, rfl, rfl⟩
  | zero =>
    dsimp only
    cases Command.ofString command with
    | createCluster name => exact ⟨rfl, rfl, rfl⟩
    | dropCluster name =>
      simp only [runCommand]
      by_cases known : s.clusterIds.contains name = true
      · simp only [known, ↓reduceIte]
        exact ⟨rfl, rfl, rfl⟩
      · simp only [known, Bool.false_eq_true, ↓reduceIte, and_self]
    | other => exact ⟨rfl, rfl, rfl⟩

/-- A command that succeeds is noted, and one that fails is not. -/
theorem commands_execute (s : Store) (command : String) (mode : RunMode) :
    match s.execute command mode with
    | (.ok _, s') => s'.commands = s.commands ++ [(command, mode)]
    | (.error _, s') => s'.commands = s.commands := by
  unfold execute
  cases s.failing with
  | succ more => rfl
  | zero =>
    dsimp only
    cases Command.ofString command with
    | createCluster name => rfl
    | dropCluster name =>
      simp only [runCommand]
      by_cases known : s.clusterIds.contains name = true
      · simp only [known, ↓reduceIte]
        rfl
      · simp only [known, Bool.false_eq_true, ↓reduceIte]
    | other => rfl

/-- Runs the body of a command, and again after a failure, up to `more` times. -/
def runBody (command : String) : Nat → Store → Except Fault Unit × Store
  | 0, s => s.execute command .replicated
  | more + 1, s =>
    match s.execute command .replicated with
    | (.ok _, s) => (.ok (), s)
    | (.error _, s) => runBody command more s

theorem runBody_displaced (s : Store) (command : String) (more : Nat) :
    runBody command more s.displaced =
      ((runBody command more s).1, (runBody command more s).2.displaced) := by
  induction more generalizing s with
  | zero => exact execute_displaced s command .replicated
  | succ more ih =>
    unfold runBody
    rw [execute_displaced]
    rcases s.execute command .replicated with ⟨fault | _, s'⟩
    · exact ih s'
    · rfl

theorem runBody_frame (s : Store) (command : String) (more : Nat) :
    (runBody command more s).2.places = s.places ∧
      (runBody command more s).2.records = s.records := by
  induction more generalizing s with
  | zero => exact execute_frame s command .replicated
  | succ more ih =>
    have step := execute_frame s command .replicated
    unfold runBody
    rcases eq : s.execute command .replicated with ⟨fault | _, s'⟩
    · rw [eq] at step
      exact ⟨(ih s').1.trans step.1, (ih s').2.trans step.2⟩
    · rw [eq] at step
      exact step

/-- However often the body of a command is tried, it succeeds at most once. -/
theorem commands_runBody (s : Store) (command : String) (more : Nat) :
    match runBody command more s with
    | (.ok _, s') => s'.commands = s.commands ++ [(command, .replicated)]
    | (.error _, s') => s'.commands = s.commands := by
  induction more generalizing s with
  | zero => exact commands_execute s command .replicated
  | succ more ih =>
    have tried := commands_execute s command .replicated
    unfold runBody
    rcases eq : s.execute command .replicated with ⟨fault | _, s'⟩
    · rw [eq] at tried
      dsimp only at tried ⊢
      rw [← tried]
      exact ih s'
    · rw [eq] at tried
      exact tried

theorem Tidy.runBody (tidy : s.Tidy) (command : String) (more : Nat) :
    (Store.runBody command more s).2.Tidy := by
  obtain ⟨places, records⟩ := runBody_frame s command more
  exact tidy.congr places fun id => congrArg (·.contains id) records

theorem runBody_keepsPlaces (s : Store) (command : String) (more : Nat) :
    s.KeepsPlaces (runBody command more s).2 := by
  obtain ⟨places, records⟩ := runBody_frame s command more
  exact .of_frame places fun id => congrArg (·.contains id) records

end QuorumCommit.Store
