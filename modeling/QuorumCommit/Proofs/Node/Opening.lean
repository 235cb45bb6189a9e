import QuorumCommit.Proofs.Node.Acts
import QuorumCommit.Proofs.Store.Built

/-!
Opened nodes. Whatever its journal tells of earlier commits, nothing waits at a node that was just
opened, and nothing is locked or promised there.
-/
namespace QuorumCommit

/-- A snapshot tells neither of promises nor of ids issued or taken back. -/
theorem Sequencer.slot_ofSnapshot (origin depth : Nat) (s : Snapshot) (o : Nat) :
    ((ofSnapshot origin depth s).slot o).promised = ∅ ∧
      ((ofSnapshot origin depth s).slot o).recycled = ∅ ∧
      ((ofSnapshot origin depth s).slot o).nextIssue =
        following ((ofSnapshot origin depth s).slot o).last := by
  unfold slot ofSnapshot
  dsimp only
  rw [Std.ExtTreeMap.getD_eq_getD_getElem?, Std.ExtTreeMap.getElem?_map]
  cases s.origins[o]? <;> exact ⟨rfl, rfl, rfl⟩

namespace Node

variable {n : Node} {database name : String} {id : Nat} {settings : Settings} {store : Store}
  {disk : FileTree}

/-- A node on whose store and journal nothing is going on. -/
structure Started (n : Node) (id : Nat) (settings : Settings) (store : Store) : Prop where
  config : n.settings = settings
  tries : 1 ≤ n.settings.maxAutoRetry
  registry : n.registry = Registry.empty
  locks : n.resources.locks = LockTable.empty
  store : n.resources.store = store
  origin : n.resources.sequencer.origin = id
  path : n.resources.journal.path = settings.logPath
  promised : ∀ o, (n.resources.sequencer.slot o).promised = ∅
  recycled : ∀ o, (n.resources.sequencer.slot o).recycled = ∅
  nextIssue : ∀ o, (n.resources.sequencer.slot o).nextIssue =
    Sequencer.following (n.resources.sequencer.slot o).last
  depth : 1 ≤ n.resources.sequencer.depth
  last : settings.logPath = none → ∀ o, (n.resources.sequencer.slot o).last = 0

theorem tries_of_validate {settings : Settings} (valid : settings.validate = .ok ()) :
    1 ≤ settings.maxAutoRetry := by
  unfold Settings.validate at valid
  by_cases none : settings.maxAutoRetry = 0
  · rw [if_pos none] at valid
    cases valid
  · omega

theorem Started.new {journal : Journal} (h : n.resources = ⟨LockTable.empty, journal, store, disk⟩)
    (kept : n.settings = settings) (valid : settings.validate = .ok ())
    (registry : n.registry = Registry.empty) (path : journal.path = settings.logPath)
    (new : journal.sequencer = Sequencer.new id settings.pipelineDepth) :
    n.Started id settings store := by
  have slot (o : Nat) : n.resources.sequencer.slot o = Slot.fresh := by
    unfold Resources.sequencer
    rw [h, new, Sequencer.slot_new]
  refine ⟨kept, kept ▸ tries_of_validate valid, registry, by rw [h], by rw [h], ?_,
    by rw [h, path], fun o => by rw [slot]; rfl, fun o => by rw [slot]; rfl,
    fun o => by rw [slot]; rfl, ?_, fun _ o => by rw [slot]; rfl⟩
  · unfold Resources.sequencer
    rw [h, new]
    rfl
  · unfold Resources.sequencer
    rw [h, new]
    exact Nat.le_max_right _ _

theorem openOn_started (opened : openOn database name id settings store disk = .ok n) :
    n.Started id settings store := by
  unfold openOn at opened
  obtain ⟨⟨⟩, valid, opened⟩ := bind_eq_ok.1 opened
  cases path : settings.logPath with
  | none =>
    rw [path] at opened
    cases opened
    exact .new rfl rfl valid rfl path.symm rfl
  | some file =>
    rw [path] at opened
    obtain ⟨journal, read, opened⟩ := bind_eq_ok.1 opened
    cases opened
    unfold Journal.openAt at read
    split at read
    · cases read
    · cases read
      exact .new rfl rfl valid rfl path.symm rfl
    · split at read
      · cases read
      · next snapshot _ =>
        cases read
        have slot := Sequencer.slot_ofSnapshot id settings.pipelineDepth snapshot
        exact ⟨rfl, tries_of_validate valid, rfl, rfl, rfl, rfl, path.symm,
          fun o => (slot o).1, fun o => (slot o).2.1, fun o => (slot o).2.2, Nat.le_max_right _ _,
          fun none => nomatch path.symm.trans none⟩

theorem Started.inFlight (h : n.Started id settings store) :
    n.inFlight = ⟨0, n.resources⟩ := by
  unfold Node.inFlight
  rw [h.registry, Registry.all_empty]

/-- Nothing waits, so nothing needs to be accounted for. -/
theorem Started.orderly_of_tidy (h : n.Started id settings store) (tidy : store.Tidy) :
    n.Orderly where
  keyed := by
    rw [h.registry]
    exact .empty
  sound := by
    rw [h.inFlight]
    refine ⟨?_, fun o k mem => ?_, nofun, nofun, fun _ => Multiset.nodup_zero,
      fun key request held => ?_,
      fun id mem => ?_⟩
    · have same : n.resources.store = store := h.store
      dsimp only
      rw [same]
      exact tidy
    · have none := h.promised o
      dsimp only at mem
      rw [none] at mem
      simp at mem
    · have none := h.locks
      dsimp only at held
      rw [none] at held
      simp [LockTable.holder?, LockTable.empty] at held
    · unfold Resources.HasPromised at mem
      dsimp only at mem
      rw [h.promised] at mem
      simp at mem

theorem Started.orderly (h : n.Started id settings store) (built : store.Built) : n.Orderly :=
  h.orderly_of_tidy built.tidy

end Node

end QuorumCommit
