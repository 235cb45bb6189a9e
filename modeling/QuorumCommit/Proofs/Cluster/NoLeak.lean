import QuorumCommit.Proofs.Cluster.History
import QuorumCommit.Proofs.Cluster.Runs
import QuorumCommit.Proofs.InFlight.Leaks

/-!
Nothing leaks. After every operation, all that is locked or promised at a node belongs to a prepared
attempt that is registered there, and so is all that is reserved, unless the places of a cluster
came round; so a node with an empty registry holds nothing.
-/
namespace QuorumCommit

open InFlight Node

def Discipline.accounting : Discipline where
  ok _ d := d.Distinct
  binds := HasRoom
  invariant := Accounted
  back := .hasRoom
  kept := Accounted.keptWhile
  other _ := trivial

/-- All that is held at a node belongs to a prepared attempt that is registered; reserved places do
so as long as there is room. -/
structure Node.Leakless (n : Node) : Prop where
  locks : ∀ key request, n.locks.holder? key = some request → ∃ a,
    n.registry.get? request = some a ∧ a.status = .success ∧ key ∈ a.held
  promises : ∀ id, n.resources.HasPromised id → ∃ request a,
    n.registry.get? request = some a ∧ a.status = .success ∧ id ∈ a.promised
  reserved : n.store.HasRoom → ∀ place, n.store.isReserved place = true → ∃ request a,
    n.registry.get? request = some a ∧ a.status = .success ∧ place ∈ a.reserved

structure Node.HoldsNothing (n : Node) : Prop where
  locks : n.locks = LockTable.empty
  promises : ∀ o, (n.sequencer.slot o).promised = ∅
  reserved : n.store.HasRoom → ∀ place, n.store.isReserved place = false

theorem Node.Leakless.holdsNothing {n : Node} (h : n.Leakless)
    (none : n.registry = Registry.empty) : n.HoldsNothing where
  locks := LockTable.eq_of_holder? fun key => by
    rw [LockTable.holder?_empty, Option.eq_none_iff_forall_ne_some]
    intro request held
    obtain ⟨a, found, -⟩ := h.locks key request held
    rw [none, Registry.get?_empty] at found
    cases found
  promises o := Std.ExtTreeSet.ext_mem fun k => by
    refine ⟨fun mem => ?_, fun mem => absurd mem Std.ExtTreeSet.not_mem_empty⟩
    obtain ⟨request, a, found, -⟩ := h.promises ⟨o, k⟩ mem
    rw [none, Registry.get?_empty] at found
    cases found
  reserved room place := by
    rw [← Bool.not_eq_true]
    intro held
    obtain ⟨request, a, found, -⟩ := h.reserved room place held
    rw [none, Registry.get?_empty] at found
    cases found

theorem Discipline.Upheld.leakless {own : Nat} {n : Node}
    (h : Discipline.accounting.Upheld own n) : n.Leakless where
  locks key request held := by
    obtain ⟨a, mem, same, listed⟩ := h.sound.locks key request held
    have found := h.keyed.get?_of_mem mem
    rw [same] at found
    exact ⟨a, found, (h.sound.sane a mem).success_of_held listed, listed⟩
  promises id promised := by
    obtain ⟨a, mem, listed⟩ := h.sound.promises id promised
    exact ⟨a.request, a, h.keyed.get?_of_mem mem, (h.sound.sane a mem).success_of_promised listed,
      listed⟩
  reserved room place held := by
    obtain ⟨a, mem, listed⟩ := (h.holds room).reserved place held
    exact ⟨a.request, a, h.keyed.get?_of_mem mem, (h.sound.sane a mem).success_of_reserved listed,
      listed⟩

theorem Node.Started.accounted {own : Nat} {n : Node} {settings : Settings} {store : Store}
    (h : n.Started own settings store) (built : store.Built)
    (free : ∀ place, store.isReserved place = false) : Discipline.accounting.Upheld own n := by
  have orderly := h.orderly built
  refine ⟨orderly, fun _ => ?_, h.origin⟩
  have sound := orderly.sound
  rw [h.inFlight] at sound ⊢
  refine ⟨sound, fun place held => ?_, nofun, nofun⟩
  have same : n.resources.store = store := h.store
  dsimp only at held
  rw [same, free] at held
  cases held

namespace Cluster

variable {name : String} {own : Nat} {c c₀ : Cluster} {n : Node}

def Operation.Distinct : Operation → Prop
  | .call (.prepare _ _ t _ _) | .answer _ (.firstPhase _ _ t) | .catchUp _ t | .transact t =>
    t.createdRecords.Nodup
  | _ => True

/-- The job of an attempt that waits may be begun again. -/
theorem mayResume_accounting (upheld : Discipline.accounting.Upheld own n) (request : RequestId) :
    MayResume (Discipline.accounting.okFrom n) request n := by
  intro a found room
  show Deed.Distinct (.begin request a.job)
  cases job : a.job with
  | data id t =>
    exact (upheld.holds room).distinct a (Registry.mem_all.2 ⟨request, found⟩) id t job
  | schema command before after => trivial

theorem Operation.Distinct.begins {op : Operation} (h : op.Distinct) {job : Job}
    (begins : op.Begins job) (request : RequestId) : (Deed.begin request job).Distinct := by
  cases op with
  | call phase =>
    cases phase with
    | prepare | prepareSchema =>
      cases begins
      exact h
    | commit | rollback | settleSchema => cases begins
  | answer sender task =>
    cases task with
    | firstPhase | schemaFirstPhase =>
      cases begins
      exact h
    | secondPhase _ commit => cases commit <;> cases begins
    | schemaSecondPhase => cases begins
  | transact t =>
    obtain ⟨id, rfl⟩ := begins
    exact h
  | run command mode =>
    cases mode with
    | direct =>
      obtain ⟨before, after, rfl⟩ := begins
      trivial
    | replicated => cases begins
  | catchUp | close | failNext => cases begins

theorem Operation.Distinct.admitted {op : Operation} (h : op.Distinct) :
    Discipline.accounting.Admits own op := by
  refine Discipline.admits_of_begins (fun _ _ => trivial)
    (fun _ request upheld => mayResume_accounting upheld request)
    (fun _ request _ begins => h.begins begins request) ?_
  rintro _ _ _ rfl
  exact h

end Cluster

end QuorumCommit
