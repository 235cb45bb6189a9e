import QuorumCommit.Proofs.Cluster.History
import QuorumCommit.Proofs.Cluster.Runs
import QuorumCommit.Proofs.InFlight.Chronicle

/-!
Exactly once, in order, nothing missing. At a node with a journal in memory, the ids that the store
has seen applied are, origin by origin, just those that the journal has committed.
-/
namespace QuorumCommit

open InFlight Node

def Discipline.recording : Discipline where
  ok _ d := d.Local
  binds _ := True
  invariant := Recorded
  back := .trivial
  kept := Recorded.keptBy.keptWhile _
  other _ := trivial

/-- The store has seen applied, of every origin, all ids up to the last committed one, in order. -/
def Node.AppliesInOrder (n : Node) : Prop :=
  ∀ o, n.store.appliedBy o = TxId.upTo o ((n.sequencer.lastCommitted? o).elim 0 (·.sequence))

theorem Discipline.Upheld.appliesInOrder {own : Nat} {n : Node}
    (h : Discipline.recording.Upheld own n) : n.AppliesInOrder := by
  intro o
  have last : (n.sequencer.lastCommitted? o).elim 0 (·.sequence) = (n.sequencer.slot o).last := by
    unfold Sequencer.lastCommitted?
    dsimp only
    split
    · rfl
    · next none => exact (Nat.eq_zero_of_not_pos none).symm
  rw [last]
  exact (h.holds trivial).chronicled o

theorem Node.Started.recorded {own : Nat} {n : Node} {settings : Settings} {store : Store}
    (h : n.Started own settings store) (built : store.Built) (path : settings.logPath = none)
    (applied : store.applied = []) : Discipline.recording.Upheld own n := by
  obtain ⟨keyed, sound⟩ := h.orderly built
  refine ⟨⟨keyed, sound⟩, fun _ => ?_, h.origin⟩
  rw [h.inFlight] at sound ⊢
  refine ⟨sound, h.path.trans path, nofun, fun o => ?_⟩
  have same : n.resources.store = store := h.store
  unfold Store.appliedBy
  dsimp only
  rw [same, applied, h.last path o]
  rfl

namespace Cluster

variable {name : String} {own : Nat} {c c₀ : Cluster} {n : Node}

def Operation.Local : Operation → Prop
  | .catchUp .. => False
  | _ => True

theorem Operation.Local.admitted {op : Operation} (h : op.Local) :
    Discipline.recording.Admits own op := by
  refine Discipline.admits_of_begins (fun _ _ => trivial) (fun _ _ _ _ _ _ => trivial)
    (fun _ _ _ _ => trivial) ?_
  rintro _ _ _ rfl
  exact h

/-- A node is opened with a journal in memory, and nothing applied. Whatever it is asked for, except
for catching up, its store has seen just the committed ids of each origin, once and in order. -/
theorem history_appliesInOrder {settings : Settings} {store : Store}
    (joined : c.join name own (.closed settings store) = (.ok (), c₀)) (built : store.Built)
    (path : settings.logPath = none) (applied : store.applied = []) {c' : Cluster}
    (history : History name Operation.Local c₀ c') :
    ∃ n, c'.node? name = some n ∧ n.AppliesInOrder := by
  obtain ⟨n₀, station, started⟩ := join_started joined
  have start : c₀.Upholds .recording name own :=
    ⟨n₀, station, started.recorded built path applied⟩
  obtain ⟨n, station, upheld⟩ := start.history (fun _ => Operation.Local.admitted) history
  exact ⟨n, node?_of_station? station, upheld.appliesInOrder⟩

/-- A change set of another node is decided after one of the node's own is committed, and told twice
to be committed. -/
theorem history_appliesInOrder_lone : ∃ c', History "a" Operation.Local lone c' ∧
    (c'.node? "a").map (fun n => n.store.applied.map (·.id)) = some [⟨1, 1⟩, ⟨2, 1⟩, ⟨1, 2⟩] ∧
    ∃ n, c'.node? "a" = some n ∧ n.AppliesInOrder := by
  have history : History "a" Operation.Local lone
      ((Operation.transact (person 3)).perform "a"
        ((Operation.answer "b" (.secondPhase ⟨2, 1⟩ true)).perform "a"
          ((Operation.call (.commit ⟨2, 1⟩)).perform "a"
            ((Operation.transact (person 2)).perform "a"
              ((Operation.answer "b" (.firstPhase ⟨2, 1⟩ ⟨2, 1⟩ (person 1))).perform "a"
                lone))))) :=
    .step _ trivial (.step _ trivial (.step _ trivial (.step _ trivial (.step _ trivial .start))))
  exact ⟨_, history, by decide +kernel,
    history_appliesInOrder lone_joined (.empty none) rfl rfl history⟩

end Cluster

end QuorumCommit
