import QuorumCommit.Proofs.Cluster.Steady
import QuorumCommit.Proofs.Node.SchemaSettling

/-!
No command half-run in silence. Whatever else goes on at a node with a journal in memory, and
however often commands are made to fail there, a command that is decided upon runs through, or the
node asks for a copy of the database.
-/
namespace QuorumCommit

open InFlight Node

structure InFlight.Unfiled (w : InFlight) : Prop extends w.Sound where
  path : w.resources.journal.path = none

/-- No act moves the journal to a file. -/
theorem InFlight.Unfiled.keptBy (ok : Multiset Attempt → Deed → Prop) :
    KeptBy ok InFlight.Unfiled := by
  intro w d w' ⟨sound, path⟩ allowed act
  refine ⟨Sound.keptBy ok w d w' sound allowed act, Eq.trans ?_ path⟩
  cases act with
  | tried work => exact work.took.undone.path
  | begun fit status => exact fit.took.path
  | fetched fetched => exact fetched.took.path
  | missed undone holders => exact undone.path
  | shelved | offered | noted | unsaved => rfl
  | applied status job => exact (sound.ended_applied status job).1.path
  | settled job first second => exact (sound.ended_settled job first second).path
  | discarded => exact sound.ended_discarded.path
  | quiet quiet => exact quiet.path

def Discipline.unfiled : Discipline where
  ok _ _ := True
  binds _ := True
  invariant := Unfiled
  back := .trivial
  kept := (Unfiled.keptBy _).keptWhile _
  other _ := trivial

theorem Node.Started.unfiled {own : Nat} {n : Node} {settings : Settings} {store : Store}
    (h : n.Started own settings store) (built : store.Built) (path : settings.logPath = none) :
    Discipline.unfiled.Upheld own n := by
  obtain ⟨keyed, sound⟩ := h.orderly built
  exact ⟨⟨keyed, sound⟩, fun _ => ⟨sound, h.path.trans path⟩, h.origin⟩

namespace Cluster

variable {name : String} {own : Nat} {c c₀ c' : Cluster} {n : Node} {request : RequestId}
  {a : Attempt} {k : Bracket}

/-- A node is opened with a journal in memory. Whatever it was asked for, the decision to apply
settles any command that waits between two different ids. -/
theorem history_settleSchema_settles {settings : Settings} {store : Store}
    (joined : c.join name own (.closed settings store) = (.ok (), c₀)) (built : store.Built)
    (path : settings.logPath = none) (history : History name (fun _ => True) c₀ c')
    (running : c'.node? name = some n) (found : n.registry.get? request = some a)
    (job : a.job = .schema k.command k.before k.after) (ne : k.before ≠ k.after) :
    ∃ n', ((Operation.call (.settleSchema request true)).perform name c').node? name = some n' ∧
      SchemaSettled request a k n n' := by
  obtain ⟨n₀, station₀, started⟩ := join_started joined
  have unfiled : c₀.Upholds .unfiled name own := ⟨n₀, station₀, started.unfiled built path⟩
  have config : c₀.Running (·.settings = n₀.settings) name own := ⟨n₀, station₀, rfl⟩
  obtain ⟨_, station, upheld⟩ := unfiled.history
    (fun op _ => Discipline.admits_of_all (fun _ _ => trivial) own op) history
  obtain rfl := Option.mem_unique running (node?_of_station? station)
  have settings : n.settings = n₀.settings := (settings_of_history config history).of_node running
  have butDisk := upheld_lend (c := c') upheld
  have settled : SchemaSettled request a k (c'.lend n) (settleSchema request true (c'.lend n)).2 :=
    settleSchema_settles butDisk.orderly (butDisk.holds trivial).path (settings ▸ started.tries)
      found job ne
  refine ⟨_, node?_of_station? (station?_call station (.settleSchema request true)),
    settled.waits, settled.promises, ?_⟩
  exact settled.outcome.congr ⟨fun _ => Iff.rfl, rfl, rfl, rfl⟩ ⟨fun _ => Iff.rfl, rfl, rfl, rfl⟩
    rfl rfl

/-- A command that a node agrees to, and whose body then fails as often as it is run. -/
theorem history_settleSchema_settles_lone : ∃ c' n a, History "a" (fun _ => True) lone c' ∧
    c'.node? "a" = some n ∧ n.registry.get? ⟨2, 1⟩ = some a ∧ a.status = .success ∧
    n.settings.maxAutoRetry ≤ n.store.failing ∧
    ∃ n', ((Operation.call (.settleSchema ⟨2, 1⟩ true)).perform "a" c').node? "a" = some n' ∧
      SchemaSettled ⟨2, 1⟩ a ⟨"create cluster log", ⟨2, 1⟩, ⟨2, 2⟩⟩ n n' := by
  have history : History "a" (fun _ => True) lone
      ((Operation.failNext 20).perform "a"
        ((Operation.call (.prepareSchema ⟨2, 1⟩ "create cluster log" ⟨2, 1⟩ ⟨2, 2⟩)).perform "a"
          lone)) :=
    .step _ trivial (.step _ trivial .start)
  have seen : ((((Operation.failNext 20).perform "a"
        ((Operation.call (.prepareSchema ⟨2, 1⟩ "create cluster log" ⟨2, 1⟩ ⟨2, 2⟩)).perform "a"
          lone)).node? "a").bind fun n => (n.registry.get? ⟨2, 1⟩).map fun a =>
            (a.job, a.status, decide (n.settings.maxAutoRetry ≤ n.store.failing))) =
      some (.schema "create cluster log" ⟨2, 1⟩ ⟨2, 2⟩, .success, true) := by
    decide +kernel
  obtain ⟨n, running, waits⟩ := Option.bind_eq_some_iff.1 seen
  obtain ⟨a, found, same⟩ := Option.map_eq_some_iff.1 waits
  have job : a.job = .schema "create cluster log" ⟨2, 1⟩ ⟨2, 2⟩ := congrArg (·.1) same
  exact ⟨_, n, a, history, running, found, congrArg (·.2.1) same,
    of_decide_eq_true (congrArg (·.2.2) same),
    history_settleSchema_settles (k := ⟨"create cluster log", ⟨2, 1⟩, ⟨2, 2⟩⟩) lone_joined
      (.empty none) rfl history running found job (by decide)⟩

end Cluster

end QuorumCommit
