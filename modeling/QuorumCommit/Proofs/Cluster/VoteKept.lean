import QuorumCommit.Proofs.Cluster.History
import QuorumCommit.Proofs.Cluster.Runs
import QuorumCommit.Proofs.Node.Voting

/-!
A vote is kept until it is decided, whatever the node is asked for under other requests. A first
phase that is delivered once more is under the same request, and ends the vote.
-/
namespace QuorumCommit

open InFlight Node

namespace Cluster

variable {name sender : String} {own : Nat} {c c₀ c₁ c₂ c₃ : Cluster} {n : Node}
  {request : RequestId} {id : TxId} {t : ChangeSet} {v : Attempt}

/-- The operation is not about the request of a vote, and names its id in no command. Transactions
and commands of the node's own are about requests and ids of that node. -/
def Operation.Spares (own : Nat) (request : RequestId) (id : TxId) : Operation → Prop
  | .call phase => phase.Spares request id
  | .answer _ task => task.call.Spares request id
  | .transact _ => request.node ≠ own
  | .run _ .direct => request.node ≠ own ∧ id.origin ≠ own
  | .close => False
  | .run _ .replicated | .catchUp .. | .failNext _ => True

theorem Operation.Spares.admitted {op : Operation} (h : op.Spares own v.request id) :
    (Discipline.voting v id).Admits own op := by
  cases op with
  | call phase => exact fun n upheld => allowed_voting h upheld
  | answer sender task => exact fun n upheld => allowed_voting h upheld
  | catchUp p t => exact ⟨fun _ => trivial, fun _ a held promised _ => ⟨held, promised⟩⟩
  | transact t =>
    exact ⟨serves_voting h, fun _ _ _ same => h (by rw [← same])⟩
  | run command mode =>
    cases mode with
    | direct =>
      refine ⟨serves_voting h.1, fun _ message before after first second =>
        ⟨fun same => h.1 (by rw [← same]), fun named => ?_⟩⟩
      rcases List.mem_cons.1 named with rfl | named
      · exact h.2 first
      · rw [List.mem_singleton] at named
        exact h.2 (named ▸ second)
    | replicated => trivial
  | close => cases h
  | failNext count => trivial

/-- A first phase that is answered with success leaves a node that upholds the vote. -/
theorem upholds_voting (upholds : c₁.Upholds .plain name own) (running : c₁.node? name = some n)
    (ready : n.OpenTo request id)
    (voted : c₁.answerAt sender name (.firstPhase request id t) = (some .success, c₂)) :
    ∃ v, v.request = request ∧ (∃ t', v.job = .data id t') ∧
      c₂.Upholds (.voting v id) name own := by
  obtain ⟨n', station, upheld⟩ := upholds
  obtain rfl := Option.mem_unique running (node?_of_station? station)
  have butDisk := upheld_lend (c := c₁) upheld
  have allowed := Discipline.admits_plain own (.answer sender (.firstPhase request id t)) _ butDisk
  have answered := butDisk.movesBy
    (answer_movesBy (Discipline.otherFrom _ _) butDisk.orderly _ allowed)
  rw [answerAt_of_station? station, Prod.mk.injEq, Option.some.injEq] at voted
  obtain ⟨success, rfl⟩ := voted
  obtain ⟨v, -, same, job, standing⟩ :=
    answerPrepare_standing butDisk.orderly ⟨ready.idle, ready.free⟩ success
  exact ⟨v, same, job, upholds_takeBack station ⟨answered.orderly, fun _ => standing,
    answered.origin⟩⟩

/-- A node that upholds a vote holds it. -/
theorem Upholds.holdsVote (h : c.Upholds (.voting v id) name own) (same : v.request = request)
    (job : ∃ t, v.job = .data id t) : ∃ n, c.node? name = some n ∧ n.HoldsVote request id v := by
  obtain ⟨n, station, upheld⟩ := h
  exact ⟨n, node?_of_station? station,
    holdsVote_of_standing upheld.keyed (upheld.holds trivial) same job⟩

/-- A first phase under the request of a vote ends it. -/
theorem Upholds.not_holdsVote (h : c.Upholds (.voting v id) name own) (sender : String)
    (request : RequestId) (other : TxId) (t : ChangeSet)
    (running : (c.answerAt sender name (.firstPhase request other t)).2.node? name = some n) :
    ¬ n.HoldsVote request id v := by
  obtain ⟨n', station, upheld⟩ := h
  have butDisk := upheld_lend (c := c) upheld
  rw [answerAt_of_station? station] at running
  obtain rfl := Option.mem_unique running
    (takeBack_moved (node?_of_station? station) _).node
  intro holds
  exact not_holdsVote_answerPrepare butDisk.orderly (butDisk.holds trivial).known other v
    ⟨holds.registered, holds.success, holds.job, holds.held, holds.known, holds.reserved⟩

/-- A node is opened, and asked for anything; then it answers a first phase with success, while no
attempt there claims the id, and none is prepared under the request. From then on it holds the vote,
as long as all that it is asked for spares it; and another first phase spares it just if that is
under another request. -/
theorem vote_kept {settings : Settings} {store : Store}
    (joined : c.join name own (.closed settings store) = (.ok (), c₀)) (built : store.Built)
    (before : History name (fun _ => True) c₀ c₁) (running : c₁.node? name = some n)
    (ready : n.OpenTo request id)
    (voted : c₁.answerAt sender name (.firstPhase request id t) = (some .success, c₂)) :
    ∃ v, ∀ c₃, History name (Operation.Spares own request id) c₂ c₃ →
      (∃ n₃, c₃.node? name = some n₃ ∧ n₃.HoldsVote request id v) ∧
        ∀ sender' request' id' t',
          (∃ n₄, (c₃.answerAt sender' name (.firstPhase request' id' t')).2.node? name = some n₄ ∧
            n₄.HoldsVote request id v) ↔ request' ≠ request := by
  obtain ⟨n₀, station, started⟩ := join_started joined
  have orderly := started.orderly built
  have start : c₀.Upholds .plain name own :=
    ⟨n₀, station, orderly, fun _ => orderly.sound, started.origin⟩
  obtain ⟨v, rfl, job, upholds⟩ := upholds_voting
    (start.history (fun op _ => Discipline.admits_plain own op) before) running ready voted
  refine ⟨v, fun c₃ after => ?_⟩
  have still := upholds.history (fun _ => Operation.Spares.admitted) after
  refine ⟨still.holdsVote rfl job, fun sender' request' id' t' => ⟨?_, fun other => ?_⟩⟩
  · rintro ⟨n₄, running, holds⟩ rfl
    exact still.not_holdsVote sender' v.request id' t' running holds
  · exact (still.perform (.answer sender' (.firstPhase request' id' t'))
      (Operation.Spares.admitted other)).holdsVote rfl job

def firstPhase : Task := .firstPhase ⟨2, 1⟩ ⟨2, 1⟩ (person 1)

theorem vote_kept_lone : (lone.answerAt "b" "a" firstPhase).1 = some .success ∧
    ∃ v, ∀ c₃, History "a" (Operation.Spares 1 ⟨2, 1⟩ ⟨2, 1⟩)
        (lone.answerAt "b" "a" firstPhase).2 c₃ →
      (∃ n₃, c₃.node? "a" = some n₃ ∧ n₃.HoldsVote ⟨2, 1⟩ ⟨2, 1⟩ v) ∧
        ∀ sender' request' id' t',
          (∃ n₄, (c₃.answerAt sender' "a" (.firstPhase request' id' t')).2.node? "a" = some n₄ ∧
            n₄.HoldsVote ⟨2, 1⟩ ⟨2, 1⟩ v) ↔ request' ≠ ⟨2, 1⟩ := by
  obtain ⟨n, station, started⟩ := join_started lone_joined
  have none (q : RequestId) (a : Attempt) : n.registry.get? q ≠ some a := by
    rw [started.registry, Registry.get?_empty]
    nofun
  have success : (lone.answerAt "b" "a" firstPhase).1 = some .success := by decide +kernel
  exact ⟨success, vote_kept lone_joined (.empty _) .start (node?_of_station? station)
    ⟨fun a found => absurd found (none _ a), fun q a found => absurd found (none q a)⟩
    (Prod.ext success rfl)⟩

/-- The first phase is delivered twice, and the vote is lost. -/
theorem not_vote_kept_repeated : (lone.answerAt "b" "a" firstPhase).1 = some .success ∧
    ¬ ∃ n v,
      ((lone.answerAt "b" "a" firstPhase).2.answerAt "b" "a" firstPhase).2.node? "a" = some n ∧
        n.HoldsVote ⟨2, 1⟩ ⟨2, 1⟩ v := by
  have failed : (((lone.answerAt "b" "a" firstPhase).2.answerAt "b" "a" firstPhase).2.node? "a").map
      (fun n => (n.registry.get? ⟨2, 1⟩).map (·.status)) = some (some .failed) := by
    decide +kernel
  refine ⟨by decide +kernel, ?_⟩
  rintro ⟨n, v, running, holds⟩
  rw [running, Option.map_some, holds.registered, Option.map_some, holds.success] at failed
  cases failed

end Cluster

end QuorumCommit
