import QuorumCommit.Proofs.Cluster.Polling
import QuorumCommit.Proofs.Cluster.Runs
import QuorumCommit.Proofs.Cluster.Steady

/-!
Who stands behind a commit. The servers that the settings name for a data cluster are counted to
tell how many votes a write needs; the votes are those of the members that can be reached, whether
they are among the servers or not.
-/
namespace QuorumCommit

namespace Replication

variable (r : Replication) (cluster : String)

/-- The servers of a data cluster: its own, or else those of the database. -/
def serversOf : List String :=
  match r.clusters[cluster]? with
  | some p => if p.servers.isEmpty then r.servers else p.servers
  | none => r.servers

/-- A quorum for several clusters is one for each. -/
theorem writeQuorum_le_max {clusters : List String} {cluster : String} (mem : cluster ∈ clusters)
    (known : Nat) : r.writeQuorum cluster known ≤ r.maxWriteQuorum clusters known := by
  have listed : r.writeQuorum cluster known ∈ clusters.map (r.writeQuorum · known) :=
    List.mem_map.2 ⟨cluster, mem, rfl⟩
  unfold maxWriteQuorum
  split
  · next n eq => exact (List.max?_eq_some_iff.1 eq).2 _ listed
  · next eq =>
    rw [List.max?_eq_none_iff.1 eq] at listed
    simp at listed

end Replication

namespace Cluster

variable {c c' : Cluster} {name cluster : String} {changes : ChangeSet} {done : Committed}

/-- A write quorum of the members that can be reached has voted for a write to the cluster, the
origin among them; so, of the servers of the cluster, as many have as there are votes in the quorum
that cannot have come from elsewhere. -/
structure Poll.Backs (p : Poll) (r : Replication) (name cluster : String) : Prop where
  distinct : p.voters.Nodup
  reached : ∀ x ∈ p.voters, x ∈ p.nodes
  origin : name ∈ p.voters
  quorum : r.writeQuorum cluster p.nodes.size ≤ p.voters.length
  servers : r.writeQuorum cluster p.nodes.size ≤
    (p.voters.filter (· ∈ r.serversOf cluster)).length +
      (p.nodes.toList.filter (· ∉ r.serversOf cluster)).length

theorem Poll.Regular.backs {p : Poll} (h : p.Regular) {r : Replication} (origin : name ∈ p.voters)
    (quorum : r.writeQuorum cluster p.nodes.size ≤ p.voters.length) : p.Backs r name cluster where
  distinct := h.voters_nodup
  reached x mem := h.known (x, .success) (Poll.mem_voters.1 mem)
  origin := origin
  quorum := quorum
  servers := by
    have parts := List.length_eq_countP_add_countP (· ∈ r.serversOf cluster) (l := p.voters)
    have outside : (p.voters.filter (· ∉ r.serversOf cluster)).length ≤
        (p.nodes.toList.filter (· ∉ r.serversOf cluster)).length := by
      refine (List.subperm_of_subset (h.voters_nodup.filter _) fun x mem => ?_).length_le
      rw [List.mem_filter] at mem ⊢
      exact ⟨Std.ExtTreeSet.mem_toList.2 (h.known _ (Poll.mem_voters.1 mem.1)), mem.2⟩
    have same : p.voters.countP (fun x => ¬ decide (x ∈ r.serversOf cluster) = true) =
        (p.voters.filter (· ∉ r.serversOf cluster)).length := by
      rw [List.countP_eq_length_filter]
      simp
    rw [same, List.countP_eq_length_filter] at parts
    omega

/-- A first phase that is followed by a commit has its quorum. -/
theorem Poll.Of.quorum_le {p : Poll} {clusters : List String} (h : p.Of c name clusters)
    (decided : p.nodes.toList.filter (· ≠ name) = [] ∨ p.tally.result = .ok .success) :
    p.quorum ≤ p.voters.length := by
  rcases decided with alone | decided
  · have few : p.nodes.toList ⊆ [name] := by
      intro x mem
      by_contra other
      have listed : x ∈ p.nodes.toList.filter (· ≠ name) :=
        List.mem_filter.2 ⟨mem, by simpa using other⟩
      rw [alone] at listed
      simp at listed
    have size := (List.subperm_of_subset (nodup_toList p.nodes) few).length_le
    rw [Std.ExtTreeSet.length_toList] at size
    have votes := List.length_pos_of_mem h.sender
    have enough := h.enough
    simp only [List.length_singleton] at size
    omega
  · exact h.regular.quorum_le decided

/-- A change set that is committed has been put to the vote in the attempt that succeeded, and each
cluster that it writes to had a write quorum of the members that could be reached then. -/
theorem commit_backed (ok : (commit name changes).run c = (.ok done, c')) :
    ∃ n number c₁ p c₂, c.node? name = some n ∧
      RetryPolicy.Comes (fun number c => (attempt name changes number).run c) c number c₁ ∧
      (attemptPoll name changes number).run c₁ = (.ok (done.changes, p), c₂) ∧
      p.ids = [done.id] ∧ p.nodes = c₁.available name ∧
      ∀ cluster ∈ changes.clusters, p.Backs n.settings.replication name cluster := by
  rw [Step.run_apply] at ok
  obtain ⟨n, _, got, ok⟩ := Step.bind_eq_ok.1 ok
  obtain ⟨running, rfl⟩ := getNode_ok got
  cases valid : changes.changes.forM n.store.validate with
  | error fault =>
    rw [valid] at ok
    cases ok
  | ok =>
  rw [valid] at ok
  obtain ⟨number, c₁, comes, made⟩ := n.policy.run_attempt
    (fun number c => (attempt name changes number).run c) c
  have made : (.ok done, c') = attempt name changes number c₁ := ok.symm.trans made
  obtain ⟨p, c₂, asked, ids, of, concluded⟩ := attempt_ok made.symm
  obtain ⟨n₁, running₁, quorum⟩ := of.quorum
  -- The settings that gave the quorum are those from the start.
  obtain ⟨m, found, role⟩ := node?_eq_some.1 running
  have start : c.Running (·.settings = n.settings) name m.id :=
    ⟨n, by rw [station?, found, Option.map_some, role], rfl⟩
  have steady := Node.steady_settings n.settings
  obtain ⟨_, station, settings⟩ := comes.keeps (P := Running (·.settings = n.settings) name m.id)
    (keeps_attempt (steady_lasting steady m.id) (issuing_settings _)
      fun id _ => steady_drafts steady name m.id id changes) start
  obtain rfl := Option.mem_unique running₁ (node?_of_station? station)
  have decided := (conclude_ok concluded).2
  have enough := of.quorum_le (decided.imp (·.1) (·.1))
  refine ⟨n, number, c₁, p, c₂, running, comes, asked, ids, of.nodes, fun cluster mem => ?_⟩
  refine of.regular.backs of.sender (Nat.le_trans ?_ enough)
  rw [quorum, settings]
  exact n.settings.replication.writeQuorum_le_max (Std.ExtTreeSet.mem_toList.2 mem) _

def placedOn (servers : List String) : Settings :=
  { Settings.default with
    replication := { Replication.empty with
      clusters := (∅ : Std.ExtTreeMap String Placement).insert "person" ⟨servers, none⟩ } }

/-- Both servers of a data cluster vote for a change set of one of them. -/
theorem commit_backed_pair : ∃ done c',
    (commit "a" (person 1)).run (pair (placedOn ["a", "b"])) = (.ok done, c') ∧
    ∃ n number c₁ p c₂, (pair (placedOn ["a", "b"])).node? "a" = some n ∧
      RetryPolicy.Comes (fun number c => (attempt "a" (person 1) number).run c)
        (pair (placedOn ["a", "b"])) number c₁ ∧
      (attemptPoll "a" (person 1) number).run c₁ = (.ok (done.changes, p), c₂) ∧
      p.ids = [done.id] ∧ p.nodes = c₁.available "a" ∧
      ∀ cluster ∈ (person 1).clusters, p.Backs n.settings.replication "a" cluster := by
  have ok : ((commit "a" (person 1)).run (pair (placedOn ["a", "b"]))).1.isOk = true := by
    decide +kernel
  rcases eq : (commit "a" (person 1)).run (pair (placedOn ["a", "b"])) with ⟨fault | done, c'⟩
  · rw [eq] at ok
    cases ok
  · exact ⟨done, c', rfl, commit_backed eq⟩

/-- A commit has its quorum of two although no server of the data cluster has voted. -/
theorem not_backed_by_servers :
    ((commit "a" (person 1)).run (pair (placedOn ["x", "y"]))).1.isOk = true ∧
      (person 1).clusters.toList = ["person"] ∧
      (placedOn ["x", "y"]).replication.serversOf "person" = ["x", "y"] ∧
      (placedOn ["x", "y"]).replication.writeQuorum "person"
        ((pair (placedOn ["x", "y"])).available "a").size = 2 ∧
      ((attemptPoll "a" (person 1) 1).run (pair (placedOn ["x", "y"]))).1.toOption.map
        (·.2.voters) = some ["a", "b"] := by
  decide +kernel

end Cluster

end QuorumCommit
