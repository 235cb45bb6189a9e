import QuorumCommit.Proofs.Cluster.Runs

/-!
What is left of a change set when its origin reports it as committed. A vote for the change set is
counted wherever its id lies within the depth of the node, but the change set is applied only where
the id is the next one; so there are enough nodes that hold it just when enough voters were not
behind.
-/
namespace QuorumCommit

namespace Node

variable {n n' : Node} {id : TxId} {t : ChangeSet}

/-- A node holds a change set: its log has the id, and all of the changes were made to what it held
before. -/
structure Holds (n : Node) (id : TxId) (t : ChangeSet) (n' : Node) : Prop where
  logged : n'.HasCommitted id
  complete : (n.store.commit t ⟨id, n.sequencer.nextOffset⟩).1 = .ok ()
  content : n'.store.content = (n.store.commit t ⟨id, n.sequencer.nextOffset⟩).2.content

theorem Wrote.holds (w : n.Wrote id t n') (issued : 0 < id.sequence)
    (versions : n.store.checkVersions t = .ok ()) : n.Holds id t n' where
  logged := ⟨issued, Nat.le_of_eq w.last.symm⟩
  complete := Store.commit_ok versions _
  content := by
    rw [← Store.committed_content]
    exact (congrArg View.content w.shared :)

/-- What has not changed does not hold what it did not hold before. -/
theorem Same.not_holds (h : n.Same n') : ¬ n.Holds id t n' := by
  intro holds
  have same : n'.store.applied = n.store.applied := (congrArg Store.applied h.content :)
  have more : n'.store.applied = (n.store.commit t ⟨id, n.sequencer.nextOffset⟩).2.applied :=
    (congrArg Store.applied holds.content :)
  rw [same, Store.applied_commit holds.complete] at more
  simp at more

end Node

namespace Cluster

variable {c c' : Cluster} {name : String} {changes : ChangeSet} {done : Committed}

/-- A write quorum of nodes, the origin among them, holds what was committed. -/
def Durable (c : Cluster) (name : String) (done : Committed) (c' : Cluster) : Prop :=
  ∃ n, c.node? name = some n ∧ ∃ holders : List String, holders.Nodup ∧ name ∈ holders ∧
    c.quorumOf name n done.changes ≤ holders.length ∧
    ∀ x ∈ holders, ∃ k k', c.node? x = some k ∧ c'.node? x = some k' ∧
      k.Holds done.id done.changes k'

/-- With the origin, there is a write quorum of nodes that can be reached and take a change set up
under an id that is their next one. -/
def Prompt (c : Cluster) (name : String) (done : Committed) : Prop :=
  ∃ n, c.node? name = some n ∧ ∃ voters : List String, voters.Nodup ∧
    c.quorumOf name n done.changes ≤ voters.length + 1 ∧
    ∀ x ∈ voters, x ≠ name ∧ ∃ k, c.node? x = some k ∧ c.Takes name done.id done.changes x k

/-- Apart from the origin just those hold a change set who took it up. -/
theorem Wrote.durable_iff (w : c.Wrote name changes done c') (room : c'.HasRoom) :
    c.Durable name done c' ↔ c.Prompt name done := by
  have nodes := w.takers room
  obtain ⟨n, running, next, drafted, -⟩ := w.origin
  have issued : 0 < done.id.sequence := by
    rw [next]
    exact Nat.succ_pos _
  constructor
  · rintro ⟨m, here, holders, distinct, mem, enough, all⟩
    refine ⟨m, here, holders.erase name, distinct.erase name, ?_, fun x mem => ?_⟩
    · rw [List.length_erase_of_mem mem]
      omega
    · obtain ⟨other, mem⟩ := distinct.mem_erase_iff.1 mem
      obtain ⟨k, k', before, after, holds⟩ := all x mem
      obtain ⟨k'', after', -, same, -⟩ := nodes.nodes x k before
      obtain rfl := Option.mem_unique after after'
      -- The list of what was applied has grown at a holder, so it took the change set up.
      refine ⟨other, k, before, Classical.byContradiction fun leaves => ?_⟩
      exact (same (not_or.2 ⟨other, leaves⟩)).not_holds holds
  · rintro ⟨m, here, voters, distinct, enough, all⟩
    refine ⟨m, here, name :: voters, ?_, List.mem_cons_self, enough, fun x mem => ?_⟩
    · exact List.nodup_cons.2 ⟨fun mem => (all name mem).1 rfl, distinct⟩
    · rcases List.mem_cons.1 mem with rfl | mem
      · obtain ⟨n', after, wrote, -⟩ := nodes.nodes x n running
        exact ⟨n, n', running, after, (wrote (.inl rfl)).holds issued drafted.versions⟩
      · obtain ⟨-, k, before, takes⟩ := all x mem
        obtain ⟨k', after, wrote, -⟩ := nodes.nodes x k before
        exact ⟨k, k', before, after, (wrote (.inr takes)).holds issued takes.2.1.versions⟩

theorem wrote_of_commit (calm : c.Calm) (ids : c.HasIds)
    (ok : (commit name changes).run c = (.ok done, c')) : c.Wrote name changes done c' := by
  have spec := commit_spec calm ids name changes
  rw [Step.run_apply] at ok
  rw [ok] at spec
  exact spec.2

/-- As long as no cluster has used its last place, what is reported as committed is held by a write
quorum of nodes just when it was the next id for enough of those that voted for it. -/
theorem commit_durable_iff (reached : Reached Call.WritesData c) (ids : c.HasIds)
    (ok : (commit name changes).run c = (.ok done, c')) (room : c'.HasRoom) :
    c.Durable name done c' ↔ c.Prompt name done :=
  (wrote_of_commit (reached.calm fun _ => id) ids ok).durable_iff room

def deep : Settings := { Settings.default with pipelineDepth := 2 }

/-- With a depth of two, a node that has missed a commit votes for the next one. -/
theorem commit_durable_iff_behind :
    ∃ done c', (commit "a" (person 2)).run (behind deep) = (.ok done, c') ∧
      c'.HasRoom ∧ ((behind deep).Durable "a" done c' ↔ (behind deep).Prompt "a" done) := by
  have reached : Reached Call.WritesData (behind deep) :=
    behind_reached rfl rfl (by decide +kernel)
  have succeeds : ((commit "a" (person 2)).run (behind deep)).1.isOk = true ∧
      ((commit "a" (person 2)).run (behind deep)).2.HasRoom := by
    decide +kernel
  rcases ok : (commit "a" (person 2)).run (behind deep) with ⟨fault | done, c'⟩
  · rw [ok] at succeeds
    cases succeeds.1
  · rw [ok] at succeeds
    exact ⟨done, c', rfl, succeeds.2, commit_durable_iff reached (by decide +kernel) ok succeeds.2⟩

/-- A quorum of two has a holder besides the origin. -/
theorem Durable.second (h : c.Durable name done c')
    (two : ∀ n, c.node? name = some n → 2 ≤ c.quorumOf name n done.changes) :
    ∃ x k k', x ≠ name ∧ c.node? x = some k ∧ c'.node? x = some k' ∧
      k.Holds done.id done.changes k' := by
  obtain ⟨n, running, holders, distinct, mem, enough, all⟩ := h
  have more : 0 < (holders.erase name).length := by
    have two := two n running
    rw [List.length_erase_of_mem mem]
    omega
  obtain ⟨x, rest⟩ := List.exists_mem_of_length_pos more
  obtain ⟨other, held⟩ := distinct.mem_erase_iff.1 rest
  obtain ⟨k, k', before, after, holds⟩ := all x held
  exact ⟨x, k, k', other, before, after, holds⟩

def late : Committed := ⟨⟨1, 2⟩, ⟨[⟨⟨9, 1⟩, "person", .created, 0, [2]⟩], ∅, 1⟩⟩

/-- The vote of `b` makes the quorum of two, but `b` does not take the commit up. -/
theorem commit_not_durable_behind :
    ∃ c', (commit "a" (person 2)).run (behind deep) = (.ok late, c') ∧
      ¬ (behind deep).Durable "a" late c' := by
  have succeeds : ((commit "a" (person 2)).run (behind deep)).1.toOption = some late := by
    decide +kernel
  have missed : ((commit "a" (person 2)).run (behind deep)).2.last? "b" 1 = some 0 := by
    decide +kernel
  have members : (behind deep).members.keys = ["a", "b"] := by decide +kernel
  have quorum : ((behind deep).node? "a").map (fun n => (behind deep).quorumOf "a" n late.changes) =
      some 2 := by
    decide +kernel
  rcases ok : (commit "a" (person 2)).run (behind deep) with ⟨fault | done, c'⟩
  · rw [ok] at succeeds
    cases succeeds
  rw [ok] at succeeds missed
  cases succeeds
  refine ⟨c', rfl, fun durable => ?_⟩
  obtain ⟨x, k, k', other, before, after, holds⟩ := durable.second fun n running => by
    rw [running, Option.map_some, Option.some.injEq] at quorum
    exact Nat.le_of_eq quorum.symm
  have known := contains_of_node? before
  rw [Std.ExtTreeMap.contains_iff_mem, ← Std.ExtTreeMap.mem_keys, members] at known
  have atB : x = "b" := by simpa [other] using known
  subst atB
  obtain ⟨m, found, last⟩ := Option.map_eq_some_iff.1 missed
  obtain rfl := Option.mem_unique after found
  exact absurd (last ▸ holds.logged.2) (by decide)

/-- Where ids may not run ahead, a vote is as good as a commit. -/
theorem commit_durable_of_depth (reached : Reached Call.WritesData c) (ids : c.HasIds)
    (depth : ∀ x n, c.node? x = some n → n.sequencer.depth = 1)
    (ok : (commit name changes).run c = (.ok done, c')) (room : c'.HasRoom) :
    c.Durable name done c' := by
  have w := wrote_of_commit (reached.calm fun _ => id) ids ok
  obtain ⟨n, running, -, drafted, carried⟩ := w.origin
  obtain ⟨voters, distinct, enough, all⟩ := carried room
  refine (w.durable_iff room).2 ⟨n, running, voters, distinct, ?_, fun x mem => ?_⟩
  · unfold quorumOf at enough ⊢
    rwa [drafted.clusters]
  · obtain ⟨other, available, k, here, admits⟩ := all x mem
    refine ⟨other, k, here, available, admits, ?_⟩
    obtain ⟨above, -, within⟩ := Slot.classify_eq_valid.1 admits.valid
    rw [depth x k here] at within
    exact Nat.le_antisymm within above

end Cluster

end QuorumCommit
