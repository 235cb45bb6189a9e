import QuorumCommit.Tally

/-!
Counting votes. A decision for success stands on a quorum of success votes, and when all vote for
success and there are enough of them, that is the decision.
-/
namespace QuorumCommit

theorem nodup_toList (nodes : Std.ExtTreeSet String) : nodes.toList.Nodup :=
  Std.ExtTreeSet.distinct_toList.imp fun ne eq => ne (Std.compare_eq_iff_eq.2 eq)

namespace Tally

variable {t : Tally}

def receiveAll (t : Tally) (replies : List (String × Reply)) : Tally :=
  replies.foldl (fun t (node, reply) => t.receive node reply) t

theorem receive_of_admits {node : String} (h : t.admits node = true) (reply : Reply) :
    t.receive node reply = { t with replies := t.replies ++ [(node, reply)] } := by
  unfold receive
  rw [if_pos h]

theorem admits_iff {node : String} :
    t.admits node = true ↔ node ∈ t.targets ∧ ∀ p ∈ t.replies, p.1 ≠ node := by
  unfold admits hasReply
  simp [Std.ExtTreeSet.contains_iff_mem]

/-- Every first reply of a target is kept. -/
theorem receiveAll_of_admits {replies : List (String × Reply)}
    (targets : ∀ p ∈ replies, p.1 ∈ t.targets) (distinct : (replies.map (·.1)).Nodup)
    (new : ∀ p ∈ replies, ∀ q ∈ t.replies, q.1 ≠ p.1) :
    t.receiveAll replies = { t with replies := t.replies ++ replies } := by
  induction replies generalizing t with
  | nil => simp [receiveAll]
  | cons p rest ih =>
    rw [List.forall_mem_cons] at targets new
    rw [List.map_cons, List.nodup_cons] at distinct
    have step := receive_of_admits (admits_iff.2 ⟨targets.1, new.1⟩) p.2
    have later := ih (t := { t with replies := t.replies ++ [p] }) targets.2 distinct.2 (by
      intro q mem r known
      rw [List.mem_append, List.mem_singleton] at known
      rcases known with known | rfl
      · exact new.2 q mem r known
      · exact fun eq => distinct.1 (List.mem_map.2 ⟨q, mem, eq.symm⟩))
    have fold : t.receiveAll (p :: rest) = (t.receive p.1 p.2).receiveAll rest := rfl
    rw [fold, step, later]
    simp

/-- The replies of a round in which the sender and all targets answer once. -/
theorem round_replies {request : RequestId} {nodes : Std.ExtTreeSet String} {expected quorum : Nat}
    {name : String} {targets : List String} (first : Reply) (reply : String → Reply)
    (sender : name ∈ nodes) (known : ∀ x ∈ targets, x ∈ nodes) (apart : name ∉ targets)
    (distinct : targets.Nodup) :
    ((start request nodes expected quorum).receive name first).receiveAll
        (targets.map fun x => (x, reply x)) =
      { start request nodes expected quorum with
        replies := (name, first) :: targets.map fun x => (x, reply x) } := by
  have opened : (start request nodes expected quorum).receive name first =
      { start request nodes expected quorum with replies := [(name, first)] } :=
    receive_of_admits (admits_iff.2 ⟨sender, by simp [start]⟩) first
  rw [opened, receiveAll_of_admits]
  · rfl
  · intro p mem
    obtain ⟨x, target, rfl⟩ := List.mem_map.1 mem
    exact known x target
  · rw [List.map_map]
    exact (List.map_id targets).symm ▸ distinct
  · intro p mem q old
    obtain ⟨x, target, rfl⟩ := List.mem_map.1 mem
    rw [List.mem_singleton] at old
    subst old
    intro same
    have same : name = x := same
    exact apart (same ▸ target)

theorem outcome?_eq_success {reply : Reply} :
    reply.outcome? = some .success ↔ reply = .success := by
  cases reply <;> simp [Reply.outcome?]

/-- Success votes, counted as replies. -/
theorem votes_success : t.votes .success = t.replies.countP fun p => p.2 = .success := by
  unfold votes group
  rw [List.filter_map, List.length_map, ← List.countP_eq_length_filter]
  refine List.countP_congr fun p _ => ?_
  simp [outcome?_eq_success]

/-- A decision for success has the quorum behind it. -/
theorem quorum_of_final (h : t.final? = some .success) : t.quorum ≤ t.votes .success := by
  unfold final? at h
  obtain ⟨o, decided, head⟩ := Option.bind_eq_some_iff.1 h
  have first := List.mem_of_mem_head? head
  unfold group at first
  have outcome := (List.mem_filter.1 first).2
  simp only [Reply.outcome?, decide_eq_true_eq, Option.some.injEq] at outcome
  subst outcome
  unfold decided? at decided
  have quorum := (Option.filter_eq_some_iff.1 decided).2
  simpa using quorum

theorem quorum_of_result (h : t.result = .ok .success) : t.quorum ≤ t.votes .success := by
  refine quorum_of_final ?_
  unfold result at h
  cases eq : t.final? with
  | none =>
    rw [eq] at h
    cases h
  | some reply =>
    rw [eq] at h
    cases h
    rfl

/-- Nothing is reported as committed elsewhere if no reply says so of an id of the origin. -/
theorem committedElsewhere_eq_nil {origin : Nat} (h : ∀ p ∈ t.replies, ∀ id,
    p.2 = .invalid id .alreadyPresent → id.origin ≠ origin) : t.committedElsewhere origin = [] := by
  unfold committedElsewhere
  rw [List.filterMap_eq_nil_iff]
  rintro ⟨node, reply⟩ mem
  cases reply with
  | invalid id verdict =>
    cases verdict with
    | alreadyPresent => exact if_neg (h _ mem id rfl)
    | _ => rfl
  | _ => rfl

end Tally

end QuorumCommit
