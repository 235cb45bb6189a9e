import Mathlib.Data.Finset.Card
import Mathlib.Data.List.Perm.Subperm
import QuorumCommit.Proofs.Tally

/-!
What a majority decides. Of all that a node sends only its first reply counts, so a tally depends on
nothing but the first replies of its targets. Two outcomes cannot both have more than half of the
targets behind them. So the order of the replies matters only for a lead without a quorum, and a
decision stands whatever comes in later.
-/
namespace QuorumCommit.Tally

variable {t : Tally} {node : String} {reply : Reply} {calls later : List (String × Reply)}
  {o : Outcome}

structure Kept (t : Tally) : Prop where
  known : ∀ p ∈ t.replies, p.1 ∈ t.targets
  once : (t.replies.map (·.1)).Nodup

/-- The targets whose first reply is of an outcome. -/
def voters (targets : Std.ExtTreeSet String) (calls : List (String × Reply)) (o : Outcome) :
    List String :=
  targets.toList.filter fun node => (calls.lookup node).bind Reply.outcome? = some o

theorem nodup_voters (targets : Std.ExtTreeSet String) (calls : List (String × Reply))
    (o : Outcome) : (voters targets calls o).Nodup :=
  (nodup_toList targets).filter _

theorem mem_voters {targets : Std.ExtTreeSet String} : node ∈ voters targets calls o ↔
    node ∈ targets ∧ (calls.lookup node).bind Reply.outcome? = some o := by
  unfold voters
  rw [List.mem_filter, Std.ExtTreeSet.mem_toList, decide_eq_true_eq]

theorem lookup_eq_some_iff_mem (once : (calls.map (·.1)).Nodup) :
    calls.lookup node = some reply ↔ (node, reply) ∈ calls := by
  induction calls with
  | nil => simp
  | cons p rest ih =>
    obtain ⟨other, first⟩ := p
    rw [List.map_cons, List.nodup_cons] at once
    rw [List.lookup_cons, List.mem_cons, Prod.mk.injEq]
    by_cases same : node = other
    · subst same
      have new : (node, reply) ∉ rest := fun mem => once.1 (List.mem_map.2 ⟨_, mem, rfl⟩)
      simp [new, eq_comm]
    · have other : (node == other) = false := beq_false_of_ne same
      simp [same, other, ih once.2]

theorem targets_receive (t : Tally) (node : String) (reply : Reply) :
    (t.receive node reply).targets = t.targets := by
  unfold receive
  split <;> rfl

theorem quorum_receive (t : Tally) (node : String) (reply : Reply) :
    (t.receive node reply).quorum = t.quorum := by
  unfold receive
  split <;> rfl

/-- A reply counts for its node if that is a target that has not replied yet. -/
theorem lookup_receive (t : Tally) (node : String) (reply : Reply) {x : String}
    (target : x ∈ t.targets) :
    (t.receive node reply).replies.lookup x =
      (t.replies.lookup x).or ([(node, reply)].lookup x) := by
  by_cases h : t.admits node = true
  · rw [receive_of_admits h, List.lookup_append]
  · have refused : t.receive node reply = t := if_neg h
    rw [refused]
    by_cases same : x = node
    · subst same
      rw [admits_iff] at h
      have known : t.replies.lookup x ≠ none := fun none =>
        h ⟨target, fun p mem eq => by simpa [eq] using List.lookup_eq_none_iff.1 none p mem⟩
      obtain ⟨first, eq⟩ := Option.ne_none_iff_exists'.1 known
      rw [eq, Option.some_or]
    · have other : (x == node) = false := beq_false_of_ne same
      simp [List.lookup_cons, other]

theorem Kept.receive (h : t.Kept) (node : String) (reply : Reply) :
    (t.receive node reply).Kept := by
  by_cases admits : t.admits node = true
  · rw [receive_of_admits admits]
    obtain ⟨target, new⟩ := admits_iff.1 admits
    refine ⟨fun p mem => ?_, ?_⟩
    · rcases List.mem_append.1 mem with old | one
      · exact h.known p old
      · obtain rfl := List.mem_singleton.1 one
        exact target
    · rw [List.map_append, List.nodup_append]
      refine ⟨h.once, by simp, ?_⟩
      rintro x old y one rfl
      obtain ⟨p, mem, rfl⟩ := List.mem_map.1 old
      exact new p mem (by simpa using one)
  · have refused : t.receive node reply = t := if_neg admits
    rwa [refused]

theorem receiveAll_cons (t : Tally) (p : String × Reply) (rest : List (String × Reply)) :
    t.receiveAll (p :: rest) = (t.receive p.1 p.2).receiveAll rest := rfl

theorem targets_receiveAll (t : Tally) (calls : List (String × Reply)) :
    (t.receiveAll calls).targets = t.targets := by
  induction calls generalizing t with
  | nil => rfl
  | cons p rest ih => rw [receiveAll_cons, ih, targets_receive]

theorem quorum_receiveAll (t : Tally) (calls : List (String × Reply)) :
    (t.receiveAll calls).quorum = t.quorum := by
  induction calls generalizing t with
  | nil => rfl
  | cons p rest ih => rw [receiveAll_cons, ih, quorum_receive]

theorem Kept.receiveAll (h : t.Kept) (calls : List (String × Reply)) :
    (t.receiveAll calls).Kept := by
  induction calls generalizing t with
  | nil => exact h
  | cons p rest ih => exact ih (h.receive p.1 p.2)

/-- What counts for a target is its first reply. -/
theorem lookup_receiveAll (t : Tally) (calls : List (String × Reply)) {x : String}
    (target : x ∈ t.targets) :
    (t.receiveAll calls).replies.lookup x = (t.replies.lookup x).or (calls.lookup x) := by
  induction calls generalizing t with
  | nil => simp [receiveAll]
  | cons p rest ih =>
    rw [receiveAll_cons, ih _ (by rwa [targets_receive]), lookup_receive t p.1 p.2 target,
      Option.or_assoc, ← List.lookup_append]
    rfl

/-- Each vote is that of one target. -/
theorem Kept.votes (h : t.Kept) (o : Outcome) :
    t.votes o = (voters t.targets t.replies o).length := by
  have senders : (t.replies.filter fun p => p.2.outcome? = some o).map (·.1) |>.Perm
      (voters t.targets t.replies o) := by
    refine (List.perm_ext_iff_of_nodup (h.once.sublist (List.filter_sublist.map _))
      (nodup_voters ..)).2 fun x => ?_
    rw [mem_voters, List.mem_map]
    constructor
    · rintro ⟨⟨_, reply⟩, mem, rfl⟩
      obtain ⟨mem, kind⟩ := List.mem_filter.1 mem
      refine ⟨h.known _ mem, ?_⟩
      rw [(lookup_eq_some_iff_mem h.once).2 mem]
      simpa using kind
    · rintro ⟨-, kind⟩
      obtain ⟨reply, first, kind⟩ := Option.bind_eq_some_iff.1 kind
      refine ⟨(x, reply), List.mem_filter.2 ⟨(lookup_eq_some_iff_mem h.once).1 first, ?_⟩, rfl⟩
      simpa using kind
  rw [← senders.length_eq, List.length_map]
  unfold Tally.votes group
  rw [List.filter_map, List.length_map]
  rfl

theorem votes_receiveAll (request : RequestId) (targets : Std.ExtTreeSet String)
    (expected quorum : Nat) (calls : List (String × Reply)) (o : Outcome) :
    ((start request targets expected quorum).receiveAll calls).votes o =
      (voters targets calls o).length := by
  have none : (start request targets expected quorum).Kept := ⟨nofun, List.nodup_nil⟩
  rw [(none.receiveAll calls).votes, targets_receiveAll]
  unfold voters
  refine congrArg List.length (List.filter_congr fun x mem => ?_)
  rw [lookup_receiveAll _ _ (Std.ExtTreeSet.mem_toList.1 mem)]
  rfl

/-- No target votes for two outcomes. -/
theorem voters_le (targets : Std.ExtTreeSet String) (calls : List (String × Reply)) :
    (voters targets calls .success).length + (voters targets calls .invalidSequence).length ≤
      targets.size := by
  have apart : List.Disjoint (voters targets calls .success)
      (voters targets calls .invalidSequence) := by
    intro x yes no
    have same := (mem_voters.1 yes).2.symm.trans (mem_voters.1 no).2
    cases same
  have both := List.nodup_append'.2 ⟨nodup_voters .., nodup_voters .., apart⟩
  have targets : voters targets calls .success ++ voters targets calls .invalidSequence ⊆
      targets.toList := by
    intro x mem
    rcases List.mem_append.1 mem with mem | mem <;>
      exact Std.ExtTreeSet.mem_toList.2 (mem_voters.1 mem).1
  simpa using (List.subperm_of_subset both targets).length_le

/-- An outcome with a quorum leads, if both together cannot have two. -/
theorem decided?_eq_some (few : t.votes .success + t.votes .invalidSequence < 2 * t.quorum) :
    t.decided? = some o ↔ t.quorum ≤ t.votes o := by
  unfold decided?
  rw [Option.filter_eq_some_iff, decide_eq_true_eq, and_iff_right_iff_imp]
  intro enough
  unfold leader?
  cases o with
  | success => rw [if_pos (by omega)]
  | invalidSequence => rw [if_neg (by omega), if_pos (by omega)]

/-- The final reply is of the outcome that is decided. -/
theorem final?_outcome (pos : 0 < t.quorum) : t.final?.bind Reply.outcome? = t.decided? := by
  unfold final?
  cases decided : t.decided? with
  | none => rfl
  | some o =>
    have enough : t.quorum ≤ t.votes o := by
      unfold decided? at decided
      simpa using (Option.filter_eq_some_iff.1 decided).2
    have some : t.group o ≠ [] := List.ne_nil_of_length_pos (Nat.lt_of_lt_of_le pos enough)
    obtain ⟨first, rest, eq⟩ := List.exists_cons_of_ne_nil some
    have mem : first ∈ t.group o := eq ▸ List.mem_cons_self
    have kind := (List.mem_filter.1 mem).2
    simpa [eq] using kind

theorem final?_eq_success :
    t.final? = some .success ↔ t.final?.bind Reply.outcome? = some .success := by
  rw [Option.bind_eq_some_iff]
  constructor
  · exact fun h => ⟨.success, h, rfl⟩
  · rintro ⟨reply, h, kind⟩
    rwa [outcome?_eq_success.1 kind] at h

theorem result_eq_success : t.result = .ok .success ↔ t.final? = some .success := by
  unfold result
  cases t.final? <;> simp

theorem schemaDecision_eq_apply : t.schemaDecision = .apply ↔ t.final? = some .success := by
  unfold schemaDecision
  rcases t.final? with _ | reply
  · simp
  · cases reply <;> simp

/-- Distinct success voters are no more than there are. -/
theorem le_voters_success {targets : Std.ExtTreeSet String} {n : Nat} :
    n ≤ (voters targets calls .success).length ↔ ∃ nodes : Finset String, n ≤ nodes.card ∧
      ∀ node ∈ nodes, node ∈ targets ∧ calls.lookup node = some .success := by
  have mem : ∀ node, node ∈ voters targets calls .success ↔
      node ∈ targets ∧ calls.lookup node = some .success := by
    intro node
    rw [mem_voters, Option.bind_eq_some_iff]
    simp [outcome?_eq_success]
  constructor
  · intro enough
    refine ⟨(voters targets calls .success).toFinset, ?_, fun node voter => ?_⟩
    · rwa [List.toFinset_card_of_nodup (nodup_voters ..)]
    · exact (mem node).1 (List.mem_toFinset.1 voter)
  · rintro ⟨nodes, enough, voters⟩
    have known := List.subperm_of_subset nodes.nodup_toList fun node listed =>
      (mem node).2 (voters node (Finset.mem_toList.1 listed))
    exact enough.trans (nodes.length_toList ▸ known.length_le)

/-- A later reply takes no vote away. -/
theorem voters_append_le (targets : Std.ExtTreeSet String) (calls later : List (String × Reply))
    (o : Outcome) :
    (voters targets calls o).length ≤ (voters targets (calls ++ later) o).length := by
  refine (List.subperm_of_subset (nodup_voters ..) fun x voter => ?_).length_le
  obtain ⟨target, kind⟩ := mem_voters.1 voter
  obtain ⟨reply, first, _⟩ := Option.bind_eq_some_iff.1 kind
  refine mem_voters.2 ⟨target, ?_⟩
  rw [List.lookup_append, first, Option.some_or, ← first, kind]

section

variable {request : RequestId} {targets : Std.ExtTreeSet String} {expected quorum : Nat}

/-- With a majority for a quorum, an outcome is decided just when it has the quorum. -/
theorem decided?_receiveAll (majority : targets.size < 2 * quorum) :
    ((start request targets expected quorum).receiveAll calls).decided? = some o ↔
      quorum ≤ (voters targets calls o).length := by
  have few := Nat.lt_of_le_of_lt (voters_le targets calls) majority
  rw [decided?_eq_some] <;> simp only [votes_receiveAll, quorum_receiveAll]
  · rfl
  · exact few

theorem final?_receiveAll (majority : targets.size < 2 * quorum) :
    ((start request targets expected quorum).receiveAll calls).final?.bind Reply.outcome? =
      ((start request targets expected quorum).receiveAll calls).decided? := by
  refine final?_outcome ?_
  rw [quorum_receiveAll]
  exact (by omega : 0 < quorum)

/-- What is decided stays so, whatever comes in later. -/
theorem decided?_later (majority : targets.size < 2 * quorum)
    (now : ((start request targets expected quorum).receiveAll calls).decided? = some o)
    (later : List (String × Reply)) :
    (((start request targets expected quorum).receiveAll calls).receiveAll later).decided? =
      some o := by
  have all : ((start request targets expected quorum).receiveAll calls).receiveAll later =
      (start request targets expected quorum).receiveAll (calls ++ later) :=
    (List.foldl_append ..).symm
  rw [all, decided?_receiveAll majority]
  exact ((decided?_receiveAll majority).1 now).trans (voters_append_le targets calls later o)

/-- What is decided depends on the first reply of each target alone. -/
theorem decided?_congr (majority : targets.size < 2 * quorum) {other : List (String × Reply)}
    (first : ∀ node ∈ targets, other.lookup node = calls.lookup node) :
    ((start request targets expected quorum).receiveAll other).decided? =
      ((start request targets expected quorum).receiveAll calls).decided? := by
  refine Option.ext fun o => ?_
  have same : voters targets other o = voters targets calls o :=
    List.filter_congr fun x mem => by rw [first x (Std.ExtTreeSet.mem_toList.1 mem)]
  rw [decided?_receiveAll majority, decided?_receiveAll majority, same]

end

/-- The decision of a majority is sound: it is for success exactly if a quorum of targets sent
success first. It is final: whatever comes in later, it stays decided, with the same outcome. And it
depends on nothing but the first reply of each target, so no order of arrival changes it, and none
changes what is committed. -/
theorem majority_decides (request : RequestId) (targets : Std.ExtTreeSet String)
    (expected quorum : Nat) (majority : targets.size < 2 * quorum) (calls : List (String × Reply)) :
    let t := (start request targets expected quorum).receiveAll calls
    (t.final? = some .success ↔ ∃ nodes : Finset String, quorum ≤ nodes.card ∧
      ∀ node ∈ nodes, node ∈ targets ∧ calls.lookup node = some .success) ∧
    (t.isReached = true → ∀ later, (t.receiveAll later).isReached = true ∧
      (t.receiveAll later).final?.bind Reply.outcome? = t.final?.bind Reply.outcome?) ∧
    ∀ other : List (String × Reply), (∀ node ∈ targets, other.lookup node = calls.lookup node) →
      let u := (start request targets expected quorum).receiveAll other
      u.isReached = t.isReached ∧
      u.final?.bind Reply.outcome? = t.final?.bind Reply.outcome? ∧
      (u.result = .ok .success ↔ t.result = .ok .success) ∧
      (u.schemaDecision = .apply ↔ t.schemaDecision = .apply) := by
  intro t
  refine ⟨?_, fun reached later => ?_, fun other first => ?_⟩
  · rw [final?_eq_success, final?_receiveAll majority, decided?_receiveAll majority,
      le_voters_success]
  · obtain ⟨o, now⟩ := Option.isSome_iff_exists.1 reached
    have stays := decided?_later majority now later
    have positive : 0 < (t.receiveAll later).quorum := by
      rw [quorum_receiveAll, quorum_receiveAll]
      exact (by omega : 0 < quorum)
    rw [final?_outcome positive, final?_receiveAll majority, stays, now]
    exact ⟨Option.isSome_iff_exists.2 ⟨o, stays⟩, rfl⟩
  · have same : ((start request targets expected quorum).receiveAll other).decided? = t.decided? :=
      decided?_congr majority first
    have outcome := (final?_receiveAll majority).trans
      (same.trans (final?_receiveAll majority).symm)
    refine ⟨congrArg Option.isSome same, outcome, ?_, ?_⟩
    · rw [result_eq_success, result_eq_success, final?_eq_success, final?_eq_success, outcome]
    · rw [schemaDecision_eq_apply, schemaDecision_eq_apply, final?_eq_success, final?_eq_success,
        outcome]

/-- Two of three decide, though the third refuses, one of the two changes its mind and a stranger
agrees with it. They decide the same when they come first. -/
theorem majority_decides_two_of_three :
    let targets := Std.ExtTreeSet.ofList ["a", "b", "c"]
    let no := Reply.invalid ⟨1, 1⟩ .missingPrevious
    let t := (start ⟨1, 1⟩ targets 3 2).receiveAll
      [("c", no), ("a", .success), ("a", no), ("d", no), ("b", .success)]
    let u := (start ⟨1, 1⟩ targets 3 2).receiveAll [("a", .success), ("b", .success), ("c", no)]
    targets.size < 2 * 2 ∧ t.final? = some .success ∧
      (t.receiveAll [("b", no)]).isReached = true ∧
      (u.schemaDecision = .apply ↔ t.schemaDecision = .apply) := by
  intro targets no t u
  have few : targets.size < 2 * 2 := by decide +kernel
  obtain ⟨sound, final, order⟩ := majority_decides ⟨1, 1⟩ targets 3 2 few
    [("c", no), ("a", .success), ("a", no), ("d", no), ("b", .success)]
  have reached : t.isReached = true := by decide +kernel
  have first : ∀ node ∈ targets.toList,
      [("a", .success), ("b", .success), ("c", no)].lookup node =
        [("c", no), ("a", .success), ("a", no), ("d", no), ("b", .success)].lookup node := by
    decide +kernel
  refine ⟨few, sound.2 ⟨{"a", "b"}, by decide, by decide +kernel⟩, (final reached _).1, ?_⟩
  exact (order _ fun node target => first node (Std.ExtTreeSet.mem_toList.2 target)).2.2.2

end QuorumCommit.Tally
