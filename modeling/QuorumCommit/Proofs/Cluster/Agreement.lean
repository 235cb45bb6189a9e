import QuorumCommit.Proofs.Cluster.Durability
import QuorumCommit.Proofs.Cluster.Leading

/-!
What ids stand for. All nodes that have committed an id did so for the same thing, and no node is
about to issue an id that some node has committed, just when no command of the run was done by
halves: its first id committed at its origin, where the body failed, and both of its ids elsewhere.
In such a run the store of a node that commits an id takes in what the id stands for.
-/
namespace QuorumCommit

theorem TxId.eq_of_sequence {id id' : TxId} (origin : id.origin = id'.origin)
    (sequence : id.sequence = id'.sequence) : id = id' := by
  cases id
  cases id'
  exact congrArg₂ TxId.mk origin sequence

inductive Purpose where
  | data (changes : ChangeSet)
  | before (command : String)
  | after (command : String)

instance : Inhabited Purpose := ⟨.before ""⟩

/-- What the store of a node, but for its places, makes of an id that the node commits: a change set
is stored as a whole, and behind the first id of a command its body is run, which has not failed if
the second id is committed too. -/
def Purpose.CarriedOut (n : Node) (id : TxId) (n' : Node) : Purpose → Prop
  | data changes => n.Holds id changes n'
  | before command => n'.store.displaced =
    (n.resources.view.between command (n.settings.maxAutoRetry - 1) id).store
  | after command => ∃ before, before.next = id ∧ n.bodyFails command before = false ∧
    n'.store.displaced =
      (n.resources.view.between command (n.settings.maxAutoRetry - 1) before).store

namespace Node

variable {n n' : Node} {id first : TxId} {command : String}

theorem Executed.store (e : n.Executed command first n') : n'.store.displaced =
    (n.resources.view.between command (n.settings.maxAutoRetry - 1) first).store := by
  rw [show n'.store.displaced = n'.resources.view.store from rfl]
  exact (congrArg View.store e.shared :)

/-- The id that a commit adds to a log is the next one. -/
theorem Logs.eq_of_logged (l : n.Logs first n')
    (behind : (n.sequencer.slot id.origin).last < id.sequence)
    (logged : id.sequence ≤ (n'.sequencer.slot id.origin).last) : id = first := by
  obtain same | ⟨next, last⟩ := l.last
  · rw [same] at logged
    omega
  · have next : first.sequence = (n.sequencer.slot first.origin).last + 1 := next
    rw [last] at logged
    split at logged
    · next own =>
      rw [own] at behind
      exact TxId.eq_of_sequence own (by omega)
    · omega

theorem last_lt_of_not_committed (behind : ¬ n.HasCommitted id) (logged : n'.HasCommitted id) :
    (n.sequencer.slot id.origin).last < id.sequence :=
  Nat.lt_of_not_le fun le => behind ⟨logged.1, le⟩

/-- What others cannot tell from before has committed nothing since. -/
theorem Same.hasCommitted (same : n.Same n') : n'.HasCommitted id ↔ n.HasCommitted id := by
  unfold HasCommitted
  rw [same.last]

/-- A node that has run a command commits its first id, which is the next one there, and behind it
the second one unless the body fails. -/
theorem Executed.carriedOut (e : n.Executed command first n')
    (next : n.resources.view.IsNext first) (fresh : ¬ n.HasCommitted id)
    (logged : n'.HasCommitted id) :
    (if id.sequence = (n.sequencer.slot id.origin).last + 1 then Purpose.before command
      else .after command).CarriedOut n id n' := by
  have behind := last_lt_of_not_committed fresh logged
  have next : first.sequence = (n.sequencer.slot first.origin).last + 1 := next
  have own : id.origin = first.origin := by
    by_contra other
    rw [← e.last_other other] at behind
    exact absurd logged.2 (Nat.not_le_of_lt behind)
  have reaches := logged.2
  rw [own, e.last] at reaches
  rw [own] at behind ⊢
  rw [← next]
  split
  · next same =>
    obtain rfl := TxId.eq_of_sequence own same
    exact e.store
  · next other =>
    have done : n.bodyFails command first = false := by
      rw [← Bool.not_eq_true]
      intro fails
      rw [if_pos fails] at reaches
      omega
    rw [done, if_neg Bool.false_ne_true] at reaches
    refine ⟨first, TxId.eq_of_sequence own.symm ?_, done, e.store⟩
    have second : first.next.sequence = first.sequence + 1 := rfl
    omega

end Node

namespace Cluster

variable {c c' : Cluster} {name x y : String} {n n' k k' : Node} {first id : TxId}
  {changes : ChangeSet} {done : Committed} {p q : Purpose} {call : Call} {calls : List Call}

/-- What a node commits an id for during a call. A change set is the one that the origin reports,
and of the ids of a command a node commits the one before the body first. -/
def Call.purpose? (c : Cluster) (n : Node) (id : TxId) : Call → Option Purpose
  | commit name changes =>
    some (.data ((((Cluster.commit name changes).run c).1.toOption.map (·.changes)).getD changes))
  | run _ command =>
    some (if id.sequence = (n.sequencer.slot id.origin).last + 1 then .before command
      else .after command)
  | catchUp _ _ changes => some (.data changes)
  | partition _ | heal _ | failNext .. => none

def Call.Commits (c : Cluster) (call : Call) (x : String) (id : TxId) (p : Purpose) : Prop :=
  ∃ n n', c.node? x = some n ∧ (call.perform c).node? x = some n' ∧ ¬ n.HasCommitted id ∧
    n'.HasCommitted id ∧ call.purpose? c n id = some p

/-- All nodes that commit an id during a call do so for the same thing. -/
theorem Call.Commits.unique (g : c.Gains first (call.perform c)) (h : call.Commits c x id p)
    (h' : call.Commits c y id q) : p = q := by
  obtain ⟨n, n', here, here', behind, logged, for_p⟩ := h
  obtain ⟨k, k', there, there', behind', logged', for_q⟩ := h'
  obtain ⟨-, -, last⟩ := g.new here here' (Node.last_lt_of_not_committed behind logged) logged.2
  obtain ⟨-, -, last'⟩ := g.new there there' (Node.last_lt_of_not_committed behind' logged') logged'.2
  have same : call.purpose? c n id = call.purpose? c k id := by
    cases call with
    | run name command =>
      unfold purpose?
      rw [last, last']
    | _ => rfl
  rw [for_p, for_q] at same
  exact Option.some.inj same

theorem Call.Commits.unused (g : c.Gains first (call.perform c)) (h : call.Commits c x id p) :
    c.Unused id := by
  obtain ⟨n, n', here, here', behind, logged, -⟩ := h
  exact g.unused_of_logged here here' (Node.last_lt_of_not_committed behind logged) logged.2

theorem Call.Commits.used (h : call.Commits c x id p) : ¬ (call.perform c).Unused id := by
  obtain ⟨n, n', -, here', -, logged, -⟩ := h
  exact fun unused => absurd logged.2 (Nat.not_le_of_lt (unused x n' here'))

/-- Whenever a log gains an id, it does so for something. -/
theorem Call.commits_of_logged (here : c.node? x = some n)
    (here' : (call.perform c).node? x = some n') (behind : ¬ n.HasCommitted id)
    (logged : n'.HasCommitted id) : ∃ p, call.Commits c x id p := by
  have purpose : ∃ p, call.purpose? c n id = some p := by
    cases call with
    | commit name changes => exact ⟨_, rfl⟩
    | run name command => exact ⟨_, rfl⟩
    | catchUp name id changes => exact ⟨_, rfl⟩
    | partition name =>
      obtain rfl := Option.mem_unique here here'
      exact absurd logged behind
    | heal name =>
      obtain rfl := Option.mem_unique here here'
      exact absurd logged behind
    | failNext name count =>
      obtain ⟨m, found, same, -⟩ := (failNext_spec c name count).nodes x n here
      obtain rfl := Option.mem_unique here' found
      exact absurd ⟨logged.1, same ▸ logged.2⟩ behind
  obtain ⟨p, purpose⟩ := purpose
  exact ⟨p, n, n', here, here', behind, logged, purpose⟩

/-- Whoever commits the id of a change set in a call holds the change set. -/
theorem Wrote.holds (w : c.Wrote name changes done c') (room : c'.HasRoom)
    (here : c.node? x = some n) (here' : c'.node? x = some n') (fresh : ¬ n.HasCommitted id)
    (logged : n'.HasCommitted id) : n.Holds id done.changes n' := by
  obtain ⟨o, running, issued, drafted, -⟩ := w.origin
  obtain ⟨k, after, logs, -⟩ := w.logs.nodes x n here
  obtain rfl := Option.mem_unique after here'
  obtain rfl := logs.eq_of_logged (Node.last_lt_of_not_committed fresh logged) logged.2
  obtain ⟨k', again, takes, leaves, -⟩ := (w.takers room).nodes x n here
  obtain rfl := Option.mem_unique again here'
  by_cases part : x = name ∨ c.Takes name done.id done.changes x n
  · refine (takes part).holds logged.1 ?_
    rcases part with rfl | part
    · obtain rfl := Option.mem_unique running here
      exact drafted.versions
    · exact part.2.1.versions
  · exact absurd ((leaves part).hasCommitted.1 logged) fresh

/-- What a call commits at a node its store takes in. -/
theorem Sound.carriedOut (h : c.Sound) (ids : c.HasIds) (submits : call.Submits)
    (room : (call.perform c).HasRoom) (here : c.node? x = some n)
    (here' : (call.perform c).node? x = some n') (commits : call.Commits c x id p) :
    p.CarriedOut n id n' := by
  obtain ⟨m, m', found, found', fresh, logged, purpose⟩ := commits
  obtain rfl := Option.mem_unique found here
  obtain rfl := Option.mem_unique found' here'
  have untouched {c' : Cluster} (same : c.Untouched c') : c'.node? x ≠ some m' := by
    intro here'
    obtain ⟨k, after, same⟩ := same.nodes x m here
    obtain rfl := Option.mem_unique after here'
    exact fresh (same.hasCommitted.1 logged)
  cases call with
  | commit name changes =>
    have spec := commit_spec h.calm ids name changes
    unfold Call.perform at room here'
    unfold Call.purpose? at purpose
    dsimp only at room here' purpose
    rw [Step.run_apply] at room here' purpose
    generalize Cluster.commit name changes c = r at spec room here' purpose
    rcases r with ⟨fault | done, c'⟩
    · exact absurd here' (untouched spec.2)
    · cases purpose
      exact spec.2.holds room here here' fresh logged
  | run name command =>
    obtain ⟨-, same | ⟨o, running, nodes⟩⟩ := perform_run h.calm ids (h.leads name) command
    · exact absurd here' (untouched same)
    · obtain ⟨k, after, runs, stays⟩ := nodes.nodes x m here
      obtain rfl := Option.mem_unique after here'
      by_cases follows : c.Follows name (o.upcoming 0) x m
      · rw [← Option.some.inj purpose]
        exact (runs follows).carriedOut follows.2 fresh logged
      · exact absurd ((stays follows).hasCommitted.1 logged) fresh
  | catchUp name id changes => exact submits.elim
  | partition name | heal name | failNext name count => cases purpose

inductive Meets : Cluster → List Call → Cluster → Call → Prop where
  | now {c : Cluster} {call : Call} {rest : List Call} : Meets c (call :: rest) c call
  | later {c c' : Cluster} {call call' : Call} {rest : List Call} :
      Meets (call.perform c) rest c' call' → Meets c (call :: rest) c' call'

def Commits (c : Cluster) (calls : List Call) (x : String) (id : TxId) (p : Purpose) : Prop :=
  ∃ c' call, Meets c calls c' call ∧ call.Commits c' x id p

/-- Each id stands for one thing: all nodes that have it have committed it for that. -/
def Agrees (c : Cluster) (calls : List Call) : Prop :=
  ∀ id, ∃ p, ∀ x n, (c.performAll calls).node? x = some n → n.HasCommitted id →
    ∀ q, c.Commits calls x id q ↔ q = p

/-- After no call is a node about to issue an id that some node has. -/
def NeverReissues (c : Cluster) (calls : List Call) : Prop :=
  ∀ c' call, Meets c calls c' call → ∀ name n, (call.perform c').node? name = some n →
    (call.perform c').Unused n.sequencer.nextId.1

def NoneHalfDone (c : Cluster) (calls : List Call) : Prop :=
  ∀ c' call, Meets c calls c' call → ¬ call.HalfDone c'

/-- What a node commits in a run its store takes in, as long as no cluster has used its last place.
-/
def CarriesOut (c : Cluster) (calls : List Call) : Prop :=
  ∀ c' call, Meets c calls c' call → (call.perform c').HasRoom → ∀ x n n',
    c'.node? x = some n → (call.perform c').node? x = some n' →
      ∀ id p, call.Commits c' x id p → p.CarriedOut n id n'

theorem meets_cons {rest : List Call} {call' : Call} :
    Meets c (call :: rest) c' call' ↔
      (c' = c ∧ call' = call) ∨ Meets (call.perform c) rest c' call' := by
  constructor
  · rintro (_ | later)
    · exact .inl ⟨rfl, rfl⟩
    · exact .inr later
  · rintro (⟨rfl, rfl⟩ | later)
    · exact .now
    · exact .later later

theorem noneHalfDone_cons {rest : List Call} :
    c.NoneHalfDone (call :: rest) ↔ ¬ call.HalfDone c ∧ (call.perform c).NoneHalfDone rest := by
  unfold NoneHalfDone
  simp only [meets_cons, or_imp, and_imp, forall_and, forall_eq_apply_imp_iff, forall_eq]

theorem neverReissues_cons {rest : List Call} : c.NeverReissues (call :: rest) ↔
    (∀ name n, (call.perform c).node? name = some n →
      (call.perform c).Unused n.sequencer.nextId.1) ∧ (call.perform c).NeverReissues rest := by
  unfold NeverReissues
  simp only [meets_cons, or_imp, and_imp, forall_and, forall_eq_apply_imp_iff, forall_eq]

theorem commits_cons {rest : List Call} :
    c.Commits (call :: rest) x id p ↔
      call.Commits c x id p ∨ (call.perform c).Commits rest x id p := by
  unfold Commits
  simp only [meets_cons]
  constructor
  · rintro ⟨c', call', ⟨rfl, rfl⟩ | later, commits⟩
    · exact .inl commits
    · exact .inr ⟨c', call', later, commits⟩
  · rintro (commits | ⟨c', call', later, commits⟩)
    · exact ⟨c, call, .inl ⟨rfl, rfl⟩, commits⟩
    · exact ⟨c', call', .inr later, commits⟩

/-- The ids that a run commits are new to all nodes. -/
theorem Commits.unused (h : c.Sound) (ids : c.HasIdsFor calls.length)
    (submits : ∀ call ∈ calls, call.Submits)
    (whole : c.NoneHalfDone calls) (commits : c.Commits calls x id p) : c.Unused id := by
  induction calls generalizing c with
  | nil =>
    obtain ⟨c', call, meets, -⟩ := commits
    cases meets
  | cons call rest ih =>
    rw [List.forall_mem_cons] at submits
    rw [noneHalfDone_cons] at whole
    obtain ⟨-, ⟨first, gains⟩, -⟩ := h.perform ids.hasIds submits.1
    rcases commits_cons.1 commits with now | later
    · exact now.unused gains
    · exact gains.unused_before (ih (h.next ids.hasIds submits.1 whole.1)
        (h.hasIdsFor ids submits.1) submits.2 whole.2 later)

/-- An id is committed for one thing only, in all of a run and at all nodes. -/
theorem Commits.unique (h : c.Sound) (ids : c.HasIdsFor calls.length)
    (submits : ∀ call ∈ calls, call.Submits)
    (whole : c.NoneHalfDone calls) (commits : c.Commits calls x id p)
    (commits' : c.Commits calls y id q) : p = q := by
  induction calls generalizing c with
  | nil =>
    obtain ⟨c', call, meets, -⟩ := commits
    cases meets
  | cons call rest ih =>
    rw [List.forall_mem_cons] at submits
    rw [noneHalfDone_cons] at whole
    obtain ⟨-, ⟨first, gains⟩, -⟩ := h.perform ids.hasIds submits.1
    have sound := h.next ids.hasIds submits.1 whole.1
    have ids := h.hasIdsFor ids submits.1
    -- What this call commits is used from then on, and later calls commit only what is unused.
    rcases commits_cons.1 commits with now | later <;>
      rcases commits_cons.1 commits' with now' | later'
    · exact now.unique gains now'
    · exact absurd (later'.unused sound ids submits.2 whole.2) now.used
    · exact absurd (later.unused sound ids submits.2 whole.2) now'.used
    · exact ih sound ids submits.2 whole.2 later later'

/-- Whatever a log has gained in a run was committed in it. -/
theorem Sound.commits_of_logged (h : c.Sound) (ids : c.HasIdsFor calls.length)
    (submits : ∀ call ∈ calls, call.Submits)
    (whole : c.NoneHalfDone calls) (here : c.node? x = some n)
    (there : (c.performAll calls).node? x = some n') (behind : ¬ n.HasCommitted id)
    (logged : n'.HasCommitted id) : ∃ p, c.Commits calls x id p := by
  induction calls generalizing c n with
  | nil =>
    obtain rfl := Option.mem_unique here there
    exact absurd logged behind
  | cons call rest ih =>
    rw [List.forall_mem_cons] at submits
    rw [noneHalfDone_cons] at whole
    obtain ⟨-, ⟨first, gains⟩, -⟩ := h.perform ids.hasIds submits.1
    obtain ⟨m, between, -⟩ := gains.forth x n here
    by_cases now : m.HasCommitted id
    · obtain ⟨p, commits⟩ := Call.commits_of_logged here between behind now
      exact ⟨p, commits_cons.2 (.inl commits)⟩
    · obtain ⟨p, commits⟩ := ih (h.next ids.hasIds submits.1 whole.1)
        (h.hasIdsFor ids submits.1) submits.2 whole.2 between there now
      exact ⟨p, commits_cons.2 (.inr commits)⟩

theorem Fresh.not_committed (fresh : c.Fresh) (here : c.node? x = some n) :
    ¬ n.HasCommitted id := by
  obtain ⟨_, settings, store, opened, -⟩ := fresh.node here
  rintro ⟨issued, logged⟩
  rw [opened.slot] at logged
  exact absurd logged (Nat.not_le_of_lt issued)

theorem Sound.source (h : c.Sound) (ids : c.HasIdsFor calls.length)
    (submits : ∀ call ∈ calls, call.Submits)
    (whole : c.NoneHalfDone calls) (there : (c.performAll calls).node? x = some n') :
    ∃ n, c.node? x = some n := by
  induction calls generalizing c with
  | nil => exact ⟨n', there⟩
  | cons call rest ih =>
    rw [List.forall_mem_cons] at submits
    rw [noneHalfDone_cons] at whole
    obtain ⟨-, ⟨first, gains⟩, -⟩ := h.perform ids.hasIds submits.1
    obtain ⟨m, between⟩ := ih (h.next ids.hasIds submits.1 whole.1)
      (h.hasIdsFor ids submits.1) submits.2 whole.2 there
    obtain ⟨n, here, -⟩ := gains.back x m between
    exact ⟨n, here⟩

theorem agrees_of_whole (fresh : c.Fresh) (distinct : c.DistinctOrigins)
    (ids : c.HasIdsFor calls.length) (submits : ∀ call ∈ calls, call.Submits)
    (whole : c.NoneHalfDone calls) : c.Agrees calls := by
  have sound := fresh.sound distinct
  have covered {id : TxId} {x : String} {n' : Node}
      (there : (c.performAll calls).node? x = some n') (logged : n'.HasCommitted id) :
      ∃ p, c.Commits calls x id p := by
    obtain ⟨n, here⟩ := sound.source ids submits whole there
    exact sound.commits_of_logged ids submits whole here there (fresh.not_committed here) logged
  intro id
  by_cases some : ∃ x p, c.Commits calls x id p
  · obtain ⟨y, p, commits⟩ := some
    refine ⟨p, fun x n' there logged q => ?_⟩
    obtain ⟨p', commits'⟩ := covered there logged
    constructor
    · exact fun other => other.unique sound ids submits whole commits
    · rintro rfl
      exact commits.unique sound ids submits whole commits' ▸ commits'
  · exact ⟨default, fun x n' there logged => absurd ⟨x, covered there logged⟩ some⟩

/-- Nodes lead after all calls just when no command was done by halves. -/
theorem Sound.neverReissues_iff (h : c.Sound) (ids : c.HasIdsFor calls.length)
    (submits : ∀ call ∈ calls, call.Submits) : c.NeverReissues calls ↔ c.NoneHalfDone calls := by
  induction calls generalizing c with
  | nil => exact iff_of_true (fun _ _ meets => nomatch meets) fun _ _ meets => nomatch meets
  | cons call rest ih =>
    rw [List.forall_mem_cons] at submits
    obtain ⟨calm, -, leads⟩ := h.perform ids.hasIds submits.1
    have left := h.hasIdsFor ids submits.1
    have now : (∀ name n, (call.perform c).node? name = some n →
        (call.perform c).Unused n.sequencer.nextId.1) ↔ ¬ call.HalfDone c := by
      rw [← leads]
      refine forall_congr' fun name => forall_congr' fun n => forall_congr' fun running => ?_
      rw [((calm.nodes name n running).take (left.hasIds name n running) (Nat.zero_le 1)).1]
    rw [neverReissues_cons, now, noneHalfDone_cons]
    exact and_congr_right fun whole => ih (h.next ids.hasIds submits.1 whole) left submits.2

/-- What is committed in a run is carried out. -/
theorem Sound.carriesOut (h : c.Sound) (ids : c.HasIdsFor calls.length)
    (submits : ∀ call ∈ calls, call.Submits) (whole : c.NoneHalfDone calls) :
    c.CarriesOut calls := by
  induction calls generalizing c with
  | nil => exact fun _ _ meets => nomatch meets
  | cons call rest ih =>
    rw [List.forall_mem_cons] at submits
    rw [noneHalfDone_cons] at whole
    rintro c' call' (_ | later)
    · exact fun room x n n' here here' id p commits =>
        h.carriedOut ids.hasIds submits.1 room here here' commits
    · exact ih (h.next ids.hasIds submits.1 whole.1)
        (h.hasIdsFor ids submits.1) submits.2 whole.2 c' call' later

/-- Nodes agree on what ids stand for, and issue none again that is committed, just when no command
is done by halves; and then what they commit is carried out. -/
theorem agrees_iff_noneHalfDone (fresh : c.Fresh) (distinct : c.DistinctOrigins)
    (submits : ∀ call ∈ calls, call.Submits)
    (few : 2 * calls.length + 4 < 18446744073709551616) :
    (c.Agrees calls ∧ c.NeverReissues calls ↔ c.NoneHalfDone calls) ∧
      (c.NoneHalfDone calls → c.CarriesOut calls) := by
  have sound := fresh.sound distinct
  have ids := fresh.hasIdsFor few
  have never := sound.neverReissues_iff ids submits
  refine ⟨⟨fun h => never.1 h.2, fun whole => ?_⟩, sound.carriesOut ids submits⟩
  exact ⟨agrees_of_whole fresh distinct ids submits whole, never.2 whole⟩

theorem pair_distinct {settings : Settings} (valid : settings.validate = .ok ())
    (path : settings.logPath = none) : (pair settings).DistinctOrigins := by
  have origin {x : String} {n : Node} (here : (pair settings).node? x = some n) :
      (x = "a" ∧ n.sequencer.origin = 1) ∨ (x = "b" ∧ n.sequencer.origin = 2) :=
    (pair_node valid path here).imp
      (fun ⟨at_, opened⟩ => ⟨at_, congrArg Sequencer.origin opened.sequencer⟩)
      fun ⟨at_, opened⟩ => ⟨at_, congrArg Sequencer.origin opened.sequencer⟩
  intro x y n m here there same
  rcases origin here with ⟨rfl, atA⟩ | ⟨rfl, atB⟩ <;>
    rcases origin there with ⟨rfl, atA'⟩ | ⟨rfl, atB'⟩ <;>
    first
    | rfl
    | omega

/-- The next command that `a` runs fails there, and then `a` commits a record on its own. -/
def failsOnce : List Call :=
  [.failNext "a" 1, .run "a" "noop", .partition "b", .commit "a" (person 1)]

/-- With a second try for the body, no id is left over. -/
theorem agrees_iff_noneHalfDone_pair :
    (pair Settings.default).Fresh ∧ (pair Settings.default).DistinctOrigins ∧
      (∀ call ∈ failsOnce, call.Submits) ∧
      2 * failsOnce.length + 4 < 18446744073709551616 ∧
      ((pair Settings.default).Agrees failsOnce ∧ (pair Settings.default).NeverReissues failsOnce ↔
        (pair Settings.default).NoneHalfDone failsOnce) ∧
      ((pair Settings.default).NoneHalfDone failsOnce →
        (pair Settings.default).CarriesOut failsOnce) := by
  have fresh : (pair Settings.default).Fresh := pair_fresh rfl rfl
  have distinct : (pair Settings.default).DistinctOrigins := pair_distinct rfl rfl
  have submits : ∀ call ∈ failsOnce, call.Submits := by
    simp [failsOnce, Call.Submits]
  have few : 2 * failsOnce.length + 4 < 18446744073709551616 := by decide
  exact ⟨fresh, distinct, submits, few, agrees_iff_noneHalfDone fresh distinct submits few⟩

theorem commits_of_last? {o i k l : Nat} (before : c.last? x o = some k)
    (after : (call.perform c).last? x o = some l) (issued : k < i) (logged : i ≤ l)
    (purpose : ∀ n, (n.sequencer.slot o).last = k → call.purpose? c n ⟨o, i⟩ = some p) :
    call.Commits c x ⟨o, i⟩ p := by
  obtain ⟨n, here, last⟩ := Option.map_eq_some_iff.1 before
  obtain ⟨n', here', last'⟩ := Option.map_eq_some_iff.1 after
  refine ⟨n, n', here, here', fun h => ?_, ⟨Nat.lt_of_le_of_lt (Nat.zero_le k) issued, ?_⟩,
    purpose n last⟩
  · exact absurd (last ▸ h.2) (Nat.not_le_of_lt issued)
  · exact last' ▸ logged

/-- The body of the command fails at `a` alone, so `b` has committed the id behind it, which `a`
then commits for a change set. -/
theorem not_agrees_half_done : ¬ (pair hasty).Agrees failsOnce := by
  intro agrees
  obtain ⟨p, only⟩ := agrees ⟨1, 2⟩
  have ran : (pair hasty).Commits failsOnce "b" ⟨1, 2⟩ (.after "noop") := by
    refine ⟨_, _, .later .now, commits_of_last? (k := 0) (l := 2) ?_ ?_ ?_ ?_ ?_⟩
    · decide +kernel
    · decide +kernel
    · decide
    · decide
    · intro n last
      unfold Call.purpose?
      rw [last]
      rfl
  have wrote : ∃ t, (pair hasty).Commits failsOnce "a" ⟨1, 2⟩ (.data t) := by
    refine ⟨_, _, _, .later (.later (.later .now)), commits_of_last? (k := 1) (l := 2) ?_ ?_ ?_ ?_
      fun _ _ => rfl⟩
    · decide +kernel
    · decide +kernel
    · decide
    · decide
  have endsA : ((pair hasty).performAll failsOnce).last? "a" 1 = some 2 := by
    decide +kernel
  have endsB : ((pair hasty).performAll failsOnce).last? "b" 1 = some 2 := by
    decide +kernel
  obtain ⟨t, wrote⟩ := wrote
  obtain ⟨a, atA, lastA⟩ := Option.map_eq_some_iff.1 endsA
  obtain ⟨b, atB, lastB⟩ := Option.map_eq_some_iff.1 endsB
  have data := (only "a" a atA ⟨by decide, Nat.le_of_eq lastA.symm⟩ _).1 wrote
  have after := (only "b" b atB ⟨by decide, Nat.le_of_eq lastB.symm⟩ _).1 ran
  rw [← after] at data
  cases data

end Cluster

end QuorumCommit
