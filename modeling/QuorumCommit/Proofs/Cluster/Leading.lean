import QuorumCommit.Proofs.Cluster.Runs

/-!
How far the logs of a cluster reach. A node that issues ids leads as long as no other node has
committed the id that it issues next. Calls keep it so, but for a command that fails at the node
that issued its ids after others have run it to the end.
-/
namespace QuorumCommit

namespace Node

variable {n n' : Node} {first : TxId} {o : Nat}

/-- A log has gained ids of one origin from `first` on, or none. -/
structure Gains (n : Node) (first : TxId) (n' : Node) : Prop where
  origin : n'.sequencer.origin = n.sequencer.origin
  others : ∀ o, o ≠ first.origin → (n'.sequencer.slot o).last = (n.sequencer.slot o).last
  own : (n'.sequencer.slot first.origin).last = (n.sequencer.slot first.origin).last ∨
    ((n.sequencer.slot first.origin).last + 1 = first.sequence ∧
      first.sequence ≤ (n'.sequencer.slot first.origin).last)

structure SameLog (n n' : Node) : Prop where
  origin : n'.sequencer.origin = n.sequencer.origin
  last : ∀ o, (n'.sequencer.slot o).last = (n.sequencer.slot o).last

theorem SameLog.gains (h : n.SameLog n') (first : TxId) : n.Gains first n' :=
  ⟨h.origin, fun o _ => h.last o, .inl (h.last _)⟩

theorem Same.log (h : n.Same n') : n.SameLog n' := ⟨h.origin, h.last⟩

theorem Logs.gains (l : n.Logs first n') : n.Gains first n' where
  origin := l.origin
  others o other := by
    obtain same | ⟨-, last⟩ := l.last
    · exact same o
    · rw [last, if_neg other]
  own := l.last.imp (fun same => same _) fun ⟨next, last⟩ =>
    ⟨next.symm, by rw [last, if_pos rfl]⟩

theorem Executed.gains {command : String} (e : n.Executed command first n')
    (next : n.resources.view.IsNext first) : n.Gains first n' where
  origin := e.origin
  others _ other := e.last_other other
  own := by
    refine .inr ⟨next.symm, ?_⟩
    rw [e.last]
    split <;> omega

theorem Gains.last_le (g : n.Gains first n') (o : Nat) :
    (n.sequencer.slot o).last ≤ (n'.sequencer.slot o).last := by
  by_cases own : o = first.origin
  · subst own
    rcases g.own with same | ⟨next, more⟩ <;> omega
  · exact Nat.le_of_eq (g.others o own).symm

end Node

namespace Cluster

variable {c c' : Cluster} {name x : String} {n n' k k' : Node} {first id : TxId}

/-- The logs have gained ids of one origin that no log had. -/
structure Gains (c : Cluster) (first : TxId) (c' : Cluster) : Prop where
  unused : c.Unused first
  forth : ∀ x n, c.node? x = some n → ∃ n', c'.node? x = some n' ∧ n.Gains first n'
  back : ∀ x n', c'.node? x = some n' → ∃ n, c.node? x = some n ∧ n.Gains first n'

theorem Evolved.gains {R : String → Node → Node → Prop} (e : Evolved R c c') (healthy : c.Healthy)
    (unused : c.Unused first)
    (gains : ∀ x n n', c.node? x = some n → R x n n' → n.Gains first n') : c.Gains first c' where
  unused := unused
  forth x n running := by
    obtain ⟨n', running', change⟩ := e.nodes x n running
    exact ⟨n', running', gains x n n' running change⟩
  back x n' running' := by
    obtain ⟨n, running, change⟩ := e.source healthy running'
    exact ⟨n, running, gains x n n' running change⟩

/-- An id of a gain stands behind those that were committed before. -/
theorem Gains.new (g : c.Gains first c') (running : c.node? x = some k)
    (running' : c'.node? x = some k') (behind : (k.sequencer.slot id.origin).last < id.sequence)
    (logged : id.sequence ≤ (k'.sequencer.slot id.origin).last) :
    id.origin = first.origin ∧ first.sequence ≤ id.sequence ∧
      (k.sequencer.slot id.origin).last + 1 = first.sequence := by
  obtain ⟨m, found, gains⟩ := g.back x k' running'
  obtain rfl := Option.mem_unique running found
  by_cases own : id.origin = first.origin
  · rw [own] at behind logged ⊢
    rcases gains.own with same | ⟨next, -⟩
    · omega
    · exact ⟨rfl, by omega, next⟩
  · rw [gains.others _ own] at logged
    omega

theorem Gains.unused_of_logged (g : c.Gains first c') (running : c.node? x = some k)
    (running' : c'.node? x = some k') (behind : (k.sequencer.slot id.origin).last < id.sequence)
    (logged : id.sequence ≤ (k'.sequencer.slot id.origin).last) : c.Unused id := by
  obtain ⟨own, above, -⟩ := g.new running running' behind logged
  intro y m here
  rw [own]
  have below := g.unused y m here
  omega

/-- What no log has after a call no log had before it. -/
theorem Gains.unused_before (g : c.Gains first c') (unused : c'.Unused id) : c.Unused id := by
  intro x n running
  obtain ⟨n', running', gains⟩ := g.forth x n running
  have grows := gains.last_le id.origin
  have below := unused x n' running'
  omega

/-- No two nodes issue the same ids. -/
def DistinctOrigins (c : Cluster) : Prop :=
  ∀ x y n m, c.node? x = some n → c.node? y = some m →
    m.sequencer.origin = n.sequencer.origin → y = x

/-- Nothing is going on, nodes issue ids of their own, and each of them leads. -/
structure Sound (c : Cluster) : Prop where
  calm : c.Calm
  distinct : c.DistinctOrigins
  leads : ∀ name, c.Leads name

theorem Fresh.sound (fresh : c.Fresh) (distinct : c.DistinctOrigins) : c.Sound where
  calm := fresh.calm
  distinct := distinct
  leads name n running x k here := by
    obtain ⟨id, settings, store, opened, -⟩ := fresh.node here
    rw [opened.slot]
    exact Nat.succ_pos _

/-- There is an id that no log has. -/
theorem Sound.unused (h : c.Sound) : ∃ first, c.Unused first := by
  by_cases some : ∃ x n, c.node? x = some n
  · obtain ⟨x, n, running⟩ := some
    exact ⟨n.upcoming 0, h.leads x n running⟩
  · exact ⟨⟨0, 0⟩, fun x n running => absurd ⟨x, n, running⟩ some⟩

theorem Gains.distinct (g : c.Gains first c') (h : c.DistinctOrigins) : c'.DistinctOrigins := by
  intro x y n' m' here' there' same
  obtain ⟨n, here, gains⟩ := g.back x n' here'
  obtain ⟨m, there, gains'⟩ := g.back y m' there'
  rw [gains.origin, gains'.origin] at same
  exact h x y n m here there same

/-- After a call all nodes lead if nobody has got ahead of the one that issued the ids. -/
theorem Gains.leads_iff (g : c.Gains (n.upcoming 0) c') (h : c.Sound)
    (running : c.node? name = some n) (running' : c'.node? name = some n') :
    (∀ y, c'.Leads y) ↔ ∀ x k', c'.node? x = some k' →
      (k'.sequencer.slot n.sequencer.origin).last ≤
        (n'.sequencer.slot n.sequencer.origin).last := by
  obtain ⟨m, found, own⟩ := g.back name n' running'
  obtain rfl := Option.mem_unique running found
  constructor
  · intro leads x k' here
    have behind : (k'.sequencer.slot n'.sequencer.origin).last <
        (n'.sequencer.slot n'.sequencer.origin).last + 0 + 1 := leads name n' running' x k' here
    rw [own.origin] at behind
    omega
  · intro ahead y m' there' x k' here'
    obtain ⟨m, there, gains⟩ := g.back y m' there'
    obtain ⟨k, here, gained⟩ := g.back x k' here'
    have origin : (m'.upcoming 0).origin = m.sequencer.origin := gains.origin
    have sequence : (m'.upcoming 0).sequence = (m'.sequencer.slot m.sequencer.origin).last + 1 := by
      rw [← gains.origin]
      rfl
    rw [origin, sequence]
    -- What a node leads by changes only if the new ids are its own.
    by_cases same : m.sequencer.origin = n.sequencer.origin
    · have issuer := h.distinct name y n m running there same
      subst issuer
      obtain rfl := Option.mem_unique running' there'
      rw [same]
      have level := ahead x k' here'
      omega
    · rw [gained.others _ same, gains.others _ same]
      exact h.leads y m there x k here

/-- A call after which nobody has anything new in its log. -/
theorem Sound.kept (h : c.Sound)
    (forth : ∀ x n, c.node? x = some n → ∃ n', c'.node? x = some n' ∧ n.SameLog n')
    (back : ∀ x n', c'.node? x = some n' → ∃ n, c.node? x = some n ∧ n.SameLog n') :
    (∃ first, c.Gains first c') ∧ ∀ y, c'.Leads y := by
  obtain ⟨first, unused⟩ := h.unused
  refine ⟨⟨first, unused, fun x n running => ?_, fun x n' running' => ?_⟩, ?_⟩
  · obtain ⟨n', running', same⟩ := forth x n running
    exact ⟨n', running', same.gains first⟩
  · obtain ⟨n, running, same⟩ := back x n' running'
    exact ⟨n, running, same.gains first⟩
  · intro y m' there' x k' here'
    obtain ⟨m, there, log⟩ := back y m' there'
    obtain ⟨k, here, log'⟩ := back x k' here'
    have upcoming : m'.upcoming 0 = m.upcoming 0 := by
      unfold Node.upcoming
      rw [log.origin, log.last]
    rw [upcoming, log'.last]
    exact h.leads y m there x k here

/-- Changes of the network have no part in the logs. -/
theorem Sound.rewired (h : c.Sound) (c' : Cluster) (same : ∀ x, c'.node? x = c.node? x) :
    (∃ first, c.Gains first c') ∧ ∀ y, c'.Leads y :=
  h.kept (fun x n running => ⟨n, (same x).trans running, rfl, fun _ => rfl⟩)
    fun x n running => ⟨n, (same x).symm.trans running, rfl, fun _ => rfl⟩

theorem Sound.unlogged (h : c.Sound) (e : Evolved (fun _ => Node.SameLog) c c') :
    (∃ first, c.Gains first c') ∧ ∀ y, c'.Leads y :=
  h.kept e.nodes fun _ _ => e.source h.calm.healthy

theorem Sound.untouched (h : c.Sound) (u : c.Untouched c') :
    (∃ first, c.Gains first c') ∧ ∀ y, c'.Leads y :=
  h.unlogged (u.mono fun _ _ _ _ same => same.log)

theorem Sound.failNext (h : c.Sound) (name : String) (count : Nat) :
    (∃ first, c.Gains first (Call.perform c (.failNext name count))) ∧
      ∀ y, (Call.perform c (.failNext name count)).Leads y :=
  h.unlogged ((failNext_spec c name count).mono fun _ _ _ _ ⟨same, _⟩ =>
    ⟨congrArg Sequencer.origin same, fun o => congrArg (fun s => (s.slot o).last) same⟩)

/-- A commit takes its origin as far as any other node. -/
theorem Sound.wrote (h : c.Sound) {changes : ChangeSet} {done : Committed}
    (w : c.Wrote name changes done c') : c.Gains done.id c' ∧ ∀ y, c'.Leads y := by
  obtain ⟨n, running, id, -⟩ := w.origin
  have gains : c.Gains done.id c' := by
    refine w.logs.gains h.calm.healthy ?_ fun x k k' _ change => change.1.gains
    rw [id]
    exact h.leads name n running
  refine ⟨gains, ?_⟩
  obtain ⟨n', running', -, wrote⟩ := w.logs.nodes name n running
  have origin : done.id.origin = n.sequencer.origin := congrArg TxId.origin id
  rw [id] at gains
  refine (gains.leads_iff h running running').2 fun x k' here' => ?_
  obtain ⟨k, here, logs, -⟩ := w.logs.source h.calm.healthy here'
  have own : (n'.sequencer.slot n.sequencer.origin).last = done.id.sequence := by
    rw [← origin]
    exact (wrote rfl).last
  rw [own]
  obtain same | ⟨-, last⟩ := logs.last
  · have behind := gains.unused x k here
    rw [← id, origin] at behind
    rw [same]
    omega
  · rw [last, if_pos origin.symm]

theorem Executed.gains {command : String} (h : c.Sound) (running : c.node? name = some n)
    (e : c.Executed name command c') : c.Gains (n.upcoming 0) c' := by
  obtain ⟨m, found, nodes⟩ := e
  obtain rfl := Option.mem_unique running found
  refine nodes.gains h.calm.healthy (h.leads name n running) fun x k k' _ change => ?_
  by_cases follows : c.Follows name (n.upcoming 0) x k
  · exact (change.1 follows).gains follows.2
  · exact (change.2 follows).log.gains _

/-- A command gets others ahead of its origin just when its body fails there and not with them. -/
theorem Sound.executed (h : c.Sound) {command : String} (running : c.node? name = some n)
    (e : c.Executed name command c') :
    (∀ y, c'.Leads y) ↔ ¬ (n.bodyFails command (n.upcoming 0) = true ∧
      ∃ x k, c.node? x = some k ∧ c.Follows name (n.upcoming 0) x k ∧
        k.bodyFails command (n.upcoming 0) = false) := by
  have gains := e.gains h running
  obtain ⟨m, found, nodes⟩ := e
  obtain rfl := Option.mem_unique running found
  obtain ⟨n', running', change⟩ := nodes.nodes name n running
  have own := (change.1 ⟨mem_available_self running, upcoming_isNext n⟩).last
  have origin : (n.upcoming 0).origin = n.sequencer.origin := rfl
  rw [origin] at own
  rw [gains.leads_iff h running running', own]
  constructor
  · rintro ahead ⟨fails, x, k, here, follows, done⟩
    obtain ⟨k', here', change'⟩ := nodes.nodes x k here
    have last := (change'.1 follows).last
    rw [origin, if_neg (by rw [done]; exact Bool.false_ne_true)] at last
    have behind := ahead x k' here'
    rw [last, if_pos fails] at behind
    omega
  · intro whole x k' here'
    obtain ⟨k, here, change'⟩ := nodes.source h.calm.healthy here'
    by_cases follows : c.Follows name (n.upcoming 0) x k
    · have last := (change'.1 follows).last
      rw [origin] at last
      rw [last]
      by_cases fails : n.bodyFails command (n.upcoming 0) = true
      · cases there : k.bodyFails command (n.upcoming 0) with
        | true => exact Nat.le_of_eq ((if_pos rfl).trans (if_pos fails).symm)
        | false => exact absurd ⟨fails, x, k, here, follows, there⟩ whole
      · rw [if_neg fails]
        split <;> omega
    · have behind := gains.unused x k here
      rw [origin] at behind
      rw [(change'.2 follows).last]
      split <;> omega

def Call.Submits : Call → Prop
  | catchUp .. => False
  | _ => True

theorem Call.Submits.issues {call : Call} (h : call.Submits) (name : String) (id : TxId)
    (changes : ChangeSet) : call ≠ .catchUp name id changes := by
  rintro rfl
  exact h

/-- A call that runs a command at its origin only up to the first id, as the body fails there, and
to the end at some other node. -/
def Call.HalfDone (c : Cluster) : Call → Prop
  | run name command => ∃ n n', c.node? name = some n ∧
      (perform c (run name command)).node? name = some n' ∧
      (n'.sequencer.slot n.sequencer.origin).last = (n.upcoming 0).sequence ∧
      n.bodyFails command (n.upcoming 0) = true ∧
      ∃ x k, c.node? x = some k ∧ c.Follows name (n.upcoming 0) x k ∧
        k.bodyFails command (n.upcoming 0) = false
  | _ => False

theorem Sound.run (h : c.Sound) (ids : c.HasIds) (name command : String) :
    (Call.perform c (.run name command)).Calm ∧
      (∃ first, c.Gains first (Call.perform c (.run name command))) ∧
      ((∀ y, (Call.perform c (.run name command)).Leads y) ↔
        ¬ Call.HalfDone c (.run name command)) := by
  obtain ⟨calm, outcome⟩ := perform_run h.calm ids (h.leads name) command
  refine ⟨calm, ?_⟩
  rcases outcome with untouched | executed
  · obtain ⟨gains, leads⟩ := h.untouched untouched
    refine ⟨gains, iff_of_true leads ?_⟩
    rintro ⟨n, n', running, running', last, -⟩
    obtain ⟨m, found, same⟩ := untouched.nodes name n running
    obtain rfl := Option.mem_unique running' found
    rw [same.last] at last
    exact absurd last (Nat.ne_of_lt (Nat.lt_succ_self _))
  · have executed' := executed
    obtain ⟨n, running, nodes⟩ := executed'
    obtain ⟨n', running', change⟩ := nodes.nodes name n running
    have own := (change.1 ⟨mem_available_self running, upcoming_isNext n⟩).last
    refine ⟨⟨_, executed.gains h running⟩, (h.executed running executed).trans (not_congr ?_)⟩
    constructor
    · rintro ⟨fails, others⟩
      rw [if_pos fails] at own
      exact ⟨n, n', running, running', own, fails, others⟩
    · rintro ⟨m, m', found, -, -, fails, others⟩
      obtain rfl := Option.mem_unique running found
      exact ⟨fails, others⟩

/-- Between calls the cluster stays sound, as long as no command is done by halves. -/
theorem Sound.perform (h : c.Sound) (ids : c.HasIds) {call : Call} (submits : call.Submits) :
    (call.perform c).Calm ∧ (∃ first, c.Gains first (call.perform c)) ∧
      ((∀ y, (call.perform c).Leads y) ↔ ¬ call.HalfDone c) := by
  cases call with
  | commit name changes =>
    obtain ⟨calm, untouched | ⟨done, wrote⟩⟩ := perform_commit h.calm ids name changes
    · obtain ⟨gains, leads⟩ := h.untouched untouched
      exact ⟨calm, gains, iff_of_true leads id⟩
    · obtain ⟨gains, leads⟩ := h.wrote wrote
      exact ⟨calm, ⟨_, gains⟩, iff_of_true leads id⟩
  | run name command => exact h.run ids name command
  | catchUp name id changes => exact submits.elim
  | partition name =>
    obtain ⟨gains, leads⟩ := h.rewired (c.partition name) fun _ => rfl
    exact ⟨h.calm.partition name, gains, iff_of_true leads id⟩
  | heal name =>
    obtain ⟨gains, leads⟩ := h.rewired (c.heal name) fun _ => rfl
    exact ⟨h.calm.heal name, gains, iff_of_true leads id⟩
  | failNext name count =>
    obtain ⟨gains, leads⟩ := h.failNext name count
    exact ⟨h.calm.failNext name count, gains, iff_of_true leads id⟩

theorem Sound.hasIdsFor (h : c.Sound) {calls : Nat} (ids : c.HasIdsFor (calls + 1)) {call : Call}
    (submits : call.Submits) : (call.perform c).HasIdsFor calls :=
  ids.perform h.calm call submits.issues fun name _ _ => h.leads name

theorem Sound.next (h : c.Sound) (ids : c.HasIds) {call : Call} (submits : call.Submits)
    (whole : ¬ call.HalfDone c) : (call.perform c).Sound := by
  obtain ⟨calm, ⟨first, gains⟩, leads⟩ := h.perform ids submits
  exact ⟨calm, gains.distinct h.distinct, leads.2 whole⟩

end Cluster

end QuorumCommit
