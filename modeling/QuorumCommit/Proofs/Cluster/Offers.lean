import QuorumCommit.Proofs.Cluster.Outstanding
import QuorumCommit.Proofs.Node.Reports

/-!
Offers of one origin. Each attempt to commit a change set and each round for a command offers new
ids to the members that can be reached; whatever the origin is asked to commit or to run comes to
such offers, one after the other. Ids are words, so only so many offers can be made.
-/
namespace QuorumCommit.Cluster

/-- An attempt to commit a change set, or a round for a command. -/
inductive Offer where
  | data (changes : ChangeSet) (number : Nat)
  | schema (command : String)

namespace Offer

def perform (name : String) (c : Cluster) : Offer → Cluster
  | data changes number => ((attempt name changes number).run c).2
  | schema command => ((round name command).run c).2

def poll (name : String) : Offer → Step Cluster Poll
  | data changes number => do
    let (_, p) ← attemptPoll name changes number
    pure p
  | schema command => roundPoll name command

def replies (name : String) (c : Cluster) (o : Offer) : List (String × Reply) :=
  match (o.poll name).run c with
  | (.ok p, _) => p.replies
  | (.error _, _) => []

theorem mem_replies {name : String} {c : Cluster} {o : Offer} {q : String × Reply}
    (mem : q ∈ o.replies name c) : ∃ p c', o.poll name c = (.ok p, c') ∧ q ∈ p.replies := by
  unfold replies at mem
  rw [Step.run_apply] at mem
  rcases eq : o.poll name c with ⟨fault | p, c'⟩
  · rw [eq] at mem
    cases mem
  · rw [eq] at mem
    exact ⟨p, c', rfl, mem⟩

def IsSchema : Offer → Prop
  | data .. => False
  | schema _ => True

end Offer

/-- The member has words left for the ids of one offer. -/
def HasWords (c : Cluster) (name : String) : Prop :=
  (c.node? name).all fun n => n.HasWords n.sequencer.origin 2

instance (c : Cluster) (name : String) : Decidable (c.HasWords name) :=
  inferInstanceAs (Decidable (_ = true))

/-- The clusters that offers of an origin lead to, as long as there are words for their ids. Ids may
also be issued on demand; in between, the origin may be asked for anything that issues no id, and
others may do whatever leaves the origin what it is. -/
inductive Course (name : String) (c₀ : Cluster) : Cluster → Prop where
  | start : Course name c₀ c₀
  | offer {c : Cluster} (o : Offer) : c.HasWords name → Course name c₀ c →
      Course name c₀ (o.perform name c)
  | issue {c : Cluster} : c.HasWords name → Course name c₀ c →
      Course name c₀ ((takeId name).run c).2
  | count {c : Cluster} (counter : Counter) : Course name c₀ c →
      Course name c₀ ((atNode name fun n => ((), n.count counter)).run c).2
  | work {c : Cluster} (op : Operation) : op.Single → Course name c₀ c →
      Course name c₀ (op.perform name c)
  | elsewhere {c c' : Cluster} : c'.station? name = c.station? name → Course name c₀ c →
      Course name c₀ c'

variable {name command : String} {own : Nat} {known out : List Nat} {c₀ c c' : Cluster}

theorem Running.hasWords (h : c.Running (Node.Books own known out) name own)
    (words : c.HasWords name) :
    c.Running (Node.HasWords own 2) name own := by
  obtain ⟨n, station, books⟩ := h
  unfold HasWords at words
  rw [node?_of_station? station, Option.all_some, decide_eq_true_eq, books.origin] at words
  exact ⟨n, station, words⟩

def Genuine (c : Cluster) : Prop :=
  ∀ x id prompts received, c.station? x ≠ some (id, .scripted prompts received)

namespace Genuine

variable {x sender target : String} {task : Task} {targets : List String}
  {replies : List (String × Reply)} {id before after : TxId} {changes final : ChangeSet} {p : Poll}

theorem of_stations (h : c.Genuine) (same : ∀ x, c'.station? x = c.station? x) : c'.Genuine :=
  fun x id prompts received found => h x id prompts received ((same x).symm.trans found)

theorem of_members (h : c.members.toList.all fun p => ! p.2.role matches .scripted ..) :
    c.Genuine := by
  intro x id prompts received found
  obtain ⟨m, known, eq⟩ := Option.map_eq_some_iff.1 found
  have listed := Std.ExtTreeMap.mem_toList_iff_getElem?_eq_some.2 known
  have plain := List.all_eq_true.1 h _ listed
  have role : m.role = .scripted prompts received := (congrArg (·.2) eq :)
  dsimp only at plain
  rw [role] at plain
  cases plain

theorem takeBack (h : c.Genuine) (n : Node) : (c.takeBack x n).Genuine := by
  intro y id prompts received found
  rw [station?_takeBack] at found
  split at found
  · obtain ⟨s, -, eq⟩ := Option.map_eq_some_iff.1 found
    cases eq
  · exact h y id prompts received found

theorem keeps_atNode {α : Type} (work : Node → α × Node) :
    Step.Keeps Genuine (atNode name work) := by
  intro c h
  unfold atNode
  split
  · exact h
  · exact h.takeBack _

theorem keeps_stepNode {α : Type} (step : Step Node α) :
    Step.Keeps Genuine (stepNode name step) := by
  intro c h
  rw [stepNode_snd]
  exact keeps_atNode _ c h

theorem keeps_nextRequest : Step.Keeps Genuine (nextRequest name) :=
  fun _ h => h.of_stations fun _ => (nextRequest_station name).1

theorem keeps_takeId : Step.Keeps Genuine (takeId name) := keeps_atNode _

theorem keeps_begin (number : Nat) : Step.Keeps Genuine (begin name number) := by
  unfold begin
  split
  · exact (keeps_atNode _).bind fun _ => keeps_takeId
  · exact keeps_takeId

theorem keeps_prepareAtOrigin (request : RequestId) (id : TxId) (changes : ChangeSet)
    (alone : Bool) : Step.Keeps Genuine (prepareAtOrigin name request id changes alone) :=
  keeps_stepNode _

/-- A task that reaches a member is answered by its node. -/
theorem answerAt (sender target : String) (task : Task) (h : c.Genuine) :
    (c.answerAt sender target task).2.Genuine ∧
    ∀ reply, (c.answerAt sender target task).1 = some reply →
      ∃ n : Node, reply = (n.answer task).1 := by
  unfold Cluster.answerAt
  split
  · next n _ =>
    exact ⟨h.takeBack _, fun reply answered => ⟨c.lend n, (Option.some.inj answered).symm⟩⟩
  · next prompts received role =>
    obtain ⟨m, found, scripted⟩ := Option.map_eq_some_iff.1 role
    refine absurd ?_ (h target m.id prompts received)
    unfold station?
    rw [found, Option.map_some, scripted]
  · exact ⟨h, nofun⟩

theorem deliver (sender target : String) (task : Task) (h : c.Genuine) :
    (c.deliver sender target task).2.Genuine ∧
    ∀ reply, (c.deliver sender target task).1 = some reply →
      ∃ n : Node, reply = (n.answer task).1 := by
  have sent : Genuine { c with sent := c.sent + 1 } := h
  obtain ⟨kept, answers⟩ := sent.answerAt sender target task
  unfold Cluster.deliver
  dsimp only
  split
  · generalize Cluster.answerAt { c with sent := c.sent + 1 } sender target task = r
      at kept answers ⊢
    rcases r with ⟨_ | reply, c₁⟩
    · exact ⟨kept, nofun⟩
    · exact ⟨kept, answers⟩
  · exact ⟨h, nofun⟩

theorem ask (h : c.Genuine) : ∀ q ∈ (ask sender task targets c).1,
    ∃ n : Node, q.2 = (n.answer task).1 := by
  induction targets generalizing c with
  | nil => exact nofun
  | cons target rest ih =>
    obtain ⟨kept, answers⟩ := h.deliver sender target task
    unfold Cluster.ask
    generalize c.deliver sender target task = r at kept answers ⊢
    rcases r with ⟨_ | reply, c₁⟩
    · exact ih kept
    · exact List.forall_mem_cons.2 ⟨answers reply rfl, ih kept⟩

theorem askAll (h : c.Genuine) (asked : askAll sender targets task c = (.ok replies, c')) :
    ∀ q ∈ replies, ∃ n : Node, q.2 = (n.answer task).1 := by
  have taken : (c.takeSendFault sender).2.Genuine :=
    h.of_stations fun _ => station?_takeSendFault sender
  unfold Cluster.askAll at asked
  rcases eq : c.takeSendFault sender with ⟨_ | fault, c₁⟩
  · rw [eq] at asked taken
    cases asked
    exact taken.ask
  · rw [eq] at asked
    cases asked

/-- Who is asked about a change set reports no other id than the one that it is offered under. -/
theorem reports_poll (h : c.Genuine) (polled : poll name id changes c = (.ok (final, p), c')) :
    ∀ q ∈ p.replies, ∀ reported, q.2.Reports reported → reported = id := by
  obtain ⟨n, request, c₁, c₂, others, -, -, called, prepared, asked, rfl⟩ := poll_parts polled
  refine List.forall_mem_cons.2 ⟨fun _ none => none.elim, fun q mem reported reports => ?_⟩
  rcases askOthers_ok asked with ⟨-, rfl, -⟩ | ⟨-, asked⟩
  · cases mem
  · have genuine₁ := keeps_nextRequest.of_eq called h
    have genuine₂ := (keeps_prepareAtOrigin request id changes _).of_eq prepared genuine₁
    obtain ⟨m, same⟩ := genuine₂.askAll asked q mem
    rw [same] at reports
    exact Node.reports_prepareFrom reports

/-- Who is asked about a command reports one of its two ids, and not by an exception. -/
theorem reports_schemaPoll (h : c.Genuine)
    (polled : schemaPoll name command before after c = (.ok p, c')) :
    ∀ q ∈ p.replies, ∀ reported, q.2.Reports reported →
      (reported = before ∨ reported = after) ∧ q.2 = .invalid reported .alreadyPresent := by
  obtain ⟨n, request, c₁, reply, c₂, others, _, called, running, judged, asked, rfl⟩ :=
    schemaPoll_parts polled
  have genuine₁ := keeps_nextRequest.of_eq called h
  have genuine₂ := (keeps_atNode _).of_eq judged genuine₁
  refine List.forall_mem_cons.2 ⟨fun reported reports => ?_, fun q mem reported reports => ?_⟩
  · unfold atNode at judged
    rw [running] at judged
    cases judged
    exact Node.reports_prepareSchema reports
  · obtain ⟨m, same⟩ := genuine₂.askAll asked q mem
    rw [same] at reports ⊢
    exact Node.reports_prepareSchema reports

end Genuine

end QuorumCommit.Cluster
