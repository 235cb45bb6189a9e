import QuorumCommit.Proofs.Cluster.Running
import QuorumCommit.Proofs.Node.Discipline

/-!
A member that upholds a discipline. It does so through whole transactions and commands of its own,
whatever the others answer, if the discipline admits what they begin at the member itself.
-/
namespace QuorumCommit

namespace Cluster

open Node

variable {D : Discipline} {name : String} {own : Nat} {c c' : Cluster} {n : Node}
  {request : RequestId} {changes : ChangeSet}

def Upholds (D : Discipline) (name : String) (own : Nat) (c : Cluster) : Prop :=
  ∃ n, c.station? name = some (own, .running n) ∧ D.Upheld own n

theorem Upholds.of_station (h : c.Upholds D name own)
    (same : c'.station? name = c.station? name) : c'.Upholds D name own :=
  Running.of_station h same

/-- Whose disk a node writes to is no part of a discipline. -/
theorem upheld_framed (D : Discipline) (own : Nat) : Framed (D.Upheld own) := by
  intro n m _ registry resources h
  exact h.quiet registry (resources ▸ .lend n.resources m.resources.disk)

theorem upheld_lend (h : D.Upheld own n) : D.Upheld own (c.lend n) :=
  (upheld_framed D own).lend h

theorem upholds_takeBack (station : c.station? name = some (own, .running n)) {n' : Node}
    (h : D.Upheld own n') : (c.takeBack name n').Upholds D name own :=
  (upheld_framed D own).takeBack station h

/-- Ids may be issued and taken back, and those issued are of the node. -/
theorem upheld_issuing (D : Discipline) (own : Nat) :
    Issuing (D.Upheld own) (fun id => id.origin = own) where
  take n h := ⟨h.quiet rfl (.nextId n.resources), h.origin⟩
  back _ id h := h.quiet rfl (.releaseId _ id)

theorem upheld_lasting (serves : D.Serves own) : Lasting (D.Upheld own) own where
  framed := upheld_framed D own
  commit message n h :=
    h.movesBy (commit_acts h.orderly (serves.finish message n) (serves.resume message n h))
  rollback message n h := h.movesBy (rollback_acts h.orderly (serves.finish message n))
  settle message apply n h := h.movesBy (settleSchema_acts (D.otherFrom n) h.orderly
    (serves.finish message n) (serves.resume message n h) apply)

/-- A change set may be prepared if the discipline admits that it is begun. -/
theorem upheld_drafts (serves : D.Serves own) {id : TxId}
    (begins : ∀ A message, D.ok A (.begin ⟨own, message⟩ (.data id changes))) :
    Drafts (D.Upheld own) name own id changes := by
  intro message alone
  refine keeps_stepNode (upheld_framed D own) fun n h => h.movesBy ?_
  exact prepareOwn_movesBy h.orderly (fun _ => begins _ message) (serves.finish message n) _ alone

theorem upheld_offers (serves : D.Serves own) {command : String} {before after : TxId}
    (begins : ∀ A message, D.ok A (.begin ⟨own, message⟩ (.schema command before after))) :
    Offers (D.Upheld own) own command before after := by
  intro message n h
  exact h.movesBy
    (prepareSchema_acts h.orderly (fun _ => begins _ message) (serves.finish message n)).1

theorem upholds_commit (serves : D.Serves own)
    (begins : ∀ A message id, D.ok A (.begin ⟨own, message⟩ (.data id changes))) :
    Step.Keeps (Upholds D name own) (commit name changes) :=
  keeps_commit (upheld_lasting serves) (upheld_issuing D own) fun id _ =>
    upheld_drafts serves fun A message => begins A message id

theorem upholds_runCommand_direct (serves : D.Serves own) {command : String}
    (begins : ∀ A message before after, before.origin = own → after.origin = own →
      D.ok A (.begin ⟨own, message⟩ (.schema command before after))) :
    Step.Keeps (Upholds D name own) (runCommand name command .direct) :=
  keeps_runCommand_direct (upheld_lasting serves) (upheld_issuing D own) fun before after first
    second => upheld_offers serves fun A message => begins A message before after first second

/-- A command that is distributed already is run on the node alone. -/
theorem upholds_runCommand_replicated (command : String) :
    Step.Keeps (Upholds D name own) (runCommand name command .replicated) :=
  keeps_stepNode (upheld_framed D own) fun n h =>
    h.movesBy (execute_movesBy (D.otherFrom n) h.keyed command .replicated)

end Cluster

end QuorumCommit
