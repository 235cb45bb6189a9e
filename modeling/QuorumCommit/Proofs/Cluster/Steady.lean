import QuorumCommit.Proofs.Cluster.History
import QuorumCommit.Proofs.Node.Onward

/-!
What lasts at a member although it works. A steady property is one of settings and ids that survives
promises and commits; it lasts through whatever the member is asked for, as long as it survives that
ids are issued and taken back as well.
-/
namespace QuorumCommit

namespace Node

variable {n : Node} {p : Settings} {s : Sequencer}

/-- A node prepares a change set of its own, and applies it at once or lets it wait. -/
theorem onward_draft (h : n.Onward p s) (request : RequestId) (id : TxId) (t : ChangeSet)
    {α : Type} (result : Attempt.State → α) (alone : Bool) :
    (((do
      let b ← prepareOwn request id t
      if alone then
        Node.finish b
        pure (result b)
      else
        modify (·.park b)
        pure (result b)) : Step Node α) n).2.Onward p s := by
  have prepared := keeps_prepareOwn request id t n h
  rw [Step.bind_apply]
  rcases eq : prepareOwn request id t n with ⟨fault | b, m⟩
  · rw [eq] at prepared
    exact prepared
  · rw [eq] at prepared
    have from_ := prepareOwn_from h eq
    cases alone with
    | true => exact (keeps_finish from_).bind (fun _ => .pure _) m prepared
    | false => exact prepared.park from_

/-- The property survives whatever neither issues an id nor takes one back. -/
def Steady (G : Node → Prop) : Prop :=
  ∀ n m : Node, m.Onward n.settings n.resources.sequencer → G n → G m

theorem steady_settings (p : Settings) : Steady fun n => n.settings = p :=
  fun _ _ onward settings => onward.settings.trans settings

end Node

namespace Cluster

open Node

variable {G : Node → Prop} {q : TxId → Prop} {name : String} {own : Nat} {c c₀ c' : Cluster}
  {P : Operation → Prop}

section

variable (steady : Steady G)

include steady

theorem steady_framed : Framed G := by
  intro n m settings _ resources h
  refine steady n m ((Onward.start n).congr settings ?_) h
  rw [resources]

theorem steady_lasting (own : Nat) : Lasting G own where
  framed := steady_framed steady
  commit _ n h := steady n _ (Node.keeps_commit _ n (.start n)) h
  rollback _ n h := steady n _ (onward_rollback (.start n) _) h
  settle _ _ n h := steady n _ (keeps_settleSchema _ _ n (.start n)) h

theorem steady_drafts (name : String) (own : Nat) (id : TxId) (changes : ChangeSet) :
    Drafts G name own id changes := fun _ alone =>
  keeps_stepNode (steady_framed steady) fun n h =>
    steady n _ (onward_draft (.start n) _ id changes _ alone) h

theorem steady_offers (own : Nat) (command : String) (before after : TxId) :
    Offers G own command before after := fun _ n h =>
  steady n _ (onward_prepareSchema (.start n) _ command before after) h

def Operation.Single : Operation → Prop
  | .transact _ | .run _ .direct => False
  | _ => True

theorem Running.single (h : c.Running G name own) {op : Operation} (single : op.Single) :
    (op.perform name c).Running G name own := by
  have framed := steady_framed steady
  unfold Operation.perform
  cases op with
  | call phase => exact keeps_atNode framed (fun n => steady n _ (onward_call (.start n) phase)) c h
  | answer sender task =>
    obtain ⟨n, station, holds⟩ := h
    dsimp only
    rw [answerAt_of_station? station]
    exact framed.takeBack station (steady _ _ (onward_answer (.start _) task) (framed.lend holds))
  | catchUp id t =>
    exact keeps_stepNode framed (fun n => steady n _ (keeps_catchUp id t n (.start n))) c h
  | transact changes => cases single
  | run command mode =>
    cases mode with
    | direct => cases single
    | replicated =>
      exact keeps_stepNode framed
        (fun n => steady n _ (keeps_execute command .replicated n (.start n))) c h
  | close => exact keeps_atNode framed (fun n => steady n _ (Onward.start n).close) c h
  | failNext count =>
    exact keeps_atNode framed (fun n => steady n _ ((Onward.start n).congr rfl rfl)) c h

theorem Running.perform (issuing : Issuing G q) (h : c.Running G name own) (op : Operation) :
    (op.perform name c).Running G name own := by
  have lasting := steady_lasting steady own
  cases op with
  | transact changes =>
    exact keeps_commit lasting issuing (fun id _ => steady_drafts steady name own id changes) c h
  | run command mode =>
    cases mode with
    | direct =>
      exact keeps_runCommand_direct lasting issuing
        (fun before after _ _ => steady_offers steady own command before after) c h
    | replicated => exact h.single steady trivial
  | call | answer | catchUp | close | failNext => exact h.single steady trivial

theorem Running.history (issuing : Issuing G q) (h : c₀.Running G name own)
    (history : History name P c₀ c) : c.Running G name own := by
  induction history with
  | start => exact h
  | step op _ _ ih => exact ih.perform steady issuing op
  | elsewhere same _ ih => exact ih.of_station same

end

theorem issuing_settings (p : Settings) : Issuing (fun n => n.settings = p) fun _ => True where
  take _ h := ⟨h, trivial⟩
  back _ _ h := h

/-- The settings of a node are not changed by whatever it is asked for. -/
theorem settings_of_history {p : Settings} (h : c₀.Running (·.settings = p) name own)
    (history : History name P c₀ c) : c.Running (·.settings = p) name own :=
  h.history (steady_settings p) (issuing_settings p) history

end Cluster

end QuorumCommit
