import QuorumCommit.Proofs.Cluster.Retiring
import QuorumCommit.Proofs.Node.Confined

/-!
Offers from the side of the origin. While an offer is made, the origin has an attempt under the
request of the offer; when the offer is over, however it ends, no attempt at the origin is about ids
of its own.
-/
namespace QuorumCommit.Cluster

open Node Discipline

variable {G : Node → Prop} {name command : String} {own : Nat} {c c' : Cluster} {n : Node}
  {before after id : TxId} {changes : ChangeSet} {request : RequestId}

/-- A step of the node ends for the member as it ends for the node. -/
theorem ends_stepNode {α : Type} {step : Step Node α} {E : Node → Prop} {Q : α → Node → Prop}
    (framed : Framed G) (good : ∀ a, Framed (Q a)) (bad : Framed E)
    (h : Step.Ends G step Q E) : Step.Ends (Running G name own) (stepNode name step)
      (fun a => Running (Q a) name own) (Running E name own) := by
  rintro c ⟨n, station, holds⟩
  have ended := h (c.lend n) (framed.lend holds)
  rw [stepNode_running station]
  rcases eq : step (c.lend n) with ⟨fault | a, m⟩
  · rw [eq] at ended
    exact bad.takeBack station ended
  · rw [eq] at ended
    exact (good a).takeBack station ended

theorem ends_notify (targets : List String) (task : Task) (bad : Cluster → Prop) :
    Step.Ends (Running G name own) (notify name targets task)
      (fun _ => Running G name own) bad := by
  intro c h
  obtain ⟨c', told, same⟩ := notify_running name targets task c
  rw [told]
  exact h.of_station same

section

variable (name own)

/-- Work on a request of the member, after which none of its attempts is about ids of its own. -/
theorem ends_decide {α : Type} {step : Step Node α}
    (decided : ∀ n, (confined own (some request)).Upheld own n →
      (abroad own).Upheld own (step n).2) :
    Step.Ends (Running ((confined own (some request)).Upheld own) name own) (stepNode name step)
      (fun _ => Running ((abroad own).Upheld own) name own)
      (Running ((abroad own).Upheld own) name own) := by
  refine ends_stepNode (upheld_framed _ own) (fun _ => upheld_framed _ own) (upheld_framed _ own) ?_
  intro n h
  have after := decided n h
  rcases eq : step n with ⟨fault | a, m⟩
  · rwa [eq] at after
  · rwa [eq] at after

theorem ends_rollbackAt (request : RequestId) :
    Step.Ends (Running ((confined own (some request)).Upheld own) name own)
      (rollbackAt name request) (fun _ => Running ((abroad own).Upheld own) name own)
      (Running ((abroad own).Upheld own) name own) := by
  rintro c ⟨n, station, holds⟩
  unfold rollbackAt
  rw [atNode_running _ station]
  exact (upheld_framed _ own).takeBack station ((upheld_framed _ own).lend holds).rollback

theorem ends_prepareAtOrigin (request : RequestId) (id : TxId) (changes : ChangeSet)
    (alone : Bool) :
    Step.Ends (Running ((abroad own).Upheld own) name own)
      (prepareAtOrigin name request id changes alone)
      (fun _ => Running (fun m => if alone then (abroad own).Upheld own m
        else (confined own (some request)).Upheld own m) name own)
      (Running ((abroad own).Upheld own) name own) := by
  refine ends_stepNode (upheld_framed _ own) (fun _ => ?_) (upheld_framed _ own)
    (ends_draft request id changes (fun b => b.attempt.job.changes?.getD changes) alone)
  cases alone
  · exact upheld_framed _ own
  · exact upheld_framed _ own

end

/-- However an attempt ends, nothing of it is left at the origin. -/
theorem keeps_submit_abroad :
    Step.Keeps (Running ((abroad own).Upheld own) name own) (submit name id changes) := by
  have lasting := upheld_lasting (serves_confined own none)
  have rolledBack (request : RequestId) {α : Type} (fault : Fault) (good : α → Cluster → Prop) :
      Step.Ends (Running ((confined own (some request)).Upheld own) name own)
        (do rollbackAt name request; throw fault : Step Cluster α) good
        (Running ((abroad own).Upheld own) name own) :=
    (ends_rollbackAt name own request).bind fun _ => .throw fault
  unfold submit
  refine Step.Ends.keeps (Step.Keeps.get.ends.bind fun c => endures_getNode.ends.bind fun n =>
    (lasting.endures.requireQuorum _ _).ends.bind fun _ =>
      gives_nextRequest.keeps.ends.bind fun request => ?_)
  refine (ends_prepareAtOrigin name own request id changes _).bind fun final => ?_
  split
  · exact (Step.Keeps.pure final).ends
  · have asked (targets task mode t) : Step.Keeps
        (Running ((confined own (some request)).Upheld own) name own)
        (broadcast name targets task mode t) :=
      fun _ h => h.of_station (station?_broadcast targets mode t)
    refine ((asked _ _ _ _).ends.tryCatch fun fault => rolledBack request fault _).bind fun tally =>
      (ends_notify _ _ _).bind fun _ => ?_
    split
    · exact (ends_decide name own fun n h => h.commit).bind fun _ => (Step.Keeps.pure final).ends
    · exact rolledBack request _ _

theorem framed_offered (request : RequestId) (before after : TxId) :
    Framed (Offered request before after) := by
  rintro n m - registry - ⟨a, command, found, rest⟩
  exact ⟨a, command, registry ▸ found, rest⟩

/-- After an offer no attempt at the origin is about ids of its own. The command is applied only if
both ids are committed there. -/
theorem offerIds_spec (steady : Steady G)
    (h : c.Running (fun n => (abroad own).Upheld own n ∧ G n) name own)
    (agrees : c.Running (fun n => Tally.schemaConflict (n.sequencer.validate before)
      (n.sequencer.validate after) = false) name own) :
    ∃ round c', offerIds name command before after c = (.ok round, c') ∧
      c'.Running (fun n => (abroad own).Upheld own n ∧ G n) name own ∧
      (round.decision = .ok .apply →
        c'.Running (fun n => n.resources.HasDone before ∧ n.resources.HasDone after) name own) ∧
      round.stale = reported own (schemaPoll name command before after c) := by
  have framed := (upheld_framed (abroad own) own).and (steady_framed steady)
  obtain ⟨n, station, ⟨upheld, holds⟩, agrees⟩ := h.and agrees
  obtain ⟨c₁, message, same, ⟨fault, polled, offered⟩ | ⟨nodes, quorum, polled, offered⟩⟩ :=
    offerIds_parts station upheld.origin command before after
  · refine ⟨_, _, offered, ?_, nofun, by rw [polled]; rfl⟩
    exact keeps_count framed _ c₁ ⟨n, same.trans station, upheld, holds⟩
  · obtain ⟨c₂, round, apply, judged, parts, applied, stale⟩ := offerSchema_parts
      (same.trans station) upheld.origin command before after ⟨own, message⟩ nodes quorum
    have upheld₁ := ((upheld_framed _ own).lend (c := c₁) upheld).judge ⟨own, message⟩ command
      before after
    have holds₁ := steady _ _
      (onward_prepareSchema (.start (c₁.lend n)) ⟨own, message⟩ command before after)
      ((steady_framed steady).lend holds)
    have waits₁ := prepareSchema_offered (n := c₁.lend n) ⟨own, message⟩ command agrees
    generalize (prepareSchema ⟨own, message⟩ command before after (c₁.lend n)).2 = m
      at judged upheld₁ holds₁ waits₁
    have framed₂ := (upheld_framed (confined own (some ⟨own, message⟩)) own).and
      ((steady_framed steady).and (framed_offered ⟨own, message⟩ before after))
    obtain ⟨upheld₂, holds₂, waits₂⟩ :=
      framed₂.lend (c := c₂) (framed₂ m m.seen rfl rfl rfl ⟨upheld₁, holds₁, waits₁⟩)
    have settled := keeps_settleSchema ⟨own, message⟩ apply _ (.start (c₂.lend m.seen))
    refine ⟨round, _, offered.trans parts, ?_, fun decided => ?_, by rw [polled]; exact stale⟩
    · rw [stepNode_running judged]
      exact framed.takeBack judged ⟨upheld₂.settle apply, steady _ _ settled holds₂⟩
    · obtain ⟨rfl, ok⟩ := applied decided
      rw [stepNode_running judged] at ok ⊢
      exact ((framed_hasDone before).and (framed_hasDone after)).takeBack judged
        (waits₂.settled (Prod.ext ok rfl))

end QuorumCommit.Cluster
