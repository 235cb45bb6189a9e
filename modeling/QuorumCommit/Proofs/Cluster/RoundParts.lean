import QuorumCommit.Proofs.Cluster.Polling
import QuorumCommit.Proofs.Cluster.Running
import QuorumCommit.Proofs.Node.Onward

/-!
The parts of a round for a command. The origin offers the two ids, unless too few members can be
reached; the round is closed according to the decision.
-/
namespace QuorumCommit.Cluster

open Node

variable {name command : String} {own : Nat} {c : Cluster} {n : Node} {before after : TxId}

def offerIds (name command : String) (before after : TxId) : Step Cluster Round := do
  let request ← nextRequest name
  let nodes := (← get).available name
  let quorum := (← getNode name).settings.replication.maxWriteQuorum [] nodes.size
  tryCatch
    (do
      requireQuorum name quorum nodes
      offerSchema name command before after request nodes quorum)
    fun fault => pure ⟨.error fault, []⟩

def closeRound (name : String) (ids : List TxId) (round : Round) :
    Step Cluster Tally.SchemaDecision :=
  match round.decision with
  | .ok .apply => pure .apply
  | .ok decision => do
    endRound name ids round.stale
    pure decision
  | .error fault => do
    endRound name ids round.stale
    throw fault

theorem schemaRound_eq (name command : String) (before after : TxId) :
    schemaRound name command before after = (do
      let round ← offerIds name command before after
      closeRound name [after, before] round : Step Cluster Tally.SchemaDecision) := by
  unfold schemaRound offerIds
  simp only [bind_assoc]
  rfl

/-- The ids of a round are given back unless its command was applied. -/
theorem closeRound_snd (name : String) (ids : List TxId) (round : Round) (c : Cluster) :
    (closeRound name ids round c).2 = if round.decision = .ok .apply then c
      else (endRound name ids round.stale c).2 := by
  obtain ⟨decision, stale⟩ := round
  have ended {α : Type} (rest : Step Cluster α) (same : ∀ c, (rest c).2 = c) :
      ((do endRound name ids stale; rest : Step Cluster α) c).2 =
        (endRound name ids stale c).2 := by
    rw [Step.bind_apply]
    rcases endRound name ids stale c with ⟨_ | _, c'⟩
    · rfl
    · exact same c'
  rcases decision with fault | _ | fault | fault
  · exact ended (throw fault) fun _ => rfl
  · rfl
  · exact ended (pure (Tally.SchemaDecision.retry fault)) fun _ => rfl
  · exact ended (pure (Tally.SchemaDecision.abort fault)) fun _ => rfl

/-- Telling others never fails, and leaves the member what it is. -/
theorem notify_running (name : String) (targets : List String) (task : Task) (c : Cluster) :
    ∃ c', notify name targets task c = (.ok (), c') ∧ c'.station? name = c.station? name :=
  ⟨_, rfl, station?_notify targets⟩

theorem confirmSchema_running (name : String) (targets : List String) (request : RequestId)
    (apply : Bool) (c : Cluster) : ∃ c', c'.station? name = c.station? name ∧
      confirmSchema name targets request apply c =
        stepNode name (settleSchema request apply) c' := by
  obtain ⟨c', told, same⟩ := notify_running name targets (.schemaSecondPhase request apply) c
  refine ⟨c', same, ?_⟩
  unfold confirmSchema
  rw [Step.bind_apply, told]

/-- The ids of the origin that are reported as committed in a first phase, if it comes about. -/
def reported (own : Nat) : Except Fault Poll × Cluster → List TxId
  | (.ok p, _) => p.tally.committedElsewhere own
  | (.error _, _) => []

/-- The origin judges its command first, and last it carries the decision out. -/
theorem offerSchema_parts (station : c.station? name = some (own, .running n))
    (origin : n.sequencer.origin = own) (command : String) (before after : TxId)
    (request : RequestId) (nodes : Std.ExtTreeSet String) (quorum : Nat) :
    ∃ c₁ round apply,
      c₁.station? name =
        some (own, .running (prepareSchema request command before after (c.lend n)).2.seen) ∧
      offerSchema name command before after request nodes quorum c =
        (.ok round, (stepNode name (settleSchema request apply) c₁).2) ∧
      (round.decision = .ok .apply →
        apply = true ∧ (stepNode name (settleSchema request apply) c₁).1 = .ok ()) ∧
      round.stale = reported own (askSchema name command before after request nodes quorum c) := by
  have judged := atNode_running (prepareSchema request command before after) station
  have returned := takeBack_running station (prepareSchema request command before after
    (c.lend n)).2
  have same : (prepareSchema request command before after
    (c.lend n)).2.seen.sequencer.origin = own :=
    (onward_prepareSchema (.start (c.lend n)) request command before after).sequencer.origin.trans
      origin
  generalize prepareSchema request command before after (c.lend n) = r at judged returned same ⊢
  unfold offerSchema askSchema
  simp only [Step.bind_apply]
  rw [judged]
  dsimp only
  rw [getNode_running returned, broadcast_awaited]
  dsimp only
  rw [same]
  simp only [Step.run_apply, Step.bind_apply]
  rcases asked : askAll name (nodes.toList.filter (· ≠ name))
    (.schemaFirstPhase request command before after) (c.takeBack name r.2)
    with ⟨fault | replies, c₂⟩
  -- Where the others cannot be asked at all, the command is dropped.
  · obtain ⟨c₃, told, confirmed⟩ := confirmSchema_running name (nodes.toList.filter (· ≠ name))
      request false c₂
    have station₃ := (told.trans (station?_askAll asked)).trans returned
    dsimp only
    rw [confirmed]
    rcases settled : stepNode name (settleSchema request false) c₃ with ⟨later | ⟨⟩, c₄⟩
    · exact ⟨c₃, ⟨.error later, []⟩, false, station₃, by rw [settled], nofun, rfl⟩
    · exact ⟨c₃, ⟨.error fault, []⟩, false, station₃, by rw [settled], nofun, rfl⟩
  · simp only [Step.pure_apply]
    generalize counted : ((Tally.start request nodes nodes.size quorum).receive name
      r.1).receiveAll replies = tally
    obtain ⟨c₃, told, confirmed⟩ := confirmSchema_running name (nodes.toList.filter (· ≠ name))
      request (tally.schemaDecision = .apply) c₂
    have station₃ := (told.trans (station?_askAll asked)).trans returned
    rw [confirmed]
    have stale : tally.committedElsewhere own = reported own
        (.ok ⟨[before, after], request, nodes, quorum, (name, r.1) :: replies⟩, c₂) := by
      rw [← counted]
      rfl
    rcases settled : stepNode name (settleSchema request (tally.schemaDecision = .apply)) c₃ with
      ⟨later | ⟨⟩, c₄⟩
    · exact ⟨c₃, ⟨.error later, tally.committedElsewhere own⟩, _, station₃, by rw [settled], nofun,
        stale⟩
    · refine ⟨c₃, ⟨.ok tally.schemaDecision, tally.committedElsewhere own⟩, _, station₃,
        by rw [settled], fun decided => ⟨?_, by rw [settled]⟩, stale⟩
      exact decide_eq_true (Except.ok.inj decided)

/-- Either too few members can be reached, or the ids are offered; the origin has taken no other
step before. -/
theorem offerIds_parts (station : c.station? name = some (own, .running n))
    (origin : n.sequencer.origin = own) (command : String) (before after : TxId) :
    ∃ c₁ message, c₁.station? name = c.station? name ∧
      ((∃ fault, schemaPoll name command before after c =
          (.error fault, (atNode name fun n => ((), n.count .insufficientNodes)) c₁ |>.2) ∧
        offerIds name command before after c =
          (.ok ⟨.error fault, []⟩, (atNode name fun n => ((), n.count .insufficientNodes))
            c₁ |>.2)) ∨
      ∃ nodes quorum,
        schemaPoll name command before after c =
          askSchema name command before after ⟨own, message⟩ nodes quorum c₁ ∧
        offerIds name command before after c =
          offerSchema name command before after ⟨own, message⟩ nodes quorum c₁) := by
  obtain ⟨same, next⟩ := nextRequest_station (c := c) (x := name) name
  obtain ⟨message, called⟩ := next own _ station
  rcases eq : nextRequest name c with ⟨r, c₁⟩
  rw [eq] at same called
  dsimp only at same called
  subst called
  have station₁ := same.trans station
  refine ⟨c₁, message, same, ?_⟩
  unfold schemaPoll offerIds
  simp only [Step.bind_apply, eq, Step.get_apply, getNode_running station₁, Step.tryCatch_apply]
  generalize n.settings.replication.maxWriteQuorum [] (c₁.available name).size = quorum
  by_cases few : (c₁.available name).size < quorum
  · have refused : requireQuorum name quorum (c₁.available name) c₁ =
        (.error (.tooFewNodes quorum (c₁.available name).size (c₁.available name)),
          (atNode name fun n => ((), n.count .insufficientNodes)) c₁ |>.2) := by
      unfold requireQuorum
      rw [if_pos few, Step.bind_apply, atNode_running _ station₁]
      rfl
    rw [refused]
    exact .inl ⟨_, rfl, rfl⟩
  · have passed : requireQuorum name quorum (c₁.available name) c₁ = (.ok (), c₁) := by
      unfold requireQuorum
      rw [if_neg few]
      rfl
    obtain ⟨c₂, round, apply, -, offered, -⟩ := offerSchema_parts station₁ origin command before
      after ⟨own, message⟩ (c₁.available name) quorum
    rw [passed]
    exact .inr ⟨c₁.available name, quorum, rfl, by dsimp only; rw [offered]⟩

end QuorumCommit.Cluster
