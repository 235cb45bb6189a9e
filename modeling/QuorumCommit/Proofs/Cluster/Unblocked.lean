import QuorumCommit.Proofs.Cluster.Abroad
import QuorumCommit.Proofs.Cluster.Gapless

/-!
Origins that never block themselves. An attempt to commit a change set and a round for a command
take the next ids of the origin, and give back, in reverse order, those that were not committed,
when nothing promises them any more. So between such calls the next id is the one behind the last
committed, as long as there are ids left.
-/
namespace QuorumCommit

namespace Node

open Discipline

variable {n : Node} {own top k : Nat}

/-- No attempt at the node is about ids of its own, of which those up to `top` are in use. -/
def Ready (own top : Nat) (n : Node) : Prop := (abroad own).Upheld own n ∧ n.Gapless own top

theorem Ready.origin (h : n.Ready own top) : n.sequencer.origin = own := h.1.origin

theorem Ready.done (h : n.Ready own top) (done : n.resources.HasDone ⟨own, top⟩) : n.Ready own 0 :=
  ⟨h.1, h.2.done done⟩

/-- A node on which nothing is going on is ready. -/
theorem Started.ready {settings : Settings} {store : Store} (h : n.Started own settings store)
    (built : store.Built) : n.Ready own 0 := by
  have orderly := h.orderly built
  have none (a : Attempt) (waits : a ∈ n.inFlight.attempts) : a.Confined own none := by
    rw [h.inFlight] at waits
    exact absurd waits (Multiset.notMem_zero a)
  exact ⟨⟨orderly, fun _ => ⟨orderly.sound, none⟩, h.origin⟩, h.gapless⟩

/-- Two ids in a row are agreed to if the first of them is the next one. -/
theorem Ready.agrees (h : n.Ready own top) (last : (n.sequencer.slot own).last = k) :
    Tally.schemaConflict (n.sequencer.validate ⟨own, k + 1⟩)
      (n.sequencer.validate ⟨own, k + 2⟩) = false := by
  have first : n.sequencer.validate ⟨own, k + 1⟩ = .valid := by
    have depth := h.2.depth
    refine Slot.classify_eq_valid.2 ?_
    dsimp only
    exact ⟨by omega, by simp [h.1.promised_eq], by omega⟩
  have second : n.sequencer.validate ⟨own, k + 2⟩ ≠ .alreadyPresent := by
    intro done
    have le := Slot.classify_eq_alreadyPresent.1 done
    dsimp only at le
    omega
  rw [first]
  simp [Tally.schemaConflict, Verdict.mayChange, second]

theorem HasIds.last_lt (ids : n.HasIds) (origin : n.sequencer.origin = own) :
    (n.sequencer.slot own).last + 4 < 18446744073709551616 :=
  origin ▸ ids

def WhileIds (own : Nat) (G : Node → Prop) (n : Node) : Prop :=
  n.sequencer.origin = own ∧ (n.HasIds → G n)

def Spent (own : Nat) (n : Node) : Prop := n.sequencer.origin = own ∧ ¬ n.HasIds

theorem steady_spent (own : Nat) : Steady (Spent own) := by
  intro n m onward ⟨origin, spent⟩
  have same := onward.sequencer.origin
  have last := (onward.sequencer.slots n.sequencer.origin).last
  refine ⟨same.trans origin, fun ids => spent ?_⟩
  unfold HasIds at ids ⊢
  rw [show m.sequencer.origin = n.sequencer.origin from same] at ids
  exact Nat.lt_of_le_of_lt (Nat.add_le_add_right last 4) ids

/-- Issuing ids and taking them back commits none. -/
theorem Same.spent {m : Node} (h : n.Same m) (spent : n.Spent own) : m.Spent own := by
  refine ⟨h.origin.trans spent.1, fun ids => spent.2 ?_⟩
  unfold HasIds at ids ⊢
  rwa [h.origin, h.last] at ids

end Node

namespace Cluster

open Node Discipline

variable {G : Node → Prop} {name command : String} {own top k number : Nat} {c c' c₀ : Cluster}
  {id : TxId} {changes final : ChangeSet}

theorem framed_ready (own top : Nat) : Framed (Ready own top) :=
  (upheld_framed _ own).and (steady_framed (steady_gapless own top))

theorem framed_hasIds : Framed Node.HasIds := by
  intro n m _ _ resources ids
  unfold Node.HasIds Node.sequencer
  rw [resources]
  exact ids

theorem Framed.whileIds (framed : Framed G) : Framed (WhileIds own G) := by
  intro n m settings registry resources ⟨origin, holds⟩
  have back : n.resources = { m.resources with disk := n.resources.disk } := by rw [resources]
  refine ⟨?_, fun ids => framed n m settings registry resources (holds ?_)⟩
  · unfold Node.sequencer
    rw [resources]
    exact origin
  · exact framed_hasIds m n settings.symm registry.symm back ids

theorem spent_issuing : Issuing (Spent own) fun _ => True where
  take n spent := ⟨(Node.Same.nextId n).spent spent, trivial⟩
  back n id spent := (Node.Same.releaseId n id).spent spent

/-- What holds as long as there are ids left goes on to do so, if a member that has none gets none.
-/
theorem Running.whileIds (h : c.Running (WhileIds own G) name own)
    (origin : ∀ n, G n → n.sequencer.origin = own)
    (ready : c.Running (fun n => G n ∧ n.HasIds) name own → c'.Running G name own)
    (spent : c.Running (Spent own) name own → c'.Running (Spent own) name own) :
    c'.Running (WhileIds own G) name own := by
  obtain ⟨n, station, mine, holds⟩ := h
  by_cases ids : n.HasIds
  · exact (ready ⟨n, station, holds ids, ids⟩).mono fun m h => ⟨origin m h, fun _ => h⟩
  · exact (spent ⟨n, station, mine, ids⟩).mono fun m h => ⟨h.1, fun left => absurd left h.2⟩

theorem framed_last (own k : Nat) : Framed fun n => (n.sequencer.slot own).last = k := by
  intro n m _ _ resources last
  unfold Node.sequencer
  rw [resources]
  exact last

/-- The id that is taken is the one behind those in use. -/
theorem takeId_ready
    (h : c.Running (fun n => n.Ready own top ∧ (n.sequencer.slot own).last = k) name own)
    (words : max top k + 2 < 18446744073709551616) :
    ∃ c', takeId name c = (.ok ⟨own, max top k + 1⟩, c') ∧
      c'.Running (fun n => n.Ready own (max top k + 1) ∧ (n.sequencer.slot own).last = k)
        name own := by
  obtain ⟨n, station, holds⟩ := h
  obtain ⟨⟨upheld, gapless⟩, last⟩ :=
    ((framed_ready own top).and (framed_last own k)).lend (c := c) holds
  obtain ⟨next, gapless', last'⟩ := gapless.nextId upheld.promised_eq (last ▸ words)
  rw [last] at next gapless' last'
  have upheld' := ((upheld_issuing (abroad own) own).take _ upheld).1
  refine ⟨_, ?_, ((framed_ready own _).and (framed_last own k)).takeBack station
    ⟨⟨upheld', gapless'⟩, last'⟩⟩
  unfold takeId
  rw [atNode_running _ station]
  exact Prod.ext (congrArg Except.ok next) rfl

/-- The last id in use is given back. -/
theorem giveBackId_ready (h : c.Running (Ready own (top + 1)) name own) :
    (giveBackId name ⟨own, top + 1⟩ c).2.Running (Ready own top) name own := by
  obtain ⟨n, station, holds⟩ := h
  obtain ⟨upheld, gapless⟩ := (framed_ready own (top + 1)).lend (c := c) holds
  unfold giveBackId
  rw [atNode_running _ station]
  exact (framed_ready own top).takeBack station
    ⟨(upheld_issuing (abroad own) own).back _ _ upheld,
      gapless.releaseId (upheld.not_hasPromised _)⟩

/-- Once the first id in use is given back, none is. -/
theorem giveBackId_first
    (h : c.Running (fun n => n.Ready own (k + 1) ∧ n.resources.HasDone ⟨own, k⟩) name own) :
    (giveBackId name ⟨own, k + 1⟩ c).2.Running (Ready own 0) name own :=
  ((giveBackId_ready (h.mono fun _ => And.left)).and
    (keeps_giveBackId_hasDone _ c (h.mono fun _ => And.right))).mono fun _ holds =>
      holds.1.done holds.2

/-- An attempt that succeeds has committed its id at the origin. -/
theorem submit_done (h : c.Running G name own) (ok : submit name id changes c = (.ok final, c')) :
    c'.Running (fun n => n.resources.HasDone id) name own := by
  rw [submit_eq] at ok
  obtain ⟨⟨final', p⟩, c₁, polled, concluded⟩ := Step.bind_eq_ok.1 ok
  have concluded : conclude name final' p c₁ = (.ok final, c') := concluded
  have decided := conclude_decides final' (poll_awaits h polled)
  rw [concluded] at decided
  rcases decided with done | ⟨-, fault, failed⟩
  · exact done
  · cases failed

theorem begin_ready (number : Nat)
    (h : c.Running (fun n => n.Ready own 0 ∧ n.HasIds) name own) :
    ∃ k c', begin name number c = (.ok ⟨own, k + 1⟩, c') ∧
      c'.Running (fun n => n.Ready own (k + 1) ∧ (n.sequencer.slot own).last = k) name own := by
  refine begin_of_takeId ((framed_ready own 0).and framed_hasIds)
    (R := fun r => ∃ k c', r = (.ok ⟨own, k + 1⟩, c') ∧
      c'.Running (fun n => n.Ready own (k + 1) ∧ (n.sequencer.slot own).last = k) name own)
    ?_ h number
  rintro c ⟨n, station, ready, ids⟩
  have ids := ids.last_lt ready.origin
  have taken := takeId_ready (c := c) ⟨n, station, ready, rfl⟩ (by omega)
  rw [Nat.zero_max] at taken
  exact ⟨_, taken⟩

/-- An attempt leaves none of the ids in use. -/
theorem attempt_ready (number : Nat)
    (h : c.Running (fun n => n.Ready own 0 ∧ n.HasIds) name own) :
    (attempt name changes number c).2.Running (Ready own 0) name own := by
  obtain ⟨k, c₁, begun, taken⟩ := begin_ready number h
  have steady := (steady_gapless own (k + 1)).and (steady_hasDone ⟨own, k⟩)
  have upheld :
      (submit name ⟨own, k + 1⟩ changes c₁).2.Running ((abroad own).Upheld own) name own :=
    keeps_submit_abroad c₁ (taken.mono fun n holds => holds.1.1)
  have gapless := keeps_submit (steady_lasting steady own)
    (steady_drafts steady name own ⟨own, k + 1⟩ changes) c₁
    (taken.mono fun n holds => ⟨holds.1.2, Nat.le_of_eq holds.2.symm⟩)
  have after := upheld.and gapless
  rw [attempt_eq, Step.bind_apply, begun]
  dsimp only
  rw [Step.tryCatch_apply, Step.bind_apply]
  rcases submitted : submit name ⟨own, k + 1⟩ changes c₁ with ⟨fault | final, c₂⟩
  · rw [submitted] at after
    have given := giveBackId_first (after.mono fun n holds => ⟨⟨holds.1, holds.2.1⟩, holds.2.2⟩)
    dsimp only
    rw [Step.bind_apply]
    rcases eq : giveBackId name ⟨own, k + 1⟩ c₂ with ⟨later | ⟨⟩, c₃⟩
    · rwa [eq] at given
    · rwa [eq] at given
  · rw [submitted] at after
    exact (after.and (submit_done taken submitted)).mono fun n holds =>
      Ready.done ⟨holds.1.1, holds.1.2.1⟩ holds.2

theorem keeps_commit_ready (changes : ChangeSet) :
    Step.Keeps (Running (WhileIds own (Ready own 0)) name own) (commit name changes) := by
  have spent (number : Nat) : Step.Keeps (Running (Spent own) name own)
      (attempt name changes number) :=
    keeps_attempt (steady_lasting (steady_spent own) own) spent_issuing
      (fun id _ => steady_drafts (steady_spent own) name own id changes) number
  unfold commit
  refine endures_getNode.bind fun n => ?_
  split
  · exact .throw _
  · intro c ready
    exact n.policy.run_spec (P := Running (WhileIds own (Ready own 0)) name own)
      (Q := fun _ r => r.2.Running (WhileIds own (Ready own 0)) name own)
      (fun number c ready => ready.whileIds (fun _ => Ready.origin) (attempt_ready number)
        (spent number c))
      (fun _ _ _ _ after => ⟨after, fun _ later => later⟩) ready

/-- A round that is not applied gives both of its ids back, or the second one if the first is
committed. -/
theorem closeRound_ready {round : Round} (stale : round.stale = [])
    (h : c.Running (fun n => n.Ready own (k + 2) ∧ n.resources.HasDone ⟨own, k⟩) name own)
    (applied : round.decision = .ok .apply →
      c.Running (fun n => n.resources.HasDone ⟨own, k + 2⟩) name own) :
    (closeRound name [⟨own, k + 2⟩, ⟨own, k + 1⟩] round c).2.Running (Ready own 0) name own := by
  rw [closeRound_snd]
  split
  · next decided => exact (h.and (applied decided)).mono fun _ holds => holds.1.1.done holds.2
  · have both : endRound name [⟨own, k + 2⟩, ⟨own, k + 1⟩] [] c =
        (do giveBackId name ⟨own, k + 2⟩; giveBackId name ⟨own, k + 1⟩ : Step Cluster Unit) c :=
      endRound_eq name ⟨own, k + 1⟩ c
    have ready : c.Running (Ready own (k + 1 + 1)) name own := h.mono fun _ => And.left
    have second := (giveBackId_ready ready).and
      (keeps_giveBackId_hasDone ⟨own, k + 2⟩ c (h.mono fun _ => And.right))
    obtain ⟨n, station, -⟩ := h
    have back : giveBackId name ⟨own, k + 2⟩ c = (.ok (), _) := atNode_running _ station
    rw [stale, both, Step.bind_apply]
    rw [back] at second ⊢
    exact giveBackId_first second

/-- A round leaves none of the ids in use, unless one of them is reported as committed. -/
theorem schemaRound_ready
    (h : c.Running (fun n => n.Ready own (k + 2) ∧ (n.sequencer.slot own).last = k) name own)
    (unreported : ∀ p c', schemaPoll name command ⟨own, k + 1⟩ ⟨own, k + 2⟩ c = (.ok p, c') →
      ∀ q ∈ p.replies, ∀ id, q.2.Reports id → id.origin ≠ own) :
    (schemaRound name command ⟨own, k + 1⟩ ⟨own, k + 2⟩ c).2.Running (Ready own 0) name own := by
  have steady := (steady_gapless own (k + 2)).and (steady_hasDone ⟨own, k⟩)
  obtain ⟨round, c₁, offered, ready, applied, stale⟩ := offerIds_spec steady
    (h.mono fun n holds => ⟨holds.1.1, holds.1.2, Nat.le_of_eq holds.2.symm⟩)
    (h.mono fun n holds => holds.1.agrees holds.2)
  have none : reported own (schemaPoll name command ⟨own, k + 1⟩ ⟨own, k + 2⟩ c) = [] := by
    rcases polled : schemaPoll name command ⟨own, k + 1⟩ ⟨own, k + 2⟩ c with ⟨fault | p, c'⟩
    · rfl
    · refine Tally.committedElsewhere_eq_nil fun q mem id same => ?_
      rw [(schemaPoll_regular polled).counted] at mem
      refine unreported p c' polled q mem id ?_
      rw [same]
      exact ⟨rfl, rfl⟩
  rw [schemaRound_eq, Step.bind_apply, offered]
  exact closeRound_ready (stale.trans none)
    (ready.mono fun n holds => ⟨⟨holds.1, holds.2.1⟩, holds.2.2⟩)
    fun decided => (applied decided).mono fun _ => And.right

/-- No member reports an id of the origin as committed when a round is started. -/
def Unreported (c : Cluster) (name command : String) (own : Nat) : Prop :=
  ∀ q ∈ (Offer.schema command).replies name c, ∀ id, q.2.Reports id → id.origin ≠ own

theorem round_ready (h : c.Running (fun n => n.Ready own 0 ∧ n.HasIds) name own)
    (unreported : c.Unreported name command own) :
    (round name command c).2.Running (Ready own 0) name own := by
  obtain ⟨n, station, ready, ids⟩ := h
  have ids := ids.last_lt ready.origin
  obtain ⟨c₁, first, taken⟩ := takeId_ready (c := c) ⟨n, station, ready, rfl⟩ (by omega)
  obtain ⟨c₂, second, taken⟩ := takeId_ready taken (by omega)
  generalize (n.sequencer.slot own).last = k at first second taken
  rw [Nat.zero_max] at first second taken
  rw [Nat.max_eq_left (Nat.le_succ k)] at second taken
  have started : round name command c =
      schemaRound name command ⟨own, k + 1⟩ ⟨own, k + 2⟩ c₂ := by
    unfold round
    rw [Step.bind_apply, first]
    dsimp only
    rw [Step.bind_apply, second]
  rw [started]
  refine schemaRound_ready taken fun p c' polled q mem => unreported q ?_
  have asked : roundPoll name command c = (.ok p, c') := by
    unfold roundPoll
    rw [Step.bind_apply, first]
    dsimp only
    rw [Step.bind_apply, second]
    exact polled
  unfold Offer.replies Offer.poll
  dsimp only
  rw [Step.run_apply, asked]
  exact mem

def RunUnreported (name command : String) (own : Nat) : Nat → Cluster → Prop
  | 0, _ => True
  | more + 1, c => c.Unreported name command own ∧
    ∀ fault c', (round name command).run c = (.ok (.retry fault), c') →
      RunUnreported name command own more ((atNode name fun n => ((), n.count .retries)).run c').2

/-- A round that is not tried again is the only one. -/
theorem Unreported.run_of_error {fault : Fault} (first : c.Unreported name command own)
    (ended : ((round name command).run c).1 = .error fault) :
    ∀ more, RunUnreported name command own more c
  | 0 => trivial
  | more + 1 => by
    refine ⟨first, fun later c' retried => ?_⟩
    rw [retried] at ended
    cases ended

theorem schemaRounds_ready (rounds : Nat) (last : Fault) {more : Nat}
    (h : c.Running (WhileIds own (Ready own 0)) name own)
    (unreported : RunUnreported name command own more c) :
    (schemaRounds name command rounds last more c).2.Running (WhileIds own (Ready own 0)) name
      own := by
  -- By induction on the rounds left: each leaves the origin ready for the next one.
  induction more generalizing c last with
  | zero => exact h
  | succ more ih =>
    obtain ⟨first, later⟩ := unreported
    have lasting := steady_lasting (steady_spent own) own
    have spent : Step.Keeps (Running (Spent own) name own) (round name command) :=
      lasting.endures.round (spent_issuing.endures lasting.framed) fun before after _ _ =>
        (steady_offers (steady_spent own) own command before after).endures lasting.framed
    have ready := h.whileIds (fun _ => Ready.origin) (round_ready · first) (spent c)
    rw [schemaRounds_succ, Step.bind_apply]
    rcases eq : round name command c with ⟨fault | _ | fault | fault, c₁⟩
    · rwa [eq] at ready
    · rwa [eq] at ready
    · rw [eq] at ready
      have counted := keeps_count (framed_ready own 0).whileIds .retries c₁ ready
      have unreported := later fault c₁ eq
      dsimp only
      rw [Step.bind_apply]
      obtain ⟨n, station, -⟩ := ready
      rw [Step.run_apply] at unreported
      rw [atNode_running _ station] at counted unreported ⊢
      exact ih fault counted unreported
    · rwa [eq] at ready

theorem runCommand_ready (h : c.Running (WhileIds own (Ready own 0)) name own)
    (unreported : ∀ n, c.node? name = some n →
      RunUnreported name command own n.settings.rounds c) :
    (runCommand name command .direct c).2.Running (WhileIds own (Ready own 0)) name own := by
  obtain ⟨n, station, ready⟩ := h
  have rounds := unreported n (node?_of_station? station)
  unfold runCommand
  dsimp only
  rw [Step.bind_apply, getNode_running station]
  exact schemaRounds_ready _ _ ⟨n, station, ready⟩ rounds

structure Operation.Foreign (own : Nat) (op : Operation) : Prop where
  single : op.Single
  begins : ∀ job, op.Begins job → job.Foreign own
  fetches : ∀ id t, op = .catchUp id t → id.origin ≠ own

namespace Operation.Foreign

variable {op : Operation}

theorem admitted (h : op.Foreign own) : (abroad own).Admits own op :=
  admits_of_begins (fun _ _ => trivial) (fun _ request upheld => mayResume_confined upheld request)
    (fun _ _ job begun => .inl (h.begins job begun)) fun _ id t same => h.fetches id t same

theorem ready (h : op.Foreign own) (ready : c.Running (WhileIds own (Ready own 0)) name own) :
    (op.perform name c).Running (WhileIds own (Ready own 0)) name own := by
  refine ready.whileIds (fun _ => Ready.origin) (fun ready => ?_)
    (Running.single (steady_spent own) · h.single)
  have upheld : c.Upholds (abroad own) name own := ready.mono fun _ h => h.1.1
  have gapless : c.Running (Gapless own 0) name own := ready.mono fun _ h => h.1.2
  exact Running.and (upheld.perform op h.admitted) (gapless.single (steady_gapless own 0) h.single)

end Operation.Foreign

/-- The clusters that the calls of an origin lead to, whatever comes of them. Meanwhile others do
what is not about ids of the origin, and answer its commands without reporting one as committed. -/
inductive Undisturbed (name : String) (own : Nat) (c₀ : Cluster) : Cluster → Prop where
  | start : Undisturbed name own c₀ c₀
  | transact {c : Cluster} (changes : ChangeSet) : Undisturbed name own c₀ c →
      Undisturbed name own c₀ ((Operation.transact changes).perform name c)
  | run {c : Cluster} (command : String) :
      (∀ n, c.node? name = some n →
        RunUnreported name command own n.settings.rounds c) →
      Undisturbed name own c₀ c →
      Undisturbed name own c₀ ((Operation.run command .direct).perform name c)
  | foreign {c : Cluster} (op : Operation) : op.Foreign own → Undisturbed name own c₀ c →
      Undisturbed name own c₀ (op.perform name c)
  | elsewhere {c c' : Cluster} : c'.station? name = c.station? name →
      Undisturbed name own c₀ c → Undisturbed name own c₀ c'

theorem Undisturbed.ready (h : c₀.Running (WhileIds own (Ready own 0)) name own)
    (calls : Undisturbed name own c₀ c) : c.Running (WhileIds own (Ready own 0)) name own := by
  induction calls with
  | start => exact h
  | transact changes _ ih => exact keeps_commit_ready changes _ ih
  | run command unreported _ ih => exact runCommand_ready ih unreported
  | foreign op foreign _ ih => exact foreign.ready ih
  | elsewhere same _ ih => exact ih.of_station same

/-- Whatever an origin has been asked for: as long as there are ids left, the next one that it
issues is the one behind the last committed, and can be promised. -/
theorem nextId_unblocked {settings : Settings} {store : Store}
    (joined : c.join name own (.closed settings store) = (.ok (), c₀)) (built : store.Built)
    (calls : Undisturbed name own c₀ c') :
    ∃ n, c'.node? name = some n ∧ (n.HasIds →
      n.sequencer.nextId.1 = ⟨own, (n.sequencer.slot own).last + 1⟩ ∧
      n.sequencer.validate n.sequencer.nextId.1 = .valid) := by
  obtain ⟨n₀, opened, started⟩ := join_started joined
  have start : c₀.Running (WhileIds own (Ready own 0)) name own :=
    ⟨n₀, opened, started.origin, fun _ => started.ready built⟩
  obtain ⟨n, station, origin, ready⟩ := calls.ready start
  refine ⟨n, node?_of_station? station, fun ids => ?_⟩
  obtain ⟨upheld, gapless⟩ := ready ids
  have ids := ids.last_lt origin
  exact gapless.valid upheld.promised_eq (by omega)

/-- A command fails at the origin and succeeds at the other node, which then refuses a change set of
the origin; after that the second id of the command is the next one. -/
theorem nextId_unblocked_halved : ∃ c', Undisturbed "a" 1 (single hasty) c' ∧
    (c'.node? "a").map (fun n => (n.sequencer.slot 1).last) = some 1 ∧
    ((commit "a" (person 1)).run halved).1.isOk = false ∧ c'.HasIds ∧
    ∃ n, c'.node? "a" = some n ∧ (n.HasIds →
      n.sequencer.nextId.1 = ⟨1, (n.sequencer.slot 1).last + 1⟩ ∧
      n.sequencer.validate n.sequencer.nextId.1 = .valid) := by
  have failing : Undisturbed "a" 1 (single hasty)
      ((Operation.failNext 1).perform "a" (pair hasty)) :=
    .foreign _ ⟨trivial, nofun, nofun⟩ (.elsewhere (by decide +kernel) .start)
  have agreed : ∀ q ∈ (Offer.schema "noop").replies "a"
      ((Operation.failNext 1).perform "a" (pair hasty)), q.2 = .success := by decide +kernel
  have unreported : Unreported ((Operation.failNext 1).perform "a" (pair hasty)) "a" "noop" 1 := by
    intro q mem id reports
    rw [agreed q mem] at reports
    exact reports.elim
  have ended : ((round "a" "noop").run ((Operation.failNext 1).perform "a" (pair hasty))).1 =
      .error (.storage "command 'noop' failed") := by decide +kernel
  have half : Undisturbed "a" 1 (single hasty) halved :=
    .run "noop" (fun _ _ => unreported.run_of_error ended _) failing
  have refused := half.transact (person 1)
  exact ⟨_, refused, by decide +kernel, by decide +kernel, by decide +kernel,
    nextId_unblocked single_joined (.empty none) refused⟩

end Cluster

end QuorumCommit
