import QuorumCommit.Proofs.Attempt.Keeping
import QuorumCommit.Proofs.Node.Calls

/-!
What no work on a node does. Attempts promise ids, give promises back and commit; only the caller
issues an id or takes one back. So the committed ids of an origin only get more, and an id that was
taken back is not found again unless it was there before. Settings never change.
-/
namespace QuorumCommit

/-- Ids of an origin may have been promised, released and committed, but none was issued and none
taken back. Behind the last committed place nothing is forgotten of that. -/
structure Slot.Onward (s s' : Slot) : Prop where
  last : s.last ≤ s'.last
  nextIssue : s.nextIssue ≤ s'.nextIssue
  recycled : ∀ k ∈ s'.recycled, k ∈ s.recycled
  issued : ∀ k, s'.last < k → k < s'.nextIssue → k < s.nextIssue
  kept : ∀ k ∈ s.recycled, s'.last < k → k ∈ s'.recycled

namespace Slot.Onward

variable {s s' s'' : Slot}

theorem refl (s : Slot) : s.Onward s :=
  ⟨Nat.le_refl _, Nat.le_refl _, fun _ mem => mem, fun _ _ issued => issued, fun _ mem _ => mem⟩

theorem trans (h : s.Onward s') (h' : s'.Onward s'') : s.Onward s'' where
  last := Nat.le_trans h.last h'.last
  nextIssue := Nat.le_trans h.nextIssue h'.nextIssue
  recycled k mem := h.recycled k (h'.recycled k mem)
  issued k after issued :=
    h.issued k (Nat.lt_of_le_of_lt h'.last after) (h'.issued k after issued)
  kept k mem after := h'.kept k (h.kept k mem (Nat.lt_of_le_of_lt h'.last after)) after

/-- Promises are no part of it. -/
theorem of_bare (same : s'.bare = s.bare) : s.Onward s' where
  last := Nat.le_of_eq (congrArg Slot.last same).symm
  nextIssue := Nat.le_of_eq (congrArg Slot.nextIssue same :).symm
  recycled _ mem := (congrArg Slot.recycled same :) ▸ mem
  issued _ _ issued := (congrArg Slot.nextIssue same :) ▸ issued
  kept _ mem _ := (congrArg Slot.recycled same :) ▸ mem

theorem commit {n offset : Nat} (next : s.last ≤ n) : s.Onward (s.commit n offset) where
  last := next
  nextIssue := Nat.le_max_left _ _
  recycled k mem := by
    simp only [Slot.commit, Std.ExtTreeSet.mem_filter, Std.ExtTreeSet.get_eq] at mem
    exact mem.1
  issued k after issued := by
    have behind := Sequencer.following_le n
    simp only [Slot.commit] at after issued
    omega
  kept k mem after := by
    simp only [Slot.commit, Std.ExtTreeSet.mem_filter, Std.ExtTreeSet.get_eq, decide_eq_true_eq]
    exact ⟨mem, Nat.le_trans (Sequencer.following_le n) after⟩

end Slot.Onward

structure Sequencer.Onward (s s' : Sequencer) : Prop where
  origin : s'.origin = s.origin
  depth : s'.depth = s.depth
  slots : ∀ o, (s.slot o).Onward (s'.slot o)

namespace Sequencer.Onward

variable {s s' s'' : Sequencer}

theorem refl (s : Sequencer) : s.Onward s := ⟨rfl, rfl, fun _ => .refl _⟩

theorem trans (h : s.Onward s') (h' : s'.Onward s'') : s.Onward s'' :=
  ⟨h'.origin.trans h.origin, h'.depth.trans h.depth, fun o => (h.slots o).trans (h'.slots o)⟩

theorem onSlot {o : Nat} {f : Slot → Slot} (step : (s.slot o).Onward (f (s.slot o))) :
    s.Onward (s.onSlot o f) := by
  refine ⟨rfl, rfl, fun p => ?_⟩
  rw [slot_onSlot]
  split
  · next same =>
    subst same
    exact step
  · exact .refl _

theorem promised (h : s.Onward s') {id : TxId} (ok : s'.tryPromise id = .ok s'') :
    s.Onward s'' := by
  obtain ⟨-, rfl⟩ := tryPromise_eq_ok.1 ok
  exact h.trans (.onSlot (.of_bare (Slot.bare_promise _ _)))

theorem marked (h : s.Onward s') (id : TxId) : s.Onward (s'.markPromised id) :=
  h.trans (.onSlot (.of_bare (Slot.bare_markPromised _ _)))

theorem released (h : s.Onward s') (ids : List TxId) : s.Onward (ids.foldl releasePromise s') := by
  obtain ⟨frame, bare, -⟩ := releasePromises_spec s' ids
  exact h.trans ⟨congrArg (·.1) frame, congrArg (·.2.1) frame, fun o => .of_bare (bare o)⟩

theorem advanced (h : s.Onward s') {id : TxId}
    (next : id.sequence = (s'.slot id.origin).last + 1) : s.Onward (s'.advance id) := by
  refine h.trans ⟨rfl, rfl, fun o => ?_⟩
  rw [slot_advance]
  split
  · next same =>
    subst same
    exact .commit (by omega)
  · exact .refl _

theorem committed (h : s.Onward s') {j : Journal} (here : j.sequencer = s') (disk : FileTree)
    (id : TxId) : s.Onward (j.commit disk id).2.1.sequencer := by
  subst here
  rcases j.commit_cases disk id with ⟨fault, eq⟩ | ⟨next, disk', eq | ⟨-, fault, eq⟩⟩
  · rw [eq]
    exact h
  · rw [eq]
    exact h.advanced next
  · rw [eq]
    exact h.advanced next

end Sequencer.Onward

namespace Attempt

variable {s : Sequencer} {b : State}

def From (s : Sequencer) (b : State) : Prop := s.Onward b.resources.sequencer

theorem From.releaseAll (h : From s b) : From s (releaseAll b) := h.released b.attempt.promised

theorem From.destroy (h : From s b) : From s (destroy b) := by
  unfold Attempt.destroy
  split
  · exact h
  · exact h.releaseAll

theorem From.setStatus (h : From s b) (status : AttemptStatus) : From s (setStatus status b).2 := by
  unfold Attempt.setStatus
  split
  · exact h
  · dsimp only
    split
    · exact From.releaseAll (b := ⟨{ b.attempt with status := status }, b.resources⟩) h
    · exact h

theorem From.fail (h : From s b) (fault : Fault) : From s (fail fault b) := by
  have after := h.setStatus (.ofFault fault)
  unfold Attempt.fail
  split
  · next eq =>
    rw [eq] at after
    exact after
  · next eq =>
    rw [eq] at after
    exact after

theorem From.discard {a : Attempt} {r : Resources} (h : s.Onward r.sequencer) :
    s.Onward (a.discard r).sequencer :=
  From.destroy (b := ⟨a, r⟩) h

theorem keeps_promise (id : TxId) : Step.Keeps (From s) (promise id) := by
  intro b h
  unfold promise
  split
  · exact h
  · next ok => exact h.promised ok

theorem from_places : SurvivesPlaces (From s) := fun _ _ _ _ _ _ _ h => h

theorem keeps_prepare (atOrigin : Bool) : Step.Keeps (From s) (Attempt.prepare atOrigin) :=
  kept_prepare (fun b h => keeps_promise b.attempt.job.id b h) from_places
    (fun _ _ _ h => h) atOrigin

theorem keeps_apply : Step.Keeps (From s) Attempt.apply := by
  intro b h
  unfold Attempt.apply
  split
  · exact h
  · next id changes _ =>
    have committed := Sequencer.Onward.committed h rfl b.resources.disk id
    dsimp only
    split
    · next eq =>
      rw [eq] at committed
      exact committed
    · next eq =>
      rw [eq] at committed
      split <;> exact committed

end Attempt

namespace Node

open Attempt

variable {s : Sequencer} {n : Node} {b : State} {request : RequestId} {id : TxId} {t : ChangeSet}

/-- A node with these settings that came from a sequencer without an id being issued or taken
back. -/
structure Onward (settings : Settings) (s : Sequencer) (n : Node) : Prop where
  settings : n.settings = settings
  sequencer : s.Onward n.resources.sequencer

variable {p : Settings}

theorem Onward.start (n : Node) : Onward n.settings n.resources.sequencer n := ⟨rfl, .refl _⟩

theorem Onward.congr (h : n.Onward p s) {m : Node} (settings : m.settings = n.settings)
    (journal : m.resources.journal = n.resources.journal) : m.Onward p s := by
  refine ⟨settings.trans h.settings, ?_⟩
  unfold Resources.sequencer
  rw [journal]
  exact h.sequencer

theorem Onward.noteFailure (h : n.Onward p s) (fault : Fault) :
    (n.noteFailure fault).Onward p s := by
  obtain ⟨resources, -, settings⟩ := noteFailure_resources n fault
  exact h.congr settings (congrArg Resources.journal resources)

theorem Onward.discard (h : n.Onward p s) (from_ : From s b) : (n.discard b).Onward p s :=
  ⟨h.settings, from_.destroy⟩

theorem Onward.park (h : n.Onward p s) (from_ : From s b) : (n.park b).Onward p s := by
  unfold Node.park Registry.register
  cases n.registry.get? b.attempt.request with
  | none => exact ⟨h.settings, from_⟩
  | some old => exact ⟨h.settings, From.discard from_⟩

/-- Preparing takes nothing but promises. -/
theorem Onward.prepared (h : n.Onward p s) (request : RequestId) (id : TxId) (t : ChangeSet)
    (atOrigin : Bool) : From s (Attempt.prepare atOrigin (n.newAttempt request (.data id t))).2 :=
  keeps_prepare atOrigin _ h.sequencer

theorem keeps_prepare (request : RequestId) (id : TxId) (t : ChangeSet) (atOrigin : Bool)
    (retries : Nat) : Step.Keeps (Onward p s) (prepare request id t atOrigin retries) := by
  intro n h
  have from_ := h.prepared request id t atOrigin
  have counted : ((n.count .started).timePhase1).Onward p s := h.congr rfl rfl
  unfold prepare
  simp only [Step.run_apply]
  rcases eq : Attempt.prepare atOrigin (n.newAttempt request (.data id t)) with ⟨fault | _, b⟩
  · rw [eq] at from_
    dsimp only
    split
    · exact (counted.noteFailure fault).discard from_
    · exact (counted.noteFailure fault).park (from_.fail fault)
  · rw [eq] at from_
    exact counted.park (from_.setStatus _)

theorem onward_prepareFrom (h : n.Onward p s) (request : RequestId) (id : TxId) (t : ChangeSet)
    (retries more : Nat) : (prepareFrom request id t retries more n).2.Onward p s := by
  induction more generalizing n retries with
  | zero =>
    unfold prepareFrom
    exact keeps_prepare request id t false retries n h
  | succ more ih =>
    have first := keeps_prepare request id t false retries n h
    unfold prepareFrom
    simp only [Step.run_apply]
    split
    · next eq =>
      rw [eq] at first
      exact ih first (retries + 1)
    · next eq =>
      rw [eq] at first
      exact first

theorem keeps_prepareOwn (request : RequestId) (id : TxId) (t : ChangeSet) :
    Step.Keeps (Onward p s) (prepareOwn request id t) := by
  intro n h
  have from_ := h.prepared request id t true
  have counted : ((n.count .started).timePhase1).Onward p s := h.congr rfl rfl
  unfold prepareOwn
  simp only [Step.run_apply]
  rcases eq : Attempt.prepare true (n.newAttempt request (.data id t)) with ⟨fault | _, b⟩
  · rw [eq] at from_
    exact (counted.noteFailure fault).discard from_
  · exact counted

theorem prepareOwn_from (h : n.Onward p s) {m : Node}
    (ok : prepareOwn request id t n = (.ok b, m)) : From s b := by
  have from_ := h.prepared request id t true
  unfold prepareOwn at ok
  simp only [Step.run_apply] at ok
  rcases eq : Attempt.prepare true (n.newAttempt request (.data id t)) with ⟨fault | _, b'⟩
  · rw [eq] at ok
    cases ok
  · rw [eq] at ok from_
    cases ok
    exact from_.setStatus _

theorem keeps_finish (from_ : From s b) : Step.Keeps (Onward p s) (finish b) := by
  intro n h
  have applied := keeps_apply b from_
  unfold finish
  simp only [Step.run_apply]
  rcases eq : Attempt.apply b with ⟨result, b'⟩
  rw [eq] at applied
  have discarded := Onward.discard (n := n.timeCommit) (h.congr rfl rfl) applied
  dsimp only
  split
  · exact discarded.congr rfl rfl
  · exact discarded
  · exact discarded.congr rfl rfl

/-- Preparing anew leaves the node so, and an attempt that it makes ready too. -/
theorem onward_prepareAnew (h : n.Onward p s) (request : RequestId) (id : TxId) (t : ChangeSet)
    (more : Nat) : (prepareAnew request id t more n).2.Onward p s ∧
      ∀ b, (prepareAnew request id t more n).1 = .prepared b → From s b := by
  induction more generalizing n with
  | zero => exact ⟨h, fun _ same => by cases same⟩
  | succ more ih =>
    have counted : (n.count .retries).Onward p s := h.congr rfl rfl
    have from_ := counted.prepared request id t false
    unfold prepareAnew
    dsimp only
    cases (n.count .retries).sequencer.validate id with
    | alreadyPresent => exact ⟨counted, fun _ same => by cases same⟩
    | missingPrevious => exact ih counted
    | alreadyPromised | valid =>
      dsimp only
      simp only [Step.run_apply]
      rcases eq : Attempt.prepare false ((n.count .retries).newAttempt request (.data id t)) with
        ⟨fault | _, b⟩
      · rw [eq] at from_
        have discarded := counted.discard from_
        dsimp only
        split
        · exact ih (discarded.noteFailure _)
        · exact ih discarded
        · exact ⟨discarded, fun _ same => by cases same⟩
      · rw [eq] at from_
        refine ⟨counted, fun b' same => ?_⟩
        cases same
        exact from_.setStatus _

theorem keeps_resolve (request : RequestId) (id : TxId) (t : ChangeSet) :
    Step.Keeps (Onward p s) (resolve request id t) := by
  intro n h
  obtain ⟨onward, prepared⟩ := onward_prepareAnew h request id t n.settings.maxAutoRetry
  unfold resolve
  rcases eq : prepareAnew request id t n.settings.maxAutoRetry n with ⟨_ | b | _, m⟩
  · rw [eq] at onward
    exact onward
  · rw [eq] at onward prepared
    exact keeps_finish (prepared b rfl) m onward
  · rw [eq] at onward
    exact onward.congr rfl rfl

theorem keeps_commit (request : RequestId) : Step.Keeps (Onward p s) (commit request) := by
  intro n h
  cases waits : n.waiting? request with
  | none =>
    unfold commit
    rw [waits]
    exact h
  | some b =>
    have from_ : From s b := by
      unfold waiting? at waits
      obtain ⟨a, -, rfl⟩ := Option.map_eq_some_iff.1 waits
      exact h.sequencer
    have forgot : (n.forget request).Onward p s := h.congr rfl rfl
    have settled : (settle b (n.forget request)).2.Onward p s := by
      unfold settle
      split
      · exact keeps_finish from_ _ forgot
      · split
        · exact forgot.discard from_
        · exact keeps_resolve _ _ _ _ (forgot.discard from_)
    unfold commit
    rw [waits]
    dsimp only
    split
    · next eq =>
      rw [eq] at settled
      exact settled
    · next eq =>
      rw [eq] at settled
      exact settled

theorem onward_rollback (h : n.Onward p s) (request : RequestId) :
    (rollback request n).2.Onward p s := by
  unfold rollback waiting?
  cases n.registry.get? request with
  | none => exact h
  | some a =>
    have discarded := Onward.discard (n := n.forget request) (b := ⟨a, n.resources⟩)
      (h.congr rfl rfl) h.sequencer
    exact discarded.congr rfl rfl

theorem keeps_catchUp (id : TxId) (t : ChangeSet) : Step.Keeps (Onward p s) (catchUp id t) := by
  intro n h
  have placed := kept_preallocate from_places (n.newAttempt catchUpRequest (.data id t)) h.sequencer
  unfold catchUp
  split
  · exact h
  · simp only [Step.run_apply]
    rcases eq : Attempt.preallocate (n.newAttempt catchUpRequest (.data id t)) with ⟨fault | _, b⟩
    · rw [eq] at placed
      exact h.discard placed
    · rw [eq] at placed
      have applied := keeps_apply (succeed b) (placed.setStatus _)
      dsimp only
      rcases eq' : Attempt.apply (succeed b) with ⟨fault | _, b'⟩
      · rw [eq'] at applied
        exact h.discard applied
      · rw [eq'] at applied
        exact (h.discard applied).congr rfl rfl

theorem Onward.close (h : n.Onward p s) : n.close.Onward p s := by
  refine ⟨h.settings, ?_⟩
  have discarded (attempts : List Attempt) (r : Resources) (start : s.Onward r.sequencer) :
      s.Onward (attempts.foldl (fun r a => a.discard r) r).sequencer := by
    induction attempts generalizing r with
    | nil => exact start
    | cons a rest ih => exact ih _ (From.discard start)
  exact discarded _ _ h.sequencer

theorem onward_prepareSchema (h : n.Onward p s) (request : RequestId) (command : String)
    (before after : TxId) : (prepareSchema request command before after n).2.Onward p s := by
  cases judged : Tally.schemaConflict (n.sequencer.validate before)
      (n.sequencer.validate after) with
  | true =>
    obtain ⟨id, -, eq⟩ := prepareSchema_refused request command judged
    rw [eq]
    exact h.park (b := ⟨refused request command before after, n.resources⟩) h.sequencer
  | false =>
    rw [prepareSchema_agreed request command judged]
    exact h.park (b := ⟨offered request command before after, n.resources.offer before after⟩)
      ((h.sequencer.marked before).marked after)

theorem keeps_commitId (id : TxId) : Step.Keeps (Onward p s) (commitId id) := by
  intro n h
  have committed := h.sequencer.committed rfl n.resources.disk id
  unfold commitId
  dsimp only
  split
  · next eq =>
    rw [eq] at committed
    exact ⟨h.settings, committed⟩
  · next eq =>
    rw [eq] at committed
    exact ⟨h.settings, committed⟩

theorem keeps_execute (command : String) (mode : RunMode) :
    Step.Keeps (Onward p s) (execute command mode) := by
  intro n h
  unfold execute
  split
  exact h.congr rfl rfl

theorem keeps_runBody (command : String) (more : Nat) :
    Step.Keeps (Onward p s) (runBody command more) := by
  induction more with
  | zero => exact keeps_execute command .replicated
  | succ more ih =>
    intro n h
    have ran := keeps_execute command .replicated n h
    unfold runBody
    simp only [Step.run_apply]
    split
    · next eq =>
      rw [eq] at ran
      exact ran
    · next eq =>
      rw [eq] at ran
      exact ih _ (ran.congr rfl rfl)

theorem keeps_runBetween (command : String) (before after : TxId) :
    Step.Keeps (Onward p s) (runBetween command before after) := by
  intro n h
  unfold runBetween
  simp only [Step.run_apply]
  exact (keeps_commitId before).bind (fun _ => (keeps_runBody command _).bind fun _ =>
    keeps_commitId after) n h

theorem keeps_finishSchema (from_ : From s b) (command : String) (before after : TxId) :
    Step.Keeps (Onward p s) (finishSchema b command before after) := by
  intro n h
  have ran := keeps_runBetween command before after { n with resources := b.resources }
    ⟨h.settings, from_⟩
  unfold finishSchema
  split
  · next m eq =>
    rw [eq] at ran
    have discarded := Onward.discard (b := markApplied ⟨b.attempt, m.resources⟩) ran ran.sequencer
    exact discarded.congr rfl rfl
  · next m eq =>
    rw [eq] at ran
    have discarded := Onward.discard (b := ⟨b.attempt, m.resources⟩) ran ran.sequencer
    exact discarded.congr rfl rfl

theorem keeps_resolveSchema (request : RequestId) (command : String) (before after : TxId)
    (more : Nat) : Step.Keeps (Onward p s) (resolveSchema request command before after more) := by
  induction more with
  | zero => exact fun _ h => h.congr rfl rfl
  | succ more ih =>
    intro n h
    have judged := onward_prepareSchema h request command before after
    unfold resolveSchema waiting?
    dsimp only
    rcases eq : prepareSchema request command before after n with ⟨reply, m⟩
    rw [eq] at judged
    dsimp only at judged ⊢
    cases m.registry.get? request with
    | none => exact ih m judged
    | some a =>
      have forgot : (m.forget request).Onward p s := judged.congr rfl rfl
      dsimp only [Option.map_some]
      split
      · exact keeps_finishSchema (b := ⟨a, m.resources⟩) judged.sequencer _ _ _ _ forgot
      · exact ih _ (forgot.discard judged.sequencer)

theorem keeps_settleSchema (request : RequestId) (apply : Bool) :
    Step.Keeps (Onward p s) (settleSchema request apply) := by
  intro n h
  unfold settleSchema waiting?
  cases n.registry.get? request with
  | none => exact h
  | some a =>
    have forgot : (n.forget request).Onward p s := h.congr rfl rfl
    have discarded := Onward.discard (b := ⟨a, n.resources⟩) forgot h.sequencer
    dsimp only [Option.map_some]
    split
    · split
      · exact discarded
      · split
        · exact keeps_finishSchema (b := ⟨a, n.resources⟩) h.sequencer _ _ _ _ forgot
        · exact keeps_resolveSchema _ _ _ _ _ _ discarded
    · exact discarded

/-- No phase issues an id or takes one back. -/
theorem onward_call (h : n.Onward p s) (call : Call) : (call.perform n).Onward p s := by
  cases call with
  | prepare request id t atOrigin retries => exact keeps_prepare request id t atOrigin retries n h
  | commit request => exact keeps_commit request n h
  | rollback request => exact onward_rollback h request
  | prepareSchema request command before after =>
    exact onward_prepareSchema h request command before after
  | settleSchema request apply => exact keeps_settleSchema request apply n h

/-- Nor does a node issue an id, or take one back, when it answers a task. -/
theorem onward_answer (h : n.Onward p s) (task : Task) : (answer task n).2.Onward p s := by
  unfold answer
  cases task with
  | firstPhase request id changes => exact onward_prepareFrom h request id changes 0 _
  | secondPhase request commit =>
    cases commit with
    | false => exact onward_rollback h request
    | true =>
      have committed := keeps_commit request n h
      unfold answerCommit
      simp only [Step.run_apply]
      rcases eq : Node.commit request n with ⟨fault | _, m⟩
      · rw [eq] at committed
        exact committed
      · rw [eq] at committed
        exact committed
  | schemaFirstPhase request command before after =>
    exact onward_prepareSchema h request command before after
  | schemaSecondPhase request apply => exact keeps_settleSchema request apply n h

end Node

end QuorumCommit
