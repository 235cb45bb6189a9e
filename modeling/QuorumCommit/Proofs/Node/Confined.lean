import QuorumCommit.Proofs.Node.Discipline
import QuorumCommit.Proofs.Node.Pledge

/-!
Ids of one origin at one request. While a node offers ids of its own, only the attempt under the
request of the offer is about them; when the offer is decided, nothing waits under the request any
more, and no id of the origin is promised.
-/
namespace QuorumCommit

variable {own : Nat} {q : Option RequestId}

def Job.Foreign (own : Nat) (job : Job) : Prop := ∀ id ∈ job.ids, id.origin ≠ own

theorem Job.Develops.foreign {room : Prop} {job job' : Job} (develops : Develops room job job')
    (foreign : job.Foreign own) : job'.Foreign own := by
  cases develops <;> exact foreign

/-- Ids of the origin are begun for one request, if for any, and are not fetched. -/
def Deed.Confined (own : Nat) (q : Option RequestId) : Deed → Prop
  | begin request job => job.Foreign own ∨ q = some request
  | fetch id _ => id.origin ≠ own
  | finish _ | other => True

def Attempt.Confined (own : Nat) (q : Option RequestId) (a : Attempt) : Prop :=
  a.job.Foreign own ∨ q = some a.request

theorem InFlight.confined_keptBy : KeptBy (fun _ d => d.Confined own q)
    fun w => w.Sound ∧ ∀ a ∈ w.attempts, a.Confined own q := by
  rintro w d w' ⟨sound, confined⟩ allowed act
  refine ⟨Sound.keptBy (fun _ d => d.Confined own q) w d w' sound allowed act, ?_⟩
  cases act with
  | @begun A r b request id t u t' fit status =>
    refine Multiset.forall_mem_cons.2 ⟨?_, confined⟩
    unfold Attempt.Confined
    rw [fit.job, fit.request]
    exact allowed
  | @fetched A r b id t t' fetched =>
    refine Multiset.forall_mem_cons.2 ⟨.inl ?_, confined⟩
    rw [fetched.job]
    exact List.forall_mem_singleton.2 allowed
  | @shelved A r a request job shelved =>
    refine Multiset.forall_mem_cons.2 ⟨?_, confined⟩
    unfold Attempt.Confined
    rw [shelved.request]
    exact allowed.imp_left shelved.job.foreign
  | offered request command before after => exact Multiset.forall_mem_cons.2 ⟨allowed, confined⟩
  | applied | settled | discarded => exact (Multiset.forall_mem_cons.1 confined).2
  | tried | missed | noted | unsaved | quiet => exact confined

namespace Discipline

def confined (own : Nat) (q : Option RequestId) : Discipline where
  ok _ d := d.Confined own q
  binds _ := True
  invariant w := w.Sound ∧ ∀ a ∈ w.attempts, a.Confined own q
  back := .trivial
  kept := InFlight.confined_keptBy.keptWhile _
  other _ := trivial

def abroad (own : Nat) : Discipline := confined own none

open Node

variable {n : Node} {request : RequestId}

theorem Upheld.confines (h : (Discipline.confined own q).Upheld own n) :
    ∀ a ∈ n.registry.all, a.Confined own q :=
  (h.holds trivial).2

theorem mayResume_confined (h : (confined own q).Upheld own n) (request : RequestId) :
    MayResume ((confined own q).okFrom n) request n := by
  intro a found _
  have known := h.confines a (Registry.mem_all.2 ⟨request, found⟩)
  unfold Attempt.Confined at known
  rwa [h.keyed _ _ found] at known

theorem serves_confined (own : Nat) (q : Option RequestId) : (confined own q).Serves own :=
  ⟨fun _ _ _ _ _ _ => trivial, fun message _ h => mayResume_confined h ⟨own, message⟩⟩

/-- A request may be given to ids of the origin. -/
theorem Upheld.confine (h : (abroad own).Upheld own n) (request : RequestId) :
    (confined own (some request)).Upheld own n :=
  ⟨h.orderly, fun _ => ⟨h.sound, fun a mem => .inl ((h.confines a mem).resolve_right nofun)⟩,
    h.origin⟩

/-- The request has nothing to do with ids of the origin any more. -/
theorem Upheld.clear (h : (confined own (some request)).Upheld own n)
    (gone : ∀ a, n.registry.get? request = some a → a.job.Foreign own) :
    (abroad own).Upheld own n := by
  refine ⟨h.orderly, fun _ => ⟨h.sound, fun a mem => ?_⟩, h.origin⟩
  rcases h.confines a mem with foreign | same
  · exact .inl foreign
  · obtain rfl := Option.some.inj same
    exact .inl (gone a (h.keyed.get?_of_mem mem))

theorem Upheld.clear_of_none (h : (confined own (some request)).Upheld own n)
    (none : n.registry.get? request = none) : (abroad own).Upheld own n :=
  h.clear fun a found => by
    rw [none] at found
    cases found

/-- Whatever is promised is the business of some attempt. -/
theorem Upheld.promised_eq (h : (abroad own).Upheld own n) :
    (n.sequencer.slot own).promised = ∅ := by
  refine Std.ExtTreeSet.ext_mem fun k => ?_
  refine ⟨fun mem => ?_, fun mem => absurd mem Std.ExtTreeSet.not_mem_empty⟩
  have promised : n.resources.HasPromised ⟨own, k⟩ := mem
  obtain ⟨a, waits, listed⟩ := h.sound.promises _ promised
  have foreign := (h.confines a waits).resolve_right nofun
  exact absurd rfl (foreign _ ((h.sound.sane a waits).promised _ listed))

theorem Upheld.not_hasPromised (h : (abroad own).Upheld own n) (k : Nat) :
    ¬ n.resources.HasPromised ⟨own, k⟩ := by
  intro promised
  have mem : k ∈ (n.sequencer.slot own).promised := promised
  simp [h.promised_eq] at mem

end Discipline

namespace Node

variable {n : Node} {request : RequestId} {id before after : TxId} {t : ChangeSet}
  {command : String} {b : Attempt.State}

/-- A change set of the node's own is not registered when it is prepared. -/
theorem prepareOwn_registry (n : Node) (request : RequestId) (id : TxId) (t : ChangeSet) :
    (prepareOwn request id t n).2.registry = n.registry := by
  unfold prepareOwn
  simp only [Step.run_apply]
  rcases Attempt.prepare true (n.newAttempt request (.data id t)) with ⟨fault | _, b⟩
  · exact (noteFailure_resources ((n.count .started).timePhase1) fault).2.1
  · rfl

theorem resolve_registry (orderly : n.Orderly) :
    (resolve request id t n).2.registry = n.registry := by
  have anew : Anew (fun _ _ => True) n request
      (prepareAnew request id t n.settings.maxAutoRetry n) := prepareAnew_acts orderly _ trivial
  unfold resolve
  rcases eq : prepareAnew request id t n.settings.maxAutoRetry n with ⟨_ | b | _, m⟩
  · rw [eq] at anew
    exact anew.1
  · rw [eq] at anew
    exact (finish_frame b m).1.trans anew.1
  · rw [eq] at anew
    exact anew.1

theorem waiting?_eq_none (waits : n.waiting? request = none) :
    n.registry.get? request = none :=
  Option.map_eq_none_iff.1 waits

theorem forget_clears (n : Node) (request : RequestId) :
    (n.forget request).registry.get? request = none :=
  Registry.get?_erase.trans (if_pos rfl)

theorem commit_clears (orderly : n.Orderly) (request : RequestId) :
    (Node.commit request n).2.registry.get? request = none := by
  cases waits : n.waiting? request with
  | none =>
    unfold Node.commit
    rw [waits]
    exact waiting?_eq_none waits
  | some b =>
    have registry : (settle b (n.forget request)).2.registry = (n.forget request).registry := by
      unfold settle
      split
      · exact (finish_frame b _).1
      · split
        · rfl
        · have discarded : MovesBy (fun _ _ => True) n ((n.forget request).discard b) :=
            discard_acts orderly waits fun _ _ _ => trivial
          exact resolve_registry (discarded.orderly orderly)
    rw [commit_waiting waits, registry]
    exact forget_clears n request

theorem rollback_clears (n : Node) (request : RequestId) :
    (Node.rollback request n).2.registry.get? request = none := by
  unfold Node.rollback
  cases waits : n.waiting? request with
  | none => exact waiting?_eq_none waits
  | some b => exact forget_clears n request

theorem finishSchema_registry (b : Attempt.State) (command : String) (before after : TxId)
    (n : Node) : (finishSchema b command before after n).2.registry = n.registry := by
  have ran : (runBetween command before after { n with resources := b.resources }).2.registry =
      n.registry :=
    (runBetween_acts (fun _ => trivial) { n with resources := b.resources } command before after
      0 : _ ∧ InFlight.Acts (fun _ _ => True) _ _ ∧ _).1
  unfold finishSchema
  rcases eq : runBetween command before after { n with resources := b.resources }
    with ⟨fault | _, m⟩
  · rw [eq] at ran
    exact ran
  · rw [eq] at ran
    exact ran

theorem resolveSchema_clears (cleared : n.registry.get? request = none) (more : Nat) :
    (resolveSchema request command before after more n).2.registry.get? request = none := by
  induction more generalizing n with
  | zero => exact cleared
  | succ more ih =>
    unfold resolveSchema
    generalize prepareSchema request command before after n = judged
    obtain ⟨reply, m⟩ := judged
    dsimp only
    cases waits : m.waiting? request with
    | none => exact ih (waiting?_eq_none waits)
    | some b =>
      dsimp only
      split
      · rw [finishSchema_registry]
        exact forget_clears m request
      · exact ih (forget_clears m request)

theorem settleSchema_clears (n : Node) (request : RequestId) (apply : Bool) :
    (settleSchema request apply n).2.registry.get? request = none := by
  unfold settleSchema
  cases waits : n.waiting? request with
  | none => exact waiting?_eq_none waits
  | some b =>
    dsimp only
    split
    · split
      · exact forget_clears n request
      · split
        · rw [finishSchema_registry]
          exact forget_clears n request
        · exact resolveSchema_clears (n := (n.forget request).discard b) (forget_clears n request) _
    · exact forget_clears n request

end Node

namespace Discipline

open Node

variable {n : Node} {request : RequestId} {id before after : TxId} {t : ChangeSet}

theorem Upheld.commit (h : (confined own (some request)).Upheld own n) :
    (abroad own).Upheld own (Node.commit request n).2 :=
  (h.movesBy (commit_acts h.orderly (fun _ _ _ _ => trivial) (mayResume_confined h request)))
    |>.clear_of_none (commit_clears h.orderly request)

theorem Upheld.rollback (h : (confined own (some request)).Upheld own n) :
    (abroad own).Upheld own (Node.rollback request n).2 :=
  (h.movesBy (rollback_acts h.orderly fun _ _ _ _ => trivial)).clear_of_none
    (rollback_clears n request)

theorem Upheld.settle (h : (confined own (some request)).Upheld own n) (apply : Bool) :
    (abroad own).Upheld own (settleSchema request apply n).2 :=
  (h.movesBy (settleSchema_acts (otherFrom _ n) h.orderly (fun _ _ _ _ => trivial)
    (mayResume_confined h request) apply)).clear_of_none (settleSchema_clears n request apply)

/-- A command of the node's own is judged under a request. -/
theorem Upheld.judge (h : (abroad own).Upheld own n) (request : RequestId) (command : String)
    (before after : TxId) : (confined own (some request)).Upheld own
      (prepareSchema request command before after n).2 :=
  have confined := h.confine request
  have finish : MayFinish ((Discipline.confined own (some request)).okFrom n) request :=
    fun _ _ _ _ => trivial
  confined.movesBy (prepareSchema_acts confined.orderly (fun _ => .inr rfl) finish).1

/-- A change set of the node's own is about ids of the origin only while it waits. -/
theorem ends_draft (request : RequestId) (id : TxId) (t : ChangeSet) {α : Type}
    (result : Attempt.State → α) (alone : Bool) :
    Step.Ends ((abroad own).Upheld own)
      (do
        let b ← prepareOwn request id t
        if alone then
          Node.finish b
          pure (result b)
        else
          modify (·.park b)
          pure (result b) : Step Node α)
      (fun _ m => if alone then (abroad own).Upheld own m
        else (confined own (some request)).Upheld own m)
      ((abroad own).Upheld own) := by
  intro n h
  have confined := h.confine request
  have begins : (Discipline.confined own (some request)).okFrom n n.registry.all
      (.begin request (.data id t)) := fun _ => .inr rfl
  have upheld := confined.movesBy (prepareOwn_movesBy confined.orderly begins
    (fun _ _ _ _ => trivial) result alone)
  have registry := prepareOwn_registry n request id t
  -- Unless the change set waits, the registry is what it was.
  have clear {m : Node} (upheld : (Discipline.confined own (some request)).Upheld own m)
      (same : m.registry = n.registry) : (abroad own).Upheld own m :=
    upheld.clear fun a found => (h.confines a
      (Registry.mem_all.2 ⟨request, same ▸ found⟩)).resolve_right nofun
  rw [Step.bind_apply] at upheld ⊢
  rcases eq : prepareOwn request id t n with ⟨fault | b, m⟩
  · rw [eq] at upheld registry
    exact clear upheld registry
  · rw [eq] at upheld registry
    cases alone with
    | false => exact upheld
    | true =>
      have finished := (finish_frame b m).1.trans registry
      simp only [↓reduceIte] at upheld ⊢
      rw [Step.bind_apply] at upheld ⊢
      rcases eq' : Node.finish b m with ⟨fault | ⟨⟩, m'⟩
      · rw [eq'] at upheld finished
        exact clear upheld finished
      · rw [eq'] at upheld finished
        exact clear upheld finished

end Discipline

namespace Node

variable {n : Node} {request : RequestId} {before after : TxId}

def Offered (request : RequestId) (before after : TxId) (n : Node) : Prop :=
  ∃ a command, n.registry.get? request = some a ∧ a.status = .success ∧
    a.job = .schema command before after

/-- The node agrees to a command if there is no conflict of its ids, which then wait for the
decision. -/
theorem prepareSchema_offered (request : RequestId) (command : String)
    (agrees : Tally.schemaConflict (n.sequencer.validate before) (n.sequencer.validate after) =
      false) : (prepareSchema request command before after n).2.Offered request before after := by
  refine ⟨Attempt.offered request command before after, command, ?_, rfl, rfl⟩
  rw [prepareSchema_agreed request command agrees, park_registry]
  exact Registry.get?_insert.trans (if_pos rfl)

/-- If the decision is carried out, both ids are committed. -/
theorem Offered.settled (h : n.Offered request before after) {m : Node}
    (ok : settleSchema request true n = (.ok (), m)) :
    m.resources.HasDone before ∧ m.resources.HasDone after := by
  obtain ⟨a, command, found, success, job⟩ := h
  unfold settleSchema waiting? at ok
  rw [found] at ok
  dsimp only [Option.map_some] at ok
  rw [if_pos rfl, job] at ok
  dsimp only at ok
  rw [if_pos success] at ok
  have both := (runBetween_acts (fun _ => trivial)
    { n.forget request with resources := n.resources } command before after 0 :
      _ ∧ InFlight.Acts (fun _ _ => True) _ _ ∧ _).2.2
  unfold finishSchema at ok
  split at ok
  · next m' ran =>
    cases ok
    rw [ran] at both
    exact (both rfl).imp (hasDone_destroy (b := Attempt.markApplied ⟨a, m'.resources⟩))
      (hasDone_destroy (b := Attempt.markApplied ⟨a, m'.resources⟩))
  · cases ok

end Node

end QuorumCommit
