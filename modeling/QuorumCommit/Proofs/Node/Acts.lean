import QuorumCommit.Node.Answer
import QuorumCommit.Proofs.Attempt.Registry
import QuorumCommit.Proofs.Node.Calm
import QuorumCommit.Proofs.InFlight.Sound

/-!
What a node does, as acts on what is in flight there. Each operation comes to a few acts, which are
about the request and the job that it was asked for or, where an attempt that waits is tried anew,
about the job of that attempt.
-/
namespace QuorumCommit.Node

open Attempt InFlight

variable {n m : Node} {b : State} {request : RequestId} {id : TxId} {t : ChangeSet}
  {ok : Multiset Attempt → Deed → Prop}

def inFlight (n : Node) : InFlight := ⟨n.registry.all, n.resources⟩

def MayFinish (ok : Multiset Attempt → Deed → Prop) (request : RequestId) : Prop :=
  ∀ A a, a.request = request → ok A (.finish a)

def MayResume (ok : Multiset Attempt → Deed → Prop) (request : RequestId) (n : Node) : Prop :=
  ∀ a, n.registry.get? request = some a →
    ok (n.registry.erase request).all (.begin request a.job)

/-- Each attempt waits under its request, and the work in flight is sound. -/
structure Orderly (n : Node) : Prop where
  keyed : n.registry.Keyed
  sound : n.inFlight.Sound

/-- What an operation comes to: each attempt still waits under its request, and some acts
were done on what is in flight. -/
structure MovesBy (ok : Multiset Attempt → Deed → Prop) (n n' : Node) : Prop where
  keyed : n'.registry.Keyed
  acts : Acts ok n.inFlight n'.inFlight

theorem MovesBy.refl (keyed : n.registry.Keyed) : MovesBy ok n n := ⟨keyed, .refl _⟩

theorem MovesBy.trans {n' : Node} (h : MovesBy ok n m) (h' : MovesBy ok m n') : MovesBy ok n n' :=
  ⟨h'.keyed, h.acts.trans h'.acts⟩

theorem MovesBy.orderly (h : MovesBy ok n m) (orderly : n.Orderly) : m.Orderly :=
  ⟨h.keyed, (Sound.keptBy ok).acts h.acts orderly.sound⟩

/-- Counters and requests for copies are no part of what is in flight. -/
theorem MovesBy.congr (h : MovesBy ok n m) {m' : Node} (registry : m'.registry = m.registry)
    (resources : m'.resources = m.resources) : MovesBy ok n m' := by
  refine ⟨registry ▸ h.keyed, ?_⟩
  have same : m'.inFlight = m.inFlight := by
    unfold inFlight
    rw [registry, resources]
  rw [same]
  exact h.acts

/-- Work that only lends the attempts that wait. -/
theorem MovesBy.of_acts (keyed : n.registry.Keyed) (registry : m.registry = n.registry)
    (acts : Acts ok n.inFlight ⟨n.registry.all, m.resources⟩) : MovesBy ok n m := by
  refine ⟨registry ▸ keyed, ?_⟩
  unfold inFlight
  rw [registry]
  exact acts

/-- Taking an attempt out of the registry leaves it in hand. -/
theorem inFlight_of_waiting? (waits : n.waiting? request = some b) :
    n.registry.get? request = some b.attempt ∧ b.resources = n.resources ∧
      n.inFlight = ⟨b.attempt ::ₘ (n.forget request).registry.all, b.resources⟩ := by
  unfold waiting? at waits
  obtain ⟨a, found, rfl⟩ := Option.map_eq_some_iff.1 waits
  refine ⟨found, rfl, ?_⟩
  unfold inFlight
  rw [Registry.all_erase found]
  rfl

theorem park_registry (m : Node) (b : State) :
    (m.park b).registry = m.registry.insert b.attempt := by
  unfold park Registry.register
  cases m.registry.get? b.attempt.request <;> rfl

/-- An attempt that is registered where none waited, and taken out again. -/
theorem park_forget (request : RequestId) (same : b.attempt.request = request)
    (none : n.registry.get? request = none) : (n.park b).waiting? request = some b ∧
      (n.park b).forget request = { n with resources := b.resources } := by
  subst same
  unfold park Registry.register waiting? forget
  rw [none]
  dsimp only
  rw [Registry.get?_insert, if_pos rfl, Registry.erase_insert, Registry.erase_of_none none]
  exact ⟨rfl, rfl⟩

/-- An attempt in hand is registered, and one that waited in its place is given up. -/
theorem park_acts (keyed : m.registry.Keyed) (finish : MayFinish ok b.attempt.request) :
    (m.park b).registry.Keyed ∧
      Acts ok ⟨b.attempt ::ₘ m.registry.all, b.resources⟩ (m.park b).inFlight := by
  unfold park Registry.register
  cases found : m.registry.get? b.attempt.request with
  | none =>
    refine ⟨keyed.insert _, ?_⟩
    unfold inFlight
    rw [Registry.all_insert, Registry.erase_of_none found]
    exact .refl _
  | some old =>
    refine ⟨keyed.insert _, ?_⟩
    unfold inFlight
    rw [Registry.all_insert, Registry.all_erase found, Multiset.cons_swap]
    exact .one (finish _ _ (keyed _ _ found)) .discarded

/-- What preparing a change set comes to: it fits, or it is underway and may be given up. -/
theorem prepared (tidy : n.store.Tidy) (request : RequestId) (id : TxId) (t : ChangeSet)
    (atOrigin : Bool) :
    match Attempt.prepare atOrigin (n.newAttempt request (.data id t)) with
    | (.ok _, b) => (∃ u t', Fit n.resources request id t u t' (succeed b)) ∧
        (succeed b).attempt.status = .success
    | (.error _, b) => Underway n.resources request id t b := by
  have work : Underway n.resources request id t
      (Attempt.prepare atOrigin (n.newAttempt request (.data id t))).2 :=
    underway_prepare tidy request id t atOrigin
  have took : Took n.resources (n.newAttempt request (.data id t)) := .new tidy request _
  rcases eq : Attempt.prepare atOrigin (n.newAttempt request (.data id t)) with ⟨fault | _, b⟩
  · rw [eq] at work
    exact work
  · rw [eq] at work
    have fit : ∃ u t', Fit n.resources request id t u t' b := by
      cases atOrigin with
      | true =>
        obtain ⟨t', fit⟩ := took.prepare_origin rfl rfl rfl eq
        exact ⟨t', t', fit⟩
      | false =>
        obtain ⟨t', fit⟩ := took.prepare_replica rfl rfl rfl eq
        exact ⟨t, t', fit⟩
    obtain ⟨u, t', fit⟩ := fit
    exact ⟨⟨u, t', (fit.succeed work.pending).1⟩, (fit.succeed work.pending).2⟩

/-- An attempt that fits is in hand. -/
theorem begun_acts {u t' : ChangeSet} (fit : Fit n.resources request id t u t' b)
    (status : b.attempt.status = .success)
    (begins : ok n.registry.all (.begin request (.data id t))) :
    Acts ok n.inFlight ⟨b.attempt ::ₘ n.registry.all, b.resources⟩ :=
  .one begins (.begun fit status)

theorem tried_acts (work : Underway n.resources request id t b)
    (begins : ok n.registry.all (.begin request (.data id t))) :
    Acts ok n.inFlight ⟨n.registry.all, (destroy b).resources⟩ :=
  .one begins (.tried work)

/-- How a first phase comes out. An attempt waits that fits, or one that failed; or the node is
behind the writer and keeps nothing, to be asked again. -/
inductive FirstPhase (n : Node) (request : RequestId) (id : TxId) (t : ChangeSet) (retries : Nat) :
    Except Fault Bool × Node → Prop where
  | waits {m : Node} {b : State} {u t' : ChangeSet} : m.registry = n.registry →
      Fit n.resources request id t u t' b → b.attempt.status = .success →
      FirstPhase n request id t retries (.ok true, m.park b)
  | declined {m : Node} {b : State} : m.registry = n.registry → m.settings = n.settings →
      retries < n.settings.maxAutoRetry → Underway n.resources request id t b →
      FirstPhase n request id t retries (.ok false, m.discard b)
  | failed {m : Node} {b : State} (fault : Fault) : m.registry = n.registry →
      Underway n.resources request id t b →
      FirstPhase n request id t retries (.error fault, m.park (fail fault b))

theorem firstPhase_prepare (tidy : n.store.Tidy) (request : RequestId) (id : TxId) (t : ChangeSet)
    (atOrigin : Bool) (retries : Nat) :
    FirstPhase n request id t retries (prepare request id t atOrigin retries n) := by
  have spec := prepared tidy request id t atOrigin
  unfold prepare
  simp only [Step.run_apply]
  rcases eq : Attempt.prepare atOrigin (n.newAttempt request (.data id t)) with ⟨fault | _, b⟩
  · rw [eq] at spec
    obtain ⟨-, registry, settings⟩ := noteFailure_resources ((n.count .started).timePhase1) fault
    dsimp only
    split
    · next lags =>
      rw [Bool.and_eq_true, decide_eq_true_eq, settings] at lags
      exact .declined registry settings lags.2 spec
    · exact .failed fault registry spec
  · rw [eq] at spec
    obtain ⟨⟨u, t', fit⟩, status⟩ := spec
    exact .waits rfl fit status

/-- A first phase registers an attempt, or nothing has happened that lasts. -/
theorem prepare_acts (orderly : n.Orderly) (atOrigin : Bool) (retries : Nat)
    (begins : ok n.registry.all (.begin request (.data id t))) (finish : MayFinish ok request) :
    MovesBy ok n (prepare request id t atOrigin retries n).2 ∧
      ((prepare request id t atOrigin retries n).1 = .ok false →
        (prepare request id t atOrigin retries n).2.registry = n.registry) := by
  have first := firstPhase_prepare orderly.sound.tidy request id t atOrigin retries
  generalize prepare request id t atOrigin retries n = out at first ⊢
  cases first with
  | @waits m b u t' registry fit status =>
    obtain ⟨keyed, parked⟩ := park_acts (m := m) (b := b) (registry ▸ orderly.keyed)
      (by rw [fit.request]; exact finish)
    rw [registry] at parked
    exact ⟨⟨keyed, (begun_acts fit status begins).trans parked⟩, nofun⟩
  | @declined m b registry _ _ work =>
    exact ⟨.of_acts orderly.keyed registry (tried_acts work begins), fun _ => registry⟩
  | @failed m b fault registry work =>
    obtain ⟨shelved, same⟩ := work.fail fault
    obtain ⟨keyed, parked⟩ := park_acts (m := m) (b := fail fault b) (registry ▸ orderly.keyed)
      (by rw [shelved.request]; exact finish)
    rw [registry, same] at parked
    exact ⟨⟨keyed, (tried_acts work begins).trans (.trans (.one begins (.shelved shelved)) parked)⟩,
      nofun⟩

theorem prepareFrom_acts (orderly : n.Orderly) (retries more : Nat)
    (begins : ok n.registry.all (.begin request (.data id t))) (finish : MayFinish ok request) :
    MovesBy ok n (prepareFrom request id t retries more n).2 := by
  induction more generalizing n retries with
  | zero =>
    obtain ⟨moves, -⟩ := prepare_acts orderly false retries begins finish
    unfold prepareFrom
    exact moves
  | succ more ih =>
    obtain ⟨moves, again⟩ := prepare_acts orderly false retries begins finish
    unfold prepareFrom
    simp only [Step.run_apply]
    rcases eq : prepare request id t false retries n with ⟨fault | answer, m⟩
    · rw [eq] at moves
      exact moves
    · rw [eq] at moves again
      cases answer with
      | true => exact moves
      | false =>
        have registry : m.registry = n.registry := again rfl
        exact moves.trans (ih (moves.orderly orderly) (retries + 1) (registry ▸ begins))

theorem answerPrepare_acts (orderly : n.Orderly)
    (begins : ok n.registry.all (.begin request (.data id t))) (finish : MayFinish ok request) :
    MovesBy ok n (answerPrepare request id t n).2 :=
  prepareFrom_acts orderly 0 _ begins finish

/-- An attempt of the node's own is in hand, or nothing has happened that lasts. -/
theorem prepareOwn_acts (orderly : n.Orderly)
    (begins : ok n.registry.all (.begin request (.data id t))) :
    match prepareOwn request id t n with
    | (.ok b, m) => m.registry = n.registry ∧ b.attempt.request = request ∧
        b.attempt.status = .success ∧
        Acts ok n.inFlight ⟨b.attempt ::ₘ n.registry.all, b.resources⟩
    | (.error _, m) => MovesBy ok n m := by
  have spec := prepared orderly.sound.tidy request id t true
  unfold prepareOwn
  simp only [Step.run_apply]
  rcases eq : Attempt.prepare true (n.newAttempt request (.data id t)) with ⟨fault | _, b⟩
  · rw [eq] at spec
    obtain ⟨-, registry, -⟩ := noteFailure_resources ((n.count .started).timePhase1) fault
    exact .of_acts orderly.keyed registry (tried_acts (n := n) spec begins)
  · rw [eq] at spec
    obtain ⟨⟨u, t', fit⟩, status⟩ := spec
    exact ⟨rfl, fit.request, status, begun_acts fit status begins⟩

/-- Of a node, applying an attempt touches the resources alone. -/
theorem finish_frame (b : State) (m : Node) : (Node.finish b m).2.registry = m.registry ∧
    (Node.finish b m).2.resources = (destroy (Attempt.apply b).2).resources := by
  unfold Node.finish
  simp only [Step.run_apply]
  rcases Attempt.apply b with ⟨result, b'⟩
  dsimp only
  split
  · exact ⟨rfl, rfl⟩
  · exact ⟨rfl, rfl⟩
  · exact ⟨rfl, rfl⟩

/-- An attempt in hand is applied and given up. -/
theorem finish_acts (status : b.attempt.status = .success)
    (finish : MayFinish ok b.attempt.request) :
    (Node.finish b m).2.registry = m.registry ∧
      Acts ok ⟨b.attempt ::ₘ m.registry.all, b.resources⟩ (Node.finish b m).2.inFlight := by
  obtain ⟨registry, resources⟩ := finish_frame b m
  refine ⟨registry, ?_⟩
  unfold inFlight
  rw [registry, resources]
  have allowed := finish (b.attempt ::ₘ m.registry.all) b.attempt rfl
  cases job : b.attempt.job with
  | data id t => exact .one allowed (.applied status job)
  | schema command before after =>
    have same : (Attempt.apply b).2 = b := by
      unfold Attempt.apply
      rw [job]
    rw [same]
    exact .one allowed .discarded

def Anew (ok : Multiset Attempt → Deed → Prop) (n : Node) (request : RequestId) :
    Resolution × Node → Prop
  | (.prepared b, m) => m.registry = n.registry ∧ b.attempt.request = request ∧
      b.attempt.status = .success ∧ Acts ok n.inFlight ⟨b.attempt ::ₘ n.registry.all, b.resources⟩
  | (_, m) => m.registry = n.registry ∧ Acts ok n.inFlight ⟨n.registry.all, m.resources⟩

theorem Anew.after {x : Resolution × Node} (h : Anew ok m request x)
    (registry : m.registry = n.registry) (acts : Acts ok n.inFlight ⟨n.registry.all, m.resources⟩) :
    Anew ok n request x := by
  have start : m.inFlight = ⟨n.registry.all, m.resources⟩ := by
    unfold inFlight
    rw [registry]
  obtain ⟨_ | b | _, m'⟩ := x
  · obtain ⟨registry', acts'⟩ := h
    rw [start, registry] at acts'
    exact ⟨registry'.trans registry, acts.trans acts'⟩
  · obtain ⟨registry', request, status, acts'⟩ := h
    rw [start, registry] at acts'
    exact ⟨registry'.trans registry, request, status, acts.trans acts'⟩
  · obtain ⟨registry', acts'⟩ := h
    rw [start, registry] at acts'
    exact ⟨registry'.trans registry, acts.trans acts'⟩

theorem prepareAnew_acts (orderly : n.Orderly) (more : Nat)
    (begins : ok n.registry.all (.begin request (.data id t))) :
    Anew ok n request (prepareAnew request id t more n) := by
  induction more generalizing n with
  | zero => exact ⟨rfl, .refl _⟩
  | succ more ih =>
    have again (m : Node) (registry : m.registry = n.registry)
        (acts : Acts ok n.inFlight ⟨n.registry.all, m.resources⟩) :
        Anew ok n request (prepareAnew request id t more m) :=
      (ih ((MovesBy.of_acts orderly.keyed registry acts).orderly orderly)
        (registry ▸ begins)).after registry acts
    have spec := prepared orderly.sound.tidy request id t false
    unfold prepareAnew
    dsimp only
    cases (n.count .retries).sequencer.validate id with
    | alreadyPresent => exact ⟨rfl, .refl _⟩
    | missingPrevious => exact again _ rfl (.refl _)
    | alreadyPromised | valid =>
      dsimp only
      simp only [Step.run_apply]
      have newAttempt : (n.count .retries).newAttempt request (.data id t) =
        n.newAttempt request (.data id t) := rfl
      rw [newAttempt]
      rcases eq : Attempt.prepare false (n.newAttempt request (.data id t)) with ⟨fault | _, b⟩
      · rw [eq] at spec
        have tried := tried_acts (n := n) spec begins
        obtain ⟨resources, registry, -⟩ :=
          noteFailure_resources ((n.count .retries).discard b) fault
        dsimp only
        split
        · exact again _ registry (resources ▸ tried)
        · exact again _ rfl tried
        · exact ⟨rfl, tried⟩
      · rw [eq] at spec
        obtain ⟨⟨u, t', fit⟩, status⟩ := spec
        exact ⟨rfl, fit.request, status, begun_acts fit status begins⟩

/-- What settling a failed attempt comes to. -/
theorem resolve_acts (orderly : n.Orderly)
    (begins : ok n.registry.all (.begin request (.data id t))) (finish : MayFinish ok request) :
    MovesBy ok n (resolve request id t n).2 := by
  have anew := prepareAnew_acts orderly n.settings.maxAutoRetry begins
  unfold resolve
  rcases eq : prepareAnew request id t n.settings.maxAutoRetry n with ⟨_ | b | _, m⟩
  · rw [eq] at anew
    exact .of_acts orderly.keyed anew.1 anew.2
  · rw [eq] at anew
    obtain ⟨registry, same, status, acts⟩ := anew
    obtain ⟨registry', applied⟩ := finish_acts (m := m) status (same ▸ finish)
    rw [registry] at applied registry'
    exact ⟨registry' ▸ orderly.keyed, acts.trans applied⟩
  · rw [eq] at anew
    exact .of_acts orderly.keyed anew.1 anew.2

/-- An attempt that waits is given up. -/
theorem discard_acts (orderly : n.Orderly) (waits : n.waiting? request = some b)
    (finish : MayFinish ok request) : MovesBy ok n ((n.forget request).discard b) := by
  obtain ⟨found, -, start⟩ := inFlight_of_waiting? waits
  refine ⟨orderly.keyed.erase request, ?_⟩
  rw [start]
  exact .one (finish _ _ (orderly.keyed _ _ found)) .discarded

theorem commit_waiting (waits : n.waiting? request = some b) :
    (commit request n).2 = (settle b (n.forget request)).2 := by
  unfold commit
  rw [waits]
  dsimp only
  rcases settle b (n.forget request) with ⟨fault | _, m⟩ <;> rfl

/-- A commit is about the request alone, and may begin the change set anew that waits there. -/
theorem commit_acts_of_data (orderly : n.Orderly) (finish : MayFinish ok request)
    (resume : ∀ a id t, n.registry.get? request = some a → a.job = .data id t →
      ok (n.registry.erase request).all (.begin request (.data id t))) :
    MovesBy ok n (commit request n).2 := by
  cases waits : n.waiting? request with
  | none =>
    unfold commit
    rw [waits]
    exact .refl orderly.keyed
  | some b =>
    obtain ⟨found, -, start⟩ := inFlight_of_waiting? waits
    have same : b.attempt.request = request := orderly.keyed _ _ found
    rw [commit_waiting waits]
    unfold settle
    split
    · next status =>
      obtain ⟨registry, applied⟩ := finish_acts (m := n.forget request) status (same ▸ finish)
      refine ⟨registry ▸ orderly.keyed.erase request, ?_⟩
      rw [start]
      exact applied
    · have discarded := discard_acts orderly waits finish
      cases job : b.attempt.job with
      | schema command before after => exact discarded
      | data id t =>
        rw [same]
        exact discarded.trans
          (resolve_acts (discarded.orderly orderly) (resume _ id t found job) finish)

theorem commit_acts (orderly : n.Orderly) (finish : MayFinish ok request)
    (resume : MayResume ok request n) : MovesBy ok n (commit request n).2 :=
  commit_acts_of_data orderly finish fun a _ _ found job => job ▸ resume a found

theorem rollback_acts (orderly : n.Orderly) (finish : MayFinish ok request) :
    MovesBy ok n (rollback request n).2 := by
  unfold rollback
  cases waits : n.waiting? request with
  | none => exact .refl orderly.keyed
  | some b => exact (discard_acts orderly waits finish).congr rfl rfl

end QuorumCommit.Node
