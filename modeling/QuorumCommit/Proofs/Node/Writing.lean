import QuorumCommit.Proofs.Node.Acts

/-!
What a commit writes. It takes the attempt that waits for it, or prepares the change set of a failed
one anew, and applies what it has taken; the content of the store changes by that and by nothing
else.
-/
namespace QuorumCommit.Node

open Attempt InFlight

variable {n : Node} {b : State} {request : RequestId}

/-- A change set that is written, under its id and offset, and the store in which it is written. -/
structure Write where
  applied : Applied
  changes : ChangeSet
  store : Store

/-- The prepared attempt that a commit takes: the one that waits or, if that one has failed, the one
that its change set is prepared anew in. -/
def ripe? (request : RequestId) (n : Node) : Option State :=
  match n.waiting? request with
  | none => none
  | some b =>
    if b.attempt.status = .success then some b
    else
      match b.attempt.job with
      | .schema .. => none
      | .data id changes =>
        match prepareAnew b.attempt.request id changes n.settings.maxAutoRetry
            ((n.forget request).discard b) with
        | (.prepared b, _) => some b
        | _ => none

def written? (b : State) : Option Write :=
  match b.attempt.job with
  | .schema .. => none
  | .data id changes =>
    match b.resources.journal.commit b.resources.disk id with
    | (.error _, _) => none
    | (.ok offset, _) => some ⟨⟨id, offset⟩, changes, b.resources.store⟩

def write? (request : RequestId) (n : Node) : Option Write := (n.ripe? request).bind written?

def afterWrite (s : Store) : Option Write → Store
  | none => s
  | some w => (w.store.commit w.changes w.applied).2

theorem content_destroy (b : State) :
    (destroy b).resources.store.content = b.resources.store.content := by
  unfold destroy
  split
  · rfl
  · exact Store.content_releaseAll _

theorem content_apply (b : State) : (Attempt.apply b).2.resources.store.content =
    (afterWrite b.resources.store (written? b)).content := by
  unfold Attempt.apply written?
  cases b.attempt.job with
  | schema command before after => rfl
  | data id t =>
    dsimp only
    rcases b.resources.journal.commit b.resources.disk id with ⟨fault | offset, journal, disk⟩
    · rfl
    · dsimp only [afterWrite]
      rcases b.resources.store.commit t ⟨id, offset⟩ with ⟨fault | _, store⟩ <;> rfl

/-- As long as attempts are only begun, nothing is written. -/
theorem content_keptBy (s : Store) :
    KeptBy (fun _ d => ∃ q job, d = .begin q job) fun w => w.resources.store.content = s := by
  intro w d w' h begins act
  cases act with
  | tried work => exact work.took.undone.content.trans h
  | begun fit status => exact fit.took.store.content.trans h
  | shelved shelved => exact h
  | offered request command before after => exact h
  | fetched | missed | applied | settled | discarded | noted | unsaved | quiet =>
    obtain ⟨q, job, same⟩ := begins
    cases same

/-- What a commit comes to. The attempt that it takes is prepared on the content that the commit
finds, and is then applied; without such an attempt, nothing is written. -/
def Takes (ok : Multiset Attempt → Deed → Prop) (n n' : Node) : Option State → Prop
  | some b => b.attempt.status = .success ∧ b.resources.store.content = n.store.content ∧
      n'.resources = (destroy (Attempt.apply b).2).resources ∧
      ∃ A, Acts ok n.inFlight ⟨b.attempt ::ₘ A, b.resources⟩
  | none => n'.store.content = n.store.content

theorem commit_takes {ok : Multiset Attempt → Deed → Prop} (orderly : n.Orderly)
    (finish : MayFinish ok request) (resume : MayResume ok request n) :
    Takes ok n (commit request n).2 (n.ripe? request) := by
  unfold ripe?
  cases waits : n.waiting? request with
  | none =>
    unfold commit
    rw [waits]
    rfl
  | some c =>
    obtain ⟨found, same, start⟩ := inFlight_of_waiting? waits
    have own : c.attempt.request = request := orderly.keyed _ _ found
    rw [commit_waiting waits]
    unfold settle
    dsimp only
    by_cases status : c.attempt.status = .success
    · rw [if_pos status, if_pos status]
      refine ⟨status, by rw [same], (finish_frame _ _).2, (n.forget request).registry.all, ?_⟩
      rw [start]
      exact .refl _
    rw [if_neg status, if_neg status]
    have discarded := discard_acts orderly waits finish
    have calm := discarded.orderly orderly
    have content : ((n.forget request).discard c).store.content = n.store.content :=
      (content_destroy c).trans (by rw [same])
    cases job : c.attempt.job with
    | schema command before after => exact content
    | data id t =>
      have begins := resume _ found
      rw [job] at begins
      have anew := prepareAnew_acts calm n.settings.maxAutoRetry begins
      have begun : Anew (fun _ d => ∃ q job, d = .begin q job) _ request _ :=
        prepareAnew_acts calm n.settings.maxAutoRetry ⟨request, .data id t, rfl⟩
      have settings : ((n.forget request).discard c).settings = n.settings := rfl
      unfold resolve
      dsimp only
      rw [settings, own]
      rcases eq : prepareAnew request id t n.settings.maxAutoRetry ((n.forget request).discard c)
        with ⟨_ | b | _, m⟩
      · rw [eq] at begun
        exact ((content_keptBy _).acts begun.2 rfl).trans content
      · rw [eq] at anew begun
        obtain ⟨-, -, success, acts⟩ := anew
        obtain ⟨-, -, -, acts'⟩ := begun
        exact ⟨success, ((content_keptBy _).acts acts' rfl).trans content, (finish_frame _ _).2,
          _, discarded.acts.trans acts⟩
      · rw [eq] at begun
        exact ((content_keptBy _).acts begun.2 rfl).trans content

theorem written?_store {w : Write} (written : written? b = some w) :
    w.store = b.resources.store ∧ ∃ id, b.attempt.job = .data id w.changes := by
  unfold written? at written
  split at written
  · cases written
  · next job =>
    split at written
    · cases written
    · cases written
      exact ⟨rfl, _, job⟩

/-- A commit writes what `write?` tells, into the content that it finds, and nothing else. -/
theorem content_commit (orderly : n.Orderly) (request : RequestId) :
    (commit request n).2.store.content = (afterWrite n.store (n.write? request)).content ∧
      ∀ w, n.write? request = some w → w.store.content = n.store.content := by
  have takes : Takes (fun _ _ => True) n (commit request n).2 (n.ripe? request) :=
    commit_takes orderly (fun _ _ _ => trivial) fun _ _ => trivial
  unfold write?
  cases ripe : n.ripe? request with
  | none =>
    rw [ripe] at takes
    exact ⟨takes, nofun⟩
  | some b =>
    rw [ripe] at takes
    obtain ⟨-, content, resources, -⟩ := takes
    have after : (commit request n).2.store.content =
        (afterWrite b.resources.store (written? b)).content := by
      unfold store
      rw [resources, content_destroy, content_apply]
    rw [Option.bind_some]
    refine ⟨after.trans ?_, fun w written => by rw [(written?_store written).1, content]⟩
    cases written? b with
    | none => exact content
    | some w => rfl

end QuorumCommit.Node
