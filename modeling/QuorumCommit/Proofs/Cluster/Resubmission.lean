import QuorumCommit.Proofs.Cluster.Runs
import QuorumCommit.Proofs.Cluster.Steady

/-!
How often a change set is submitted. Every attempt of a member to commit it submits it once, and
comes to what the submission comes to; so it is the retry policy of the node that bounds the
submissions, and decides which of them is the last.
-/
namespace QuorumCommit.Cluster

open Node RetryPolicy

variable {G : Node → Prop} {q : TxId → Prop} {name : String} {own : Nat} {c c₁ : Cluster}
  {changes : ChangeSet} {number : Nat} {settings : Settings}

/-- The attempt of a number: an id is taken, the change set is submitted under it, and the id is
given back if that fails. -/
inductive Submits (name : String) (changes : ChangeSet) (number : Nat) (c : Cluster) :
    TxId → Except Fault ChangeSet → Cluster → Prop where
  | accepted {id : TxId} {final : ChangeSet} {c₁ c' : Cluster} :
      begin name number c = (.ok id, c₁) → submit name id changes c₁ = (.ok final, c') →
      Submits name changes number c id (.ok final) c'
  | failed {id : TxId} {fault : Fault} {c₁ c₂ c' : Cluster} :
      begin name number c = (.ok id, c₁) → submit name id changes c₁ = (.error fault, c₂) →
      giveBackId name id c₂ = (.ok (), c') → Submits name changes number c id (.error fault) c'

/-- Attempts one after the other, counted from one: the ids of the submissions and what they came
to. -/
inductive Submissions (name : String) (changes : ChangeSet) (c : Cluster) :
    List (TxId × Except Fault ChangeSet) → Cluster → Prop where
  | none : Submissions name changes c [] c
  | next {made : List (TxId × Except Fault ChangeSet)} {id : TxId} {r : Except Fault ChangeSet}
      {c₁ c' : Cluster} : Submissions name changes c made c₁ →
      Submits name changes (made.length + 1) c₁ id r c' →
      Submissions name changes c (made ++ [(id, r)]) c'

/-- A member that runs a node can always begin an attempt. -/
theorem begin_running (framed : Framed G) (issuing : Issuing G q) (h : c.Running G name own)
    (number : Nat) :
    ∃ id c₁, begin name number c = (.ok id, c₁) ∧ c₁.Running G name own := by
  refine begin_of_takeId framed
    (R := fun r => ∃ id c₁, r = (.ok id, c₁) ∧ c₁.Running G name own) ?_ h
    number
  intro c h
  have kept := (gives_takeId framed issuing).keeps c h
  obtain ⟨n, station, -⟩ := h
  unfold takeId at kept ⊢
  rw [atNode_running _ station] at kept ⊢
  exact ⟨_, _, rfl, kept⟩

theorem keeps_attempt_settings (settings : Settings) (name : String) (own : Nat)
    (changes : ChangeSet) (number : Nat) :
    Step.Keeps (Running (·.settings = settings) name own) (attempt name changes number) :=
  keeps_attempt (steady_lasting (steady_settings settings) own) (issuing_settings settings)
    (fun id _ => steady_drafts (steady_settings settings) name own id changes) number

/-- An attempt submits the change set once, and reports what that comes to. -/
theorem attempt_submits (h : c.Running (·.settings = settings) name own) (changes : ChangeSet)
    (number : Nat) : ∃ id r c', Submits name changes number c id r c' ∧
      attempt name changes number c = (r.map (⟨id, ·⟩), c') := by
  have steady := steady_settings settings
  obtain ⟨id, c₁, begun, running⟩ :=
    begin_running (steady_framed steady) (issuing_settings settings) h number
  have kept := keeps_submit (steady_lasting steady own)
    (steady_drafts steady name own id changes) c₁
    running
  rw [attempt_eq, Step.bind_apply, begun]
  dsimp only
  rw [Step.tryCatch_apply, Step.bind_apply]
  rcases submitted : submit name id changes c₁ with ⟨fault | final, c₂⟩
  · rw [submitted] at kept
    obtain ⟨n, station, -⟩ := kept
    have given : giveBackId name id c₂ = (.ok (), _) := atNode_running _ station
    refine ⟨id, .error fault, _, .failed begun submitted given, ?_⟩
    dsimp only
    rw [Step.bind_apply, given]
    rfl
  · exact ⟨id, .ok final, c₂, .accepted begun submitted, rfl⟩

/-- All attempts before one have submitted the change set, and have failed with faults that another
one might cure. -/
theorem submissions_of_comes (h : c.Running (·.settings = settings) name own)
    (comes : Comes (fun number c => (attempt name changes number).run c) c number c₁) :
    ∃ made, Submissions name changes c made c₁ ∧ made.length + 1 = number ∧
      (∀ s ∈ made, Transient s.2) ∧ c₁.Running (·.settings = settings) name own := by
  induction comes with
  | first => exact ⟨[], .none, rfl, nofun, h⟩
  | @again number c₁ c₂ fault comes failed transient ih =>
    obtain ⟨made, submissions, rfl, before, running⟩ := ih
    have after : c₂.Running (·.settings = settings) name own :=
      (keeps_attempt_settings settings name own changes (made.length + 1)).of_eq failed running
    obtain ⟨id, r, c', submits, attempted⟩ := attempt_submits running changes (made.length + 1)
    have same : (r.map (⟨id, ·⟩), c') = ((.error fault : Except Fault Committed), c₂) :=
      attempted.symm.trans failed
    rcases r with fault' | final
    · cases same
      exact ⟨made ++ [(id, .error fault)], submissions.next submits, by simp,
        List.forall_mem_append.2 ⟨before, List.forall_mem_singleton.2 (.error transient)⟩, after⟩
    · cases same

/-- A call to commit a change set, at a node that may make so many attempts. What the store rejects
is not submitted at all. Otherwise the answer is that of the last submission; those before have
failed with faults that another one might cure, and so has the last only if no attempt is left. -/
def SubmitsWithin (budget : Nat) (name : String) (changes : ChangeSet) (n : Node) (c : Cluster)
    (out : Except Fault Committed × Cluster) : Prop :=
  match changes.changes.forM n.store.validate with
  | .error fault => out = (.error fault, c)
  | .ok _ => ∃ earlier id last c',
    Submissions name changes c (earlier ++ [(id, last)]) c' ∧ out = (last.map (⟨id, ·⟩), c') ∧
    earlier.length + 1 ≤ budget ∧ (∀ s ∈ earlier, Transient s.2) ∧
    (Transient last → earlier.length + 1 = budget)

theorem commit_submitsWithin {n : Node} (h : c.Running (·.settings = settings) name own)
    (tries : 1 ≤ settings.maxAutoRetry) (running : c.node? name = some n) (changes : ChangeSet) :
    SubmitsWithin settings.maxAutoRetry name changes n c ((commit name changes).run c) := by
  have budget : max 1 n.policy.maxRetries = settings.maxAutoRetry := by
    have config := h.of_node running
    unfold Node.policy RetryPolicy.new
    rw [config]
    dsimp only
    omega
  rw [Step.run_apply]
  unfold SubmitsWithin commit
  rw [Step.bind_apply, getNode_spec running]
  dsimp only
  cases changes.changes.forM n.store.validate with
  | error fault => rfl
  | ok =>
    obtain ⟨number, c₁, stops⟩ := n.policy.exists_stopsAt
      (fun number c => (attempt name changes number).run c) c
    obtain ⟨earlier, submissions, rfl, before, running₁⟩ := submissions_of_comes h stops.comes
    obtain ⟨id, last, c', submits, attempted⟩ :=
      attempt_submits running₁ changes (earlier.length + 1)
    refine ⟨earlier, id, last, c', submissions.next submits, stops.run_eq.trans attempted,
      budget ▸ stops.allowed, before, fun transient => ?_⟩
    rw [← budget]
    refine stops.final ?_
    rw [Step.run_apply, attempted]
    exact (transient_map _ _).2 transient

/-- If the fault that is answered might be cured by another attempt, all that are allowed have been
made. -/
theorem SubmitsWithin.spent {budget : Nat} {n : Node} {out : Except Fault Committed × Cluster}
    (h : SubmitsWithin budget name changes n c out)
    (valid : changes.changes.forM n.store.validate = .ok ()) (transient : Transient out.1) :
    ∃ made, Submissions name changes c made out.2 ∧ made.length = budget ∧
      ∀ s ∈ made, Transient s.2 := by
  unfold SubmitsWithin at h
  rw [valid] at h
  obtain ⟨earlier, id, last, c', submissions, rfl, -, before, final⟩ := h
  have transient : Transient last := (transient_map _ _).1 transient
  exact ⟨_, submissions, by simpa using final transient,
    List.forall_mem_append.2 ⟨before, List.forall_mem_singleton.2 transient⟩⟩

/-- Whatever is attempted, and under whatever policy, a run stops: with the first attempt that
succeeds or fails for good, or with the last one that is allowed. It makes just the attempts up to
that one, in order, and its answer is that of the last. So a node that was opened, whatever it was
asked for since, submits a change set no more often than its settings tell, and never again after a
fault that no other attempt might cure. -/
theorem attempts_bounded :
    (∀ {σ α : Type} (p : RetryPolicy) (op : Nat → σ → Except Fault α × σ) (s : σ),
      ∃ k t, p.StopsAt op s k t ∧ p.run op s = op k t ∧ ∀ calls,
        p.run (noting op) (s, calls) = ((op k t).1, (op k t).2, calls ++ List.range' 1 k)) ∧
    ∀ {database name : String} {own : Nat} {settings : Settings} {store : Store} {disk : FileTree}
      {n₀ : Node} {c₀ c : Cluster} {P : Operation → Prop} (changes : ChangeSet),
      Node.openOn database name own settings store disk = .ok n₀ →
      c₀.station? name = some (own, .running n₀) → History name P c₀ c →
      ∃ n, c.node? name = some n ∧ n.settings = settings ∧
        SubmitsWithin settings.maxAutoRetry name changes n c ((commit name changes).run c) := by
  refine ⟨fun p op s => ?_, fun changes opened station history => ?_⟩
  · obtain ⟨k, t, stops⟩ := p.exists_stopsAt op s
    exact ⟨k, t, stops, stops.run_eq, stops.run_noting⟩
  · have started := openOn_started opened
    have h := settings_of_history ⟨_, station, started.config⟩ history
    have ⟨n, station, config⟩ := h
    have running := node?_of_station? station
    exact ⟨n, running, config,
      commit_submitsWithin h (started.config ▸ started.tries) running changes⟩

def renewal (octet : UInt8) : ChangeSet := ChangeSet.empty.update "person" ⟨9, 0⟩ 1 [octet]

/-- A node that has voted for a new content of its record, and hears no more of it. -/
def contended : Cluster :=
  (Operation.answer "b" (.firstPhase ⟨2, 1⟩ ⟨2, 1⟩ (renewal 3))).perform "a"
    ((Operation.transact (person 1)).perform "a" lone)

theorem contended_history : History "a" (fun _ => True) lone contended := by
  unfold contended
  exact .step _ trivial (.step _ trivial .start)

/-- The record stays locked, so the node submits another new content ten times, and no more. -/
theorem attempts_bounded_contended : History "a" (fun _ => True) lone contended ∧
    ∃ made, Submissions "a" (renewal 2) contended made
        ((commit "a" (renewal 2)).run contended).2 ∧ made.length = 10 ∧
      ∀ s ∈ made, Transient s.2 := by
  obtain ⟨n₀, opened, station⟩ := join_opened lone_joined
  obtain ⟨n, running, -, within⟩ :=
    attempts_bounded.2 (renewal 2) opened station contended_history
  have valid : (contended.node? "a").map (fun n => (renewal 2).changes.forM n.store.validate) =
      some (.ok ()) := by
    decide +kernel
  have locked : Transient ((commit "a" (renewal 2)).run contended).1 := by decide +kernel
  rw [running, Option.map_some, Option.some.injEq] at valid
  exact ⟨contended_history, within.spent valid locked⟩

end QuorumCommit.Cluster
