import QuorumCommit.Proofs.Cluster.Submission
import QuorumCommit.Proofs.Retry

/-!
The call that commits a change set. It makes attempts until one succeeds, and an attempt that fails
gives its id back; so after a failure nobody can tell that there was a call, and after a success
there is exactly one commit to be seen, under the id that the origin would have issued first.
-/
namespace QuorumCommit.Cluster

variable {c c' c'' : Cluster} {name x : String} {n n' n'' : Node} {out : Nat} {id : TxId}
  {t changes final : ChangeSet} {done : Committed}

/-- Nothing is going on at any node. -/
structure Calm (c : Cluster) : Prop where
  healthy : c.Healthy
  nodes : ∀ x n, c.node? x = some n → n.Calm 0

theorem Calm.at (h : c.Calm) (name : String) : c.CalmAt name 0 where
  healthy := h.healthy
  nodes x n running := by
    rw [ite_self]
    exact h.nodes x n running

theorem CalmAt.calm (h : c.CalmAt name 0) : c.Calm where
  healthy := h.healthy
  nodes x n running := by
    have calm := h.nodes x n running
    rwa [ite_self] at calm

/-- Nothing that other nodes can tell has happened to any node. -/
def Untouched (c c' : Cluster) : Prop := Evolved (fun _ => Node.Same) c c'

theorem Untouched.refl (c : Cluster) : c.Untouched c := Evolved.refl c fun _ n _ => .refl n

theorem Untouched.trans (h : c.Untouched c') (h' : c'.Untouched c'') : c.Untouched c'' :=
  (Evolved.trans h h').mono fun _ _ _ _ ⟨_, first, second⟩ => first.trans second

def HasIds (c : Cluster) : Prop := ∀ x n, c.node? x = some n → n.HasIds

instance : Decidable c.HasIds :=
  inferInstanceAs (Decidable (∀ x n, c.node? x = some n → n.HasIds))

theorem Untouched.hasIds (h : c.Untouched c') (healthy : c.Healthy) (ids : c.HasIds) :
    c'.HasIds := by
  intro x n' running'
  obtain ⟨n, running, same⟩ := Evolved.source h healthy running'
  exact same.hasIds (ids x n running)

/-- Who takes a change set up, and whether a quorum is for it, can be told beforehand. -/
theorem Untouched.takes (h : c.Untouched c') (same : n.Same n') (room : n'.store.HasRoom) :
    c'.Takes name id t x n' ↔ c.Takes name id t x n := by
  unfold Takes
  rw [h.network.available, same.admits room, same.toAlike.isNext]

theorem Untouched.carried (h : c.Untouched c') (healthy : c.Healthy) (room : c'.HasRoom)
    {quorum : Nat} (carried : c'.Carried name quorum id t) : c.Carried name quorum id t := by
  obtain ⟨voters, distinct, enough, all⟩ := carried
  refine ⟨voters, distinct, enough, fun x mem => ?_⟩
  obtain ⟨other, available, n', running', admits⟩ := all x mem
  obtain ⟨n, running, same⟩ := Evolved.source h healthy running'
  rw [h.network.available] at available
  exact ⟨other, available, n, running, (same.admits (room x n' running')).1 admits⟩

theorem Untouched.quorumOf (h : c.Untouched c') (same : n.Same n') (changes : ChangeSet) :
    c'.quorumOf name n' changes = c.quorumOf name n changes := by
  unfold Cluster.quorumOf
  rw [same.settings, h.network.available]

/-- A change set is committed: at the origin under its next id and, as long as there is room, as a
quorum has voted and at just those others that take it up. -/
structure Wrote (c : Cluster) (name : String) (changes : ChangeSet) (done : Committed)
    (c' : Cluster) : Prop where
  origin : ∃ n, c.node? name = some n ∧ done.id = n.upcoming 0 ∧
    Node.Drafted c'.HasRoom n done.id changes done.changes ∧
    (c'.HasRoom → c.Carried name (c.quorumOf name n changes) done.id done.changes)
  logs : Evolved (fun x n n' => n.Logs done.id n' ∧
    (x = name → n.Wrote done.id done.changes n')) c c'
  takers : c'.HasRoom → Evolved (fun x n n' =>
    (x = name ∨ c.Takes name done.id done.changes x n → n.Wrote done.id done.changes n') ∧
    (¬ (x = name ∨ c.Takes name done.id done.changes x n) → n.Same n') ∧
    (changes.createdRecords.Nodup →
      ∀ place, n'.store.isReserved place = n.store.isReserved place)) c c'

theorem Wrote.hasRoom (w : c.Wrote name changes done c') (room : c'.HasRoom) : c.HasRoom :=
  room.evolved w.logs fun _ _ _ change => change.1.room

theorem Untouched.wrote (h : c.Untouched c') (healthy : c.Healthy)
    (w : c'.Wrote name changes done c'') : c.Wrote name changes done c'' where
  origin := by
    obtain ⟨n', running', id, drafted, carried⟩ := w.origin
    obtain ⟨n, running, same⟩ := Evolved.source h healthy running'
    rw [h.quorumOf same] at carried
    exact ⟨n, running, id.trans (same.upcoming 0),
      same.drafted drafted fun room => w.hasRoom room name n' running',
      fun room => h.carried healthy (w.hasRoom room) (carried room)⟩
  logs := (Evolved.trans h w.logs).mono fun _ _ _ _ ⟨_, same, logs, wrote⟩ =>
    ⟨same.trans_logs logs, fun own => same.wrote (wrote own)⟩
  takers room := by
    refine (Evolved.trans h ((w.takers room).mono fun x k k' here change =>
      (⟨w.hasRoom room x k here, change⟩ : k.store.HasRoom ∧ _))).mono ?_
    rintro x n n'' running ⟨n', same, before, yes, no, reserved⟩
    rw [h.takes same before] at yes no
    exact ⟨fun takes => same.wrote (yes takes), fun leaves => same.trans (no leaves),
      fun distinct place => (reserved distinct place).trans (same.reserved before place)⟩

theorem Moved.untouched (running : c.node? name = some n) (moved : c.Moved name n' c')
    (same : n.Same n') : c.Untouched c' :=
  moved.evolved_of_refl running .refl same

theorem atNode_untouched {α : Type} (work : Node → α × Node) (calm : c.CalmAt name out)
    {out' : Nat} (running : c.node? name = some n)
    (spec : ∀ m, n.Same m → m.Calm out → (work m).2.Calm out' ∧ m.Same (work m).2) :
    ∃ m c', atNode name work c = (.ok (work m).1, c') ∧ n.Same m ∧ m.Calm out ∧
      c'.CalmAt name out' ∧ c.Untouched c' := by
  obtain ⟨a, n', c', done, moved, m, butDisk, rfl, rfl⟩ := atNode_spec work running
  obtain ⟨calm', same⟩ := spec m butDisk.same ((calm.sender running).butDisk butDisk)
  have seen := Node.sameButDisk_seen (work m).2
  refine ⟨m, c', done, butDisk.same, (calm.sender running).butDisk butDisk,
    calm.moved running moved (calm'.butDisk seen),
    moved.untouched running ((butDisk.same.trans same).trans seen.same)⟩

theorem count_untouched (calm : c.CalmAt name out) (running : c.node? name = some n)
    (counter : Counter) : ∃ c', atNode name (fun n => ((), n.count counter)) c = (.ok (), c') ∧
      c'.CalmAt name out ∧ c.Untouched c' := by
  obtain ⟨m, c', counted, -, -, calm', untouched⟩ := atNode_untouched
    (fun n => ((), n.count counter)) calm running fun m _ calm =>
      ⟨⟨calm.view, calm.tidy, calm.registry, calm.tries⟩, ⟨rfl, rfl, rfl⟩, rfl, fun room => room,
        fun _ _ => rfl⟩
  exact ⟨c', counted, calm', untouched⟩

theorem takeId_spec (calm : c.CalmAt name out) (running : c.node? name = some n)
    (ids : c.HasIds) (few : out ≤ 1) :
    ∃ c', takeId name c = (.ok (n.upcoming out), c') ∧ c'.CalmAt name (out + 1) ∧
      c.Untouched c' := by
  have ids := ids name n running
  obtain ⟨m, c', taken, same, calm', calm'', untouched⟩ := atNode_untouched
    (fun n => (n.sequencer.nextId.1, n.withSequencer n.sequencer.nextId.2)) calm running
    fun m same calm => (calm.take (same.hasIds ids) few).2
  rw [(calm'.take (same.hasIds ids) few).1, same.upcoming] at taken
  exact ⟨c', taken, calm'', untouched⟩

theorem giveBackId_spec (calm : c.CalmAt name (out + 1)) (running : c.node? name = some n) :
    ∃ c', giveBackId name (n.upcoming out) c = (.ok (), c') ∧ c'.CalmAt name out ∧
      c.Untouched c' := by
  obtain ⟨m, c', given, -, -, calm', untouched⟩ := atNode_untouched
    (fun m => ((), m.withSequencer (m.sequencer.releaseId (n.upcoming out)))) calm running
    fun m same calm => by
      rw [← same.upcoming]
      exact calm.giveBack
  exact ⟨c', given, calm', untouched⟩

theorem upcoming_isNext (n : Node) : n.resources.view.IsNext (n.upcoming 0) := rfl

/-- The commit of an attempt uses up the id that was taken for it. -/
theorem CalmAt.reached (calm : c.CalmAt name 1) (own : id.origin = n.sequencer.origin)
    (running : c.node? name = some n) (next : n.resources.view.IsNext id)
    (e : Evolved (c.Upheld name id changes final) c c') : c'.Calm := by
  refine (calm.evolved e ?_ ?_).calm
  · intro k k' here change quiet
    obtain rfl := Option.mem_unique running here
    unfold Upheld at change
    rw [if_pos rfl] at change
    have after := quiet.advanced next change.advanced
    unfold View.outAfter at after
    rwa [if_pos (show id.origin = n.resources.view.origin from own)] at after
  · intro x k k' _ other change quiet
    unfold Upheld at change
    rw [if_neg other] at change
    exact quiet.decided change.1

/-- What an attempt that succeeds does to the logs. -/
theorem reached_logs (running : c.node? name = some n) (next : n.resources.view.IsNext id)
    (e : Evolved (c.Upheld name id changes final) c c') :
    Evolved (fun x n n' => n.Logs id n' ∧ (x = name → n.Wrote id final n')) c c' := by
  refine e.mono fun x k k' here change => ?_
  unfold Upheld at change
  by_cases origin : x = name
  · subst origin
    obtain rfl := Option.mem_unique running here
    rw [if_pos rfl] at change
    exact ⟨change.advanced.logs next, fun _ => change.advanced.wrote⟩
  · rw [if_neg origin] at change
    exact ⟨change.1.logs, fun own => absurd own origin⟩

/-- As long as there is room, it is known who takes the change set up. -/
theorem reached_takers (placed : final.hasTemporary = false) (room : c'.HasRoom)
    (e : Evolved (c.Upheld name id changes final) c c') :
    Evolved (fun x n n' =>
      (x = name ∨ c.Takes name id final x n → n.Wrote id final n') ∧
      (¬ (x = name ∨ c.Takes name id final x n) → n.Same n') ∧
      (changes.createdRecords.Nodup →
        ∀ place, n'.store.isReserved place = n.store.isReserved place)) c c' := by
  refine ⟨e.network, fun x k here => ?_⟩
  obtain ⟨k', here', change⟩ := e.nodes x k here
  have after := room x k' here'
  refine ⟨k', here', ?_⟩
  unfold Upheld at change
  by_cases origin : x = name
  · rw [if_pos origin] at change
    exact ⟨fun _ => change.advanced.wrote, fun no => absurd (.inl origin) no,
      change.reserved after⟩
  · rw [if_neg origin] at change
    obtain ⟨yes, no⟩ := change.2 placed after
    by_cases takes : c.Takes name id final x k
    · have enacted := yes takes
      exact ⟨fun _ => enacted.toAdvanced.wrote, fun no => absurd (.inr takes) no,
        fun _ => enacted.reserved after⟩
    · have same := (no takes).same
      exact ⟨fun yes => absurd yes (not_or.2 ⟨origin, takes⟩), fun _ => same,
        fun _ => same.reserved after⟩

def Outcome (name : String) (changes : ChangeSet) (c : Cluster) :
    Except Fault Committed × Cluster → Prop
  | (.ok done, c') => c'.Calm ∧ c.Wrote name changes done c'
  | (.error _, c') => c'.Calm ∧ c.Untouched c'

theorem first_attempt_spec (calm : c.Calm) (ids : c.HasIds) (running : c.node? name = some n)
    (changes : ChangeSet) : Outcome name changes c (attempt name changes 1 c) := by
  obtain ⟨c₁, taken, calm₁, untouched⟩ :=
    takeId_spec (calm.at name) running ids (Nat.zero_le 1)
  obtain ⟨n₁, running₁, same⟩ := untouched.nodes name n running
  obtain ⟨r, c₂, submitted, outcome⟩ := submit_spec calm₁ running₁ (upcoming_isNext n₁) changes
  rw [same.upcoming] at submitted outcome
  unfold attempt
  rw [if_neg (Nat.lt_irrefl 1)]
  simp only [Step.bind_apply, Step.tryCatch_apply, taken, submitted]
  rcases r with fault | final
  · have quiet : c₂.CalmAt name 1 := calm₁.evolved outcome (fun _ _ _ kept calm => calm.kept kept)
      fun _ _ _ _ _ kept calm => calm.kept kept
    have kept : c₁.Untouched c₂ := outcome.mono fun _ _ _ _ kept => kept.same
    obtain ⟨n₂, running₂, same₂⟩ := kept.nodes name n₁ running₁
    obtain ⟨c₃, given, calm₃, untouched₃⟩ := giveBackId_spec quiet running₂
    rw [(same.trans same₂).upcoming] at given
    simp only [given]
    exact ⟨calm₃.calm, (untouched.trans kept).trans untouched₃⟩
  · obtain ⟨carried, drafted, reached⟩ := outcome
    have own : (n.upcoming 0).origin = n₁.sequencer.origin := same.origin.symm
    have next : n₁.resources.view.IsNext (n.upcoming 0) := by
      rw [← same.upcoming]
      exact upcoming_isNext n₁
    refine ⟨calm₁.reached own running₁ next reached, untouched.wrote calm.healthy
      ⟨⟨n₁, running₁, (same.upcoming 0).symm, drafted, carried⟩, reached_logs running₁ next reached,
        fun room => reached_takers (drafted.placed room) room reached⟩⟩

theorem Untouched.outcome (h : c.Untouched c') (healthy : c.Healthy)
    {r : Except Fault Committed × Cluster} (o : Outcome name changes c' r) :
    Outcome name changes c r := by
  rcases r with ⟨fault | done, c''⟩
  · exact ⟨o.1, h.trans o.2⟩
  · exact ⟨o.1, h.wrote healthy o.2⟩

theorem attempt_spec (calm : c.Calm) (ids : c.HasIds) (running : c.node? name = some n)
    (changes : ChangeSet) (number : Nat) :
    Outcome name changes c (attempt name changes number c) := by
  by_cases again : 1 < number
  · obtain ⟨c₁, counted, calm₁, untouched⟩ := count_untouched (calm.at name) running .retries
    obtain ⟨n₁, running₁, -⟩ := untouched.nodes name n running
    have rest : attempt name changes number c = attempt name changes 1 c₁ := by
      unfold attempt
      rw [if_pos again, if_neg (Nat.lt_irrefl 1), Step.bind_apply, counted]
    rw [rest]
    exact untouched.outcome calm.healthy
      (first_attempt_spec calm₁.calm (untouched.hasIds calm.healthy ids) running₁ changes)
  · have first : attempt name changes number c = attempt name changes 1 c := by
      unfold attempt
      rw [if_neg again, if_neg (Nat.lt_irrefl 1)]
    rw [first]
    exact first_attempt_spec calm ids running changes

/-- A call to commit a change set commits it, or leaves everything as it was. -/
theorem commit_spec (calm : c.Calm) (ids : c.HasIds) (name : String) (changes : ChangeSet) :
    Outcome name changes c (commit name changes c) := by
  unfold commit
  cases running : c.node? name with
  | none =>
    have missing : getNode name c = (.error (notRunning name), c) := by
      unfold getNode
      rw [running]
    rw [Step.bind_apply, missing]
    exact ⟨calm, .refl c⟩
  | some n =>
    rw [Step.bind_apply, getNode_spec running]
    dsimp only
    cases changes.changes.forM n.store.validate with
    | error fault => exact ⟨calm, .refl c⟩
    | ok _ =>
      refine n.policy.run_spec (P := fun c => c.Calm ∧ c.HasIds ∧ ∃ n, c.node? name = some n)
        (Q := Outcome name changes) ?_ ?_ ⟨calm, ids, n, running⟩
      · rintro k c₁ ⟨calm₁, ids₁, n₁, running₁⟩
        exact attempt_spec calm₁ ids₁ running₁ changes k
      · rintro c₁ c₂ fault ⟨calm₁, ids₁, n₁, running₁⟩ ⟨calm₂, untouched⟩
        obtain ⟨n₂, running₂, -⟩ := untouched.nodes name n₁ running₁
        exact ⟨⟨calm₂, untouched.hasIds calm₁.healthy ids₁, n₂, running₂⟩,
          fun r => untouched.outcome calm₁.healthy⟩

end QuorumCommit.Cluster
