import QuorumCommit.Proofs.Cluster.Offers
import QuorumCommit.Proofs.Cluster.Runs
import QuorumCommit.Proofs.Node.Pledge

/-!
Ids that some member reports as committed. A round for a command does not give them back, so they
are never issued again. An attempt to commit a change set gives its id back whatever the others
report, and if the origin has not committed the id it is the next one issued.
-/
namespace QuorumCommit.Cluster

open Node

variable {G : Node → Prop} {name command x : String} {own number : Nat} {known out : List Nat}
  {c c₀ c₁ c' : Cluster} {id : TxId} {changes final : ChangeSet} {request : RequestId} {p : Poll}

/-- A round takes two ids that were not out. -/
theorem round_start (command : String) (h : c.Running (Books own known out) name own)
    (words : c.Running (Node.HasWords own 2) name own) : ∃ before after c₁,
    round name command c = schemaRound name command before after c₁ ∧
      roundPoll name command c = schemaPoll name command before after c₁ ∧
      (∀ id ∈ [after, before], id.origin = own ∧ id.sequence ∉ out) ∧
      c₁.Running (Books own (after.sequence :: before.sequence :: known)
        (after.sequence :: before.sequence :: out)) name own := by
  obtain ⟨before, c₁, first, mine, -, new, running, words⟩ := takeId_books h words
  obtain ⟨after, c₂, second, mine', -, new', running, -⟩ :=
    takeId_books (running.mono fun _ => And.left) words
  rw [List.mem_cons, not_or] at new'
  refine ⟨before, after, c₂, ?_, ?_, ?_, running.mono fun _ => And.left⟩
  · unfold round
    rw [Step.bind_apply, first]
    dsimp only
    rw [Step.bind_apply, second]
  · unfold roundPoll
    rw [Step.bind_apply, first]
    dsimp only
    rw [Step.bind_apply, second]
  · exact List.forall_mem_cons.2 ⟨⟨mine', new'.2⟩, List.forall_mem_cons.2 ⟨⟨mine, new⟩, nofun⟩⟩

theorem round_books (h : c.Running (Books own known out) name own)
    (words : c.Running (Node.HasWords own 2) name own) :
    (round name command c).2.Running (Books own known out) name own := by
  obtain ⟨before, after, c₁, same, -, new, running⟩ := round_start command h words
  have steady := steady_books own (after.sequence :: before.sequence :: known) out
  have more : out ⊆ after.sequence :: before.sequence :: out :=
    fun k mem => List.mem_cons_of_mem _ (List.mem_cons_of_mem _ mem)
  have less : known ⊆ after.sequence :: before.sequence :: known :=
    fun k mem => List.mem_cons_of_mem _ (List.mem_cons_of_mem _ mem)
  rw [same]
  refine (running_schemaRound (steady_lasting steady own) (steady_offers steady own _ _ _)
    (fun n books => books.origin) (running.mono fun n books => books.mono (List.Subset.refl _) more)
    fun stale _ => keeps_endRound_books fun id mem _ => ⟨(new id mem).1, ?_, (new id mem).2⟩).mono
    fun n books => books.mono less (List.Subset.refl _)
  rcases List.mem_cons.1 mem with rfl | mem
  · exact List.mem_cons_self
  · obtain rfl := List.mem_singleton.1 mem
    exact List.mem_cons_of_mem _ List.mem_cons_self

/-- An id that is reported as committed is not given back. -/
theorem round_reported (h : c.Running (Books own known out) name own)
    (words : c.Running (Node.HasWords own 2) name own)
    (polled : roundPoll name command c = (.ok p, c')) (offered : id ∈ p.ids)
    (reported : (x, .invalid id .alreadyPresent) ∈ p.replies) : id.origin = own ∧
      (round name command c).2.Running (Books own [] [id.sequence]) name own := by
  obtain ⟨before, after, c₁, same, asked, new, running⟩ := round_start command h words
  rw [asked] at polled
  have mine : id ∈ [after, before] := by
    obtain ⟨_, _, _, _, _, _, _, -, -, -, -, rfl⟩ := schemaPoll_parts polled
    simpa [or_comm] using offered
  have own_id := (new id mine).1
  refine ⟨own_id, ?_⟩
  have steady := steady_books own (after.sequence :: before.sequence :: known) [id.sequence]
  rw [same]
  refine (running_schemaRound (steady_lasting steady own) (steady_offers steady own _ _ _)
    (fun n books => books.origin) (running.mono fun n books => books.mono (List.Subset.refl _) ?_)
    fun stale is => keeps_endRound_books fun other mem kept => ⟨(new other mem).1, ?_, ?_⟩).mono
    fun n books => books.mono nofun (List.Subset.refl _)
  · rintro k mem
    obtain rfl := List.mem_singleton.1 mem
    rcases List.mem_cons.1 mine with rfl | mine
    · exact List.mem_cons_self
    · obtain rfl := List.mem_singleton.1 mine
      exact List.mem_cons_of_mem _ List.mem_cons_self
  · rcases List.mem_cons.1 mem with rfl | mem
    · exact List.mem_cons_self
    · obtain rfl := List.mem_singleton.1 mem
      exact List.mem_cons_of_mem _ List.mem_cons_self
  · intro again
    have eq : other = id := by
      obtain ⟨o, k⟩ := other
      obtain ⟨o', k'⟩ := id
      obtain rfl : o = o' := (new _ mem).1.trans own_id.symm
      exact congrArg (TxId.mk o) (List.mem_singleton.1 again)
    subst eq
    rw [is p c' polled, ← own_id] at kept
    exact kept (schemaPoll_reported polled reported)

/-- What is out stays out, whatever the origin offers. -/
theorem Course.books (h : c₀.Running (Books own known out) name own) (course : Course name c₀ c) :
    c.Running (Books own known out) name own := by
  have steady := steady_books own known out
  induction course with
  | start => exact h
  | offer o words _ ih =>
    have words := ih.hasWords words
    cases o with
    | data changes number =>
      exact attempt_books ih (words.mono fun _ => (Slot.HasWords.mono · (by decide))) number
    | schema command => exact round_books ih words
  | issue words _ ih =>
    obtain ⟨id, c', taken, -, -, -, running, -⟩ := takeId_books ih (ih.hasWords words)
    rw [Step.run_apply, taken]
    exact running.mono fun n h =>
      h.1.mono (List.subset_cons_self _ _) (List.subset_cons_self _ _)
  | count counter _ ih => exact keeps_count (steady_framed steady) counter _ ih
  | work op single _ ih => exact ih.single steady single
  | elsewhere same _ ih => exact ih.of_station same

/-- An id that is out is not the next one. -/
theorem Running.not_issued (h : c.Running (Books own known out) name own)
    (words : c.HasWords name) (taken : id.sequence ∈ out) : (takeId name c).1 ≠ .ok id := by
  obtain ⟨next, c', eq, -, -, new, -⟩ := takeId_books h (h.hasWords words)
  rw [eq]
  intro same
  cases same
  exact new taken

theorem framed_awaits (request : RequestId) (id : TxId) : Framed (Awaits request id) := by
  rintro n m - registry - ⟨a, found, awaits⟩
  exact ⟨a, registry ▸ found, awaits⟩

theorem framed_hasDone (id : TxId) : Framed fun n => n.resources.HasDone id :=
  steady_framed (steady_hasDone id)

theorem framed_free (id : TxId) : Framed fun n => ¬ n.resources.HasPromised id := by
  intro n m _ _ resources free promised
  rw [resources] at promised
  exact free promised

/-- Once the origin has prepared a change set, it waits there, or it is committed. -/
theorem prepareAtOrigin_awaits {alone : Bool} (h : c.Running G name own)
    (ok : prepareAtOrigin name request id changes alone c = (.ok final, c')) :
    if alone then c'.Running (fun n => n.resources.HasDone id) name own
    else c'.Running (Awaits request id) name own := by
  obtain ⟨n, station, -⟩ := h
  unfold prepareAtOrigin at ok
  rw [stepNode_running station] at ok
  obtain ⟨result, rfl⟩ := Prod.mk.inj ok
  generalize eq : (do
    let b ← prepareOwn request id changes
    let final := b.attempt.job.changes?.getD changes
    if alone then
      Node.finish b
      pure final
    else
      modify (·.park b)
      pure final : Step Node ChangeSet) (c.lend n) = r at result ⊢
  obtain ⟨_, m⟩ := r
  obtain rfl := result
  obtain ⟨b, m₁, prepared, eq⟩ := Step.bind_eq_ok.1 eq
  obtain ⟨pledges, same, status⟩ := prepareOwn_pledges prepared
  cases alone with
  | true =>
    obtain ⟨⟨⟩, m₂, finished, eq⟩ := Step.bind_eq_ok.1 eq
    cases eq
    have decided := finish_decides pledges m₁
    rw [finished] at decided
    rcases decided with done | ⟨-, fault, failed⟩
    · exact (framed_hasDone id).takeBack station done
    · cases failed
  | false =>
    obtain ⟨⟨⟩, m₂, parked, eq⟩ := Step.bind_eq_ok.1 eq
    cases parked
    cases eq
    exact (framed_awaits request id).takeBack station (awaits_park pledges same status m₁)

/-- The same once the others have voted. -/
theorem poll_awaits (h : c.Running G name own)
    (polled : poll name id changes c = (.ok (final, p), c')) :
    if (p.nodes.toList.filter (· ≠ name)).isEmpty then
      c'.Running (fun n => n.resources.HasDone id) name own
    else c'.Running (Awaits p.request id) name own := by
  obtain ⟨n, request, c₁, c₂, others, -, -, called, prepared, asked, rfl⟩ := poll_parts polled
  have same : c'.station? name = c₂.station? name := by
    rcases askOthers_ok asked with ⟨-, -, rfl⟩ | ⟨-, asked⟩
    · rfl
    · exact station?_askAll asked
  have running₁ : c₁.Running G name own := by
    have kept := (nextRequest_station (c := c) (x := name) name).1
    rw [called] at kept
    exact h.of_station kept
  have awaits := prepareAtOrigin_awaits running₁ prepared
  dsimp only
  split
  · next alone =>
    rw [if_pos alone] at awaits
    exact awaits.of_station same
  · next alone =>
    rw [if_neg alone] at awaits
    exact awaits.of_station same

def Decides {α : Type} (name : String) (own : Nat) (id : TxId) (x : Except Fault α × Cluster) :
    Prop :=
  x.2.Running (fun n => n.resources.HasDone id) name own ∨
    x.2.Running (fun n => ¬ n.resources.HasPromised id) name own ∧ ∃ fault, x.1 = .error fault

theorem commit_decides {α : Type} (waits : c.Running (Awaits request id) name own) (value : α) :
    Decides name own id ((do
      let _ ← stepNode name (Node.commit request)
      pure value : Step Cluster α) c) := by
  obtain ⟨n, station, waits⟩ := waits
  have decided := ((framed_awaits request id).lend (c := c) waits).commit
  rw [Step.bind_apply, stepNode_running station]
  generalize Node.commit request (c.lend n) = r at decided ⊢
  rcases r with ⟨fault | _, m⟩
  · exact decided.imp ((framed_hasDone id).takeBack station) fun freed =>
      ⟨(framed_free id).takeBack station freed.1, fault, rfl⟩
  · rcases decided with done | ⟨-, fault, failed⟩
    · exact .inl ((framed_hasDone id).takeBack station done)
    · cases failed

theorem rollback_decides {α : Type} (waits : c.Running (Awaits request id) name own)
    (fault : Fault) :
    Decides name own id ((do
      rollbackAt name request
      throw fault : Step Cluster α) c) := by
  obtain ⟨n, station, waits⟩ := waits
  have freed : (rollbackAt name request c).2.Running
      (fun n => ¬ n.resources.HasPromised id) name own := by
    unfold rollbackAt atNode
    rw [node?_of_station? station]
    exact (framed_free id).takeBack station
      ((framed_awaits request id).lend (c := c) waits).rollback
  rw [Step.bind_apply]
  rcases rolled : rollbackAt name request c with ⟨other | _, c₂⟩
  · rw [rolled] at freed
    exact .inr ⟨freed, other, rfl⟩
  · rw [rolled] at freed
    exact .inr ⟨freed, fault, rfl⟩

/-- When an attempt is over, its id is committed at the origin, or the attempt has failed and the id
is free. -/
theorem conclude_decides (final : ChangeSet)
    (awaits : if (p.nodes.toList.filter (· ≠ name)).isEmpty then
        c.Running (fun n => n.resources.HasDone id) name own
      else c.Running (Awaits p.request id) name own) :
    Decides name own id (conclude name final p c) := by
  unfold conclude
  split
  · next alone =>
    rw [if_pos alone] at awaits
    exact .inl awaits
  · next alone =>
    rw [if_neg alone] at awaits
    have same : (notify name (p.nodes.toList.filter (· ≠ name)) (.secondPhase p.request p.commits)
        c).2.station? name = c.station? name :=
      station?_notify _
    have told := awaits.of_station same
    rw [Step.bind_apply]
    rcases eq : notify name (p.nodes.toList.filter (· ≠ name)) (.secondPhase p.request p.commits) c
      with ⟨fault | ⟨⟩, c₁⟩
    · unfold notify at eq
      cases eq
    · rw [eq] at told
      dsimp only at told ⊢
      split
      · exact commit_decides told final
      · exact rollback_decides told _

/-- An id that is free and leads all that were taken back is issued next when it is given back. -/
theorem takeId_giveBackId (mine : id.origin = own)
    (books : c.Running (fun n => n.Books own known out ∧
      (n.sequencer.slot own).Leads id.sequence) name own)
    (undone : ¬ c.Running (fun n => n.resources.HasDone id) name own)
    (free : c.Running (fun n => ¬ n.resources.HasPromised id) name own) :
    (takeId name (giveBackId name id c).2).1 = .ok id := by
  obtain ⟨n, station, ⟨books, leads⟩, unpromised⟩ := books.and free
  have back : (giveBackId name id c).2 = c.takeBack name
      ((c.lend n).withSequencer ((c.lend n).sequencer.releaseId id)) := by
    unfold giveBackId atNode
    rw [node?_of_station? station]
  have after : (giveBackId name id c).2.station? name = some (own, .running
      ((c.lend n).withSequencer ((c.lend n).sequencer.releaseId id)).seen) := by
    rw [back, station?_takeBack, if_pos rfl, station]
    rfl
  unfold takeId atNode
  rw [node?_of_station? after]
  subst mine
  exact congrArg Except.ok (nextId_releaseId (n := n) books.origin leads
    (fun done => undone ⟨n, station, done⟩) unpromised)

theorem keeps_giveBackId_hasDone (other : TxId) :
    Step.Keeps (Running (fun n => n.resources.HasDone id) name own) (giveBackId name other) := by
  refine keeps_atNode (framed_hasDone id) fun n done => ?_
  have last : ∀ o, ((n.sequencer.releaseId other).slot o).last = (n.sequencer.slot o).last := by
    intro o
    unfold Sequencer.releaseId
    split
    · rw [Sequencer.slot_onSlot]
      split
      · next same =>
        subst same
        exact (congrArg Slot.last (Slot.standing_recycle _ _) :)
      · rfl
    · rfl
  exact Nat.le_trans done (Nat.le_of_eq (last id.origin).symm)

/-- An attempt of whose first phase the answers are known has its id committed at the origin, or
gives it back so that it is the next one issued. -/
theorem attempt_reissues (h : c.Running (Books own known out) name own)
    (words : c.Running (Node.HasWords own 1) name own)
    (begun : begin name number c = (.ok id, c₁))
    (polled : poll name id changes c₁ = (.ok (final, p), c')) :
    (attempt name changes number c).2.Running (fun n => n.resources.HasDone id) name own ∨
      (takeId name (attempt name changes number c).2).1 = .ok id := by
  obtain ⟨_, _, same, mine, -, -, running⟩ := begin_books h words number
  rw [begun] at same
  cases same
  have submitted : submit name id changes c₁ = conclude name final p c' := by
    rw [submit_eq, Step.bind_apply, polled]
  have steady := (steady_books own (id.sequence :: known) (id.sequence :: out)).and
    (steady_leads own id.sequence)
  have books := keeps_submit (steady_lasting steady own)
    (steady_drafts steady name own id changes) c₁ running
  have decided := conclude_decides final (poll_awaits running polled)
  rw [attempt_eq, Step.bind_apply, begun]
  dsimp only
  rw [Step.tryCatch_apply, Step.bind_apply, submitted]
  rw [submitted] at books
  generalize conclude name final p c' = r at books decided ⊢
  rcases r with ⟨fault | final', c₂⟩
  · dsimp only
    rw [Step.bind_apply]
    by_cases done : c₂.Running (fun n => n.resources.HasDone id) name own
    · have kept := keeps_giveBackId_hasDone id c₂ done
      left
      rcases eq : giveBackId name id c₂ with ⟨later | _, c₃⟩
      · rw [eq] at kept
        exact kept
      · rw [eq] at kept
        exact kept
    · obtain ⟨free, -⟩ := decided.resolve_left done
      have again := takeId_giveBackId mine books done free
      right
      rcases eq : giveBackId name id c₂ with ⟨later | _, c₃⟩
      · rw [eq] at again
        exact again
      · rw [eq] at again
        exact again
  · rcases decided with done | ⟨-, fault, failed⟩
    · exact .inl done
    · cases failed

/-- What the origin has committed itself is out. -/
theorem Running.books_of_committed {n : Node} (h : c.Running (Books own known out) name own)
    (mine : id.origin = own) (running : c.node? name = some n) (committed : n.HasCommitted id) :
    c.Running (Books own [] [id.sequence]) name own := by
  subst mine
  obtain ⟨m, station, books⟩ := h
  obtain rfl := Option.mem_unique running (node?_of_station? station)
  exact ⟨n, station, books.origin, nofun, books.slot.recycled,
    List.forall_mem_singleton.2 (.inl committed.2)⟩

/-- An id that a member reports as committed in the first phase of an offer is not issued again as
long as there are words for ids, just if the offer was one for a command or the origin has the id in
its own log. -/
theorem reported_retired_iff {settings : Settings} {store : Store}
    (joined : c.join name own (.closed settings store) = (.ok (), c₀))
    (course : Course name c₀ c₁) (genuine : c₁.Genuine) {o : Offer} (words : c₁.HasWords name)
    (left : (o.perform name c₁).HasWords name) {reply : Reply}
    (answered : (x, reply) ∈ o.replies name c₁) (reports : reply.Reports id) :
    (∀ c', Course name (o.perform name c₁) c' → c'.HasWords name →
        ((takeId name).run c').1 ≠ .ok id) ↔
      o.IsSchema ∨ ∃ n, (o.perform name c₁).node? name = some n ∧ n.HasCommitted id := by
  obtain ⟨n₀, station, started⟩ := join_started joined
  have books := course.books ⟨n₀, station, started.books⟩
  have retired (out : (o.perform name c₁).Running (Books own [] [id.sequence]) name own)
      (c' : Cluster)
      (later : Course name (o.perform name c₁) c') (words : c'.HasWords name) :
      ((takeId name).run c').1 ≠ .ok id :=
    (later.books out).not_issued words List.mem_cons_self
  have one := (books.hasWords words).mono fun _ => (Slot.HasWords.mono · (by decide : 1 ≤ 2))
  obtain ⟨p, c₂, polled, mem⟩ := Offer.mem_replies answered
  cases o with
  | data changes number =>
    obtain ⟨⟨final, p⟩, c₂, polled, eq⟩ := Step.bind_eq_ok.1 polled
    cases eq
    obtain ⟨taken, c₃, begun, polled⟩ := Step.bind_eq_ok.1 polled
    obtain rfl := ((Genuine.keeps_begin number).of_eq begun genuine).reports_poll polled _ mem id
      reports
    obtain ⟨_, _, same, mine, positive, -, -⟩ := begin_books books one number
    rw [begun] at same
    cases same
    constructor
    · intro never
      rcases attempt_reissues books one begun polled with ⟨n, station, done⟩ | again
      · exact .inr ⟨n, node?_of_station? station, positive, done⟩
      · exact absurd again (never _ .start left)
    · rintro (⟨⟨⟩⟩ | ⟨n, running, committed⟩)
      exact retired ((Course.start.offer (.data changes number) words).books books
        |>.books_of_committed mine running committed)
  | schema command =>
    have polled : roundPoll name command c₁ = (.ok p, c₂) := polled
    obtain ⟨before, c₃, first, asked⟩ := Step.bind_eq_ok.1 polled
    obtain ⟨after, c₄, second, asked⟩ := Step.bind_eq_ok.1 asked
    have genuine := Genuine.keeps_takeId.of_eq second (Genuine.keeps_takeId.of_eq first genuine)
    obtain ⟨offered, invalid⟩ := genuine.reports_schemaPoll asked _ mem id reports
    have ids : p.ids = [before, after] := by
      obtain ⟨_, _, _, _, _, _, _, -, -, -, -, rfl⟩ := schemaPoll_parts asked
      rfl
    dsimp only at invalid
    subst invalid
    have out := round_reported books (books.hasWords words) polled
      (by simpa [ids] using offered) mem
    exact iff_of_true (retired out.2) (.inl trivial)

def single (settings : Settings) : Cluster :=
  ((empty "db").join "a" 1 (.closed settings (Store.empty none))).2

/-- Two nodes, of which `b` has run a command through and `a`, its origin, has not. -/
def halved : Cluster :=
  (Operation.run "noop" .direct).perform "a" ((Operation.failNext 1).perform "a" (pair hasty))

/-- A command whose first round fails for good comes to that round. -/
theorem Course.run_of_error {n : Node} {fault : Fault} (course : Course name c₀ c)
    (words : c.HasWords name) (running : c.node? name = some n) (rounds : 0 < n.settings.rounds)
    (failed : (round name command c).1 = .error fault) :
    Course name c₀ ((Operation.run command .direct).perform name c) := by
  obtain ⟨more, rounds⟩ := Nat.exists_eq_succ_of_ne_zero rounds.ne'
  have ended : round name command c = (.error fault, (round name command c).2) :=
    Prod.ext failed rfl
  have only : (runCommand name command .direct c).2 = (round name command c).2 := by
    unfold runCommand
    dsimp only
    rw [Step.bind_apply, getNode_spec running]
    dsimp only
    rw [rounds, schemaRounds_succ, Step.bind_apply, ended]
  have offered := course.offer (.schema command) words
  unfold Offer.perform at offered
  dsimp only at offered
  rw [Step.run_apply, ← only] at offered
  exact offered

theorem single_joined :
    (empty "db").join "a" 1 (.closed hasty (Store.empty none)) = (.ok (), single hasty) :=
  Prod.ext (by decide +kernel) rfl

theorem halved_course : Course "a" (single hasty) halved := by
  have paired : Course "a" (single hasty) (pair hasty) :=
    Course.start.elsewhere (by decide +kernel)
  have failing := paired.work (.failNext 1) trivial
  have rounds : (((Operation.failNext 1).perform "a" (pair hasty)).node? "a").map
      (·.settings.rounds) = some 2 := by
    decide +kernel
  obtain ⟨n, running, two⟩ := Option.map_eq_some_iff.1 rounds
  have failed : ((round "a" "noop").run ((Operation.failNext 1).perform "a" (pair hasty))).1 =
      .error (.storage "command 'noop' failed") := by
    decide +kernel
  exact failing.run_of_error (by decide +kernel) running (by omega) failed

theorem halved_genuine : halved.Genuine := .of_members (by decide +kernel)

/-- `b` reports the second id of the command, which `a` has offered once more for another command.
-/
theorem reported_retired_iff_halved :
    ("b", .invalid ⟨1, 2⟩ .alreadyPresent) ∈ (Offer.schema "noop").replies "a" halved ∧
      ∀ c', Course "a" ((Offer.schema "noop").perform "a" halved) c' → c'.HasWords "a" →
        ((takeId "a").run c').1 ≠ .ok ⟨1, 2⟩ :=
  have answered : ("b", .invalid ⟨1, 2⟩ .alreadyPresent) ∈
      (Offer.schema "noop").replies "a" halved := by decide +kernel
  ⟨answered, (reported_retired_iff single_joined halved_course halved_genuine
    (by decide +kernel) (by decide +kernel) answered ⟨rfl, rfl⟩).2 (.inl trivial)⟩

/-- `b` reports the id when `a` offers it for a change set, and `a` issues it again. -/
theorem reported_reissued_halved :
    (empty "db").join "a" 1 (.closed hasty (Store.empty none)) = (.ok (), single hasty) ∧
      Course "a" (single hasty) halved ∧ halved.Genuine ∧
      ("b", .exception (.alreadyCommitted ⟨1, 2⟩)) ∈
        (Offer.data (person 1) 1).replies "a" halved ∧
      ((takeId "a").run ((Offer.data (person 1) 1).perform "a" halved)).1 = .ok ⟨1, 2⟩ :=
  ⟨single_joined, halved_course, halved_genuine, by decide +kernel, by decide +kernel⟩

end QuorumCommit.Cluster
