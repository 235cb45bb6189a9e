import QuorumCommit.Node.Schema
import QuorumCommit.Proofs.Node.Between

/-!
A command on one node. The node judges the two ids of the command and an attempt waits for the
decision. If that is to apply the command, the node does so just when the first id is the next one
of its origin; its body may still fail, and then the second id is not committed.
-/
namespace QuorumCommit

namespace Attempt

variable {r : Resources} {b : State} {id : TxId}

/-- An attempt that has nothing reserved does not depend on the store. -/
theorem StandsOn.withStore (h : StandsOn r b) (reserved : b.attempt.reserved = []) {s : Store}
    (tidy : s.Tidy) :
    StandsOn { r with store := s } ⟨b.attempt, { b.resources with store := s }⟩ := by
  refine ⟨?_, h.frame, h.bare, h.promised, h.apart, h.path, h.locks, h.free, h.stranger, h.live⟩
  rw [reserved]
  exact .nothing tidy

/-- An id is promised to an attempt wherever it stands. -/
theorem StandsOn.markPromised (h : StandsOn r b) (id : TxId)
    (open_ : id.sequence ∉ (r.sequencer.slot id.origin).promised) :
    StandsOn r (markPromised id b).2 where
  store := h.store
  frame := h.frame
  bare o := by
    refine Eq.trans ?_ (h.bare o)
    simp only [Attempt.markPromised, Resources.withSequencer, Resources.sequencer,
      Sequencer.markPromised, Sequencer.slot_onSlot]
    split
    · next eq =>
      subst eq
      exact Slot.bare_markPromised _ _
    · rfl
  promised o k := by
    have known := h.promised o k
    have last := h.last o
    simp only [Attempt.markPromised, Resources.withSequencer, Resources.sequencer,
      Sequencer.markPromised, Sequencer.slot_onSlot] at *
    cases id
    grind [Slot.mem_markPromised]
  apart o k mem := by
    simp only [Attempt.markPromised, List.mem_append, List.mem_singleton] at mem
    rcases mem with mem | rfl
    · exact h.apart o k mem
    · exact open_
  path := h.path
  locks := h.locks
  free := h.free
  stranger := h.stranger
  live := h.live

end Attempt

namespace Node

variable {n n' m : Node} {out : Nat} {command : String} {before after id : TxId}
  {request : RequestId} {reply : Reply}

open Attempt

def bodyFails (n : Node) (command : String) (before : TxId) : Bool :=
  n.resources.view.bodyFails command (n.settings.maxAutoRetry - 1) before

/-- A node has run a command between two ids, or as far as its body went. -/
structure Ran (n : Node) (command : String) (before : TxId) (n' : Node) : Prop where
  settings : n'.settings = n.settings
  registry : n'.registry = n.registry
  view : n'.resources.view =
    n.resources.view.between command (n.settings.maxAutoRetry - 1) before
  places : n.store.KeepsPlaces n'.store
  tidy : n'.store.Tidy

/-- A node and the base that its attempt stands on, while the command is applied. -/
structure Applying (a : Attempt) (r : Resources) (n : Node) : Prop where
  stands : StandsOn r ⟨a, n.resources⟩
  path : r.journal.path = none
  reserved : a.reserved = []

theorem commitId_next {a : Attempt} {r : Resources} (h : Applying a r m)
    (next : r.view.IsNext id) :
    ∃ m' r', commitId id m = (.ok (), m') ∧ m'.settings = m.settings ∧ m'.registry = m.registry ∧
      Applying a r' m' ∧ r'.view = r.view.mark id ∧ r.store.KeepsPlaces r'.store := by
  have stands := h.stands
  have store := stands.store
  have none := h.reserved
  dsimp only at store
  rw [none] at store
  have offset : m.sequencer.nextOffset = r.sequencer.nextOffset := congrArg (·.2.2) stands.frame
  have next_m : id.sequence = (m.sequencer.slot id.origin).last + 1 := by
    have last := stands.last id.origin
    dsimp only at last
    rw [last]
    exact next
  have committed : commitId id m = (.ok (), { m with
      resources := m.resources.advance id (m.store.note ⟨id, r.sequencer.nextOffset⟩) }) := by
    unfold commitId
    dsimp only
    rw [Journal.commit_next (stands.path.trans h.path) _ next_m, ← offset]
    rfl
  have tidy : (m.store.note ⟨id, r.sequencer.nextOffset⟩).Tidy :=
    store.tidy.congr rfl fun _ => rfl
  have same : { a with reserved := [] } = a := by
    rw [← none]
  have advanced := stands.advance next tidy
  dsimp only at advanced
  rw [same] at advanced
  refine ⟨_, r.advance id (m.store.note ⟨id, r.sequencer.nextOffset⟩), committed, rfl, rfl,
    ⟨advanced, h.path, none⟩, r.view_mark id m.store store.content store.failing,
    store.keepsPlaces.trans (.of_frame rfl fun _ => rfl)⟩

theorem commitId_other {a : Attempt} {r : Resources} (h : Applying a r m)
    (other : ¬ r.view.IsNext id) : ∃ fault, commitId id m = (.error fault, m) := by
  have other_m : id.sequence ≠ (m.sequencer.slot id.origin).last + 1 := by
    have last := h.stands.last id.origin
    dsimp only at last
    rw [last]
    exact other
  unfold commitId
  dsimp only
  rcases Journal.commit_other m.resources.disk other_m with refused | refused
  · rw [refused]
    exact ⟨_, rfl⟩
  · rw [refused]
    exact ⟨_, rfl⟩

theorem runBody_eq (command : String) (more : Nat) (n : Node) :
    ∃ meter, runBody command more n = ((Store.runBody command more n.store).1,
      { n.withStore (Store.runBody command more n.store).2 with meter := meter }) := by
  induction more generalizing n with
  | zero =>
    unfold runBody execute Store.runBody
    exact ⟨n.meter, rfl⟩
  | succ more ih =>
    have step : execute command .replicated n =
        ((n.store.execute command .replicated).1,
          n.withStore (n.store.execute command .replicated).2) := rfl
    unfold runBody Store.runBody
    simp only [Step.run_apply]
    rw [step]
    rcases n.store.execute command .replicated with ⟨fault | _, s⟩
    · obtain ⟨meter, rest⟩ := ih ((n.withStore s).count .retries)
      exact ⟨meter, rest⟩
    · exact ⟨n.meter, rfl⟩

/-- The body of a command in the middle of its attempt. -/
theorem runBody_spec {a : Attempt} {r : Resources} (h : Applying a r m) (command : String)
    (more : Nat) :
    ∃ m' r', runBody command more m = ((Store.runBody command more r.view.store).1, m') ∧
      m'.settings = m.settings ∧ m'.registry = m.registry ∧ Applying a r' m' ∧
      r'.view = r.view.withStore (Store.runBody command more r.view.store).2 ∧
      r.store.KeepsPlaces r'.store := by
  have store := h.stands.store
  have none := h.reserved
  dsimp only at store
  rw [none] at store
  obtain ⟨meter, ran⟩ := runBody_eq command more m
  have view : r.view.store = m.store.displaced := by
    have content : m.store.content = r.store.content := store.content
    have failing : m.store.failing = r.store.failing := store.failing
    have plain (s : Store) : s.displaced = { s.content with failing := s.failing } := rfl
    rw [Resources.view_store, plain, plain, content, failing]
  rw [view, Store.runBody_displaced]
  have tidy := store.tidy.runBody command more
  refine ⟨_, { r with store := (Store.runBody command more m.store).2 }, ran, rfl, rfl,
    ⟨h.stands.withStore none tidy, h.path, none⟩, rfl, ?_⟩
  exact store.keepsPlaces.trans (Store.runBody_keepsPlaces m.store command more)

/-- The ids of a command and its body, in the middle of its attempt. -/
theorem runBetween_spec {a : Attempt} {r : Resources} (h : Applying a r m) (command : String)
    (next : r.view.IsNext before) :
    ∃ result m' r', runBetween command before before.next m = (result, m') ∧
      m'.settings = m.settings ∧ m'.registry = m.registry ∧ Applying a r' m' ∧
      r'.view = r.view.between command (m.settings.maxAutoRetry - 1) before ∧
      r.store.KeepsPlaces r'.store ∧
      result.isOk = !r.view.bodyFails command (m.settings.maxAutoRetry - 1) before ∧
      (result.isOk = true → (r'.sequencer.slot before.origin).last = before.next.sequence) := by
  obtain ⟨m₁, r₁, first, settings₁, registry₁, h₁, view₁, places₁⟩ := commitId_next h next
  obtain ⟨m₂, r₂, body, settings₂, registry₂, h₂, view₂, places₂⟩ :=
    runBody_spec h₁ command (m.settings.maxAutoRetry - 1)
  rw [view₁] at body view₂
  unfold runBetween View.between View.bodyFails
  simp only [Step.run_apply, Step.bind_apply, first, body]
  generalize Store.runBody command (m.settings.maxAutoRetry - 1) (r.view.mark before).store = ran
    at view₂ ⊢
  rcases ran with ⟨fault | _, s⟩
  · exact ⟨_, m₂, r₂, rfl, settings₂.trans settings₁, registry₂.trans registry₁, h₂, view₂,
      places₁.trans places₂, rfl, nofun⟩
  · have next₂ : r₂.view.IsNext before.next := by
      rw [view₂]
      exact (r.view.mark_isNext before :)
    obtain ⟨m₃, r₃, last, settings₃, registry₃, h₃, view₃, places₃⟩ := commitId_next h₂ next₂
    dsimp only at view₂ ⊢
    rw [last]
    refine ⟨_, m₃, r₃, rfl, settings₃.trans (settings₂.trans settings₁),
      registry₃.trans (registry₂.trans registry₁), h₃, by rw [view₃, view₂],
      (places₁.trans places₂).trans places₃, rfl, fun _ => ?_⟩
    have slots : r₃.view.slots = (r₂.view.mark before.next).slots := congrArg View.slots view₃
    exact (congrArg (fun f => (f before.origin).last) slots).trans (r₂.view.slots_mark before.next)

/-- Applying a command whose first id is the next one of its origin. -/
theorem finishSchema_next {b : State} (settings : m.settings = n.settings)
    (registry : m.registry = n.registry) (stands : StandsOn n.resources b)
    (path : n.resources.journal.path = none) (promised : b.attempt.promised = [before, before.next])
    (reserved : b.attempt.reserved = []) (next : n.resources.view.IsNext before)
    (command : String) :
    n.Ran command before (finishSchema b command before before.next m).2 ∧
      (finishSchema b command before before.next m).1.isOk = !n.bodyFails command before := by
  obtain ⟨result, m', r', ran, settings', registry', applying, view, places, outcome, last⟩ :=
    runBetween_spec (m := { m with resources := b.resources }) ⟨stands, path, reserved⟩ command next
  have settings' : m'.settings = n.settings := settings'.trans settings
  have tries : ({ m with resources := b.resources } : Node).settings = n.settings := settings
  rw [tries] at view outcome
  unfold finishSchema
  rw [ran]
  rcases result with fault | _
  · have restored := applying.stands.destroy
    exact ⟨⟨settings', registry'.trans registry, restored.view.trans view,
      places.trans restored.keepsPlaces, restored.tidy⟩, outcome⟩
  · have done : ∀ p ∈ b.attempt.promised, p.sequence ≤ (r'.sequencer.slot p.origin).last := by
      rw [promised]
      simp only [List.mem_cons, List.not_mem_nil, or_false, forall_eq_or_imp, forall_eq]
      have last := last rfl
      unfold TxId.next at *
      dsimp only at *
      omega
    have restored := (applying.stands.forget applying.reserved done).destroy
    exact ⟨⟨settings', registry'.trans registry, restored.view.trans view,
      places.trans restored.keepsPlaces, restored.tidy⟩, outcome⟩

/-- Applying any other command changes nothing. -/
theorem finishSchema_other {b : State} (settings : m.settings = n.settings)
    (registry : m.registry = n.registry) (stands : StandsOn n.resources b)
    (path : n.resources.journal.path = none) (reserved : b.attempt.reserved = [])
    (other : ¬ n.resources.view.IsNext before) (command : String) (after : TxId) :
    n.Kept (finishSchema b command before after m).2 := by
  obtain ⟨fault, refused⟩ := commitId_other (m := { m with resources := b.resources })
    ⟨stands, path, reserved⟩ other
  have ran : runBetween command before after { m with resources := b.resources } =
      (.error fault, { m with resources := b.resources }) := by
    unfold runBetween
    simp only [Step.run_apply, Step.bind_apply, refused]
  unfold finishSchema
  rw [ran]
  exact ⟨settings, registry, stands.destroy⟩

/-- A node that judges the ids of a command like this votes for it. -/
def Agrees (n : Node) (before after : TxId) : Prop :=
  Tally.schemaConflict (n.sequencer.validate before) (n.sequencer.validate after) = false

/-- A node for which the first id is the next one votes for the command. -/
theorem Calm.agrees (h : n.Calm out) (next : n.resources.view.IsNext before) :
    n.Agrees before before.next := by
  have open_ : (n.sequencer.slot before.origin).promised = ∅ := h.view.promised before.origin
  have place : before.sequence = (n.sequencer.slot before.origin).last + 1 := next
  have depth : 1 ≤ n.sequencer.depth := h.view.depth
  have first : n.sequencer.validate before = .valid := by
    refine Slot.classify_eq_valid.2 ⟨by omega, ?_, by omega⟩
    rw [open_]
    exact Std.ExtTreeSet.not_mem_empty
  have second : n.sequencer.validate before.next ≠ .alreadyPresent := by
    intro done
    have done := Slot.classify_eq_alreadyPresent.1 done
    have : before.sequence + 1 ≤ (n.sequencer.slot before.origin).last := done
    omega
  unfold Agrees Tally.schemaConflict
  rw [first]
  simp [second, Verdict.mayChange]

theorem Kept.agrees (k : n.Kept n') (before after : TxId) :
    n'.Agrees before after ↔ n.Agrees before after := by
  unfold Agrees
  rw [Resources.validate_of_view k.resources.view, Resources.validate_of_view k.resources.view]

structure Drawn (n : Node) (request : RequestId) (command : String) (before after : TxId)
    (b : State) (n' : Node) : Prop where
  parked : n.Parked b n'
  request : b.attempt.request = request
  job : b.attempt.job = .schema command before after
  reserved : b.attempt.reserved = []
  store : b.resources.store = n.store

/-- A command was offered and dropped: nothing that lasts has happened, and the store is the same.
-/
structure Dropped (n n' : Node) : Prop extends Kept n n' where
  store : n'.store = n.store

theorem Dropped.refl (tidy : n.store.Tidy) : n.Dropped n := ⟨.refl tidy, rfl⟩

theorem Dropped.butDisk {m' : Node} (d : n.Dropped n') (l : n.SameButDisk m)
    (l' : n'.SameButDisk m') :
    m.Dropped m' := by
  have kept := d.toKept.butDisk l l'
  have store := d.store
  obtain ⟨disk, asks, rfl⟩ := l
  obtain ⟨disk', asks', rfl⟩ := l'
  exact ⟨kept, store⟩

inductive SchemaVoted (n : Node) (request : RequestId) (command : String) (before after : TxId) :
    Reply → Node → Prop where
  | yes {n' : Node} {b : State} (drawn : n.Drawn request command before after b n')
      (agrees : n.Agrees before after) (promised : b.attempt.promised = [before, after])
      (status : b.attempt.status = .success) :
      SchemaVoted n request command before after .success n'
  | no {n' : Node} {b : State} {id : TxId} (drawn : n.Drawn request command before after b n')
      (refuses : ¬ n.Agrees before after) (status : b.attempt.status ≠ .success)
      (about : id = before ∨ id = after) :
      SchemaVoted n request command before after (.invalid id (n.sequencer.validate id)) n'

/-- A node votes for a command just when it agrees to its ids. -/
theorem prepareSchema_spec (h : n.Still) (request : RequestId) (command : String)
    (before after : TxId) :
    n.SchemaVoted request command before after (prepareSchema request command before after n).1
      (prepareSchema request command before after n).2 := by
  have stands : StandsOn n.resources (n.newAttempt request (.schema command before after)) :=
    .new h.tidy request _ (h.stranger request)
  have unpromised (id : TxId) : id.sequence ∉ (n.sequencer.slot id.origin).promised := by
    rw [h.promised]
    exact Std.ExtTreeSet.not_mem_empty
  unfold prepareSchema
  dsimp only
  by_cases conflict : Tally.schemaConflict (n.sequencer.validate before)
      (n.sequencer.validate after) = true
  · have refuses : ¬ n.Agrees before after := by
      unfold Agrees
      rw [conflict]
      exact nofun
    rw [if_pos conflict]
    have refused : StandsOn n.resources
        (setStatus .timedOut (n.newAttempt request (.schema command before after))).2 :=
      (stands.congr (a := { Attempt.new request (.schema command before after) with
        status := .timedOut }) rfl rfl rfl rfl rfl).releaseAll
    have drawn : n.Drawn request command before after
        (setStatus .timedOut (n.newAttempt request (.schema command before after))).2
        (n.park (setStatus .timedOut (n.newAttempt request (.schema command before after))).2) :=
      ⟨.park rfl h.registry refused, rfl, rfl, rfl, rfl⟩
    by_cases first : n.sequencer.validate before = .valid
    · rw [if_pos first]
      exact .no drawn refuses nofun (.inr rfl)
    · rw [if_neg first]
      exact .no drawn refuses nofun (.inl rfl)
  · have agrees : n.Agrees before after := (Bool.not_eq_true _).mp conflict
    rw [if_neg conflict]
    have first := stands.markPromised before (unpromised before)
    have second := first.markPromised after (unpromised after)
    have marked : (do markPromised before; markPromised after : Step State Unit).run
        (n.newAttempt request (.schema command before after)) =
          (.ok (), (markPromised after
            (markPromised before (n.newAttempt request (.schema command before after))).2).2) := rfl
    rw [marked]
    exact .yes ⟨.park rfl h.registry second.succeed, rfl, rfl, rfl, rfl⟩ agrees rfl rfl

theorem Drawn.butDisk {b : State} {m' : Node} (d : n.Drawn request command before after b n')
    (l : n.SameButDisk m) (l' : n'.SameButDisk m') :
    ∃ disk, m.Drawn request command before after
      ⟨b.attempt, { b.resources with disk := disk }⟩ m' := by
  obtain ⟨disk, parked⟩ := d.parked.butDisk l l'
  obtain ⟨disk₀, asks, rfl⟩ := l
  exact ⟨disk, parked, d.request, d.job, d.reserved, d.store⟩

/-- A vote does not depend on the disk. -/
theorem SchemaVoted.butDisk {m' : Node} (v : n.SchemaVoted request command before after reply n')
    (l : n.SameButDisk m) (l' : n'.SameButDisk m') :
    m.SchemaVoted request command before after reply m' := by
  have agrees : m.Agrees before after ↔ n.Agrees before after := by
    obtain ⟨disk, asks, rfl⟩ := l
    rfl
  have judged (id : TxId) : n.sequencer.validate id = m.sequencer.validate id := by
    obtain ⟨disk, asks, rfl⟩ := l
    rfl
  cases v with
  | yes drawn yes promised status =>
    obtain ⟨disk, drawn⟩ := drawn.butDisk l l'
    exact .yes drawn (agrees.2 yes) promised status
  | no drawn no status about =>
    obtain ⟨disk, drawn⟩ := drawn.butDisk l l'
    rw [judged]
    exact .no drawn (fun h => no (agrees.1 h)) status about

theorem Drawn.waiting? {b : State} (d : n.Drawn request command before after b n') :
    n'.waiting? request = some b := by
  rw [← d.request]
  exact d.parked.waiting?

theorem Drawn.discard {b : State} (d : n.Drawn request command before after b n')
    (none : n.registry = Registry.empty) : n.Dropped ((n'.forget request).discard b) := by
  rw [← d.request]
  exact ⟨d.parked.discard none, (store_destroy d.reserved).trans d.store⟩

/-- Judging a refused command again comes to the same. -/
theorem resolveSchema_spec (h : n.Calm out) (refuses : ¬ n.Agrees before after)
    (request : RequestId) (command : String) (more : Nat) :
    n.Kept (resolveSchema request command before after more n).2 := by
  induction more generalizing n with
  | zero => exact ⟨rfl, rfl, .refl h.tidy⟩
  | succ more ih =>
    have voted := prepareSchema_spec h.still request command before after
    unfold resolveSchema
    generalize prepareSchema request command before after n = answer at voted ⊢
    obtain ⟨reply, n'⟩ := answer
    dsimp only at voted ⊢
    cases voted with
    | yes drawn agrees promised status => exact absurd agrees refuses
    | no drawn _ status about =>
      have kept := (drawn.discard h.registry).toKept
      rw [drawn.waiting?]
      exact kept.trans (ih (h.kept kept)
        fun agrees => refuses ((kept.agrees before after).1 agrees))

/-- A vote that is not taken up leaves nothing. -/
theorem SchemaVoted.discard (none : n.registry = Registry.empty)
    (v : n.SchemaVoted request command before after reply n') :
    (settleSchema request false n').1 = .ok () ∧ n.Dropped (settleSchema request false n').2 := by
  unfold settleSchema
  cases v with
  | yes drawn agrees promised status =>
    rw [drawn.waiting?]
    exact ⟨rfl, drawn.discard none⟩
  | no drawn refuses status about =>
    rw [drawn.waiting?]
    exact ⟨rfl, drawn.discard none⟩

/-- The decision to apply a command takes effect where its first id is the next one. -/
theorem SchemaVoted.apply (h : n.Calm out)
    (v : n.SchemaVoted request command before before.next reply n') :
    (n.resources.view.IsNext before →
      n.Ran command before (settleSchema request true n').2 ∧
        (settleSchema request true n').1.isOk = !n.bodyFails command before) ∧
      (¬ n.resources.view.IsNext before → n.Kept (settleSchema request true n').2) := by
  unfold settleSchema
  cases v with
  | @yes _ b drawn agrees promised status =>
    have forgotten := drawn.parked.forget
    rw [drawn.request] at forgotten
    obtain ⟨registry, -, settings⟩ := forgotten
    have registry := registry.trans h.registry.symm
    rw [drawn.waiting?]
    simp only [drawn.job, status, ↓reduceIte]
    exact ⟨fun next => finishSchema_next settings registry drawn.parked.stands h.view.path promised
        drawn.reserved next command,
      fun other => finishSchema_other settings registry drawn.parked.stands h.view.path
        drawn.reserved other command before.next⟩
  | @no _ b id drawn refuses status about =>
    have kept := (drawn.discard h.registry).toKept
    rw [drawn.waiting?]
    simp only [drawn.job, status, ↓reduceIte]
    refine ⟨fun next => absurd (h.agrees next) refuses, fun _ => kept.trans ?_⟩
    exact resolveSchema_spec (h.kept kept)
      (fun agrees => refuses ((kept.agrees before before.next).1 agrees)) request command _

/-- A node has run a command between two ids, as far as other nodes can tell. -/
structure Executed (n : Node) (command : String) (before : TxId) (n' : Node) : Prop where
  settings : n'.settings = n.settings
  registry : n'.registry = n.registry
  shared : n'.resources.view.shared =
    (n.resources.view.between command (n.settings.maxAutoRetry - 1) before).shared
  places : n.store.KeepsPlaces n'.store
  origin : n'.sequencer.origin = n.sequencer.origin

theorem Ran.butDisk {m' : Node} (r : n.Ran command before n') (l : n.SameButDisk m)
    (l' : n'.SameButDisk m') :
    m.Ran command before m' := by
  obtain ⟨disk, asks, rfl⟩ := l
  obtain ⟨disk', asks', rfl⟩ := l'
  exact ⟨r.settings, r.registry, r.view, ⟨r.places.room, r.places.reserved⟩, r.tidy⟩

theorem between_origin (v : View) (command : String) (more : Nat) (before : TxId) :
    (v.between command more before).origin = v.origin := by
  unfold View.between
  rcases Store.runBody command more (v.mark before).store with ⟨fault | _, s⟩ <;> rfl

theorem Ran.executed (r : n.Ran command before n') : n.Executed command before n' where
  settings := r.settings
  registry := r.registry
  shared := congrArg View.shared r.view
  places := r.places
  origin := (congrArg View.origin r.view :).trans (between_origin _ _ _ _)

theorem Same.executed {n'' : Node} (h : n.Same n') (e : n'.Executed command before n'') :
    n.Executed command before n'' where
  settings := e.settings.trans h.settings
  registry := e.registry.trans h.registry
  shared := by
    rw [e.shared, h.settings]
    exact (View.shared_between h.shared _ _ _).1
  places := .trans ⟨h.room, h.reserved⟩ e.places
  origin := e.origin.trans h.origin

theorem Executed.last (e : n.Executed command before n') :
    (n'.sequencer.slot before.origin).last =
      if n.bodyFails command before then before.sequence else before.sequence + 1 :=
  (congrArg (fun v : View => (v.slots before.origin).last) e.shared :).trans
    (View.last_between _ _ _ _)

theorem Executed.last_other (e : n.Executed command before n') {o : Nat}
    (other : o ≠ before.origin) : (n'.sequencer.slot o).last = (n.sequencer.slot o).last :=
  (congrArg (fun v : View => (v.slots o).last) e.shared :).trans
    (congrArg Slot.last (View.slots_between_other _ _ _ _ other) :)

theorem Calm.ran (h : n.Calm out) (next : n.resources.view.IsNext before)
    (r : n.Ran command before n') :
    n'.Calm (if before.origin = n.sequencer.origin then
      (if n.bodyFails command before then out - 1 else out - 2) else out) where
  view := by
    rw [r.view]
    exact h.view.between command (n.settings.maxAutoRetry - 1) next
  tidy := r.tidy
  registry := r.registry.trans h.registry
  tries := by
    rw [r.settings]
    exact h.tries

end Node

end QuorumCommit
