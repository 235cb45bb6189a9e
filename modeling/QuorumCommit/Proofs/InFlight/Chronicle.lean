import QuorumCommit.Proofs.InFlight.Sound

/-!
The list of commits and the journal. As long as nothing is caught up with, whatever an attempt that
waits updates or removes is stored, so a commit cannot fail after its id has been committed: the
list has every committed id of an origin once and in order.
-/
namespace QuorumCommit

def TxId.upTo (o n : Nat) : List TxId := (List.range n).map fun k => ⟨o, k + 1⟩

theorem TxId.upTo_succ (o n : Nat) : upTo o (n + 1) = upTo o n ++ [⟨o, n + 1⟩] := by
  unfold upTo
  rw [List.range_succ, List.map_append]
  rfl

def Store.appliedBy (s : Store) (o : Nat) : List TxId :=
  (s.applied.map (·.id)).filter (·.origin = o)

namespace Resources

variable {r r' : Resources} {id : TxId}

/-- For every origin, the ids that were applied are those that are committed, in order. -/
def Chronicled (r : Resources) : Prop :=
  ∀ o, r.store.appliedBy o = TxId.upTo o (r.sequencer.slot o).last

theorem Chronicled.same (h : r.Chronicled) (applied : r'.store.applied = r.store.applied)
    (last : ∀ o, (r'.sequencer.slot o).last = (r.sequencer.slot o).last) : r'.Chronicled := by
  intro o
  unfold Store.appliedBy
  rw [applied, last]
  exact h o

/-- The next id is applied and committed. -/
theorem Chronicled.next (h : r.Chronicled) (next : r.IsNext id) {offset : Nat}
    (applied : r'.store.applied = r.store.applied ++ [⟨id, offset⟩])
    (last : ∀ o, (r'.sequencer.slot o).last =
      if o = id.origin then id.sequence else (r.sequencer.slot o).last) : r'.Chronicled := by
  intro o
  have before := h o
  unfold Store.appliedBy at before ⊢
  rw [applied, last, List.map_append, List.filter_append, before]
  by_cases own : o = id.origin
  · subst own
    have next : id.sequence = (r.sequencer.slot id.origin).last + 1 := next
    rw [if_pos rfl, next, TxId.upTo_succ, ← next]
    simp
  · rw [if_neg own]
    simp [Ne.symm own]

end Resources

def Attempt.Grounded (s : Store) (a : Attempt) : Prop :=
  a.status = .success → ∀ id t, a.job = .data id t →
    ∀ c ∈ t.changes, c.kind ≠ .created → s.isStored c.record = true

theorem Attempt.Grounded.mono {a : Attempt} {s s' : Store} (h : a.Grounded s)
    (stored : ∀ place, s.isStored place = true → s'.isStored place = true) : a.Grounded s' :=
  fun success id t job c mem kind => stored _ (h success id t job c mem kind)

def Deed.Local : Deed → Prop
  | fetch .. => False
  | _ => True

namespace InFlight

variable {A : Multiset Attempt} {a : Attempt} {r r' : Resources}

/-- The work in flight is sound, the journal is in memory, and the list of commits agrees with it.
-/
structure Recorded (w : InFlight) : Prop extends Sound w where
  path : w.resources.journal.path = none
  grounded : ∀ a ∈ w.attempts, a.Grounded w.resources.store
  chronicled : w.resources.Chronicled

namespace Recorded

/-- Neither commits nor the journal are touched. -/
theorem same {A' : Multiset Attempt} (h : Recorded ⟨A, r⟩) (sound : Sound ⟨A', r'⟩)
    (path : r'.journal.path = r.journal.path)
    (stored : ∀ place, r.store.isStored place = true → r'.store.isStored place = true)
    (applied : r'.store.applied = r.store.applied)
    (last : ∀ o, (r'.sequencer.slot o).last = (r.sequencer.slot o).last)
    (more : ∀ a ∈ A', a ∈ A ∨ a.Grounded r'.store) : Recorded ⟨A', r'⟩ where
  toSound := sound
  path := path.trans h.path
  grounded a mem := by
    rcases more a mem with known | grounded
    · exact (h.grounded a known).mono stored
    · exact grounded
  chronicled := h.chronicled.same applied last

/-- The next id is committed, and noted in the list of commits. -/
theorem advance (h : Recorded ⟨A, r⟩) {A' : Multiset Attempt} (sound : Sound ⟨A', r'⟩)
    (path : r'.journal.path = r.journal.path)
    (stored : ∀ place, r.store.isStored place = true → r'.store.isStored place = true)
    {id : TxId} (next : r.IsNext id) {offset : Nat}
    (applied : r'.store.applied = r.store.applied ++ [⟨id, offset⟩])
    (last : ∀ o, (r'.sequencer.slot o).last =
      if o = id.origin then id.sequence else (r.sequencer.slot o).last)
    (less : ∀ a ∈ A', a ∈ A) : Recorded ⟨A', r'⟩ where
  toSound := sound
  path := path.trans h.path
  grounded a mem := (h.grounded a (less a mem)).mono stored
  chronicled := h.chronicled.next next applied last

/-- Ending an attempt in any other way than by applying it. -/
theorem ended (h : Recorded ⟨a ::ₘ A, r⟩) (ended : Attempt.Ended a r r')
    (content : r'.store.content = r.store.content)
    (last : ∀ o, (r'.sequencer.slot o).last = (r.sequencer.slot o).last) : Recorded ⟨A, r'⟩ :=
  h.same (h.toSound.ended ended) ended.path ended.stored (Store.applied_of_content content) last
    fun _ mem => .inl (Multiset.mem_cons_of_mem mem)

/-- Applying an attempt either changes nothing, or commits all of it. -/
theorem applied (h : Recorded ⟨a ::ₘ A, r⟩) {id : TxId} {t : ChangeSet}
    (status : a.status = .success) (job : a.job = .data id t) :
    Recorded ⟨A, (Attempt.destroy (Attempt.apply ⟨a, r⟩).2).resources⟩ := by
  obtain ⟨ended, effect, -⟩ := h.ended_applied status job
  cases effect with
  | none last content => exact h.ended ended content last
  | logged _ file _ _ => exact absurd h.path file
  | committed next last content =>
    have grounded := h.grounded a (Multiset.mem_cons_self a A) status id t job
    have ok : (r.store.commit t ⟨id, r.sequencer.nextOffset⟩).1 = .ok () :=
      Store.commit_ok_of_stored grounded _
    have noted := (Store.applied_of_content content).trans (Store.applied_commit ok)
    exact h.advance (h.toSound.ended ended) ended.path ended.stored next noted last fun _ mem =>
      Multiset.mem_cons_of_mem mem

theorem keptBy : KeptBy (fun _ d => d.Local) Recorded := by
  intro w d w' h allowed act
  have sound := Sound.keptBy (fun _ d => d.Local) w d w' h.toSound allowed act
  have known (A : Multiset Attempt) : ∀ a ∈ A, a ∈ A ∨ a.Grounded w'.resources.store :=
    fun _ mem => .inl mem
  cases act with
  | @tried _ r _ _ _ _ work =>
    have undone := work.took.undone
    refine h.same sound undone.path (fun place stored => ?_)
      (Store.applied_of_content undone.content) undone.last (known _)
    rwa [Store.isStored_of_content undone.content]
  | @begun _ r b _ id t u t' fit status =>
    refine h.same sound fit.took.path (fun place stored => ?_)
      (Store.applied_of_content fit.took.store.content) fit.took.last fun a mem => ?_
    · rwa [fit.took.store.isStored]
    · rcases Multiset.mem_cons.1 mem with rfl | mem
      · refine .inr fun _ id' t'' job c listed kind => ?_
        rw [fit.job, Job.data.injEq] at job
        rw [fit.took.store.isStored]
        exact Store.isStored_of_checkVersion (forM_eq_ok.1 fit.versions c (job.2 ▸ listed)) kind
      · exact .inl mem
  | fetched fetched => cases allowed
  | missed undone _ => cases allowed
  | shelved shelved =>
    refine h.same sound rfl (fun _ stored => stored) rfl (fun _ => rfl) fun a mem => ?_
    rcases Multiset.mem_cons.1 mem with rfl | mem
    · exact .inr fun success => absurd success shelved.status
    · exact .inl mem
  | offered request command before after =>
    refine h.same sound rfl (fun _ stored => stored) rfl Resources.slot_offer fun a mem => ?_
    rcases Multiset.mem_cons.1 mem with rfl | mem
    · exact .inr fun _ _ _ job => nomatch job
    · exact .inl mem
  | applied status job => exact h.applied status job
  | settled job first second =>
    have released := h.released_settled
    exact h.ended (h.ended_settled job first second) released.content released.last
  | discarded =>
    have released := h.released_discarded
    exact h.ended h.ended_discarded released.content released.last
  | noted disk next =>
    exact h.advance sound rfl (fun _ stored => stored) next rfl Resources.last_advanceOn
      fun _ mem => mem
  | unsaved disk next file => exact absurd h.path file
  | quiet quiet =>
    refine h.same sound quiet.path (fun place stored => ?_) quiet.applied quiet.last (known _)
    rwa [quiet.isStored]

end Recorded

end InFlight

end QuorumCommit
