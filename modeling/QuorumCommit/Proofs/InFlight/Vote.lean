import QuorumCommit.Proofs.InFlight.Sound

/-!
What becomes of one prepared attempt while others come and go. As long as nothing is begun or ended
for its request and no command names its id, it waits with all that it holds.
-/
namespace QuorumCommit

/-- The attempt lists the id, or is for a command that names it and so may list it again. -/
def Attempt.Claims (a : Attempt) (id : TxId) : Prop :=
  id ∈ a.promised ∨ ∃ command before after, a.job = .schema command before after ∧
    id ∈ [before, after]

/-- The deed is not about the request or, as far as it is, ends an attempt that holds nothing. No
command is begun that names the id. -/
def Deed.Spares (request : RequestId) (id : TxId) : Deed → Prop
  | begin q (.data ..) => q ≠ request
  | begin q (.schema _ before after) => q ≠ request ∧ id ∉ [before, after]
  | finish a => a.request = request → a.held = [] ∧ a.promised = []
  | fetch .. | other => True

namespace InFlight

variable {A B : Multiset Attempt} {v a : Attempt} {r r' : Resources} {b : Attempt.State}
  {id : TxId}

/-- The attempt `v` waits for the decision on the id. It holds what it lists, and no other attempt
can take that away. -/
structure Standing (v : Attempt) (id : TxId) (w : InFlight) : Prop extends Sound w where
  success : v.status = .success
  promised : v.promised = [id]
  waits : ∃ B, w.attempts = v ::ₘ B ∧
    ∀ a ∈ B, ¬ a.Claims id ∧ (a.request = v.request → a.held = [] ∧ a.promised = [])
  held : ∀ key ∈ v.held, w.resources.locks.holder? key = some v.request
  known : w.resources.HasPromised id ∨ w.resources.HasDone id

namespace Standing

/-- A prepared attempt stands when no other one claims its id or holds anything for its request. -/
theorem new (sound : Sound ⟨A, r⟩) {request : RequestId} {t u t' : ChangeSet}
    (fit : Attempt.Fit r request id t u t' b) (status : b.attempt.status = .success)
    (free : ∀ a ∈ A, ¬ a.Claims id)
    (idle : ∀ a ∈ A, a.request = request → a.held = [] ∧ a.promised = []) :
    Standing b.attempt id ⟨b.attempt ::ₘ A, b.resources⟩ where
  toSound := sound.took fit.took (fit.sane status)
  success := status
  promised := fit.promised
  waits := ⟨A, rfl, fun a mem => ⟨free a mem, fun same => idle a mem (same.trans fit.request)⟩⟩
  held key mem := (fit.took.locks key).trans (if_pos mem)
  known := by
    refine .inl (fit.took.hasPromised.2 (.inr ⟨?_, ?_⟩))
    · exact Nat.not_le.2 (Slot.classify_eq_valid.1 fit.valid).1
    · rw [fit.promised]
      exact List.mem_singleton_self id

/-- The id stays known when its promise is kept and no commit is taken back. -/
theorem known_of (h : Standing v id ⟨A, r⟩) (promised : r.HasPromised id → r'.HasPromised id)
    (last : ∀ o, (r'.sequencer.slot o).last = (r.sequencer.slot o).last) :
    r'.HasPromised id ∨ r'.HasDone id := by
  unfold Resources.HasDone
  rw [last]
  exact h.known.imp_left promised

/-- The same attempts wait, and neither keys nor the id have got lost. -/
theorem same (h : Standing v id ⟨A, r⟩) (sound : Sound ⟨A, r'⟩)
    (held : ∀ key ∈ v.held, r'.locks.holder? key = some v.request)
    (known : r'.HasPromised id ∨ r'.HasDone id) : Standing v id ⟨A, r'⟩ :=
  ⟨sound, h.success, h.promised, h.waits, held, known⟩

/-- An attempt is added that does not claim the id, and is for another request or holds nothing. -/
theorem more (h : Standing v id ⟨A, r⟩) (sound : Sound ⟨a ::ₘ A, r'⟩)
    (free : ¬ a.Claims id) (idle : a.request = v.request → a.held = [] ∧ a.promised = [])
    (held : ∀ key ∈ v.held, r'.locks.holder? key = some v.request)
    (known : r'.HasPromised id ∨ r'.HasDone id) : Standing v id ⟨a ::ₘ A, r'⟩ := by
  obtain ⟨B, split, others⟩ := h.waits
  have split : A = v ::ₘ B := split
  refine ⟨sound, h.success, h.promised, ⟨a ::ₘ B, ?_, ?_⟩, held, known⟩
  · rw [split, Multiset.cons_swap]
  · exact Multiset.forall_mem_cons.2 ⟨⟨free, idle⟩, others⟩

/-- Another attempt is over. -/
theorem ended (h : Standing v id ⟨a ::ₘ A, r⟩) (ended : Attempt.Ended a r r')
    (spared : a.request = v.request → a.held = [] ∧ a.promised = []) :
    Standing v id ⟨A, r'⟩ := by
  obtain ⟨B, split, others⟩ := h.waits
  have other : a ≠ v := by
    rintro rfl
    rw [h.promised] at spared
    cases (spared rfl).2
  rcases Multiset.cons_eq_cons.1 split with ⟨same, -⟩ | ⟨-, C, rfl, rfl⟩
  · exact absurd same other
  rw [Multiset.forall_mem_cons] at others
  have unclaimed : id ∉ a.promised := fun mem => others.1.1 (.inl mem)
  refine ⟨h.toSound.ended ended, h.success, h.promised, ⟨C, rfl, others.2⟩, fun key mem => ?_, ?_⟩
  · have holder := h.held key mem
    rw [ended.locks, if_neg, holder]
    rintro ⟨mine, own⟩
    rw [holder, Option.some.injEq] at own
    rw [(spared own.symm).1] at mine
    cases mine
  · rcases h.known with promised | done
    · exact ended.others id unclaimed promised
    · exact .inr (Nat.le_trans done (ended.last _))

/-- An id that is known is not valid any more, so no other attempt gets it. -/
theorem ne_of_valid (h : Standing v id ⟨A, r⟩) {p : TxId}
    (valid : r.sequencer.validate p = .valid) : id ≠ p := by
  rintro rfl
  obtain ⟨after, fresh, -⟩ := Slot.classify_eq_valid.1 valid
  rcases h.known with promised | done
  · exact fresh promised
  · exact Nat.not_le.2 after done

theorem begun (h : Standing v id ⟨A, r⟩) {request : RequestId} {p : TxId} {t u t' : ChangeSet}
    (fit : Attempt.Fit r request p t u t' b) (status : b.attempt.status = .success)
    (spared : request ≠ v.request) : Standing v id ⟨b.attempt ::ₘ A, b.resources⟩ := by
  refine h.more (h.toSound.took fit.took (fit.sane status)) ?_ (fun same => ?_)
    (fun key mem => ?_) (h.known_of (fit.took.hasPromised.2 <| .inl ·) fit.took.last)
  · rintro (mem | ⟨command, before, after, job, -⟩)
    · rw [fit.promised, List.mem_singleton] at mem
      exact h.ne_of_valid fit.valid mem
    · rw [fit.job] at job
      cases job
  · exact absurd (fit.request.symm.trans same) spared
  · rw [fit.took.locks, if_neg, h.held key mem]
    intro mine
    have own := fit.took.allowed key mine v.request (h.held key mem)
    exact spared (fit.request.symm.trans own.symm)

theorem fetched (h : Standing v id ⟨A, r⟩) {p : TxId} {t t' : ChangeSet}
    (fetched : Attempt.Fetched r p t t' b) : Standing v id ⟨b.attempt ::ₘ A, b.resources⟩ := by
  refine h.more (h.toSound.took fetched.took fetched.sane) ?_
    (fun _ => ⟨fetched.held, fetched.promised⟩) (fun key mem => ?_)
    (h.known_of (fetched.took.hasPromised.2 <| .inl ·) fetched.took.last)
  · rintro (mem | ⟨command, before, after, job, -⟩)
    · rw [fetched.promised] at mem
      cases mem
    · rw [fetched.job] at job
      cases job
  · rw [fetched.took.locks, fetched.held, if_neg List.not_mem_nil, h.held key mem]

/-- A command that does not name the id may be refused or offered. -/
theorem unclaimed_of_shelved {room : Prop} {request : RequestId} {job : Job}
    (shelved : Attempt.Shelved room request job a)
    (spared : (Deed.begin request job).Spares v.request id) : ¬ a.Claims id := by
  rintro (mem | ⟨command, before, after, same, mem⟩)
  · rw [shelved.promised] at mem
    cases mem
  · have develops := shelved.job
    rw [same] at develops
    cases develops
    exact spared.2 mem

/-- Committing the next id keeps what is known of others. -/
theorem advance (h : Standing v id ⟨A, r⟩) {p : TxId} (next : r.IsNext p) (disk : FileTree)
    {store : Store} (sound : Sound ⟨A, r.advanceOn disk p store⟩) :
    Standing v id ⟨A, r.advanceOn disk p store⟩ := by
  refine h.same sound h.held ?_
  by_cases same : id = p
  · subst same
    exact .inr Resources.hasDone_advanceOn
  · rcases h.known with promised | done
    · exact .inl (Resources.hasPromised_advanceOn.2 ⟨same, promised⟩)
    · exact .inr (Nat.le_trans done (next.last_le _))

theorem keptBy : KeptBy (fun _ d => d.Spares v.request id) (Standing v id) := by
  intro w d w' h allowed act
  have sound := Sound.keptBy (fun _ d => d.Spares v.request id) w d w' h.toSound allowed act
  cases act with
  | @tried A r b request p t work =>
    have undone := work.took.undone
    refine h.same sound (fun key mem => ?_) (h.known_of undone.hasPromised.2 undone.last)
    rcases undone.locks key with same | ⟨-, own⟩
    · exact same.trans (h.held key mem)
    · rw [h.held key mem, Option.some.injEq, work.request] at own
      exact absurd own.symm allowed
  | begun fit status => exact h.begun fit status allowed
  | fetched fetched => exact h.fetched fetched
  | missed undone same =>
    exact h.same sound (fun key mem => (same key).trans (h.held key mem))
      (h.known_of undone.hasPromised.2 undone.last)
  | @shelved A r a request job shelved =>
    refine h.more sound (unclaimed_of_shelved shelved allowed)
      (fun _ => ⟨shelved.held, shelved.promised⟩) h.held h.known
  | @offered A r request command before after =>
    refine h.more sound ?_ (fun same => absurd same allowed.1) h.held
      (h.known_of (Resources.hasPromised_offer.2 <| .inl ·) Resources.slot_offer)
    rintro (mem | ⟨_, _, _, job, mem⟩)
    · exact allowed.2 mem
    · cases job
      exact allowed.2 mem
  | applied status job => exact h.ended (h.ended_applied status job).1 allowed
  | settled job first second => exact h.ended (h.ended_settled job first second) allowed
  | discarded => exact h.ended h.ended_discarded allowed
  | noted disk next => exact h.advance next disk sound
  | unsaved disk next _ => exact h.advance next disk sound
  | quiet quiet =>
    refine h.same sound (fun key mem => ?_) (h.known_of quiet.hasPromised.2 quiet.last)
    rw [quiet.locks]
    exact h.held key mem

/-- As long as there is room, the places that the attempt lists stay reserved. -/
theorem isReserved (h : Standing v id ⟨A, r⟩) (room : r.store.HasRoom) {place : RecordId}
    (mem : place ∈ v.reserved) : r.store.isReserved place = true := by
  obtain ⟨B, split, -⟩ := h.waits
  have split : A = v ::ₘ B := split
  exact h.kept room v (split ▸ Multiset.mem_cons_self v B) place mem

end Standing

end InFlight

end QuorumCommit
