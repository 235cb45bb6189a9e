import QuorumCommit.Proofs.InFlight.Sound

/-!
No reserved place is forgotten as long as there is room. If the records that each change set creates
are distinct, an attempt lists just the places of its created records; so a commit uses up all that
is reserved for it. Of one attempt that is so whatever the other change sets create.
-/
namespace QuorumCommit

def Deed.Distinct : Deed → Prop
  | begin _ (.data _ t) | fetch _ t => t.createdRecords.Nodup
  | _ => True

namespace InFlight

variable {A : Multiset Attempt} {a : Attempt} {r r' : Resources} {b : Attempt.State} {d : Deed}

structure Accounted (w : InFlight) : Prop extends Sound w where
  reserved : ∀ place, w.resources.store.isReserved place = true →
    ∃ a ∈ w.attempts, place ∈ a.reserved
  distinct : ∀ a ∈ w.attempts, ∀ id t, a.job = .data id t → t.createdRecords.Nodup
  used : ∀ a ∈ w.attempts, a.status = .success → ∀ id t, a.job = .data id t →
    t.createdRecords = a.reserved

namespace Accounted

/-- Nothing has been reserved, and the attempts are the same. -/
theorem same (h : Accounted ⟨A, r⟩) (sound : Sound ⟨A, r'⟩)
    (reserved : ∀ place, r'.store.isReserved place = true → r.store.isReserved place = true) :
    Accounted ⟨A, r'⟩ :=
  ⟨sound, fun place held => h.reserved place (reserved place held), h.distinct, h.used⟩

/-- A new attempt lists what it reserved. -/
theorem took (h : Accounted ⟨A, r⟩) (took : Attempt.Took r b) (sane : b.attempt.Sane)
    {id : TxId} {t t' : ChangeSet} (job : b.attempt.job = .data id t')
    (placed : Store.Placed t b.attempt.reserved t') (nodup : t.createdRecords.Nodup)
    (room : b.resources.store.HasRoom) : Accounted ⟨b.attempt ::ₘ A, b.resources⟩ where
  toSound := h.toSound.took took sane
  reserved place held := by
    rcases (took.store.reserved room place).1 held with before | mine
    · obtain ⟨a, mem, listed⟩ := h.reserved place before
      exact ⟨a, Multiset.mem_cons_of_mem mem, listed⟩
    · exact ⟨_, Multiset.mem_cons_self _ _, mine⟩
  distinct a mem id' u same := by
    rcases Multiset.mem_cons.1 mem with rfl | mem
    · rw [job, Job.data.injEq] at same
      rw [← same.2, placed.distinct (took.store.final room) nodup]
      exact took.store.distinct room
    · exact h.distinct a mem id' u same
  used a mem success id' u same := by
    rcases Multiset.mem_cons.1 mem with rfl | mem
    · rw [job, Job.data.injEq] at same
      rw [← same.2, placed.distinct (took.store.final room) nodup]
    · exact h.used a mem success id' u same

/-- An attempt is added that lists no place. -/
theorem idle (h : Accounted ⟨A, r⟩) (sound : Sound ⟨a ::ₘ A, r'⟩)
    (reserved : ∀ place, r'.store.isReserved place = true → r.store.isReserved place = true)
    (distinct : ∀ id t, a.job = .data id t → a.status ≠ .success ∧ t.createdRecords.Nodup) :
    Accounted ⟨a ::ₘ A, r'⟩ where
  toSound := sound
  reserved place held := by
    obtain ⟨c, mem, listed⟩ := h.reserved place (reserved place held)
    exact ⟨c, Multiset.mem_cons_of_mem mem, listed⟩
  distinct c mem id t job := by
    rcases Multiset.mem_cons.1 mem with rfl | mem
    · exact (distinct id t job).2
    · exact h.distinct c mem id t job
  used c mem success id t job := by
    rcases Multiset.mem_cons.1 mem with rfl | mem
    · exact absurd success (distinct id t job).1
    · exact h.used c mem success id t job

/-- An attempt is over, and none of its places is reserved any more. -/
theorem ended (h : Accounted ⟨a ::ₘ A, r⟩) (ended : Attempt.Ended a r r')
    (gone : ∀ place ∈ a.reserved, r'.store.isReserved place = false) : Accounted ⟨A, r'⟩ where
  toSound := h.toSound.ended ended
  reserved place held := by
    obtain ⟨c, mem, listed⟩ := h.reserved place (ended.reserved place held)
    rcases Multiset.mem_cons.1 mem with rfl | mem
    · rw [gone place listed] at held
      cases held
    · exact ⟨c, mem, listed⟩
  distinct c mem := h.distinct c (Multiset.mem_cons_of_mem mem)
  used c mem := h.used c (Multiset.mem_cons_of_mem mem)

theorem keptWhile : KeptWhile HasRoom (fun _ d => d.Distinct) Accounted := by
  intro w d w' room h allowed act
  have sound := Sound.keptBy (fun _ d => d.Distinct) w d w' h.toSound allowed act
  cases act with
  | tried work =>
    exact h.same sound fun place held => by rwa [work.took.undone.reserved room] at held
  | missed undone _ => exact h.same sound fun place held => by rwa [undone.reserved room] at held
  | begun fit status => exact h.took fit.took (fit.sane status) fit.job fit.placed allowed room
  | fetched fetched =>
    exact h.took fetched.took fetched.sane fetched.job fetched.placed allowed room
  | @shelved _ _ a _ job shelved =>
    refine h.idle sound (fun _ held => held) fun id t same => ⟨shelved.status, ?_⟩
    have develops := shelved.job
    rw [same] at develops
    cases develops with
    | data _ becomes => exact becomes.distinct room allowed
  | offered request command before after =>
    exact h.idle sound (fun _ held => held) fun _ _ job => nomatch job
  | @applied A r a id t status job =>
    obtain ⟨ended, -, gone⟩ := h.ended_applied status job
    exact h.ended ended (gone (h.used a (Multiset.mem_cons_self a A) status id t job))
  | @settled A r a command before after job first second =>
    refine h.ended (h.ended_settled job first second) fun place mem => ?_
    rw [((h.sane a (Multiset.mem_cons_self a A)).schema command before after job).2] at mem
    cases mem
  | discarded =>
    refine h.ended h.ended_discarded fun place mem => ?_
    rw [← Bool.not_eq_true]
    exact fun held => ((h.released_discarded.reserved place).1 held).1 mem
  | noted disk next => exact h.same sound fun _ held => held
  | unsaved disk next _ => exact h.same sound fun _ held => held
  | quiet quiet => exact h.same sound fun place held => by rwa [quiet.isReserved] at held

end Accounted

end InFlight

/-- If the records that it creates are distinct, the attempt lists no other places. -/
def Attempt.Frugal (a : Attempt) : Prop :=
  a.status = .success → ∀ id t, a.job = .data id t → t.createdRecords.Nodup →
    t.createdRecords = a.reserved

/-- An attempt has got just the places of its records, if these are distinct. -/
theorem Attempt.frugal_of_placed {a : Attempt} {id : TxId} {t t' : ChangeSet}
    (job : a.job = .data id t') (placed : Store.Placed t a.reserved t')
    (final : ∀ place ∈ a.reserved, place.isTemporary = false) : a.Frugal := by
  intro _ id' u same nodup
  rw [job, Job.data.injEq] at same
  obtain ⟨-, rfl⟩ := same
  exact placed.distinct final (placed.apart nodup)

namespace InFlight

structure Frugal (w : InFlight) : Prop extends Sound w where
  frugal : ∀ a ∈ w.attempts, a.Frugal

theorem Frugal.keptWhile (ok : Multiset Attempt → Deed → Prop) : KeptWhile HasRoom ok Frugal := by
  intro w d w' room h allowed act
  refine ⟨Sound.keptBy ok w d w' h.toSound allowed act, ?_⟩
  have more {a : Attempt} {A : Multiset Attempt} (all : ∀ c ∈ A, c.Frugal) (new : a.Frugal) :
      ∀ c ∈ a ::ₘ A, c.Frugal :=
    Multiset.forall_mem_cons.2 ⟨new, all⟩
  cases act with
  | begun fit status =>
    exact more h.frugal (Attempt.frugal_of_placed fit.job fit.placed (fit.took.store.final room))
  | fetched fetched =>
    exact more h.frugal
      (Attempt.frugal_of_placed fetched.job fetched.placed (fetched.took.store.final room))
  | shelved shelved => exact more h.frugal fun success => absurd success shelved.status
  | offered request command before after => exact more h.frugal fun _ _ _ job => nomatch job
  | applied | settled | discarded => exact (Multiset.forall_mem_cons.1 h.frugal).2
  | tried | missed | noted | unsaved | quiet => exact h.frugal

end InFlight

end QuorumCommit
