import Mathlib.Data.List.Dedup
import QuorumCommit.Proofs.InFlight.Sound

/-!
Who owns a promise. The log keeps a promised id without the attempt that it was promised to, and
whichever attempt lists the id takes the promise away when it is over. So a promise is safe as long
as no two attempts list its id. A change set gets no id that is listed already; only a command can.
-/
namespace QuorumCommit

def Deed.Plain : Deed → Prop
  | begin _ (.schema ..) => False
  | _ => True

namespace InFlight

variable {A : Multiset Attempt} {a : Attempt} {r r' : Resources} {b : Attempt.State}
  {out : List TxId}

/-- The ids that attempts list, but for some. An id that one attempt lists twice counts once. -/
def claims (out : List TxId) (A : Multiset Attempt) : Multiset TxId :=
  (A.bind fun a => (a.promised.dedup : Multiset TxId)).filter (· ∉ out)

theorem claims_cons (a : Attempt) (A : Multiset Attempt) : claims out (a ::ₘ A) =
    (a.promised.dedup : Multiset TxId).filter (· ∉ out) + claims out A := by
  unfold claims
  rw [Multiset.cons_bind, Multiset.filter_add]

theorem mem_claims {id : TxId} : id ∈ claims out A ↔ (∃ a ∈ A, id ∈ a.promised) ∧ id ∉ out := by
  simp [claims]

/-- Some ids left aside, no two attempts list the same id, and what is listed is promised unless it
is committed. -/
structure Owned (out : List TxId) (w : InFlight) : Prop extends Sound w where
  alone : (claims out w.attempts).Nodup
  backed : ∀ a ∈ w.attempts, ∀ id ∈ a.promised, id ∉ out →
    w.resources.HasPromised id ∨ w.resources.HasDone id

namespace Owned

/-- An id that one attempt lists is not listed by another. -/
theorem not_mem (h : Owned out ⟨a ::ₘ A, r⟩) {id : TxId} (mine : id ∈ a.promised) (kept : id ∉ out)
    {c : Attempt} (other : c ∈ A) : id ∉ c.promised := by
  intro listed
  have alone := h.alone
  rw [claims_cons, Multiset.nodup_add] at alone
  refine Multiset.disjoint_left.1 alone.2.2 ?_ (mem_claims.2 ⟨⟨c, other, listed⟩, kept⟩)
  simp [mine, kept]

/-- More ids are left aside. -/
theorem leave (h : Owned [] ⟨A, r⟩) (out : List TxId) : Owned out ⟨A, r⟩ where
  toSound := h.toSound
  alone := by
    have alone := h.alone
    unfold claims at alone ⊢
    rw [Multiset.filter_eq_self.2 fun _ _ => List.not_mem_nil] at alone
    exact alone.filter _
  backed a mem id listed _ := h.backed a mem id listed List.not_mem_nil

/-- The same attempts are there, no promise has got lost and no commit was taken back. -/
theorem same (h : Owned out ⟨A, r⟩) (sound : Sound ⟨A, r'⟩)
    (kept : ∀ id, r.HasPromised id → r'.HasPromised id ∨ r'.HasDone id)
    (last : ∀ o, (r.sequencer.slot o).last ≤ (r'.sequencer.slot o).last) : Owned out ⟨A, r'⟩ where
  toSound := sound
  alone := h.alone
  backed a mem id listed other := by
    rcases h.backed a mem id listed other with promised | done
    · exact kept id promised
    · exact .inr (Nat.le_trans done (last id.origin))

/-- An attempt is added. What it lists is promised by now, and was neither promised nor committed
before. -/
theorem more (h : Owned out ⟨A, r⟩) (sound : Sound ⟨a ::ₘ A, r'⟩)
    (kept : ∀ id, r.HasPromised id → r'.HasPromised id)
    (last : ∀ o, (r'.sequencer.slot o).last = (r.sequencer.slot o).last)
    (new : ∀ id ∈ a.promised, id ∉ out →
      ¬ r.HasPromised id ∧ ¬ r.HasDone id ∧ r'.HasPromised id) : Owned out ⟨a ::ₘ A, r'⟩ where
  toSound := sound
  alone := by
    rw [claims_cons, Multiset.nodup_add]
    refine ⟨?_, h.alone, Multiset.disjoint_left.2 fun {id} mine others => ?_⟩
    · exact (Multiset.coe_nodup.2 (List.nodup_dedup _)).filter _
    · obtain ⟨⟨c, mem, listed⟩, other⟩ := mem_claims.1 others
      rw [Multiset.mem_filter, Multiset.mem_coe, List.mem_dedup] at mine
      obtain ⟨unpromised, undone, -⟩ := new id mine.1 other
      rcases h.backed c mem id listed other with promised | done
      · exact unpromised promised
      · exact undone done
  backed c mem id listed other := by
    rcases Multiset.mem_cons.1 mem with rfl | mem
    · exact .inl (new id listed other).2.2
    · rcases h.backed c mem id listed other with promised | done
      · exact .inl (kept id promised)
      · refine .inr ?_
        unfold Resources.HasDone
        rwa [last]

/-- An attempt that lists nothing is added. -/
theorem idle (h : Owned out ⟨A, r⟩) (sound : Sound ⟨a ::ₘ A, r'⟩)
    (kept : ∀ id, r.HasPromised id → r'.HasPromised id)
    (last : ∀ o, (r'.sequencer.slot o).last = (r.sequencer.slot o).last)
    (none : a.promised = []) : Owned out ⟨a ::ₘ A, r'⟩ := by
  refine h.more sound kept last fun id listed => ?_
  rw [none] at listed
  cases listed

/-- An attempt that is over takes away nothing that others list. -/
theorem ended (h : Owned out ⟨a ::ₘ A, r⟩) (ended : Attempt.Ended a r r') : Owned out ⟨A, r'⟩ where
  toSound := h.toSound.ended ended
  alone := by
    have alone := h.alone
    rw [claims_cons, Multiset.nodup_add] at alone
    exact alone.2.1
  backed c mem id listed other := by
    rcases h.backed c (Multiset.mem_cons_of_mem mem) id listed other with promised | done
    · exact ended.others id (fun mine => h.not_mem mine other mem listed) promised
    · exact .inr (Nat.le_trans done (ended.last id.origin))

/-- The id that a change set gets was valid, so nobody lists it. -/
theorem begun (h : Owned out ⟨A, r⟩) {request : RequestId} {id : TxId} {t u t' : ChangeSet}
    (fit : Attempt.Fit r request id t u t' b) (status : b.attempt.status = .success) :
    Owned out ⟨b.attempt ::ₘ A, b.resources⟩ := by
  refine h.more (h.toSound.took fit.took (fit.sane status))
    (fun _ promised => fit.took.hasPromised.2 (.inl promised)) fit.took.last fun p listed _ => ?_
  have mine := listed
  rw [fit.promised, List.mem_singleton] at mine
  subst mine
  obtain ⟨after, fresh, -⟩ := Slot.classify_eq_valid.1 fit.valid
  have undone : ¬ r.HasDone p := Nat.not_le.2 after
  exact ⟨fresh, undone, fit.took.hasPromised.2 (.inr ⟨undone, listed⟩)⟩

/-- The ids of a command that are not left aside are neither promised nor committed before. -/
theorem offered (h : Owned out ⟨A, r⟩) (request : RequestId) (command : String)
    {before after : TxId} (new : ∀ id ∈ [before, after], id ∉ out →
      ¬ r.HasPromised id ∧ ¬ r.HasDone id) :
    Owned out ⟨Attempt.offered request command before after ::ₘ A, r.offer before after⟩ := by
  refine h.more (h.toSound.offered request command before after)
    (fun _ promised => Resources.hasPromised_offer.2 (.inl promised)) Resources.slot_offer
    fun id listed other => ?_
  obtain ⟨unpromised, undone⟩ := new id listed other
  exact ⟨unpromised, undone, Resources.hasPromised_offer.2 (.inr ⟨undone, listed⟩)⟩

/-- Committing the next id takes no other promise away. -/
theorem advance (h : Owned out ⟨A, r⟩) {id : TxId} (next : r.IsNext id) (disk : FileTree)
    {store : Store} (sound : Sound ⟨A, r.advanceOn disk id store⟩) :
    Owned out ⟨A, r.advanceOn disk id store⟩ := by
  refine h.same sound (fun p promised => ?_) next.last_le
  by_cases same : p = id
  · exact .inr (same ▸ Resources.hasDone_advanceOn)
  · exact .inl (Resources.hasPromised_advanceOn.2 ⟨same, promised⟩)

theorem keptBy : KeptBy (fun _ d => d.Plain) (Owned out) := by
  intro w d w' h allowed act
  have sound := Sound.keptBy (fun _ d => d.Plain) w d w' h.toSound allowed act
  have quiet {A r r'} (h : Owned out ⟨A, r⟩) (sound : Sound ⟨A, r'⟩)
      (kept : ∀ id, r'.HasPromised id ↔ r.HasPromised id)
      (last : ∀ o, (r'.sequencer.slot o).last = (r.sequencer.slot o).last) : Owned out ⟨A, r'⟩ :=
    h.same sound (fun id promised => .inl ((kept id).2 promised))
      fun o => Nat.le_of_eq (last o).symm
  cases act with
  | tried work =>
    exact quiet h sound (fun _ => work.took.undone.hasPromised) work.took.undone.last
  | missed undone _ => exact quiet h sound (fun _ => undone.hasPromised) undone.last
  | begun fit status => exact h.begun fit status
  | fetched fetched =>
    exact h.idle sound (fun _ promised => fetched.took.hasPromised.2 (.inl promised))
      fetched.took.last fetched.promised
  | shelved shelved =>
    exact h.idle sound (fun _ promised => promised) (fun _ => rfl) shelved.promised
  | offered => exact allowed.elim
  | applied status job => exact h.ended (h.ended_applied status job).1
  | settled job first second => exact h.ended (h.ended_settled job first second)
  | discarded => exact h.ended h.ended_discarded
  | noted disk next => exact h.advance next disk sound
  | unsaved disk next _ => exact h.advance next disk sound
  | quiet still => exact quiet h sound (fun _ => still.hasPromised) still.last

end Owned

end InFlight

end QuorumCommit
