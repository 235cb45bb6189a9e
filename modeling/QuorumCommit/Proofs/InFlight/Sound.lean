import QuorumCommit.Proofs.InFlight.Basic

/-!
What every act keeps, whatever it is about. Attempts list only what is theirs, and all that is
locked or promised is listed by some attempt. As long as there is room, the places that they list
are reserved and no place is listed twice.
-/
namespace QuorumCommit

structure Attempt.Sane (a : Attempt) : Prop where
  live : a.destroyed = false
  idle : a.status ≠ .success → a.held = [] ∧ a.promised = [] ∧ a.reserved = []
  promised : ∀ p ∈ a.promised, p ∈ a.job.ids
  created : a.status = .success → ∀ id t, a.job = .data id t →
    ∀ place ∈ t.createdRecords, place ∈ a.reserved
  schema : ∀ command before after, a.job = .schema command before after →
    a.held = [] ∧ a.reserved = []

namespace Attempt

variable {a : Attempt} {r : Resources} {b : State} {id : TxId} {t t' u : ChangeSet}
  {request : RequestId} {job : Job}

theorem Sane.success_of_held (h : a.Sane) {key : LockKey} (mem : key ∈ a.held) :
    a.status = .success := by
  by_contra idle
  rw [(h.idle idle).1] at mem
  cases mem

theorem Sane.success_of_promised (h : a.Sane) (mem : id ∈ a.promised) : a.status = .success := by
  by_contra idle
  rw [(h.idle idle).2.1] at mem
  cases mem

theorem Sane.success_of_reserved (h : a.Sane) {place : RecordId} (mem : place ∈ a.reserved) :
    a.status = .success := by
  by_contra idle
  rw [(h.idle idle).2.2] at mem
  cases mem

theorem Shelved.sane {room : Prop} (h : Shelved room request job a) : a.Sane where
  live := h.live
  idle _ := ⟨h.held, h.promised, h.reserved⟩
  promised p mem := by
    rw [h.promised] at mem
    cases mem
  created success := absurd success h.status
  schema _ _ _ _ := ⟨h.held, h.reserved⟩

theorem Fit.sane (h : Fit r request id t u t' b) (status : b.attempt.status = .success) :
    b.attempt.Sane where
  live := h.took.live
  idle idle := absurd status idle
  promised p mem := by
    rw [h.promised] at mem
    rw [h.job]
    exact mem
  created _ id t job place mem := by
    rw [h.job, Job.data.injEq] at job
    exact h.placed.created place (job.2 ▸ mem)
  schema _ _ _ job := by
    rw [h.job] at job
    cases job

theorem Fetched.sane (h : Fetched r id t t' b) : b.attempt.Sane where
  live := h.took.live
  idle idle := absurd h.status idle
  promised p mem := by
    rw [h.promised] at mem
    cases mem
  created _ id t job place mem := by
    rw [h.job, Job.data.injEq] at job
    exact h.placed.created place (job.2 ▸ mem)
  schema _ _ _ job := by
    rw [h.job] at job
    cases job

theorem offered_sane (request : RequestId) (command : String) (before after : TxId) :
    (offered request command before after).Sane where
  live := rfl
  idle idle := absurd rfl idle
  promised _ mem := mem
  created _ _ _ job := nomatch job
  schema _ _ _ _ := ⟨rfl, rfl⟩

theorem Took.hasPromised (h : Took r b) : b.resources.HasPromised id ↔
    r.HasPromised id ∨ (¬ r.HasDone id ∧ id ∈ b.attempt.promised) := by
  unfold Resources.HasPromised Resources.HasDone
  rw [h.promised, Nat.not_le]

theorem Undone.hasPromised {r' : Resources} (h : Undone request r r') :
    r'.HasPromised id ↔ r.HasPromised id := by
  unfold Resources.HasPromised
  rw [h.slots]

end Attempt

namespace Resources

variable {r r' : Resources} {id : TxId} {before after : TxId}

theorem slot_offer (o : Nat) : ((r.offer before after).sequencer.slot o).last =
    (r.sequencer.slot o).last := by
  refine Slot.last_of_bare ?_
  unfold offer withSequencer Sequencer.markPromised sequencer
  dsimp only
  rw [Sequencer.slot_onSlot, Sequencer.slot_onSlot, Sequencer.slot_onSlot]
  grind [Slot.bare_markPromised]

/-- Offering a command promises those of its ids that are not committed. -/
theorem hasPromised_offer : (r.offer before after).HasPromised id ↔
    r.HasPromised id ∨ (¬ r.HasDone id ∧ id ∈ [before, after]) := by
  unfold HasPromised HasDone offer withSequencer Sequencer.markPromised sequencer
  dsimp only
  have last (s : Slot) (n : Nat) : (s.markPromised n).last = s.last :=
    Slot.last_of_bare (Slot.bare_markPromised s n)
  rw [Sequencer.slot_onSlot, Sequencer.slot_onSlot, Sequencer.slot_onSlot, Nat.not_le]
  obtain ⟨o, k⟩ := id
  obtain ⟨o₁, k₁⟩ := before
  obtain ⟨o₂, k₂⟩ := after
  simp only [List.mem_cons, TxId.mk.injEq, List.not_mem_nil, or_false]
  grind [Slot.mem_markPromised]

theorem Quiet.last (h : r.Quiet r') (o : Nat) :
    (r'.sequencer.slot o).last = (r.sequencer.slot o).last :=
  (congrArg Slot.last (h.standing o) :)

theorem Quiet.hasPromised (h : r.Quiet r') : r'.HasPromised id ↔ r.HasPromised id :=
  (congrArg (id.sequence ∈ Slot.promised ·) (h.standing id.origin) :).to_iff

theorem Quiet.isReserved (h : r.Quiet r') (place : RecordId) :
    r'.store.isReserved place = r.store.isReserved place :=
  Store.isReserved_of_places h.places place

theorem Quiet.isStored (h : r.Quiet r') (place : RecordId) :
    r'.store.isStored place = r.store.isStored place :=
  congrArg (·.contains place) h.records

theorem Quiet.hasRoom (h : r.Quiet r') (room : r'.store.HasRoom) : r.store.HasRoom :=
  room.congr h.places h.isStored

end Resources

namespace InFlight

variable {A : Multiset Attempt} {a : Attempt} {r r' : Resources} {b : Attempt.State}
  {request : RequestId}

def places (A : Multiset Attempt) : Multiset RecordId :=
  A.bind fun a => (a.reserved : Multiset RecordId)

theorem places_cons (a : Attempt) (A : Multiset Attempt) :
    places (a ::ₘ A) = (a.reserved : Multiset RecordId) + places A :=
  Multiset.cons_bind ..

theorem mem_places {place : RecordId} : place ∈ places A ↔ ∃ a ∈ A, place ∈ a.reserved := by
  simp [places]

structure Sound (w : InFlight) : Prop where
  tidy : w.resources.store.Tidy
  ahead : w.resources.Ahead
  sane : ∀ a ∈ w.attempts, a.Sane
  kept : w.HasRoom → ∀ a ∈ w.attempts, ∀ place ∈ a.reserved,
    w.resources.store.isReserved place = true
  apart : w.HasRoom → (places w.attempts).Nodup
  locks : ∀ key request, w.resources.locks.holder? key = some request →
    ∃ a ∈ w.attempts, a.request = request ∧ key ∈ a.held
  promises : ∀ id, w.resources.HasPromised id → ∃ a ∈ w.attempts, id ∈ a.promised

namespace Sound

theorem undone (h : Sound ⟨A, r⟩) (undone : Attempt.Undone request r r') : Sound ⟨A, r'⟩ where
  tidy := undone.tidy
  ahead o k mem := by
    rw [undone.slots] at mem ⊢
    exact h.ahead o k mem
  sane := h.sane
  kept room a mem place listed :=
    (undone.reserved room place).trans (h.kept (undone.room room) a mem place listed)
  apart room := h.apart (undone.room room)
  locks key request held := by
    rcases undone.locks key with same | ⟨free, -⟩
    · exact h.locks key request (same ▸ held)
    · rw [free] at held
      cases held
  promises id mem := h.promises id (undone.hasPromised.1 mem)

/-- A new attempt lists what it took. -/
theorem took (h : Sound ⟨A, r⟩) (took : Attempt.Took r b) (sane : b.attempt.Sane) :
    Sound ⟨b.attempt ::ₘ A, b.resources⟩ where
  tidy := took.store.tidy
  ahead o k mem := by
    rw [took.last]
    rcases (took.promised o k).1 mem with before | mine
    · exact h.ahead o k before
    · exact mine.1
  sane a mem := by
    rcases Multiset.mem_cons.1 mem with rfl | mem
    · exact sane
    · exact h.sane a mem
  kept room a mem place listed := by
    rw [took.store.reserved room]
    rcases Multiset.mem_cons.1 mem with rfl | mem
    · exact .inr listed
    · exact .inl (h.kept (took.store.room room) a mem place listed)
  apart room := by
    have before := took.store.room room
    rw [places_cons, Multiset.nodup_add]
    refine ⟨took.store.distinct room, h.apart before, Multiset.disjoint_left.2 ?_⟩
    intro place mine others
    obtain ⟨a, mem, listed⟩ := mem_places.1 others
    have untaken := took.store.untaken room place mine
    rw [← Bool.not_eq_true, Store.isTaken_iff] at untaken
    exact untaken (.inr (h.kept before a mem place listed))
  locks key request held := by
    rw [took.locks] at held
    split at held
    · next mine => exact ⟨_, Multiset.mem_cons_self _ _, Option.some.inj held, mine⟩
    · obtain ⟨a, mem, listed⟩ := h.locks key request held
      exact ⟨a, Multiset.mem_cons_of_mem mem, listed⟩
  promises id mem := by
    rcases took.hasPromised.1 mem with before | mine
    · obtain ⟨a, mem, listed⟩ := h.promises id before
      exact ⟨a, Multiset.mem_cons_of_mem mem, listed⟩
    · exact ⟨_, Multiset.mem_cons_self _ _, mine.2⟩

/-- What is still locked or promised when an attempt is over is listed by another one. -/
theorem ended (h : Sound ⟨a ::ₘ A, r⟩) (ended : Attempt.Ended a r r') : Sound ⟨A, r'⟩ where
  tidy := ended.tidy
  ahead := ended.ahead h.ahead
  sane a mem := h.sane a (Multiset.mem_cons_of_mem mem)
  kept room c mem place listed := by
    have before := ended.room room
    refine ended.kept place (fun mine => ?_)
      (h.kept before c (Multiset.mem_cons_of_mem mem) place listed)
    have apart := h.apart before
    rw [places_cons, Multiset.nodup_add] at apart
    exact Multiset.disjoint_left.1 apart.2.2 mine (mem_places.2 ⟨c, mem, listed⟩)
  apart room := by
    have apart := h.apart (ended.room room)
    rw [places_cons, Multiset.nodup_add] at apart
    exact apart.2.1
  locks key request held := by
    rw [ended.locks] at held
    split at held
    · cases held
    · next other =>
      obtain ⟨c, mem, same, listed⟩ := h.locks key request held
      rcases Multiset.mem_cons.1 mem with rfl | mem
      · exact absurd ⟨listed, same ▸ held⟩ other
      · exact ⟨c, mem, same, listed⟩
  promises id mem := by
    obtain ⟨before, other⟩ := ended.promised id mem
    obtain ⟨c, mem, listed⟩ := h.promises id before
    rcases Multiset.mem_cons.1 mem with rfl | mem
    · exact absurd listed other
    · exact ⟨c, mem, listed⟩

/-- An attempt that lists nothing may be there or not. -/
theorem idle (h : Sound ⟨A, r⟩) (sane : a.Sane) (reserved : a.reserved = []) :
    Sound ⟨a ::ₘ A, r⟩ where
  tidy := h.tidy
  ahead := h.ahead
  sane c mem := by
    rcases Multiset.mem_cons.1 mem with rfl | mem
    · exact sane
    · exact h.sane c mem
  kept room c mem place listed := by
    rcases Multiset.mem_cons.1 mem with rfl | mem
    · rw [reserved] at listed
      cases listed
    · exact h.kept room c mem place listed
  apart room := by
    rw [places_cons, reserved, Multiset.coe_nil, zero_add]
    exact h.apart room
  locks key request held := by
    obtain ⟨c, mem, listed⟩ := h.locks key request held
    exact ⟨c, Multiset.mem_cons_of_mem mem, listed⟩
  promises id mem := by
    obtain ⟨c, mem, listed⟩ := h.promises id mem
    exact ⟨c, Multiset.mem_cons_of_mem mem, listed⟩

theorem offered (h : Sound ⟨A, r⟩) (request : RequestId) (command : String) (before after : TxId) :
    Sound ⟨Attempt.offered request command before after ::ₘ A, r.offer before after⟩ := by
  have idle := h.idle (Attempt.offered_sane request command before after) rfl
  refine ⟨idle.tidy, fun o k mem => ?_, idle.sane, idle.kept, idle.apart, idle.locks,
    fun id mem => ?_⟩
  · rw [Resources.slot_offer]
    have mem : (r.offer before after).HasPromised ⟨o, k⟩ := mem
    rcases Resources.hasPromised_offer.1 mem with known | new
    · exact h.ahead o k known
    · exact Nat.not_le.1 new.1
  · rcases Resources.hasPromised_offer.1 mem with known | new
    · obtain ⟨c, mem, listed⟩ := h.promises id known
      exact ⟨c, Multiset.mem_cons_of_mem mem, listed⟩
    · exact ⟨_, Multiset.mem_cons_self _ _, new.2⟩

/-- Committing an id of a command takes the promise of it away. -/
theorem advance (h : Sound ⟨A, r⟩) {id : TxId} (next : r.IsNext id) (disk : FileTree)
    {store : Store} (places : store.places = r.store.places)
    (records : store.records = r.store.records) : Sound ⟨A, r.advanceOn disk id store⟩ where
  tidy := h.tidy.congr places fun id => congrArg (·.contains id) records
  ahead := h.ahead.advanceOn next
  sane := h.sane
  kept room a mem place listed :=
    (Store.isReserved_of_places places place).trans
      (h.kept (room.congr places fun id => congrArg (·.contains id) records) a mem place listed)
  apart room := h.apart (room.congr places fun id => congrArg (·.contains id) records)
  locks := h.locks
  promises p mem := h.promises p (Resources.hasPromised_advanceOn.1 mem).2

theorem quiet (h : Sound ⟨A, r⟩) (quiet : r.Quiet r') : Sound ⟨A, r'⟩ where
  tidy := h.tidy.congr quiet.places quiet.isStored
  ahead o k mem := by
    rw [quiet.last]
    have mem : r'.HasPromised ⟨o, k⟩ := mem
    exact h.ahead o k (quiet.hasPromised.1 mem)
  sane := h.sane
  kept room a mem place listed :=
    (quiet.isReserved place).trans (h.kept (quiet.hasRoom room) a mem place listed)
  apart room := h.apart (quiet.hasRoom room)
  locks key request held := by
    rw [quiet.locks] at held
    exact h.locks key request held
  promises id mem := h.promises id (quiet.hasPromised.1 mem)

/-- What an attempt creates is not stored while the attempt is in hand. -/
theorem not_isStored_of_created (h : Sound ⟨a ::ₘ A, r⟩) {id : TxId} {t : ChangeSet}
    (status : a.status = .success) (job : a.job = .data id t) {place : RecordId}
    (mem : place ∈ t.createdRecords) (room : r.store.HasRoom) : r.store.isStored place ≠ true := by
  have mine := Multiset.mem_cons_self a A
  exact h.tidy.not_isStored room
    (h.kept room a mine place ((h.sane a mine).created status id t job place mem))

/-- Of an attempt in hand, all that its ending depends on is known. -/
theorem ended_applied (h : Sound ⟨a ::ₘ A, r⟩) {id : TxId} {t : ChangeSet}
    (status : a.status = .success) (job : a.job = .data id t) :
    Attempt.Ended a r (Attempt.destroy (Attempt.apply ⟨a, r⟩).2).resources ∧
      Attempt.Effect id t r (Attempt.destroy (Attempt.apply ⟨a, r⟩).2).resources ∧
      (t.createdRecords = a.reserved → ∀ place ∈ a.reserved,
        (Attempt.destroy (Attempt.apply ⟨a, r⟩).2).resources.store.isReserved place = false) := by
  have sane := h.sane a (Multiset.mem_cons_self a A)
  have mine : ∀ p ∈ a.promised, p = id := by
    intro p mem
    have known := sane.promised p mem
    rw [job] at known
    exact List.mem_singleton.1 known
  exact Attempt.ended_apply sane.live job mine (sane.created status id t job)
    (fun room => h.kept room a (Multiset.mem_cons_self a A)) h.tidy

/-- Giving up an attempt in hand takes away just what it lists. -/
theorem released_discarded (h : Sound ⟨a ::ₘ A, r⟩) : Attempt.Released a r (a.discard r) :=
  Attempt.released_destroy (b := ⟨a, r⟩) (h.sane a (Multiset.mem_cons_self a A)).live

/-- A command that is settled has forgotten what it listed, but for its keys. -/
theorem released_settled (h : Sound ⟨a ::ₘ A, r⟩) :
    Attempt.Released (Attempt.markApplied ⟨a, r⟩).attempt r
      (Attempt.destroy (Attempt.markApplied ⟨a, r⟩)).resources :=
  Attempt.released_destroy (b := Attempt.markApplied ⟨a, r⟩)
    (h.sane a (Multiset.mem_cons_self a A)).live

theorem ended_settled (h : Sound ⟨a ::ₘ A, r⟩) {command : String} {before after : TxId}
    (job : a.job = .schema command before after) (first : r.HasDone before)
    (second : r.HasDone after) :
    Attempt.Ended a r (Attempt.destroy (Attempt.markApplied ⟨a, r⟩)).resources := by
  have sane := h.sane a (Multiset.mem_cons_self a A)
  refine Attempt.ended_markApplied sane.live h.tidy h.ahead fun p mem => ?_
  have known := sane.promised p mem
  rw [job] at known
  rcases List.mem_cons.1 known with rfl | known
  · exact first
  · exact List.mem_singleton.1 known ▸ second

theorem ended_discarded (h : Sound ⟨a ::ₘ A, r⟩) : Attempt.Ended a r (a.discard r) :=
  h.released_discarded.ended h.tidy

theorem keptBy (ok : Multiset Attempt → Deed → Prop) : KeptBy ok Sound := by
  intro w d w' h _ act
  cases act with
  | tried work => exact h.undone work.took.undone
  | begun fit status => exact h.took fit.took (fit.sane status)
  | fetched fetched => exact h.took fetched.took fetched.sane
  | missed undone _ => exact h.undone undone
  | shelved shelved => exact h.idle shelved.sane shelved.reserved
  | offered request command before after => exact h.offered request command before after
  | applied status job => exact h.ended (h.ended_applied status job).1
  | settled job first second => exact h.ended (h.ended_settled job first second)
  | discarded => exact h.ended h.ended_discarded
  | noted disk next => exact h.advance next disk rfl rfl
  | unsaved disk next _ => exact h.advance next disk rfl rfl
  | quiet quiet => exact h.quiet quiet

/-- The origin of the ids that are issued stays the same. -/
theorem originKeptBy (ok : Multiset Attempt → Deed → Prop) (self : Nat) :
    KeptBy ok fun w => w.Sound ∧ w.resources.sequencer.origin = self := by
  intro w d w' ⟨h, origin⟩ allowed act
  refine ⟨keptBy ok w d w' h allowed act, Eq.trans ?_ origin⟩
  cases act with
  | tried work => exact congrArg (·.1) work.took.undone.frame
  | begun fit status => exact congrArg (·.1) fit.took.frame
  | fetched fetched => exact congrArg (·.1) fetched.took.frame
  | missed undone _ => exact congrArg (·.1) undone.frame
  | shelved shelved => rfl
  | offered request command before after => rfl
  | applied status job => exact (h.ended_applied status job).1.origin
  | settled job first second => exact (h.ended_settled job first second).origin
  | discarded => exact h.ended_discarded.origin
  | noted disk next => rfl
  | unsaved disk next _ => rfl
  | quiet quiet => exact quiet.origin

end Sound

end InFlight

end QuorumCommit
