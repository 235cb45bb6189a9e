import QuorumCommit.Proofs.InFlight.Sound

/-!
Locks guard what was checked. A prepared change set holds the keys of all records and unique index
keys that its checks were about; as no two attempts hold a key in common, nobody else writes there
until it is applied, and its checks still pass then. New records go to places that nobody uses, as
long as there is room.
-/
namespace QuorumCommit

namespace Attempt

variable {a a' : Attempt} {r r' : Resources} {b : State} {id : TxId} {t t' u : ChangeSet}
  {request : RequestId}

/-- What a prepared change set relies on until it is applied. -/
structure Guards (r : Resources) (a : Attempt) (t : ChangeSet) : Prop where
  records : ∀ c ∈ t.changes, c.kind ≠ .created → .record c.record ∈ a.held
  covers : r.store.Covers a.held t
  held : ∀ key ∈ a.held, r.locks.holder? key = some a.request
  versions : r.store.checkVersions t = .ok ()
  unique : r.store.checkUniqueKeys t = .ok ()

namespace Guards

/-- Nothing has changed that the change set relies on. -/
theorem congr (h : a.Guards r t) (kinds : r'.store.indexKinds = r.store.indexKinds)
    (held : ∀ key ∈ a.held, r'.locks.holder? key = some a.request)
    (records : ∀ c ∈ t.changes, c.kind ≠ .created →
      r'.store.record? c.record = r.store.record? c.record)
    (values : ∀ p ∈ t.keyEdits, r.store.isUnique p.1.index = true →
      r'.store.indexValue? p.1 = r.store.indexValue? p.1) : a.Guards r' t where
  records := h.records
  covers := h.covers.congr kinds
  held := held
  versions := (Store.checkVersions_congr records).trans h.versions
  unique := (Store.checkUniqueKeys_congr kinds values).trans h.unique

theorem of_content (h : a.Guards r t) (content : r'.store.content = r.store.content)
    (held : ∀ key ∈ a.held, r'.locks.holder? key = some a.request) : a.Guards r' t :=
  h.congr (congrArg Store.indexKinds content :) held
    (fun _ _ _ => Store.record?_of_content content _)
    (fun p _ _ => (congrArg (Store.indexValue? · p.1) content :))

/-- A record that is updated or removed is stored. -/
theorem isStored (h : a.Guards r t) {c : RecordChange} (mem : c ∈ t.changes)
    (kind : c.kind ≠ .created) : r.store.isStored c.record = true :=
  Store.isStored_of_checkVersion (forM_eq_ok.1 h.versions c mem) kind

/-- Attempts of different requests have no key in common. -/
theorem apart (h : a.Guards r t) (h' : a'.Guards r t') (ne : a'.request ≠ a.request)
    {key : LockKey} (mem : key ∈ a.held) : key ∉ a'.held := by
  intro mem'
  have holder := h.held key mem
  rw [h'.held key mem'] at holder
  exact ne (Option.some.inj holder)

/-- Another change set may be committed, as it neither writes the records nor the unique index keys
that the checks were about. -/
theorem commit (h : a.Guards r t) (h' : a'.Guards r t') (ne : a'.request ≠ a.request)
    (created : ∀ place ∈ t'.createdRecords, r.store.isStored place ≠ true) (offset : Applied)
    (content : r'.store.content = (r.store.commit t' offset).2.content)
    (held : ∀ key ∈ a.held, r'.locks.holder? key = some a.request) : a.Guards r' t := by
  refine h.congr ((congrArg Store.indexKinds content :).trans Store.indexKinds_commit) held
    (fun c mem kind => ?_) (fun p mem unique => ?_)
  · refine (Store.record?_of_content content _).trans (Store.record?_commit fun c' mem' same => ?_)
    by_cases new : c'.kind = .created
    · refine created c'.record ?_ (same ▸ h.isStored mem kind)
      exact List.mem_map.2 ⟨c', List.mem_filter.2 ⟨mem', by simpa using new⟩, rfl⟩
    · exact h.apart h' ne (h.records c mem kind) (same ▸ h'.records c' mem' new)
  · have value : r'.store.indexValue? p.1 = (r.store.commit t' offset).2.indexValue? p.1 :=
      (congrArg (Store.indexValue? · p.1) content :)
    refine value.trans (Store.indexValue?_commit fun p' mem' same => ?_)
    obtain ⟨kind, known, locked⟩ := h.covers p mem
    obtain ⟨kind', known', locked'⟩ := h'.covers p' mem'
    rw [same, known, Option.some.injEq] at known'
    subst known'
    unfold Store.isUnique at unique
    rw [known] at unique
    have locks := IndexKind.locksKeys_of_isUnique unique
    exact h.apart h' ne (locked locks) (same ▸ locked' locks)

end Guards

/-- A change set that fits guards what it checked. -/
theorem Fit.guards (h : Fit r request id t u t' b) (room : b.resources.store.HasRoom) :
    b.attempt.Guards b.resources t' := by
  obtain ⟨keys, found, sub⟩ := h.locked
  obtain ⟨renames, renamed, granted⟩ := h.renamed
  obtain ⟨records, covers⟩ := Store.lockKeys_covers found
  have guards : b.attempt.Guards { b.resources with store := r.store } t' := by
    refine ⟨fun c mem kind => ?_, renamed ▸ (covers.mono sub).renameAll renames, fun key mem => ?_,
      h.versions, h.unique⟩
    · rw [renamed] at mem
      rcases ChangeSet.record_of_mem_renameAll mem with new | ⟨old, listed, same⟩
      · -- An old record cannot stand in a place that was still open.
        obtain ⟨p, listed, same⟩ := List.mem_map.1 new
        have untaken := h.took.store.untaken room p.2 (granted p listed)
        have stored := Store.isStored_of_checkVersion
          (forM_eq_ok.1 h.versions c (renamed ▸ mem)) kind
        rw [← Bool.not_eq_true, Store.isTaken_iff, same] at untaken
        exact absurd (.inl stored) untaken
      · exact same ▸ sub (records old listed)
    · exact (h.took.locks key).trans (if_pos mem)
  exact guards.of_content h.took.store.content guards.held

/-- The request of an attempt whose change set is prepared. -/
def voter? (a : Attempt) : Option RequestId :=
  match a.status, a.job with
  | .success, .data .. => some a.request
  | _, _ => none

theorem voter?_of_data (status : a.status = .success) (job : a.job = .data id t) :
    a.voter? = some a.request := by
  unfold voter?
  rw [status, job]

theorem voter?_of_not_success (status : a.status ≠ .success) : a.voter? = none := by
  unfold voter?
  split
  · next success _ => exact absurd success status
  · rfl

theorem request_of_voter? (h : a.voter? = some request) : a.request = request := by
  unfold voter? at h
  split at h
  · exact Option.some.inj h
  · cases h

/-- Attempts that hold keys are prepared for a change set. -/
theorem Sane.voter?_of_held (h : a.Sane) {key : LockKey} (mem : key ∈ a.held) :
    a.voter? = some a.request := by
  cases job : a.job with
  | data id t => exact voter?_of_data (h.success_of_held mem) job
  | schema command before after =>
    rw [(h.schema command before after job).1] at mem
    cases mem

end Attempt

namespace InFlight

variable {A : Multiset Attempt} {a : Attempt} {r r' : Resources} {request : RequestId}

def voters (A : Multiset Attempt) : Multiset RequestId := A.filterMap Attempt.voter?

theorem mem_voters : request ∈ voters A ↔ ∃ a ∈ A, a.voter? = some request :=
  Multiset.mem_filterMap ..

theorem voters_cons_of_none (idle : a.voter? = none) : voters (a ::ₘ A) = voters A :=
  Multiset.filterMap_cons_none _ _ idle

theorem voters_cons_of_some (votes : a.voter? = some request) :
    voters (a ::ₘ A) = request ::ₘ voters A :=
  Multiset.filterMap_cons_some _ _ _ votes

theorem voters_le_cons (a : Attempt) (A : Multiset Attempt) : voters A ≤ voters (a ::ₘ A) :=
  Multiset.filterMap_le_filterMap _ (Multiset.le_cons_self A a)

end InFlight

/-- A change set is not prepared for a request of which one is prepared already, and none is caught
up with. -/
def Deed.Lone (A : Multiset Attempt) : Deed → Prop
  | begin request (.data ..) => request ∉ InFlight.voters A
  | fetch .. => False
  | _ => True

namespace InFlight

variable {A : Multiset Attempt} {a : Attempt} {r r' : Resources} {b : Attempt.State}
  {request : RequestId}

/-- The work in flight is sound, and each prepared change set is guarded by locks of its own. -/
structure Guarded (w : InFlight) : Prop extends Sound w where
  single : (voters w.attempts).Nodup
  guards : ∀ a ∈ w.attempts, a.status = .success → ∀ id t, a.job = .data id t →
    a.Guards w.resources t

namespace Guarded

/-- Others vote for other requests. -/
theorem others (h : Guarded ⟨a ::ₘ A, r⟩) (votes : a.voter? = some a.request) {c : Attempt}
    (mem : c ∈ A) (votes' : c.voter? = some c.request) : a.request ≠ c.request := by
  have single := h.single
  rw [voters_cons_of_some votes, Multiset.nodup_cons] at single
  exact fun same => single.1 (mem_voters.2 ⟨c, mem, votes'.trans (congrArg some same.symm)⟩)

/-- Neither records nor indexes have changed, and no key of a prepared change set has been freed. -/
theorem same (h : Guarded ⟨A, r⟩) (sound : Sound ⟨A, r'⟩)
    (guards : ∀ (a : Attempt) t, a.Guards r t →
      (∀ key ∈ a.held, r'.locks.holder? key = some a.request) → a.Guards r' t)
    (locks : ∀ a ∈ A, a.voter? = some a.request → ∀ key ∈ a.held,
      r.locks.holder? key = some a.request → r'.locks.holder? key = some a.request) :
    Guarded ⟨A, r'⟩ where
  toSound := sound
  single := h.single
  guards a mem status id t job := by
    have before := h.guards a mem status id t job
    exact guards a t before fun key held =>
      locks a mem (Attempt.voter?_of_data status job) key held (before.held key held)

/-- An attempt is added that does not vote. -/
theorem idle (h : Guarded ⟨A, r⟩) (sound : Sound ⟨a ::ₘ A, r'⟩) (store : r'.store = r.store)
    (locks : r'.locks = r.locks) (none : a.voter? = none) : Guarded ⟨a ::ₘ A, r'⟩ where
  toSound := sound
  single := by
    rw [voters_cons_of_none none]
    exact h.single
  guards c mem status id t job := by
    rcases Multiset.mem_cons.1 mem with rfl | mem
    · rw [Attempt.voter?_of_data status job] at none
      cases none
    · have guards := h.guards c mem status id t job
      exact guards.of_content (congrArg Store.content store) fun key held =>
        locks ▸ guards.held key held

/-- When an attempt is over, the others hold what they held. -/
theorem holder?_ended (h : Guarded ⟨a ::ₘ A, r⟩) (ended : Attempt.Ended a r r') {c : Attempt}
    (mem : c ∈ A) (votes : c.voter? = some c.request) {key : LockKey}
    (held : r.locks.holder? key = some c.request) : r'.locks.holder? key = some c.request := by
  rw [ended.locks, if_neg, held]
  rintro ⟨mine, own⟩
  have sane := h.sane a (Multiset.mem_cons_self a A)
  rw [held, Option.some.injEq] at own
  exact h.others (sane.voter?_of_held mine) mem votes own.symm

/-- An attempt is over, and each other one still guards what it checked. -/
theorem ended (h : Guarded ⟨a ::ₘ A, r⟩) (ended : Attempt.Ended a r r')
    (guards : ∀ c ∈ A, ∀ t, c.voter? = some c.request → c.Guards r t →
      (∀ key ∈ c.held, r'.locks.holder? key = some c.request) → c.Guards r' t) :
    Guarded ⟨A, r'⟩ where
  toSound := h.toSound.ended ended
  single := Multiset.nodup_of_le (voters_le_cons a A) h.single
  guards c mem status id t job := by
    have votes := Attempt.voter?_of_data status job
    have before := h.guards c (Multiset.mem_cons_of_mem mem) status id t job
    exact guards c mem t votes before fun key held =>
      h.holder?_ended ended mem votes (before.held key held)

theorem ended_of_content (h : Guarded ⟨a ::ₘ A, r⟩) (ended : Attempt.Ended a r r')
    (content : r'.store.content = r.store.content) : Guarded ⟨A, r'⟩ :=
  h.ended ended fun _ _ _ _ guards held => guards.of_content content held

/-- A change set that fits is prepared for a request that had none. -/
theorem begun (h : Guarded ⟨A, r⟩) {id : TxId} {t u t' : ChangeSet}
    (fit : Attempt.Fit r request id t u t' b) (status : b.attempt.status = .success)
    (lone : request ∉ voters A) (room : b.resources.store.HasRoom) :
    Guarded ⟨b.attempt ::ₘ A, b.resources⟩ where
  toSound := h.toSound.took fit.took (fit.sane status)
  single := by
    rw [voters_cons_of_some (Attempt.voter?_of_data status fit.job), fit.request]
    exact Multiset.nodup_cons.2 ⟨lone, h.single⟩
  guards a mem success id' u' job := by
    rcases Multiset.mem_cons.1 mem with rfl | mem
    · rw [fit.job, Job.data.injEq] at job
      exact job.2 ▸ fit.guards room
    · have before := h.guards a mem success id' u' job
      refine before.of_content fit.took.store.content fun key held => ?_
      rw [fit.took.locks, if_neg, before.held key held]
      intro mine
      have own := fit.took.allowed key mine a.request (before.held key held)
      rw [fit.request] at own
      have votes := Attempt.voter?_of_data success job
      exact lone (mem_voters.2 ⟨a, mem, own ▸ votes⟩)

/-- Applying a prepared change set leaves alone what the others guard. -/
theorem applied (h : Guarded ⟨a ::ₘ A, r⟩) {id : TxId} {t : ChangeSet}
    (status : a.status = .success) (job : a.job = .data id t) (room : r.store.HasRoom) :
    Guarded ⟨A, (Attempt.destroy (Attempt.apply ⟨a, r⟩).2).resources⟩ := by
  obtain ⟨ended, effect, -⟩ := h.ended_applied status job
  cases effect with
  | none _ content => exact h.ended_of_content ended content
  | logged _ _ _ content => exact h.ended_of_content ended content
  | committed _ _ content =>
    have mine := h.guards a (Multiset.mem_cons_self a A) status id t job
    refine h.ended ended fun c mem u votes guards held => ?_
    exact guards.commit mine (h.others (Attempt.voter?_of_data status job) mem votes)
      (fun place mem => h.toSound.not_isStored_of_created status job mem room) _ content held

theorem keptWhile : KeptWhile HasRoom Deed.Lone Guarded := by
  intro w d w' room h allowed act
  have before := act.hasRoom room
  have sound := Sound.keptBy Deed.Lone w d w' h.toSound allowed act
  cases act with
  | @tried A r b request id t work =>
    have undone := work.took.undone
    refine h.same sound (fun _ _ guards => guards.of_content undone.content)
      fun a mem votes key _ holder => ?_
    rcases undone.locks key with same | ⟨-, own⟩
    · exact same.trans holder
    · rw [holder, Option.some.injEq, work.request] at own
      exact absurd (mem_voters.2 ⟨a, mem, own ▸ votes⟩) allowed
  | begun fit status => exact h.begun fit status allowed room
  | fetched fetched => cases allowed
  | missed undone _ => cases allowed
  | shelved shelved =>
    exact h.idle sound rfl rfl (Attempt.voter?_of_not_success shelved.status)
  | offered request command before after => exact h.idle sound rfl rfl rfl
  | applied status job => exact h.applied status job before
  | settled job first second =>
    exact h.ended_of_content (h.ended_settled job first second) h.released_settled.content
  | discarded => exact h.ended_of_content h.ended_discarded h.released_discarded.content
  | noted disk next =>
    exact h.same sound (fun _ _ guards held =>
      guards.congr rfl held (fun _ _ _ => rfl) fun _ _ _ => rfl) fun _ _ _ _ _ holder => holder
  | unsaved disk next _ =>
    exact h.same sound (fun _ _ guards held => guards.of_content rfl held)
      fun _ _ _ _ _ holder => holder
  | quiet quiet =>
    refine h.same sound (fun a t guards held => guards.congr quiet.indexKinds held
      (fun c _ _ => ?_) fun p _ _ => ?_) fun a mem votes key held holder => ?_
    · exact congrArg (·[c.record]?) quiet.records
    · exact congrArg (IndexValues.get? · p.1) quiet.indexValues
    · rwa [quiet.locks]

end Guarded

end InFlight

end QuorumCommit
