import QuorumCommit.Proofs.Attempt.Applying
import QuorumCommit.Proofs.Store.Footprint

/-!
How attempts end. An attempt that is given up releases what it lists, and one that is applied
besides commits its id and its change set as far as they can be. Either way nothing that it lists is
left, and nothing of others is touched.
-/
namespace QuorumCommit

namespace Resources

/-- Promised ids are not committed. -/
def Ahead (r : Resources) : Prop :=
  ∀ o k, k ∈ (r.sequencer.slot o).promised → (r.sequencer.slot o).last < k

def HasDone (r : Resources) (id : TxId) : Prop := id.sequence ≤ (r.sequencer.slot id.origin).last

def IsNext (r : Resources) (id : TxId) : Prop :=
  id.sequence = (r.sequencer.slot id.origin).last + 1

def HasPromised (r : Resources) (id : TxId) : Prop :=
  id.sequence ∈ (r.sequencer.slot id.origin).promised

end Resources

namespace Attempt

variable {a : Attempt} {r r' r'' : Resources} {b b' : State} {id : TxId} {t t' u : ChangeSet}
  {request : RequestId} {place : RecordId}

/-- The resources `r'` are `r` without what the attempt lists. -/
structure Released (a : Attempt) (r r' : Resources) : Prop where
  content : r'.store.content = r.store.content
  frame : r'.sequencer.frame = r.sequencer.frame
  bare : ∀ o, (r'.sequencer.slot o).bare = (r.sequencer.slot o).bare
  promised : ∀ o k, k ∈ (r'.sequencer.slot o).promised ↔
    k ∈ (r.sequencer.slot o).promised ∧ (⟨o, k⟩ : TxId) ∉ a.promised
  path : r'.journal.path = r.journal.path
  locks : ∀ key, r'.locks.holder? key =
    if key ∈ a.held ∧ r.locks.holder? key = some a.request then none else r.locks.holder? key
  reserved : ∀ place, r'.store.isReserved place = true ↔
    place ∉ a.reserved ∧ r.store.isReserved place = true
  tidy : r.store.Tidy → r'.store.Tidy
  room : r'.store.HasRoom → r.store.HasRoom

theorem released_releaseAll (b : State) :
    Released b.attempt b.resources (releaseAll b).resources where
  content := Store.content_releaseAll _
  frame := (Sequencer.releasePromises_spec _ _).1
  bare := (Sequencer.releasePromises_spec _ _).2.1
  promised := (Sequencer.releasePromises_spec _ _).2.2
  path := rfl
  locks := LockTable.holder?_unlockAll _
  reserved _ := Store.isReserved_releaseAll _
  tidy h := h.releaseAll _
  room := Store.HasRoom.of_releaseAll

theorem released_destroy (live : b.attempt.destroyed = false) :
    Released b.attempt b.resources (destroy b).resources := by
  unfold destroy
  rw [live]
  exact released_releaseAll b

/-- What an attempt took is gone when it is given up. Of the keys that it locked, those that its
request held before are free as well. -/
structure Undone (request : RequestId) (r r' : Resources) : Prop where
  content : r'.store.content = r.store.content
  frame : r'.sequencer.frame = r.sequencer.frame
  slots : ∀ o, r'.sequencer.slot o = r.sequencer.slot o
  path : r'.journal.path = r.journal.path
  locks : ∀ key, r'.locks.holder? key = r.locks.holder? key ∨
    (r'.locks.holder? key = none ∧ r.locks.holder? key = some request)
  tidy : r'.store.Tidy
  room : r'.store.HasRoom → r.store.HasRoom
  reserved : r'.store.HasRoom → ∀ place, r'.store.isReserved place = r.store.isReserved place

theorem Undone.last (h : Undone request r r') (o : Nat) :
    (r'.sequencer.slot o).last = (r.sequencer.slot o).last := by
  rw [h.slots]

theorem Undone.refl (tidy : r.store.Tidy) : Undone request r r :=
  ⟨rfl, rfl, fun _ => rfl, rfl, fun _ => .inl rfl, tidy, fun room => room, fun _ _ => rfl⟩

theorem Undone.trans (h : Undone request r r') (h' : Undone request r' r'') :
    Undone request r r'' where
  content := h'.content.trans h.content
  frame := h'.frame.trans h.frame
  slots o := (h'.slots o).trans (h.slots o)
  path := h'.path.trans h.path
  locks key := by
    rcases h'.locks key with same | ⟨free, held⟩
    · rw [same]
      exact h.locks key
    · rcases h.locks key with same | ⟨gone, -⟩
      · exact .inr ⟨free, same ▸ held⟩
      · rw [gone] at held
        cases held
  tidy := h'.tidy
  room after := h.room (h'.room after)
  reserved after place := (h'.reserved after place).trans (h.reserved (h'.room after) place)

/-- Giving up an attempt that lists nothing changes nothing. -/
theorem Released.undone (h : Released a r r') (held : a.held = []) (promised : a.promised = [])
    (reserved : a.reserved = []) (tidy : r.store.Tidy) : Undone request r r' where
  content := h.content
  frame := h.frame
  slots o := by
    refine Slot.eq_of_bare (h.bare o) fun k => ?_
    rw [h.promised, promised]
    simp
  path := h.path
  locks key := by
    rw [h.locks, held]
    simp
  tidy := h.tidy tidy
  room := h.room
  reserved _ place := by
    rw [Bool.eq_iff_iff, h.reserved, reserved]
    simp

theorem Took.undone (h : Took r b) : Undone b.attempt.request r (destroy b).resources := by
  have released := released_destroy h.live
  refine ⟨released.content.trans h.store.content, released.frame.trans h.frame, fun o => ?_,
    released.path.trans h.path, fun key => ?_, released.tidy h.store.tidy,
    fun after => h.store.room (released.room after), fun after place => ?_⟩
  · refine Slot.eq_of_bare ((released.bare o).trans (h.bare o)) fun k => ?_
    have apart := h.apart o k
    rw [released.promised, h.promised]
    grind
  · have allowed := h.allowed key
    rw [released.locks, h.locks]
    cases taken : r.locks.holder? key with
    | none => grind
    | some holder => grind
  · have room := released.room after
    rw [Bool.eq_iff_iff, released.reserved, h.store.reserved room]
    constructor
    · rintro ⟨other, held | mine⟩
      · exact held
      · exact absurd mine other
    · intro held
      refine ⟨fun mine => ?_, .inl held⟩
      have untaken := h.store.untaken room place mine
      rw [← Bool.not_eq_true, Store.isTaken_iff] at untaken
      exact untaken (.inr held)

/-- Giving up an attempt that has locked nothing leaves all locks alone. -/
theorem Took.locks_destroy (h : Took r b) (held : b.attempt.held = []) (key : LockKey) :
    (destroy b).resources.locks.holder? key = r.locks.holder? key := by
  rw [(released_destroy h.live).locks, h.locks, held]
  simp

/-- The attempt is over: nothing that it lists is left in `r'`, and others have what they had in
`r`. -/
structure Ended (a : Attempt) (r r' : Resources) : Prop where
  origin : r'.sequencer.origin = r.sequencer.origin
  path : r'.journal.path = r.journal.path
  last : ∀ o, (r.sequencer.slot o).last ≤ (r'.sequencer.slot o).last
  ahead : r.Ahead → r'.Ahead
  promised : ∀ id, r'.HasPromised id → r.HasPromised id ∧ id ∉ a.promised
  others : ∀ id, id ∉ a.promised → r.HasPromised id → r'.HasPromised id ∨ r'.HasDone id
  locks : ∀ key, r'.locks.holder? key =
    if key ∈ a.held ∧ r.locks.holder? key = some a.request then none else r.locks.holder? key
  reserved : ∀ place, r'.store.isReserved place = true → r.store.isReserved place = true
  kept : ∀ place, place ∉ a.reserved → r.store.isReserved place = true →
    r'.store.isReserved place = true
  tidy : r'.store.Tidy
  stored : ∀ place, r.store.isStored place = true → r'.store.isStored place = true
  room : r'.store.HasRoom → r.store.HasRoom

theorem Released.last (h : Released a r r') (o : Nat) :
    (r'.sequencer.slot o).last = (r.sequencer.slot o).last :=
  Slot.last_of_bare (h.bare o)

theorem Released.not_isReserved (h : Released a r r') {place : RecordId}
    (mem : place ∈ a.reserved) : r'.store.isReserved place = false := by
  rw [← Bool.not_eq_true, h.reserved]
  exact fun held => held.1 mem

theorem Released.ended (h : Released a r r') (tidy : r.store.Tidy) : Ended a r r' where
  origin := congrArg (·.1) h.frame
  path := h.path
  last o := Nat.le_of_eq (h.last o).symm
  ahead ahead o k mem := by
    rw [h.last]
    exact ahead o k ((h.promised o k).1 mem).1
  promised id := (h.promised id.origin id.sequence).1
  others id other mem := .inl ((h.promised id.origin id.sequence).2 ⟨mem, other⟩)
  locks := h.locks
  reserved place held := ((h.reserved place).1 held).2
  kept place other held := (h.reserved place).2 ⟨other, held⟩
  tidy := h.tidy tidy
  stored place stored := by
    rw [Store.isStored_of_content h.content]
    exact stored
  room := h.room

/-- An attempt whose promised ids are all committed may forget them, for such ids are promised no
longer. -/
theorem ended_markApplied (live : a.destroyed = false) (tidy : r.store.Tidy) (ahead : r.Ahead)
    (done : ∀ p ∈ a.promised, r.HasDone p) :
    Ended a r (destroy (markApplied ⟨a, r⟩)).resources := by
  have ended := (released_destroy (b := markApplied ⟨a, r⟩) live).ended tidy
  refine ⟨ended.origin, ended.path, ended.last, ended.ahead, fun id mem => ?_,
    fun id other mem => ?_, ended.locks, ended.reserved,
    fun place other held => ended.kept place nofun held, ended.tidy, ended.stored, ended.room⟩
  · have promised := (ended.promised id mem).1
    refine ⟨promised, fun mine => ?_⟩
    have after := ahead id.origin id.sequence promised
    exact Nat.not_le.2 after (done id mine)
  · exact ended.others id nofun mem

end Attempt

namespace Journal

variable {j : Journal} {id : TxId}

/-- A journal refuses an id and stays as it is, or the id is the next one and is committed, even if
saving it then fails. -/
theorem commit_cases (j : Journal) (disk : FileTree) (id : TxId) :
    (∃ fault, j.commit disk id = (.error fault, j, disk)) ∨
      (id.sequence = (j.sequencer.slot id.origin).last + 1 ∧
        ∃ disk', j.commit disk id =
            (.ok j.sequencer.nextOffset, { j with sequencer := j.sequencer.advance id }, disk') ∨
          j.path ≠ none ∧ ∃ fault, j.commit disk id =
            (.error fault, { j with sequencer := j.sequencer.advance id }, disk')) := by
  by_cases next : id.sequence = (j.sequencer.slot id.origin).last + 1
  · right
    refine ⟨next, ?_⟩
    unfold commit
    rw [Sequencer.commit_next next]
    dsimp only
    rcases saved : ({ j with sequencer := j.sequencer.advance id } : Journal).save disk with
      ⟨fault | _, disk'⟩
    · refine ⟨disk', .inr ⟨fun none => ?_, fault, rfl⟩⟩
      unfold save at saved
      rw [show ({ j with sequencer := j.sequencer.advance id } : Journal).path = j.path from rfl,
        none] at saved
      cases saved
    · exact ⟨disk', .inl rfl⟩
  · left
    rcases commit_other disk next with refused | refused
    · exact ⟨_, refused⟩
    · exact ⟨_, refused⟩

/-- The next id is committed, whether or not it can be saved. -/
theorem commit_advances (disk : FileTree)
    (next : id.sequence = (j.sequencer.slot id.origin).last + 1) : ∃ result disk',
    j.commit disk id = (result, { j with sequencer := j.sequencer.advance id }, disk') := by
  unfold commit
  rw [Sequencer.commit_next next]
  dsimp only
  rcases ({ j with sequencer := j.sequencer.advance id } : Journal).save disk with
    ⟨fault | _, disk'⟩
  · exact ⟨_, _, rfl⟩
  · exact ⟨_, _, rfl⟩

end Journal

namespace Resources

def advanceOn (r : Resources) (disk : FileTree) (id : TxId) (store : Store) : Resources :=
  { r.advance id store with disk := disk }

variable {r : Resources} {disk : FileTree} {id : TxId} {store : Store}

theorem slot_advanceOn (o : Nat) : (r.advanceOn disk id store).sequencer.slot o =
    if o = id.origin then (r.sequencer.slot id.origin).commit id.sequence r.sequencer.nextOffset
    else r.sequencer.slot o :=
  Sequencer.slot_advance r.sequencer o id

theorem last_advanceOn (o : Nat) : ((r.advanceOn disk id store).sequencer.slot o).last =
    if o = id.origin then id.sequence else (r.sequencer.slot o).last := by
  rw [slot_advanceOn]
  split <;> rfl

theorem hasPromised_advanceOn {other : TxId} :
    (r.advanceOn disk id store).HasPromised other ↔ other ≠ id ∧ r.HasPromised other := by
  unfold HasPromised
  rw [slot_advanceOn]
  obtain ⟨o, k⟩ := other
  obtain ⟨o', k'⟩ := id
  by_cases own : o = o'
  · subst own
    simp only [↓reduceIte, Slot.mem_commit, ne_eq, TxId.mk.injEq, true_and]
    rw [eq_comm]
  · simp only [own, ↓reduceIte, ne_eq, TxId.mk.injEq, false_and, not_false_eq_true, true_and]

theorem Ahead.advanceOn (h : r.Ahead) (next : r.IsNext id) : (r.advanceOn disk id store).Ahead := by
  intro o k mem
  have mem : (r.advanceOn disk id store).HasPromised ⟨o, k⟩ := mem
  obtain ⟨other, promised⟩ := hasPromised_advanceOn.1 mem
  have after := h o k promised
  rw [last_advanceOn]
  split
  · next own =>
    subst own
    have ne : k ≠ id.sequence := fun eq => other (by rw [eq])
    have next : id.sequence = (r.sequencer.slot id.origin).last + 1 := next
    omega
  · exact after

theorem IsNext.last_le (next : r.IsNext id) (o : Nat) :
    (r.sequencer.slot o).last ≤ ((r.advanceOn disk id store).sequencer.slot o).last := by
  rw [last_advanceOn]
  split
  · next own =>
    subst own
    have next : id.sequence = (r.sequencer.slot id.origin).last + 1 := next
    omega
  · exact Nat.le_refl _

theorem hasDone_advanceOn : (r.advanceOn disk id store).HasDone id := by
  have last : ((r.advanceOn disk id store).sequencer.slot id.origin).last = id.sequence :=
    (last_advanceOn id.origin).trans (if_pos rfl)
  exact Nat.le_of_eq last.symm

end Resources

namespace Attempt

variable {a : Attempt} {r r' r'' : Resources} {b b' : State} {id : TxId} {t t' u : ChangeSet}
  {request : RequestId} {place : RecordId}

inductive Applying (id : TxId) (t : ChangeSet) (b : State) : Except Fault Unit × State → Prop where
  /-- The id is not the next one. -/
  | refused (fault : Fault) : Applying id t b (.error fault, b)
  /-- The id is committed, but not on the disk. -/
  | unsaved (fault : Fault) (disk : FileTree) : b.resources.IsNext id →
      b.resources.journal.path ≠ none →
      Applying id t b (.error fault, ⟨b.attempt, b.resources.advanceOn disk id b.resources.store⟩)
  /-- A change fails after the id is committed. -/
  | halfDone (fault : Fault) (disk : FileTree) (store : Store) : b.resources.IsNext id →
      b.resources.store.commit t ⟨id, b.resources.sequencer.nextOffset⟩ = (.error fault, store) →
      Applying id t b (.error fault, ⟨b.attempt, b.resources.advanceOn disk id store⟩)
  | done (disk : FileTree) (store : Store) : b.resources.IsNext id →
      b.resources.store.commit t ⟨id, b.resources.sequencer.nextOffset⟩ = (.ok (), store) →
      Applying id t b (.ok (), markApplied ⟨b.attempt, b.resources.advanceOn disk id store⟩)

theorem applying (job : b.attempt.job = .data id t) : Applying id t b (Attempt.apply b) := by
  unfold Attempt.apply
  rw [job]
  dsimp only
  rcases b.resources.journal.commit_cases b.resources.disk id with
    ⟨fault, refused⟩ | ⟨next, disk, committed | ⟨file, fault, unsaved⟩⟩
  · rw [refused]
    exact .refused fault
  · rw [committed]
    dsimp only
    rcases eq : b.resources.store.commit t ⟨id, b.resources.sequencer.nextOffset⟩ with
      ⟨fault | _, store⟩
    · exact .halfDone fault disk store next eq
    · exact .done disk store next eq
  · rw [unsaved]
    exact .unsaved fault disk next file

/-- An attempt whose id is committed is not applied once more. -/
theorem apply_of_done (job : b.attempt.job = .data id t) (done : b.resources.HasDone id) :
    Attempt.apply b = (.error (.alreadyCommitted id), b) := by
  unfold Attempt.apply
  rw [job]
  dsimp only
  rw [Journal.commit_done _ done]

/-- Nor is one whose id is not the next one yet. -/
theorem apply_of_ahead (job : b.attempt.job = .data id t)
    (ahead : (b.resources.sequencer.slot id.origin).last + 1 < id.sequence) :
    Attempt.apply b = (.error (.outOfSequence id .missingPrevious), b) := by
  unfold Attempt.apply
  rw [job]
  dsimp only
  rw [Journal.commit_ahead _ ahead]

/-- The next one is applied, if the journal is in memory and all that it updates or removes is
stored. -/
theorem apply_of_next (job : b.attempt.job = .data id t) (next : b.resources.IsNext id)
    (path : b.resources.journal.path = none)
    (stored : ∀ c ∈ t.changes, c.kind ≠ .created → b.resources.store.isStored c.record = true) :
    (Attempt.apply b).1 = .ok () := by
  have ok := Store.commit_ok_of_stored stored ⟨id, b.resources.sequencer.nextOffset⟩
  unfold Attempt.apply
  rw [job]
  dsimp only
  rw [Journal.commit_next path _ next]
  dsimp only
  rcases eq : b.resources.store.commit t ⟨id, b.resources.sequencer.nextOffset⟩ with
    ⟨fault | _, store⟩
  · rw [eq] at ok
    cases ok
  · rfl

/-- The next id is committed, whatever comes of it. -/
theorem hasDone_apply (job : b.attempt.job = .data id t) (next : b.resources.IsNext id) :
    (Attempt.apply b).2.resources.HasDone id := by
  obtain ⟨result, disk, committed⟩ := Journal.commit_advances b.resources.disk next
  have done (store : Store) : (b.resources.advanceOn disk id store).HasDone id :=
    Resources.hasDone_advanceOn
  unfold Attempt.apply
  rw [job]
  dsimp only
  rw [committed]
  cases result with
  | error fault => exact done b.resources.store
  | ok offset =>
    dsimp only
    rcases b.resources.store.commit t ⟨id, offset⟩ with ⟨fault | _, store⟩
    · exact done store
    · exact done store

inductive Effect (id : TxId) (t : ChangeSet) (r r' : Resources) : Prop where
  | none : (∀ o, (r'.sequencer.slot o).last = (r.sequencer.slot o).last) →
      r'.store.content = r.store.content → Effect id t r r'
  | logged : r.IsNext id → r.journal.path ≠ .none →
      (∀ o, (r'.sequencer.slot o).last = if o = id.origin then id.sequence else
        (r.sequencer.slot o).last) →
      r'.store.content = r.store.content → Effect id t r r'
  | committed : r.IsNext id →
      (∀ o, (r'.sequencer.slot o).last = if o = id.origin then id.sequence else
        (r.sequencer.slot o).last) →
      r'.store.content = (r.store.commit t ⟨id, r.sequencer.nextOffset⟩).2.content →
      Effect id t r r'

/-- The next id is committed, and then all that the attempt still lists is released. -/
theorem Released.ended_of_advance {a' : Attempt} {disk : FileTree} {store : Store}
    (h : Released a' (r.advanceOn disk id store) r') (next : r.IsNext id)
    (request : a'.request = a.request) (held : a'.held = a.held)
    (mine : ∀ p ∈ a.promised, p = id) (listed : ∀ p ∈ a'.promised, p ∈ a.promised)
    (less : ∀ place ∈ a'.reserved, place ∈ a.reserved)
    (reserved : ∀ place, store.isReserved place = true → r.store.isReserved place = true)
    (kept : ∀ place, place ∉ a.reserved → r.store.isReserved place = true →
      store.isReserved place = true)
    (tidy : store.Tidy)
    (stored : ∀ place, r.store.isStored place = true → store.isStored place = true)
    (room : store.HasRoom → r.store.HasRoom) : Ended a r r' := by
  have ended := h.ended tidy
  refine ⟨ended.origin, ended.path, fun o => Nat.le_trans (next.last_le o) (ended.last o),
    fun ahead => ended.ahead (ahead.advanceOn next), fun p mem => ?_, fun p other mem => ?_,
    fun key => ?_, fun place held => reserved place (ended.reserved place held),
    fun place other held => ended.kept place (fun mem => other (less place mem))
      (kept place other held), ended.tidy,
    fun place held => ended.stored place (stored place held), fun after => room (ended.room after)⟩
  · obtain ⟨promised, -⟩ := ended.promised p mem
    obtain ⟨ne, promised⟩ := Resources.hasPromised_advanceOn.1 promised
    exact ⟨promised, fun mem => ne (mine p mem)⟩
  · by_cases same : p = id
    · subst same
      exact .inr (Nat.le_trans Resources.hasDone_advanceOn (ended.last _))
    · exact ended.others p (fun mem => other (listed p mem))
        (Resources.hasPromised_advanceOn.2 ⟨same, mem⟩)
  · rw [ended.locks, request, held]
    rfl

/-- What is left when an attempt that holds its places is applied and given up. -/
theorem ended_apply (live : a.destroyed = false) (job : a.job = .data id t)
    (mine : ∀ p ∈ a.promised, p = id) (created : ∀ place ∈ t.createdRecords, place ∈ a.reserved)
    (held : r.store.HasRoom → ∀ place ∈ a.reserved, r.store.isReserved place = true)
    (tidy : r.store.Tidy) :
    Ended a r (destroy (Attempt.apply ⟨a, r⟩).2).resources ∧
      Effect id t r (destroy (Attempt.apply ⟨a, r⟩).2).resources ∧
      (t.createdRecords = a.reserved → ∀ place ∈ a.reserved,
        (destroy (Attempt.apply ⟨a, r⟩).2).resources.store.isReserved place = false) := by
  have taken : r.store.HasRoom → ∀ place ∈ t.createdRecords, r.store.isTaken place = true :=
    fun room place mem => Store.isTaken_iff.2 (.inr (held room place (created place mem)))
  have settles := Store.commit_settles tidy taken ⟨id, r.sequencer.nextOffset⟩
  have kept : ∀ place, place ∉ a.reserved → r.store.isReserved place = true →
      (r.store.commit t ⟨id, r.sequencer.nextOffset⟩).2.isReserved place = true :=
    fun place other => settles.others place fun mem => other (created place mem)
  have stored : ∀ place, r.store.isStored place = true →
      (r.store.commit t ⟨id, r.sequencer.nextOffset⟩).2.isStored place = true :=
    fun _ => Store.isStored_commit
  have room := Store.HasRoom.of_commit (s := r.store) (t := t)
    (a := ⟨id, r.sequencer.nextOffset⟩)
  generalize result : Attempt.apply ⟨a, r⟩ = out
  have applying : Applying id t ⟨a, r⟩ out := result ▸ applying job
  cases applying with
  | refused fault =>
    have released := released_destroy (b := ⟨a, r⟩) live
    exact ⟨released.ended tidy, .none released.last released.content,
      fun _ _ => released.not_isReserved⟩
  | unsaved fault disk next file =>
    have released := released_destroy (b := ⟨a, r.advanceOn disk id r.store⟩) live
    refine ⟨released.ended_of_advance next rfl rfl mine (fun _ mem => mem) (fun _ mem => mem)
      (fun _ held => held) (fun _ _ held => held) tidy (fun _ held => held) (fun room => room),
      .logged next file (fun o => ?_) released.content, fun _ _ => released.not_isReserved⟩
    exact (released.last o).trans (Resources.last_advanceOn o)
  | halfDone fault disk store next failed =>
    have failed : r.store.commit t ⟨id, r.sequencer.nextOffset⟩ = (.error fault, store) := failed
    rw [failed] at settles kept stored room
    have released := released_destroy (b := ⟨a, r.advanceOn disk id store⟩) live
    refine ⟨released.ended_of_advance next rfl rfl mine (fun _ mem => mem) (fun _ mem => mem)
      settles.reserved kept settles.tidy stored room, .committed next (fun o => ?_) ?_,
      fun _ _ => released.not_isReserved⟩
    · exact (released.last o).trans (Resources.last_advanceOn o)
    · rw [failed]
      exact released.content
  | done disk store next ok =>
    have ok : r.store.commit t ⟨id, r.sequencer.nextOffset⟩ = (.ok (), store) := ok
    rw [ok] at settles kept stored room
    have released := released_destroy
      (b := markApplied ⟨a, r.advanceOn disk id store⟩) live
    refine ⟨released.ended_of_advance next rfl rfl mine (by simp [markApplied])
      (by simp [markApplied]) settles.reserved kept settles.tidy stored room,
      .committed next (fun o => ?_) ?_, fun same place mem => ?_⟩
    · exact (released.last o).trans (Resources.last_advanceOn o)
    · rw [ok]
      exact released.content
    · rw [← Bool.not_eq_true, released.reserved]
      intro held
      have used := settles.used rfl place (same ▸ mem)
      have held : store.isReserved place = true := held.2
      rw [used] at held
      cases held

/-- Applying comes no nearer to the last place than the store has come by then. -/
theorem hasRoom_of_apply (job : b.attempt.job = .data id t)
    (room : (Attempt.apply b).2.resources.store.HasRoom) : b.resources.store.HasRoom := by
  generalize result : Attempt.apply b = out at room
  have applying : Applying id t b out := result ▸ applying job
  cases applying with
  | refused | unsaved => exact room
  | halfDone fault disk store next failed =>
    exact Store.HasRoom.of_commit (by rw [failed]; exact room)
  | done disk store next ok => exact Store.HasRoom.of_commit (by rw [ok]; exact room)

theorem hasRoom_of_destroy (room : (destroy b).resources.store.HasRoom) :
    b.resources.store.HasRoom := by
  cases live : b.attempt.destroyed with
  | false => exact (released_destroy live).room room
  | true =>
    unfold destroy at room
    rwa [live] at room

end Attempt

end QuorumCommit
