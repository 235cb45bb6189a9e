import QuorumCommit.Proofs.Node.Answering
import QuorumCommit.Proofs.Store.AllocationRun

/-!
What a refused place tells. A reservation that is refused names the place that it wanted and the one
that would be handed out next, and a node that is asked again if the first lies behind the second
takes itself to be behind the writer. That holds of a place with a record too, as soon as a place
before it was given back.
-/
namespace QuorumCommit

namespace Positions

open RecordId (lastPosition)

variable {p : Positions} {n k : Int}

structure Enclosed (p : Positions) : Prop where
  reserved : ∀ n ∈ p.reserved, n < p.next
  free : ∀ n ∈ p.free, n < p.next

/-- The place counts as one that may be handed out. -/
def Vacant (p : Positions) (n : Int) : Prop := n ∈ p.free ∨ p.next ≤ n

theorem Enclosed.empty : empty.Enclosed := by
  constructor <;> simp [Positions.empty]

theorem nextFree_vacant (p : Positions) : p.Vacant p.nextFree := by
  rcases p.nextFree_cases with ⟨-, eq⟩ | ⟨-, mem⟩
  · exact .inr (Int.le_of_eq eq.symm)
  · exact .inl mem

/-- The place handed out next is the first one that may be. -/
theorem Enclosed.nextFree_le (h : p.Enclosed) (vacant : p.Vacant n) : p.nextFree ≤ n := by
  rcases p.nextFree_cases with ⟨none, eq⟩ | ⟨some, mem⟩
  · rw [Std.ExtTreeSet.head?_toList, Std.ExtTreeSet.min?_eq_none_iff] at none
    rcases vacant with mem | behind
    · simp [none] at mem
    · exact eq ▸ behind
  · rw [Std.ExtTreeSet.head?_toList, Std.ExtTreeSet.min?_eq_some_iff_mem_and_forall] at some
    rcases vacant with mem' | behind
    · simpa [Int.isLE_compare] using some.2 n mem'
    · have := h.free _ mem
      omega

theorem Enclosed.nextFree_lt (h : p.Enclosed) : p.nextFree < k ↔ ∃ n < k, p.Vacant n :=
  ⟨fun less => ⟨p.nextFree, less, p.nextFree_vacant⟩,
    fun ⟨_, less, vacant⟩ => Int.lt_of_le_of_lt (h.nextFree_le vacant) less⟩

theorem next_le_allocate (room : p.nextFree ≠ lastPosition) : p.next ≤ p.allocate.next := by
  unfold allocate
  rcases p.nextFree_cases with ⟨none, eq⟩ | ⟨some, -⟩
  · rw [none]
    have next := behind_eq (eq ▸ room)
    dsimp only
    omega
  · rw [some]

theorem next_le_reserve (p : Positions) (n : Int) : p.next ≤ (p.reserve n).next :=
  Int.le_max_left _ _

theorem Enclosed.nextFree_lt_allocate (h : p.Enclosed) (room : p.nextFree ≠ lastPosition) :
    p.nextFree < p.allocate.next := by
  unfold Positions.allocate
  rcases p.nextFree_cases with ⟨none, eq⟩ | ⟨some, mem⟩
  · rw [none]
    have next := behind_eq (eq ▸ room)
    dsimp only
    omega
  · rw [some]
    exact h.free _ mem

theorem Enclosed.allocate (h : p.Enclosed) (room : p.nextFree ≠ lastPosition) :
    p.allocate.Enclosed := by
  constructor
  · intro k mem
    rcases mem_reserved_allocate.1 mem with rfl | mem
    · exact h.nextFree_lt_allocate room
    · exact Int.lt_of_lt_of_le (h.reserved k mem) (next_le_allocate room)
  · intro k mem
    exact Int.lt_of_lt_of_le (h.free k (mem_free_allocate.1 mem).2) (next_le_allocate room)

theorem Enclosed.reserve (h : p.Enclosed) (room : n ≠ lastPosition) : (p.reserve n).Enclosed := by
  have last : max p.next (n + 1) = (p.reserve n).next := by rw [← behind_eq room]; rfl
  constructor
  · intro k mem
    rw [mem_reserved_reserve] at mem
    rcases mem with rfl | mem
    · omega
    · have := h.reserved k mem
      omega
  · intro k mem
    have := h.free k (mem_free_reserve.1 mem).2
    omega

theorem Enclosed.settle (h : p.Enclosed) (n : Int) : (p.settle n).Enclosed :=
  ⟨fun k mem => h.reserved k (mem_reserved_settle.1 mem).2, h.free⟩

theorem Enclosed.release (h : p.Enclosed) (stored : Bool) (n : Int) :
    (p.release stored n).Enclosed := by
  unfold Positions.release
  split
  · next held =>
    cases stored with
    | true => exact h.settle n
    | false =>
      refine ⟨(h.settle n).reserved, fun k mem => ?_⟩
      simp only [Bool.false_eq_true, ↓reduceIte, Std.ExtTreeSet.mem_insert,
        Int.compare_eq_eq] at mem
      rcases mem with rfl | mem
      · exact h.reserved _ (Std.ExtTreeSet.contains_iff_mem.1 held)
      · exact h.free k mem
  · exact h

end Positions

namespace Store

open Attempt

/-- The stores that come about from an empty one, whatever is reserved, given back, committed or
stored outside of any transaction, and however that ends. -/
inductive Worked (limit : Option Nat) : Store → Prop where
  | empty : Worked limit (.empty limit)
  | preallocate {s : Store} (t : ChangeSet) : Worked limit s → Worked limit (s.preallocate t).2
  | release {s : Store} (ids : List RecordId) : Worked limit s → Worked limit (s.releaseAll ids)
  | commit {s : Store} (t : ChangeSet) (a : Applied) :
      Worked limit s → Worked limit (s.commit t a).2
  | insert {s : Store} (id : RecordId) (version : Nat) (content : List UInt8) :
      Worked limit s → Worked limit (s.insertRecord id version content)

def Enclosed (s : Store) : Prop := s.HasRoom → ∀ cluster, (s.placesOf cluster).Enclosed

variable {s s' m : Store} {r r' : Reservation} {ids : List RecordId} {t : ChangeSet}
  {limit : Option Nat}

namespace Enclosed

theorem setPlaces (h : s.Enclosed) (before : s.HasRoom) {cluster : Int} {p : Positions}
    (own : p.Enclosed) : (s.setPlaces cluster p).Enclosed := by
  intro _ k
  rw [placesOf_setPlaces]
  split
  · exact own
  · exact h before k

theorem allocate (h : s.Enclosed) (cluster : Int) : (s.allocate cluster).2.Enclosed := fun room =>
  h.setPlaces room.of_allocate
    ((h room.of_allocate cluster).allocate room.own.of_allocate.2) room

theorem reserve (h : s.Enclosed) (id : RecordId) : (s.reserve id).Enclosed := fun room =>
  h.setPlaces room.of_reserve
    ((h room.of_reserve id.cluster).reserve room.own.of_reserve.2) room

theorem releaseAll (h : s.Enclosed) (ids : List RecordId) : (s.releaseAll ids).Enclosed := by
  induction ids generalizing s with
  | nil => exact h
  | cons id rest ih =>
    refine ih (s := s.release id) fun room => ?_
    exact h.setPlaces room.of_release ((h room.of_release id.cluster).release _ _) room

theorem reserveFrom (h : s.Enclosed) (r : Reservation) (ids : List RecordId) :
    (reserveFrom r ids s).2.Enclosed := by
  induction ids generalizing r s with
  | nil => exact h
  | cons id rest ih =>
    unfold Store.reserveFrom
    split
    · exact ih (h.allocate id.cluster) _
    · split
      · exact h.releaseAll _
      · exact ih (h.reserve id) _

theorem preallocate (h : s.Enclosed) (t : ChangeSet) : (s.preallocate t).2.Enclosed := by
  have kept := h.reserveFrom ⟨[], []⟩ t.createdRecords
  unfold Store.preallocate
  rcases eq : Store.reserveFrom ⟨[], []⟩ t.createdRecords s with ⟨fault | r, s'⟩ <;>
    rw [eq] at kept
  · exact kept
  · exact kept

theorem store (h : s.Enclosed) (id : RecordId) (r : StoredRecord) :
    ((s.settle id).putRecord id r).Enclosed := fun room cluster => by
  have before := room.of_store
  have places : ((s.settle id).putRecord id r).placesOf cluster =
      if cluster = id.cluster then (s.placesOf id.cluster).settle id.position
      else s.placesOf cluster := placesOf_setPlaces _ cluster
  rw [places]
  split
  · exact (h before id.cluster).settle id.position
  · exact h before cluster

theorem commit (h : s.Enclosed) (t : ChangeSet) (a : Applied) : (s.commit t a).2.Enclosed := by
  refine commit_keeps (p := Enclosed) (fun c _ s s' step h => ?_) (fun s h room => ?_) h
  · rcases applyChange_cases step with ⟨-, rfl⟩ | ⟨-, places, -⟩
    · exact h.store c.record _
    · intro room k
      have same : s'.placesOf k = s.placesOf k := by simp only [placesOf, places]
      exact same ▸ h (room.of_applyChange step) k
  · exact h (room.congr rfl fun _ => rfl)

theorem insertRecord (h : s.Enclosed) (id : RecordId) (version : Nat) (content : List UInt8) :
    (s.insertRecord id version content).Enclosed :=
  (h.reserve id).store id _

end Enclosed

theorem Worked.enclosed (h : Worked limit s) : s.Enclosed := by
  induction h with
  | empty =>
    intro _ cluster
    rw [placesOf_empty]
    exact .empty
  | preallocate t _ ih => exact ih.preallocate t
  | release ids _ ih => exact ih.releaseAll ids
  | commit t a _ ih => exact ih.commit t a
  | insert id version content _ ih => exact ih.insertRecord id version content

/-- A reservation is refused at the first place that is taken once the earlier ones are granted,
which are given back then. -/
theorem reserveFrom_refused {fault : Fault} (refused : reserveFrom r ids s = (.error fault, s')) :
    ∃ earlier id later r' m, ids = earlier ++ id :: later ∧ reserveFrom r earlier s = (.ok r', m) ∧
      fault = .placeConflict id (m.nextFree id.cluster) ∧ s' = m.releaseAll r'.reserved := by
  induction ids generalizing r s with
  | nil => cases refused
  | cons id rest ih =>
    -- What is refused behind the first place is refused in the whole list too.
    have further {r₁ : Reservation} {s₁ : Store}
        (step : ∀ ids, reserveFrom r (id :: ids) s = reserveFrom r₁ ids s₁) :
        ∃ earlier id' later r' m, id :: rest = earlier ++ id' :: later ∧
          reserveFrom r earlier s = (.ok r', m) ∧
          fault = .placeConflict id' (m.nextFree id'.cluster) ∧ s' = m.releaseAll r'.reserved := by
      obtain ⟨earlier, id', later, r', m, split, granted, same⟩ :=
        ih ((step rest).symm.trans refused)
      exact ⟨id :: earlier, id', later, r', m, congrArg (id :: ·) split,
        (step earlier).trans granted,
        same⟩
    by_cases temporary : id.isTemporary = true
    · exact further fun ids => by rw [reserveFrom, if_pos temporary]
    · by_cases taken : s.isTaken id = true
      · rw [reserveFrom, if_neg temporary, if_pos taken] at refused
        cases refused
        exact ⟨[], id, rest, r, s, rfl, rfl, rfl, rfl⟩
      · exact further fun ids => by rw [reserveFrom, if_neg temporary, if_neg taken]

/-- Granting places takes them out of those that were given back, and never brings an end nearer. -/
theorem free_reserveFrom (granted : reserveFrom r ids s = (.ok r', m)) :
    ∃ places, r'.reserved = r.reserved ++ places ∧ ∀ cluster : Int,
      (m.HasRoom → (s.placesOf cluster).next ≤ (m.placesOf cluster).next) ∧
        ∀ n, n ∈ (m.placesOf cluster).free ↔
          n ∈ (s.placesOf cluster).free ∧ ⟨cluster, n⟩ ∉ places := by
  induction ids generalizing r s with
  | nil =>
    cases granted
    exact ⟨[], by simp, fun cluster => ⟨fun _ => Int.le_refl _, by simp⟩⟩
  | cons id rest ih =>
    -- One place more is granted in its cluster, and nothing happens in the others.
    have one {p : Positions} {place : Int} (renames : List (RecordId × RecordId))
        (next : (s.setPlaces id.cluster p).HasRoom → (s.placesOf id.cluster).next ≤ p.next)
        (free : ∀ k, k ∈ p.free ↔ place ≠ k ∧ k ∈ (s.placesOf id.cluster).free)
        (step : reserveFrom ⟨r.reserved ++ [⟨id.cluster, place⟩], renames⟩ rest
          (s.setPlaces id.cluster p) = (.ok r', m)) :
        ∃ places, r'.reserved = r.reserved ++ places ∧ ∀ cluster : Int,
          (m.HasRoom → (s.placesOf cluster).next ≤ (m.placesOf cluster).next) ∧
            ∀ n, n ∈ (m.placesOf cluster).free ↔
              n ∈ (s.placesOf cluster).free ∧ ⟨cluster, n⟩ ∉ places := by
      obtain ⟨places, reserved, later⟩ := ih step
      have back (room : m.HasRoom) : (s.setPlaces id.cluster p).HasRoom :=
        HasRoom.of_reserveFrom (by rwa [step])
      refine ⟨⟨id.cluster, place⟩ :: places, by simp [reserved], fun cluster => ?_⟩
      obtain ⟨ends, frees⟩ := later cluster
      rw [placesOf_setPlaces] at ends frees
      by_cases same : cluster = id.cluster
      · subst same
        rw [if_pos rfl] at ends frees
        refine ⟨fun room => Int.le_trans (next (back room)) (ends room), fun n => ?_⟩
        rw [frees, free, List.mem_cons, RecordId.mk.injEq]
        grind
      · rw [if_neg same] at ends frees
        refine ⟨ends, fun n => ?_⟩
        rw [frees, List.mem_cons, RecordId.mk.injEq]
        grind
    unfold reserveFrom at granted
    split at granted
    · exact one _ (fun room => Positions.next_le_allocate room.own.of_allocate.2)
        (fun _ => Positions.mem_free_allocate) granted
    · split at granted
      · cases granted
      · exact one _ (fun _ => Positions.next_le_reserve _ _)
          (fun _ => Positions.mem_free_reserve) granted

/-- Before the wanted place lies one that was given back and is not among those granted meanwhile.
-/
def HasReturned (s : Store) (granted : List RecordId) (wanted : RecordId) : Prop :=
  ∃ n < wanted.position, n ∈ (s.placesOf wanted.cluster).free ∧ ⟨wanted.cluster, n⟩ ∉ granted

theorem isLagging_refused (enclosed : m.Enclosed) (room : m.HasRoom) (expected : RecordId) :
    (Fault.placeConflict expected (m.nextFree expected.cluster)).isLagging = true ↔
      ∃ n < expected.position, (m.placesOf expected.cluster).Vacant n := by
  rw [← (enclosed room expected.cluster).nextFree_lt]
  exact decide_eq_true_iff

/-- Before the wanted place lies one that may be handed out just when one was given back, or when
the wanted one lies behind all that were ever reserved. -/
theorem hasVacant_granted (granted : reserveFrom ⟨[], []⟩ ids s = (.ok r, m)) (wanted : RecordId) :
    (∃ n < wanted.position, (m.placesOf wanted.cluster).Vacant n) ↔
      s.HasReturned r.reserved wanted ∨ (m.placesOf wanted.cluster).next < wanted.position := by
  obtain ⟨places, same, frees⟩ := free_reserveFrom granted
  have free := (frees wanted.cluster).2
  rw [List.nil_append] at same
  rw [← same] at free
  constructor
  · rintro ⟨n, less, mem | behind⟩
    · exact .inl ⟨n, less, (free n).1 mem⟩
    · exact .inr (Int.lt_of_le_of_lt behind less)
  · rintro (⟨n, less, mem⟩ | less)
    · exact ⟨n, less, .inl ((free n).2 mem)⟩
    · exact ⟨_, less, .inr (Int.le_refl _)⟩

end Store

namespace Attempt

variable {id : TxId} {t : ChangeSet} {b b' : State} {store : Store}

def WorksOn (store : Store) (id : TxId) (t : ChangeSet) (b : State) : Prop :=
  b.resources.store = store ∧ b.attempt.job = .data id t

/-- What an attempt goes through before it reserves places that were chosen elsewhere. -/
def promiseAndLock : Step State Unit := promiseId >>= fun _ => lockKeys

/-- Up to the reservation, nothing happens to the store. -/
theorem worksOn_promiseAndLock : Step.Keeps (WorksOn store id t) promiseAndLock := by
  refine Step.Keeps.bind (fun b work => ?_) fun _ b work => ?_
  · unfold promiseId promise
    simp only [Step.run_apply]
    split <;> exact work
  · exact kept_lockKeys (fun _ _ _ work => work) b work

/-- An attempt that has its promise and its locks fails if its places are refused. -/
theorem prepare_refused (work : WorksOn store id t b) {fault : Fault} {store' : Store}
    (locked : promiseAndLock b = (.ok (), b'))
    (refused : store.preallocate t = (.error fault, store')) :
    (prepare false b).1 = .error fault := by
  obtain ⟨kept, job⟩ := worksOn_promiseAndLock.of_eq locked work
  obtain ⟨_, c, promised, locked⟩ := Step.bind_eq_ok.1 locked
  have reserved : (preallocate b').1 = .error fault := by
    unfold preallocate
    rw [job, kept]
    dsimp only
    rw [refused]
  unfold prepare
  rw [if_neg (by decide), Step.bind_apply, promised]
  dsimp only
  rw [Step.bind_apply, locked]
  dsimp only
  rw [Step.bind_apply]
  rcases eq : preallocate b' with ⟨fault' | _, b''⟩ <;> rw [eq] at reserved <;> cases reserved
  rfl

end Attempt

namespace Store

open Attempt

variable {s s' : Store} {t : ChangeSet} {limit : Option Nat}

/-- A place that holds a record is taken for one worth waiting for just when a place before it may
be handed out: one that was given back, or else the record was stored where no place was ever
reserved, which does not happen to a store that is used as it should be. A node that has all but its
places then asks to be asked again as often as it may. -/
theorem refused_isLagging_iff (worked : Worked limit s) {expected actual : RecordId}
    (refused : s.preallocate t = (.error (.placeConflict expected actual), s'))
    (stored : s.isStored expected = true) (room : s'.HasRoom) :
    ∃ earlier later r m, t.createdRecords = earlier ++ expected :: later ∧
      reserveFrom ⟨[], []⟩ earlier s = (.ok r, m) ∧
      ((Fault.placeConflict expected actual).isLagging = true ↔
        s.HasReturned r.reserved expected ∨
          (m.placesOf expected.cluster).next < expected.position) ∧
      (s.Built → ((Fault.placeConflict expected actual).isLagging = true ↔
        s.HasReturned r.reserved expected)) ∧
      ∀ (n : Node) (request : RequestId) (id : TxId) (retries : Nat) (b : State), n.store = s →
        promiseAndLock (n.newAttempt request (.data id t)) = (.ok (), b) →
        ((n.prepare request id t false retries).1 = .ok false ↔
          (Fault.placeConflict expected actual).isLagging = true ∧
            retries < n.settings.maxAutoRetry) := by
  obtain ⟨earlier, expected', later, r, m, split, granted, same, rest⟩ :
      ∃ earlier expected' later r m, t.createdRecords = earlier ++ expected' :: later ∧
        reserveFrom ⟨[], []⟩ earlier s = (.ok r, m) ∧
        Fault.placeConflict expected actual =
          .placeConflict expected' (m.nextFree expected'.cluster) ∧
        s' = m.releaseAll r.reserved := by
    unfold preallocate at refused
    rcases eq : reserveFrom ⟨[], []⟩ t.createdRecords s with ⟨fault | r, s''⟩ <;>
      rw [eq] at refused <;> cases refused
    exact reserveFrom_refused eq
  cases same
  have there : m.HasRoom := (rest ▸ room).of_releaseAll
  have here : s.HasRoom := HasRoom.of_reserveFrom (by rwa [granted])
  have enclosed : m.Enclosed := by
    have kept := worked.enclosed.reserveFrom ⟨[], []⟩ earlier
    rwa [granted] at kept
  have waits := (isLagging_refused enclosed there expected).trans
    (hasVacant_granted granted expected)
  refine ⟨earlier, later, r, m, split, granted, waits, fun built => ?_, ?_⟩
  · rw [waits, or_iff_left]
    -- The end lies behind all stored places, and granting more brings it no nearer.
    obtain ⟨places, -, frees⟩ := free_reserveFrom granted
    have behind := (built.tidy here expected.cluster).stored expected.position stored
    have ends := (frees expected.cluster).1 there
    omega
  · intro n request id retries b here locked
    have failed := prepare_refused ⟨here, rfl⟩ locked refused
    rw [Node.prepare_declines_iff, failed]
    constructor
    · rintro ⟨fault, same, lags⟩
      cases same
      exact lags
    · exact fun lags => ⟨_, rfl, lags⟩

def secondPlace : ChangeSet := ChangeSet.empty.pushChange ⟨⟨1, 1⟩, "log", .created, 0, []⟩

/-- Two places are granted, a record is committed to the second, and the first comes back. -/
def gap : Store :=
  let granted := (((empty none).preallocate anyPlace).2.preallocate anyPlace).2
  (granted.commit secondPlace ⟨⟨2, 1⟩, 1⟩).2.releaseAll [⟨1, 0⟩]

theorem gap_worked : Worked none gap :=
  .release _ (.commit _ _ (.preallocate _ (.preallocate _ .empty)))

theorem gap_built : gap.Built :=
  .release _ (.commit _ _ (fun _ => by decide +kernel)
    (.preallocate _ (.preallocate _ (.empty none))))

theorem gap_hasRoom : gap.HasRoom := by decide +kernel

theorem gap_refuses :
    gap.preallocate secondPlace = (.error (.placeConflict ⟨1, 1⟩ ⟨1, 0⟩), gap) := by
  rfl

theorem refused_isLagging_iff_gap : Worked none gap ∧
    gap.preallocate secondPlace = (.error (.placeConflict ⟨1, 1⟩ ⟨1, 0⟩), gap) ∧
    gap.isStored ⟨1, 1⟩ = true ∧ gap.HasRoom ∧ ∃ granted, gap.HasReturned granted ⟨1, 1⟩ := by
  have stored : gap.isStored ⟨1, 1⟩ = true := by decide +kernel
  obtain ⟨-, -, r, -, -, -, -, waits, -⟩ :=
    refused_isLagging_iff gap_worked gap_refuses stored gap_hasRoom
  exact ⟨gap_worked, gap_refuses, stored, gap_hasRoom, r.reserved, (waits gap_built).1 rfl⟩

/-- A place with a record is taken for one worth waiting for. -/
theorem isLagging_of_stored : ∃ s s' t, Worked none s ∧ s.isStored ⟨1, 1⟩ = true ∧
    s.preallocate t = (.error (.placeConflict ⟨1, 1⟩ ⟨1, 0⟩), s') ∧
    (Fault.placeConflict ⟨1, 1⟩ ⟨1, 0⟩).isLagging = true :=
  ⟨gap, gap, secondPlace, gap_worked, by decide +kernel, gap_refuses, rfl⟩

end Store

end QuorumCommit
