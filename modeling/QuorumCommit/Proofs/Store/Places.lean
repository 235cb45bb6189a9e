import QuorumCommit.Store.Basic

/-!
Places of a store, and the order that operations on them keep: what may be handed out is neither
reserved nor stored, and nothing lies at or behind the end. The end comes round to the first place
when the last one is used, and the order is lost. Used places stay used, so as long as there is room
in the end, there was room all the time.
-/
namespace QuorumCommit

namespace Positions

open RecordId (lastPosition behind)

variable {stored : Int → Prop} {p : Positions} {n k : Int}

theorem behind_eq (room : n ≠ lastPosition) : behind n = n + 1 := if_neg room

/-- The last place was never used: no record is stored there, none is to be, and none was. -/
structure HasRoom (stored : Int → Prop) (p : Positions) : Prop where
  reserved : lastPosition ∉ p.reserved
  free : lastPosition ∉ p.free
  stored : ¬ stored lastPosition

theorem HasRoom.congr {stored' : Int → Prop} (h : p.HasRoom stored)
    (same : ∀ n, stored' n ↔ stored n) : p.HasRoom stored' :=
  ⟨h.reserved, h.free, fun held => h.stored ((same _).1 held)⟩

/-- Reserved, free and stored places lie before the end and no place is two of these. -/
structure Tidy (stored : Int → Prop) (p : Positions) : Prop where
  next : 0 ≤ p.next
  reserved : ∀ n ∈ p.reserved, 0 ≤ n ∧ n < p.next ∧ ¬ stored n
  free : ∀ n ∈ p.free, 0 ≤ n ∧ n < p.next ∧ ¬ stored n ∧ n ∉ p.reserved
  stored : ∀ n, stored n → n < p.next

theorem Tidy.empty (h : ∀ n, ¬ stored n) : empty.Tidy stored where
  next := Int.le_refl 0
  reserved n hn := by simp [Positions.empty] at hn
  free n hn := by simp [Positions.empty] at hn
  stored n hn := absurd hn (h n)

theorem Tidy.congr {stored' : Int → Prop} (h : p.Tidy stored) (same : ∀ n, stored' n ↔ stored n) :
    p.Tidy stored' := by
  have eq : stored' = stored := funext fun n => propext (same n)
  rw [eq]
  exact h

theorem nextFree_cases (p : Positions) :
    p.free.toList.head? = none ∧ p.nextFree = p.next ∨
      p.free.toList.head? = some p.nextFree ∧ p.nextFree ∈ p.free := by
  unfold nextFree
  cases h : p.free.toList.head? with
  | none => exact .inl ⟨rfl, rfl⟩
  | some n =>
    right
    refine ⟨rfl, ?_⟩
    rw [Std.ExtTreeSet.head?_toList] at h
    exact Std.ExtTreeSet.min?_mem h

/-- The place handed out next is nobody's. -/
theorem Tidy.nextFree (h : p.Tidy stored) :
    0 ≤ p.nextFree ∧ p.nextFree ∉ p.reserved ∧ ¬ stored p.nextFree := by
  rcases p.nextFree_cases with ⟨-, eq⟩ | ⟨-, mem⟩
  · rw [eq]
    refine ⟨h.next, fun mem => ?_, fun held => ?_⟩
    · have := h.reserved _ mem
      omega
    · have := h.stored _ held
      omega
  · obtain ⟨nonneg, -, open_, spare⟩ := h.free _ mem
    exact ⟨nonneg, spare, open_⟩

@[simp] theorem mem_reserved_allocate :
    k ∈ p.allocate.reserved ↔ p.nextFree = k ∨ k ∈ p.reserved := by
  unfold allocate
  rcases p.nextFree_cases with ⟨none, eq⟩ | ⟨some, -⟩
  · simp [none, eq]
  · simp [some]

theorem mem_free_allocate : k ∈ p.allocate.free ↔ p.nextFree ≠ k ∧ k ∈ p.free := by
  unfold allocate
  rcases p.nextFree_cases with ⟨none, -⟩ | ⟨some, -⟩
  · have vacant := none
    rw [Std.ExtTreeSet.head?_toList, Std.ExtTreeSet.min?_eq_none_iff] at vacant
    simp [vacant]
  · simp [some]

theorem HasRoom.of_allocate (room : p.allocate.HasRoom stored) :
    p.HasRoom stored ∧ p.nextFree ≠ lastPosition := by
  have other : p.nextFree ≠ lastPosition := fun same =>
    room.reserved (mem_reserved_allocate.2 (.inl same))
  exact ⟨⟨fun mem => room.reserved (mem_reserved_allocate.2 (.inr mem)),
    fun mem => room.free (mem_free_allocate.2 ⟨other, mem⟩), room.stored⟩, other⟩

theorem Tidy.allocate (h : p.Tidy stored) (room : p.nextFree ≠ lastPosition) :
    p.allocate.Tidy stored := by
  obtain ⟨nonneg, spare, open_⟩ := h.nextFree
  unfold Positions.allocate
  rcases p.nextFree_cases with ⟨none, eq⟩ | ⟨some, mem⟩
  · rw [none]
    rw [eq] at nonneg spare open_ room
    rw [behind_eq room]
    refine ⟨?_, fun k hk => ?_, fun k hk => ?_, fun k hk => ?_⟩
    · have := h.next
      dsimp only
      omega
    · simp only [Std.ExtTreeSet.mem_insert, Int.compare_eq_eq] at hk
      rcases hk with rfl | hk
      · exact ⟨nonneg, by dsimp only; omega, open_⟩
      · obtain ⟨h₀, h₁, h₂⟩ := h.reserved k hk
        exact ⟨h₀, by dsimp only; omega, h₂⟩
    · obtain ⟨h₀, h₁, h₂, h₃⟩ := h.free k hk
      refine ⟨h₀, by dsimp only; omega, h₂, ?_⟩
      simp only [Std.ExtTreeSet.mem_insert, Int.compare_eq_eq]
      rintro (rfl | hk)
      · omega
      · exact h₃ hk
    · have := h.stored k hk
      dsimp only
      omega
  · rw [some]
    refine ⟨h.next, fun k hk => ?_, fun k hk => ?_, h.stored⟩
    · simp only [Std.ExtTreeSet.mem_insert, Int.compare_eq_eq] at hk
      rcases hk with rfl | hk
      · exact ⟨nonneg, (h.free _ mem).2.1, open_⟩
      · exact h.reserved k hk
    · simp only [Std.ExtTreeSet.mem_erase, Std.ExtTreeSet.mem_insert, ne_eq,
        Int.compare_eq_eq] at hk ⊢
      obtain ⟨h₀, h₁, h₂, h₃⟩ := h.free k hk.2
      exact ⟨h₀, h₁, h₂, not_or.2 ⟨hk.1, h₃⟩⟩

@[simp] theorem mem_reserved_reserve :
    k ∈ (p.reserve n).reserved ↔ n = k ∨ k ∈ p.reserved := by
  simp [reserve]

theorem mem_free_reserve : k ∈ (p.reserve n).free ↔ n ≠ k ∧ k ∈ p.free := by
  simp [reserve]

theorem HasRoom.of_reserve (room : (p.reserve n).HasRoom stored) :
    p.HasRoom stored ∧ n ≠ lastPosition := by
  have other : n ≠ lastPosition := fun same => room.reserved (mem_reserved_reserve.2 (.inl same))
  exact ⟨⟨fun mem => room.reserved (mem_reserved_reserve.2 (.inr mem)),
    fun mem => room.free (mem_free_reserve.2 ⟨other, mem⟩), room.stored⟩, other⟩

theorem HasRoom.reserve (h : p.HasRoom stored) (other : n ≠ lastPosition) :
    (p.reserve n).HasRoom stored :=
  ⟨fun mem => (mem_reserved_reserve.1 mem).elim other h.reserved,
    fun mem => h.free (mem_free_reserve.1 mem).2, h.stored⟩

/-- A place chosen elsewhere may be reserved if no record is stored there. -/
theorem Tidy.reserve (h : p.Tidy stored) (nonneg : 0 ≤ n) (open_ : ¬ stored n)
    (room : n ≠ lastPosition) : (p.reserve n).Tidy stored where
  next := by
    have := h.next
    simp only [Positions.reserve]
    omega
  reserved k hk := by
    simp only [Positions.reserve, behind_eq room, Std.ExtTreeSet.mem_insert,
      Int.compare_eq_eq] at hk ⊢
    rcases hk with rfl | hk
    · exact ⟨nonneg, by omega, open_⟩
    · obtain ⟨h₀, h₁, h₂⟩ := h.reserved k hk
      exact ⟨h₀, by omega, h₂⟩
  free k hk := by
    simp only [Positions.reserve, Std.ExtTreeSet.mem_insert, Std.ExtTreeSet.mem_erase, ne_eq,
      Int.compare_eq_eq] at hk ⊢
    obtain ⟨h₀, h₁, h₂, h₃⟩ := h.free k hk.2
    exact ⟨h₀, by omega, h₂, not_or.2 ⟨hk.1, h₃⟩⟩
  stored k hk := by
    have := h.stored k hk
    simp only [Positions.reserve]
    omega

@[simp] theorem mem_reserved_settle :
    k ∈ (p.settle n).reserved ↔ n ≠ k ∧ k ∈ p.reserved := by
  simp [settle]

theorem HasRoom.of_settle (room : (p.settle n).HasRoom fun k => k = n ∨ stored k) :
    p.HasRoom stored := by
  have other : n ≠ lastPosition := fun same => room.stored (.inl same.symm)
  exact ⟨fun mem => room.reserved (mem_reserved_settle.2 ⟨other, mem⟩), room.free,
    fun held => room.stored (.inr held)⟩

theorem HasRoom.settle (h : p.HasRoom stored) (other : n ≠ lastPosition) :
    (p.settle n).HasRoom fun k => k = n ∨ stored k :=
  ⟨fun mem => h.reserved (mem_reserved_settle.1 mem).2, h.free,
    fun held => held.elim (fun same => other same.symm) h.stored⟩

/-- A record may be stored at a place that is reserved for it, or where one is stored already. -/
theorem Tidy.settle (h : p.Tidy stored) (taken : stored n ∨ n ∈ p.reserved) :
    (p.settle n).Tidy (fun k => k = n ∨ stored k) where
  next := h.next
  reserved k hk := by
    rw [mem_reserved_settle] at hk
    obtain ⟨h₀, h₁, h₂⟩ := h.reserved k hk.2
    refine ⟨h₀, h₁, ?_⟩
    rintro (rfl | held)
    · exact hk.1 rfl
    · exact h₂ held
  free k hk := by
    obtain ⟨h₀, h₁, h₂, h₃⟩ := h.free k hk
    refine ⟨h₀, h₁, ?_, ?_⟩
    · rintro (rfl | held)
      · exact taken.elim h₂ h₃
      · exact h₂ held
    · rw [mem_reserved_settle]
      exact fun mem => h₃ mem.2
  stored k hk := by
    rcases hk with rfl | held
    · rcases taken with held | mem
      · exact h.stored _ held
      · exact (h.reserved _ mem).2.1
    · exact h.stored _ held

/-- A record may be stored anywhere but at the last place, if its place is taken out of all others.
-/
theorem Tidy.insert (h : p.Tidy stored) (room : n ≠ lastPosition) :
    ((p.reserve n).settle n).Tidy (fun k => k = n ∨ stored k) where
  next := by
    have := h.next
    simp only [Positions.reserve, Positions.settle]
    omega
  reserved k hk := by
    rw [mem_reserved_settle, mem_reserved_reserve] at hk
    obtain ⟨h₀, h₁, h₂⟩ := h.reserved k (hk.2.resolve_left hk.1)
    refine ⟨h₀, ?_, ?_⟩
    · simp only [Positions.reserve, Positions.settle, behind_eq room]
      omega
    · rintro (rfl | held)
      · exact hk.1 rfl
      · exact h₂ held
  free k hk := by
    simp only [Positions.reserve, Positions.settle, Std.ExtTreeSet.mem_erase, ne_eq,
      Int.compare_eq_eq] at hk
    obtain ⟨h₀, h₁, h₂, h₃⟩ := h.free k hk.2
    refine ⟨h₀, ?_, ?_, ?_⟩
    · simp only [Positions.reserve, Positions.settle]
      omega
    · rintro (rfl | held)
      · exact hk.1 rfl
      · exact h₂ held
    · rw [mem_reserved_settle, mem_reserved_reserve]
      exact fun mem => h₃ (mem.2.resolve_left mem.1)
  stored k hk := by
    simp only [Positions.reserve, Positions.settle, behind_eq room]
    rcases hk with rfl | held
    · omega
    · have := h.stored k held
      omega

@[simp] theorem mem_reserved_release {held : Bool} :
    k ∈ (p.release held n).reserved ↔ n ≠ k ∧ k ∈ p.reserved := by
  unfold release
  by_cases mem : n ∈ p.reserved
  · cases held <;> simp [mem]
  · simp only [Std.ExtTreeSet.contains_iff_mem, mem, ↓reduceIte]
    constructor
    · rintro hk
      exact ⟨fun eq => mem (eq ▸ hk), hk⟩
    · exact And.right

theorem HasRoom.of_release {held : Bool} (known : held = true → stored n)
    (room : (p.release held n).HasRoom stored) : p.HasRoom stored := by
  have free : ∀ k ∈ p.free, k ∈ (p.release held n).free := by
    intro k mem
    unfold Positions.release
    cases held <;> split <;> simp [Positions.settle, mem]
  refine ⟨fun mem => ?_, fun mem => room.free (free _ mem), room.stored⟩
  by_cases same : n = lastPosition
  · subst same
    unfold Positions.release at room
    rw [if_pos (Std.ExtTreeSet.contains_iff_mem.2 mem)] at room
    cases held with
    | true => exact room.stored (known rfl)
    | false => exact room.free (by simp)
  · exact room.reserved (mem_reserved_release.2 ⟨same, mem⟩)

/-- A reserved place that is given back is free, as no record is stored there. -/
theorem Tidy.release (h : p.Tidy stored) {held : Bool} : (p.release held n).Tidy stored := by
  by_cases mem : n ∈ p.reserved
  · have settled : (p.settle n).Tidy stored := by
      refine ⟨h.next, fun k hk => h.reserved k (mem_reserved_settle.1 hk).2, fun k hk => ?_,
        h.stored⟩
      obtain ⟨h₀, h₁, h₂, h₃⟩ := h.free k hk
      exact ⟨h₀, h₁, h₂, fun mem => h₃ (mem_reserved_settle.1 mem).2⟩
    unfold Positions.release
    simp only [Std.ExtTreeSet.contains_iff_mem, mem, ↓reduceIte]
    cases held with
    | true => exact settled
    | false =>
      refine ⟨settled.next, settled.reserved, fun k hk => ?_, settled.stored⟩
      simp only [Bool.false_eq_true, ↓reduceIte, Std.ExtTreeSet.mem_insert,
        Int.compare_eq_eq] at hk ⊢
      rcases hk with rfl | hk
      · obtain ⟨h₀, h₁, h₂⟩ := h.reserved _ mem
        exact ⟨h₀, h₁, h₂, by simp⟩
      · exact settled.free k hk
  · unfold Positions.release
    simp only [Std.ExtTreeSet.contains_iff_mem, mem, ↓reduceIte]
    exact h

end Positions

theorem RecordId.isTemporary_eq_false {id : RecordId} :
    id.isTemporary = false ↔ 0 ≤ id.position := by
  simp [isTemporary]

namespace Store

variable {s : Store} {id other : RecordId} {cluster : Int}

theorem placesOf_setPlaces (p : Positions) (k : Int) :
    (s.setPlaces cluster p).placesOf k = if k = cluster then p else s.placesOf k := by
  simp only [placesOf, setPlaces, Std.ExtTreeMap.getD_insert, Int.compare_eq_eq]
  grind

theorem isReserved_iff : s.isReserved id = true ↔ id.position ∈ (s.placesOf id.cluster).reserved :=
  Std.ExtTreeSet.contains_iff_mem

theorem isTaken_iff :
    s.isTaken id = true ↔ s.isStored id = true ∨ s.isReserved id = true := by
  simp [isTaken]

theorem isReserved_setPlaces (p : Positions) :
    (s.setPlaces cluster p).isReserved id = true ↔
      if id.cluster = cluster then id.position ∈ p.reserved else s.isReserved id = true := by
  rw [isReserved_iff, placesOf_setPlaces]
  split
  · rfl
  · exact isReserved_iff.symm

/-- What one operation on a cluster's places does to the reserved ids. -/
theorem isReserved_allocate :
    (s.allocate cluster).2.isReserved id = true ↔
      s.nextFree cluster = id ∨ s.isReserved id = true := by
  rw [allocate, isReserved_setPlaces]
  cases id
  simp only [nextFree, RecordId.mk.injEq, Positions.mem_reserved_allocate, isReserved_iff]
  grind

theorem isReserved_reserve :
    (s.reserve id).isReserved other = true ↔ id = other ∨ s.isReserved other = true := by
  rw [reserve, isReserved_setPlaces]
  cases id
  cases other
  simp only [RecordId.mk.injEq, Positions.mem_reserved_reserve, isReserved_iff]
  grind

theorem isReserved_settle :
    (s.settle id).isReserved other = true ↔ id ≠ other ∧ s.isReserved other = true := by
  rw [settle, isReserved_setPlaces]
  cases id
  cases other
  simp only [RecordId.mk.injEq, Positions.mem_reserved_settle, isReserved_iff, ne_eq]
  grind

theorem isReserved_release :
    (s.release id).isReserved other = true ↔ id ≠ other ∧ s.isReserved other = true := by
  rw [release, isReserved_setPlaces]
  cases id
  cases other
  simp only [RecordId.mk.injEq, Positions.mem_reserved_release, isReserved_iff, ne_eq]
  grind

theorem isReserved_releaseAll (ids : List RecordId) :
    (s.releaseAll ids).isReserved other = true ↔ other ∉ ids ∧ s.isReserved other = true := by
  induction ids generalizing s with
  | nil => simp [releaseAll]
  | cons id rest ih =>
    have step := ih (s := s.release id)
    rw [isReserved_release] at step
    refine step.trans ?_
    rw [List.mem_cons]
    grind

@[simp] theorem isStored_putRecord (r : StoredRecord) :
    (s.putRecord id r).isStored other = true ↔ id = other ∨ s.isStored other = true := by
  simp [isStored, putRecord]

@[simp] theorem isReserved_putRecord (r : StoredRecord) :
    (s.putRecord id r).isReserved other = s.isReserved other := rfl

/-- No cluster has used its last place. -/
def HasRoom (s : Store) : Prop :=
  ∀ cluster, (s.placesOf cluster).HasRoom fun n => s.isStored ⟨cluster, n⟩ = true

/-- The places of every cluster are in order, as long as none has used its last one. -/
def Tidy (s : Store) : Prop :=
  s.HasRoom → ∀ cluster, (s.placesOf cluster).Tidy fun n => s.isStored ⟨cluster, n⟩ = true

/-- A reserved place is not stored. -/
theorem Tidy.not_isStored (h : s.Tidy) (room : s.HasRoom) (held : s.isReserved id = true) :
    s.isStored id ≠ true :=
  ((h room id.cluster).reserved id.position (isReserved_iff.1 held)).2.2

theorem placesOf_empty (limit : Option Nat) : (empty limit).placesOf cluster = Positions.empty := by
  simp [placesOf, Store.empty]

theorem Tidy.empty (limit : Option Nat) : (empty limit).Tidy := by
  intro _ cluster
  rw [placesOf_empty]
  exact .empty (by simp [isStored, Store.empty])

/-- It takes a look at the clusters with places and at the records to see that there is room. -/
theorem hasRoom_iff : s.HasRoom ↔
    (∀ p ∈ s.places.toList, RecordId.lastPosition ∉ p.2.reserved ∧
      RecordId.lastPosition ∉ p.2.free) ∧
      ∀ r ∈ s.records.toList, r.1.position ≠ RecordId.lastPosition := by
  have stored (id : RecordId) : s.isStored id = true ↔ ∃ r, (id, r) ∈ s.records.toList := by
    simp only [isStored, Std.ExtTreeMap.contains_iff_mem, Std.ExtTreeMap.mem_iff_isSome_getElem?,
      Option.isSome_iff_exists, Std.ExtTreeMap.mem_toList_iff_getElem?_eq_some]
  constructor
  · refine fun room => ⟨fun ⟨cluster, p⟩ mem => ?_, fun ⟨id, r⟩ mem same => ?_⟩
    · have own : s.placesOf cluster = p := by
        rw [Std.ExtTreeMap.mem_toList_iff_getElem?_eq_some] at mem
        rw [placesOf, Std.ExtTreeMap.getD_eq_getD_getElem?, mem]
        rfl
      exact own ▸ ⟨(room cluster).reserved, (room cluster).free⟩
    · refine (room id.cluster).stored ((stored _).2 ⟨r, ?_⟩)
      exact same ▸ mem
  · rintro ⟨places, records⟩ cluster
    have last : ¬ s.isStored ⟨cluster, RecordId.lastPosition⟩ = true := fun held => by
      obtain ⟨r, mem⟩ := (stored _).1 held
      exact records _ mem rfl
    rw [placesOf, Std.ExtTreeMap.getD_eq_getD_getElem?]
    cases known : s.places[cluster]? with
    | none => exact ⟨by simp [Positions.empty], by simp [Positions.empty], last⟩
    | some p =>
      have own := places _ (Std.ExtTreeMap.mem_toList_iff_getElem?_eq_some.2 known)
      exact ⟨own.1, own.2, last⟩

instance : Decidable s.HasRoom := decidable_of_iff _ hasRoom_iff.symm

/-- Room is a matter of places and records alone. -/
theorem HasRoom.congr {s' : Store} (room : s'.HasRoom) (places : s'.places = s.places)
    (records : ∀ id, s'.isStored id = s.isStored id) : s.HasRoom := by
  intro cluster
  have same : s'.placesOf cluster = s.placesOf cluster := by simp only [placesOf, places]
  have room := room cluster
  simp only [same, records] at room
  exact room

/-- And so is order. -/
theorem Tidy.congr {s' : Store} (h : s.Tidy) (places : s'.places = s.places)
    (records : ∀ id, s'.isStored id = s.isStored id) : s'.Tidy := by
  intro room cluster
  have same : s'.placesOf cluster = s.placesOf cluster := by simp only [placesOf, places]
  simp only [same, records]
  exact h (room.congr places records) cluster

theorem HasRoom.own {p : Positions} (room : (s.setPlaces cluster p).HasRoom) :
    p.HasRoom fun n => s.isStored ⟨cluster, n⟩ = true := by
  have room := room cluster
  rw [placesOf_setPlaces, if_pos rfl] at room
  exact room

theorem HasRoom.of_setPlaces {p : Positions} (room : (s.setPlaces cluster p).HasRoom)
    (back : (s.placesOf cluster).HasRoom fun n => s.isStored ⟨cluster, n⟩ = true) : s.HasRoom := by
  intro k
  have there := room k
  rw [placesOf_setPlaces] at there
  split at there
  · next eq =>
    subst eq
    exact back
  · exact there

theorem HasRoom.setPlaces (h : s.HasRoom) {p : Positions}
    (own : p.HasRoom fun n => s.isStored ⟨cluster, n⟩ = true) :
    (s.setPlaces cluster p).HasRoom := by
  intro k
  rw [placesOf_setPlaces]
  split
  · next eq =>
    subst eq
    exact own
  · exact h k

theorem HasRoom.reserve (h : s.HasRoom) (other : id.position ≠ RecordId.lastPosition) :
    (s.reserve id).HasRoom :=
  h.setPlaces ((h id.cluster).reserve other)

theorem HasRoom.of_allocate (room : (s.allocate cluster).2.HasRoom) : s.HasRoom :=
  room.of_setPlaces room.own.of_allocate.1

theorem HasRoom.of_reserve (room : (s.reserve id).HasRoom) : s.HasRoom :=
  room.of_setPlaces room.own.of_reserve.1

theorem HasRoom.of_release (room : (s.release id).HasRoom) : s.HasRoom :=
  room.of_setPlaces (room.own.of_release fun held => held)

theorem HasRoom.of_releaseAll {ids : List RecordId} (room : (s.releaseAll ids).HasRoom) :
    s.HasRoom := by
  induction ids generalizing s with
  | nil => exact room
  | cons id rest ih => exact (ih (s := s.release id) room).of_release

theorem Tidy.setPlaces (h : s.Tidy) (before : s.HasRoom) {p : Positions}
    (own : p.Tidy fun n => s.isStored ⟨cluster, n⟩ = true) : (s.setPlaces cluster p).Tidy := by
  intro _ k
  rw [placesOf_setPlaces]
  split
  · next eq =>
    subst eq
    exact own
  · exact h before k

theorem Tidy.allocate (h : s.Tidy) : (s.allocate cluster).2.Tidy := fun room =>
  h.setPlaces room.of_allocate
    ((h room.of_allocate cluster).allocate room.own.of_allocate.2) room

/-- The next free place is not temporary, and nobody's. -/
theorem Tidy.nextFree (h : s.Tidy) (room : s.HasRoom) :
    (s.nextFree cluster).isTemporary = false ∧ s.isTaken (s.nextFree cluster) = false := by
  obtain ⟨nonneg, spare, open_⟩ := (h room cluster).nextFree
  constructor
  · rw [RecordId.isTemporary_eq_false]
    exact nonneg
  · rw [← Bool.not_eq_true, isTaken_iff, isReserved_iff]
    exact not_or.2 ⟨open_, spare⟩

theorem Tidy.reserve (h : s.Tidy) (chosen : id.isTemporary = false)
    (open_ : s.isStored id = false) : (s.reserve id).Tidy := by
  intro room
  refine h.setPlaces room.of_reserve
    ((h room.of_reserve id.cluster).reserve ?_ ?_ room.own.of_reserve.2) room
  · exact RecordId.isTemporary_eq_false.1 chosen
  · simpa using open_

theorem Tidy.release (h : s.Tidy) : (s.release id).Tidy := fun room =>
  h.setPlaces room.of_release (h room.of_release id.cluster).release room

theorem Tidy.releaseAll (h : s.Tidy) (ids : List RecordId) : (s.releaseAll ids).Tidy := by
  induction ids generalizing s with
  | nil => exact h
  | cons id rest ih => exact ih h.release

/-- What is known of a cluster once a record is stored in it. -/
theorem isStored_put (p : Positions) (r : StoredRecord) (n : Int) :
    ((s.setPlaces id.cluster p).putRecord id r).isStored ⟨id.cluster, n⟩ = true ↔
      n = id.position ∨ s.isStored ⟨id.cluster, n⟩ = true := by
  refine (isStored_putRecord (s := s.setPlaces id.cluster p) r).trans (or_congr_left ?_)
  cases id
  simp [eq_comm]

/-- Nothing is known of the others that was not known before. -/
theorem isStored_put_other (p : Positions) (r : StoredRecord) {k : Int} (other : k ≠ id.cluster)
    (n : Int) : ((s.setPlaces id.cluster p).putRecord id r).isStored ⟨k, n⟩ = true ↔
      s.isStored ⟨k, n⟩ = true := by
  refine (isStored_putRecord (s := s.setPlaces id.cluster p) r).trans (or_iff_right ?_)
  rintro rfl
  exact other rfl

theorem HasRoom.own_put {p : Positions} {r : StoredRecord}
    (room : ((s.setPlaces id.cluster p).putRecord id r).HasRoom) :
    p.HasRoom fun n => n = id.position ∨ s.isStored ⟨id.cluster, n⟩ = true := by
  have there := room id.cluster
  have places : ((s.setPlaces id.cluster p).putRecord id r).placesOf id.cluster = p :=
    (placesOf_setPlaces p id.cluster).trans (if_pos rfl)
  rw [places] at there
  exact there.congr fun n => (isStored_put p r n).symm

theorem HasRoom.of_put {p : Positions} {r : StoredRecord}
    (room : ((s.setPlaces id.cluster p).putRecord id r).HasRoom)
    (back : (s.placesOf id.cluster).HasRoom fun n => s.isStored ⟨id.cluster, n⟩ = true) :
    s.HasRoom := by
  intro k
  by_cases own : k = id.cluster
  · subst own
    exact back
  · have there := room k
    have places : ((s.setPlaces id.cluster p).putRecord id r).placesOf k = s.placesOf k :=
      (placesOf_setPlaces p k).trans (if_neg own)
    rw [places] at there
    exact there.congr fun n => (isStored_put_other p r own n).symm

/-- A record is stored at a place whose cluster is left in order. -/
theorem Tidy.put {p : Positions}
    (others : ∀ k, k ≠ id.cluster → (s.placesOf k).Tidy fun n => s.isStored ⟨k, n⟩ = true)
    (own : p.Tidy fun n => n = id.position ∨ s.isStored ⟨id.cluster, n⟩ = true)
    (r : StoredRecord) : ((s.setPlaces id.cluster p).putRecord id r).Tidy := by
  intro _ k
  have places : ((s.setPlaces id.cluster p).putRecord id r).placesOf k =
      if k = id.cluster then p else s.placesOf k := placesOf_setPlaces p k
  rw [places]
  split
  · next eq =>
    subst eq
    exact own.congr (isStored_put p r)
  · next other => exact (others k other).congr (isStored_put_other p r other)

theorem HasRoom.of_store {r : StoredRecord} (room : ((s.settle id).putRecord id r).HasRoom) :
    s.HasRoom :=
  room.of_put room.own_put.of_settle

/-- A record may be stored anywhere but at the last place. -/
theorem HasRoom.store (h : s.HasRoom) (other : id.position ≠ RecordId.lastPosition)
    (r : StoredRecord) : ((s.settle id).putRecord id r).HasRoom := by
  intro k
  have places : ((s.settle id).putRecord id r).placesOf k =
      if k = id.cluster then (s.placesOf id.cluster).settle id.position else s.placesOf k :=
    placesOf_setPlaces _ k
  rw [places]
  split
  · next own =>
    subst own
    exact ((h id.cluster).settle other).congr (isStored_put _ r)
  · next own => exact (h k).congr (isStored_put_other _ r own)

/-- A reserved place is taken by its record, and a stored record may be written again. -/
theorem Tidy.store (h : s.Tidy) (taken : s.HasRoom → s.isTaken id = true) (r : StoredRecord) :
    ((s.settle id).putRecord id r).Tidy := by
  intro room
  have before := room.of_store
  have taken : s.isStored ⟨id.cluster, id.position⟩ = true ∨
      id.position ∈ (s.placesOf id.cluster).reserved := by
    simpa [isTaken_iff, isReserved_iff] using taken before
  exact Tidy.put (fun k _ => h before k) ((h before id.cluster).settle taken) r room

theorem HasRoom.of_insertRecord {version : Nat} {content : List UInt8}
    (room : (s.insertRecord id version content).HasRoom) : s.HasRoom :=
  room.of_store.of_reserve

/-- A record may be stored anywhere outside of a transaction. -/
theorem Tidy.insertRecord (h : s.Tidy) (id : RecordId) (version : Nat) (content : List UInt8) :
    (s.insertRecord id version content).Tidy := by
  intro room
  have before := room.of_insertRecord
  have other : id.position ≠ RecordId.lastPosition := room.of_store.own.of_reserve.2
  have own : (s.reserve id).placesOf id.cluster =
      (s.placesOf id.cluster).reserve id.position := by
    rw [Store.reserve, placesOf_setPlaces, if_pos rfl]
  refine Tidy.put (s := s.reserve id) (fun k other => ?_) ?_ ⟨version, content, false⟩ room
  · rw [Store.reserve, placesOf_setPlaces, if_neg other]
    exact h before k
  · rw [own]
    exact (h before id.cluster).insert other

end Store

end QuorumCommit
