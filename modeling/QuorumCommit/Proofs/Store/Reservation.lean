import QuorumCommit.Proofs.ChangeSet
import QuorumCommit.Proofs.Store.Content

/-!
Reservation of places. While places are reserved one after the other, the store is always what it
was with some untaken places reserved on top, and giving these back restores it. That the places
were untaken is known as long as no cluster has come to its last place.
-/
namespace QuorumCommit.Store

variable {s₀ s s' : Store} {ids : List RecordId} {id : RecordId} {t : ChangeSet}

/-- The store `s` is `s₀` with the places `ids` reserved besides. -/
structure Reserves (s₀ : Store) (ids : List RecordId) (s : Store) : Prop where
  content : s.content = s₀.content
  failing : s.failing = s₀.failing
  tidy : s.Tidy
  room : s.HasRoom → s₀.HasRoom
  reserved : s.HasRoom → ∀ id, s.isReserved id = true ↔ s₀.isReserved id = true ∨ id ∈ ids
  distinct : s.HasRoom → ids.Nodup
  untaken : s.HasRoom → ∀ id ∈ ids, s₀.isTaken id = false
  final : s.HasRoom → ∀ id ∈ ids, id.isTemporary = false

/-- As long as there is room in `s'`, it has the places reserved that `s` has. -/
structure KeepsPlaces (s s' : Store) : Prop where
  room : s'.HasRoom → s.HasRoom
  reserved : s'.HasRoom → ∀ id, s'.isReserved id = s.isReserved id

theorem KeepsPlaces.trans (h : s₀.KeepsPlaces s) (h' : s.KeepsPlaces s') : s₀.KeepsPlaces s' where
  room after := h.room (h'.room after)
  reserved after id := (h'.reserved after id).trans (h.reserved (h'.room after) id)

/-- What changes neither places nor records keeps the places. -/
theorem KeepsPlaces.of_frame (places : s'.places = s.places)
    (records : ∀ id, s'.isStored id = s.isStored id) : s.KeepsPlaces s' where
  room after := after.congr places records
  reserved _ := isReserved_of_places places

namespace Reserves

theorem nothing (tidy : s₀.Tidy) : s₀.Reserves [] s₀ where
  content := rfl
  failing := rfl
  tidy := tidy
  room := id
  reserved _ id := by simp
  distinct _ := .nil
  untaken _ id h := by simp at h
  final _ id h := by simp at h

theorem isStored (h : s₀.Reserves ids s) (id : RecordId) : s.isStored id = s₀.isStored id :=
  isStored_of_content h.content id

theorem isTaken (h : s₀.Reserves ids s) (room : s.HasRoom) (id : RecordId) :
    s.isTaken id = true ↔ s₀.isTaken id = true ∨ id ∈ ids := by
  rw [isTaken_iff, isTaken_iff, h.isStored, h.reserved room, or_assoc]

/-- With nothing reserved besides, the same places are taken. -/
theorem isTaken_eq (h : s₀.Reserves [] s) (room : s.HasRoom) (id : RecordId) :
    s.isTaken id = s₀.isTaken id := by
  rw [Bool.eq_iff_iff, h.isTaken room]
  simp

theorem keepsPlaces (h : s₀.Reserves [] s) : s₀.KeepsPlaces s where
  room := h.room
  reserved room id := by
    rw [Bool.eq_iff_iff, h.reserved room]
    simp

theorem not_isTaken (h : s₀.Reserves ids s) (room : s.HasRoom) (open_ : s.isTaken id = false) :
    s₀.isTaken id = false ∧ id ∉ ids := by
  rw [← Bool.not_eq_true, h.isTaken room, not_or, Bool.not_eq_true] at open_
  exact open_

/-- One more place, whichever operation reserves it. -/
theorem push (h : s₀.Reserves ids s) {place : RecordId}
    (open_ : s.HasRoom → s.isTaken place = false) (final : s.HasRoom → place.isTemporary = false)
    (content : s'.content = s.content) (failing : s'.failing = s.failing) (tidy : s'.Tidy)
    (room : s'.HasRoom → s.HasRoom)
    (reserved : ∀ id, s'.isReserved id = true ↔ place = id ∨ s.isReserved id = true) :
    s₀.Reserves (ids ++ [place]) s' where
  content := content.trans h.content
  failing := failing.trans h.failing
  tidy := tidy
  room after := h.room (room after)
  reserved after id := by
    rw [reserved, h.reserved (room after), List.mem_append, List.mem_singleton, or_comm, or_assoc,
      @eq_comm _ id]
  distinct after := by
    have before := room after
    refine List.nodup_append.2 ⟨h.distinct before, List.pairwise_singleton _ place, ?_⟩
    intro id mem other same eq
    rw [List.mem_singleton] at same
    exact (h.not_isTaken before (open_ before)).2 (same ▸ eq ▸ mem)
  untaken after id mem := by
    have before := room after
    rw [List.mem_append, List.mem_singleton] at mem
    rcases mem with mem | rfl
    · exact h.untaken before id mem
    · exact (h.not_isTaken before (open_ before)).1
  final after id mem := by
    rw [List.mem_append, List.mem_singleton] at mem
    rcases mem with mem | rfl
    · exact h.final (room after) id mem
    · exact final (room after)

theorem allocate (h : s₀.Reserves ids s) (cluster : Int) :
    s₀.Reserves (ids ++ [s.nextFree cluster]) (s.allocate cluster).2 :=
  h.push (fun room => (h.tidy.nextFree room).2) (fun room => (h.tidy.nextFree room).1) rfl rfl
    h.tidy.allocate HasRoom.of_allocate fun _ => isReserved_allocate

theorem reserve (h : s₀.Reserves ids s) (final : id.isTemporary = false)
    (open_ : s.isTaken id = false) : s₀.Reserves (ids ++ [id]) (s.reserve id) := by
  have unstored : s.isStored id = false := by
    rw [← Bool.not_eq_true] at open_ ⊢
    rw [isTaken_iff, not_or] at open_
    exact open_.1
  exact h.push (fun _ => open_) (fun _ => final) rfl rfl (h.tidy.reserve final unstored)
    HasRoom.of_reserve fun _ => isReserved_reserve

/-- Places reserved on top of others. -/
theorem trans {more : List RecordId} (h : s₀.Reserves ids s) (h' : s.Reserves more s') :
    s₀.Reserves (ids ++ more) s' where
  content := h'.content.trans h.content
  failing := h'.failing.trans h.failing
  tidy := h'.tidy
  room after := h.room (h'.room after)
  reserved after id := by
    rw [h'.reserved after, h.reserved (h'.room after), List.mem_append, or_assoc]
  distinct after := by
    refine List.nodup_append.2 ⟨h.distinct (h'.room after), h'.distinct after, ?_⟩
    rintro id mem _ mem' rfl
    exact (h.not_isTaken (h'.room after) (h'.untaken after id mem')).2 mem
  untaken after id mem := by
    rw [List.mem_append] at mem
    rcases mem with mem | mem
    · exact h.untaken (h'.room after) id mem
    · exact (h.not_isTaken (h'.room after) (h'.untaken after id mem)).1
  final after id mem := by
    rw [List.mem_append] at mem
    exact mem.elim (h.final (h'.room after) id) (h'.final after id)

/-- Giving all places back leaves what was reserved before. -/
theorem releaseAll (h : s₀.Reserves ids s) : s₀.Reserves [] (s.releaseAll ids) where
  content := by
    rw [content_releaseAll]
    exact h.content
  failing := by
    rw [failing_releaseAll]
    exact h.failing
  tidy := h.tidy.releaseAll ids
  room after := h.room after.of_releaseAll
  reserved after id := by
    have before := after.of_releaseAll
    rw [isReserved_releaseAll, h.reserved before]
    constructor
    · rintro ⟨other, held | mem⟩
      · exact .inl held
      · exact absurd mem other
    · rintro (held | mem)
      · refine ⟨fun mem => ?_, .inl held⟩
        have := h.untaken before id mem
        rw [← Bool.not_eq_true, isTaken_iff, not_or] at this
        exact this.2 held
      · simp at mem
  distinct _ := .nil
  untaken _ id mem := by simp at mem
  final _ id mem := by simp at mem

/-- Using all places up leaves what was reserved before. -/
theorem isReserved_settled {s' : Store} {ok : Prop} (h : s₀.Reserves ids s) (room : s.HasRoom)
    (settles : Settles s s' ids ok) (done : ok) (id : RecordId) :
    s'.isReserved id = s₀.isReserved id := by
  rw [Bool.eq_iff_iff]
  constructor
  · intro held
    rcases (h.reserved room id).1 (settles.reserved id held) with base | mine
    · exact base
    · rw [settles.used done id mine] at held
      cases held
  · intro base
    refine settles.others id (fun mine => ?_) ((h.reserved room id).2 (.inl base))
    have untaken := h.untaken room id mine
    rw [← Bool.not_eq_true, isTaken_iff] at untaken
    exact untaken (.inr base)

end Reserves

theorem HasRoom.of_reserveFrom {r : Reservation} (room : (reserveFrom r ids s).2.HasRoom) :
    s.HasRoom := by
  induction ids generalizing r s with
  | nil => exact room
  | cons id rest ih =>
    unfold reserveFrom at room
    split at room
    · exact (ih room).of_allocate
    · split at room
      · exact room.of_releaseAll
      · exact (ih room).of_reserve

theorem HasRoom.of_preallocate (room : (s.preallocate t).2.HasRoom) : s.HasRoom := by
  have back : (reserveFrom ⟨[], []⟩ t.createdRecords s).2.HasRoom → s.HasRoom := of_reserveFrom
  unfold preallocate at room
  rcases eq : reserveFrom ⟨[], []⟩ t.createdRecords s with ⟨fault | r, s'⟩ <;>
    rw [eq] at room back
  · exact back room
  · exact back room

/-- How the ids asked for and the places granted for them belong together: a temporary id gets a
place of its own and is renamed to it, any other id is the place that it names. -/
structure Grants (asked granted : List RecordId) (renames : List (RecordId × RecordId)) :
    Prop where
  length : granted.length = asked.length
  renames : renames = (asked.zip granted).filter (·.1.isTemporary)
  kept : ∀ p ∈ asked.zip granted, p.1.isTemporary = false → p.2 = p.1

theorem Grants.snoc {asked granted : List RecordId} {renames : List (RecordId × RecordId)}
    (h : Grants asked granted renames) (id place : RecordId)
    (kept : id.isTemporary = false → place = id) :
    Grants (asked ++ [id]) (granted ++ [place])
      (if id.isTemporary then renames ++ [(id, place)] else renames) where
  length := by simp [h.length]
  renames := by
    rw [List.zip_append h.length.symm, List.filter_append, ← h.renames]
    cases temporary : id.isTemporary with
    | true => simp [temporary]
    | false => simp [temporary]
  kept p mem := by
    rw [List.zip_append h.length.symm, List.mem_append] at mem
    rcases mem with mem | mem
    · exact h.kept p mem
    · simp only [List.zip_cons_cons, List.zip_nil_right, List.mem_singleton] at mem
      subst mem
      exact kept

/-- Reserving for a list of ids either grants a place to each or changes nothing. -/
theorem reserveFrom_spec {r : Reservation} {asked : List RecordId}
    (h : s₀.Reserves r.reserved s) (grants : Grants asked r.reserved r.renames) :
    match reserveFrom r ids s with
    | (.ok r', s') =>
      s₀.Reserves r'.reserved s' ∧ Grants (asked ++ ids) r'.reserved r'.renames
    | (.error _, s') => s₀.Reserves [] s' := by
  induction ids generalizing r s asked with
  | nil =>
    rw [List.append_nil]
    exact ⟨h, grants⟩
  | cons id rest ih =>
    unfold reserveFrom
    cases temporary : id.isTemporary with
    | true =>
      have grants := grants.snoc id (s.nextFree id.cluster) (by simp [temporary])
      rw [if_pos temporary] at grants
      have later := ih (r := ⟨_, _⟩) (h.allocate id.cluster) grants
      rw [List.append_assoc] at later
      exact later
    | false =>
      cases open_ : s.isTaken id with
      | true => exact h.releaseAll
      | false =>
        have grants := grants.snoc id id fun _ => rfl
        rw [temporary] at grants
        have later := ih (r := { r with reserved := r.reserved ++ [id] })
          (h.reserve temporary open_) grants
        rw [List.append_assoc] at later
        exact later

theorem reserve_all_spec (tidy : s.Tidy) (asked : List RecordId) :
    match reserveFrom ⟨[], []⟩ asked s with
    | (.ok r, s') => s.Reserves r.reserved s' ∧ Grants asked r.reserved r.renames
    | (.error _, s') => s.Reserves [] s' := by
  have none : Grants [] [] [] := ⟨rfl, rfl, by simp⟩
  exact reserveFrom_spec (r := ⟨[], []⟩) (Reserves.nothing tidy) none

namespace Grants

variable {asked granted : List RecordId} {renames : List (RecordId × RecordId)}

theorem mem_renames (h : Grants asked granted renames) {p : RecordId × RecordId} :
    p ∈ renames ↔ p ∈ asked.zip granted ∧ p.1.isTemporary = true := by
  rw [h.renames, List.mem_filter]

theorem isTemporary_of_renamed (h : Grants asked granted renames)
    (renamed : id ∈ renames.map (·.1)) : id.isTemporary = true := by
  obtain ⟨p, mem, rfl⟩ := List.mem_map.1 renamed
  exact (h.mem_renames.1 mem).2

theorem granted_of_renamed (h : Grants asked granted renames) (place : id ∈ renames.map (·.2)) :
    id ∈ granted := by
  obtain ⟨p, mem, rfl⟩ := List.mem_map.1 place
  exact (List.of_mem_zip (a := p.1) (b := p.2) (h.mem_renames.1 mem).1).2

theorem exists_partner (h : Grants asked granted renames) (asks : id ∈ asked) :
    ∃ place, (id, place) ∈ asked.zip granted := by
  obtain ⟨n, bound, rfl⟩ := List.mem_iff_getElem.1 asks
  have bound' : n < granted.length := by
    rw [h.length]
    exact bound
  refine ⟨granted[n], List.mem_iff_getElem.2 ⟨n, ?_, List.getElem_zip⟩⟩
  rw [List.length_zip]
  omega

/-- An id that names its place is not renamed. -/
theorem replaceAll_kept (h : Grants asked granted renames) (chosen : id.isTemporary = false) :
    RecordId.replaceAll renames id = id := by
  refine RecordId.replaceAll_of_notMem fun renamed => ?_
  rw [h.isTemporary_of_renamed renamed] at chosen
  cases chosen

theorem renamed_of_isTemporary (h : Grants asked granted renames) (asks : id ∈ asked)
    (temporary : id.isTemporary = true) : id ∈ renames.map (·.1) := by
  obtain ⟨place, partner⟩ := h.exists_partner asks
  exact List.mem_map.2 ⟨(id, place), h.mem_renames.2 ⟨partner, temporary⟩, rfl⟩

theorem partner_of_kept (h : Grants asked granted renames) (asks : id ∈ asked)
    (chosen : id.isTemporary = false) : (id, id) ∈ asked.zip granted := by
  obtain ⟨place, partner⟩ := h.exists_partner asks
  have same : place = id := h.kept _ partner chosen
  rwa [same] at partner

/-- Every id asked for becomes a place that was granted, even where that place is an id that is
renamed once more. -/
theorem replaceAll_granted (h : Grants asked granted renames) (asks : id ∈ asked) :
    RecordId.replaceAll renames id ∈ granted := by
  cases temporary : id.isTemporary with
  | true =>
    have renamed := RecordId.replaceAll_mem_map (h.renamed_of_isTemporary asks temporary)
    exact h.granted_of_renamed renamed
  | false =>
    rw [h.replaceAll_kept temporary]
    exact (List.of_mem_zip (h.partner_of_kept asks temporary)).2

/-- Every id asked for is renamed to a place granted for it. -/
theorem replaceAll_mem (h : Grants asked granted renames)
    (final : ∀ id ∈ granted, id.isTemporary = false) (asks : id ∈ asked) :
    (id, RecordId.replaceAll renames id) ∈ asked.zip granted := by
  cases temporary : id.isTemporary with
  | true =>
    have apart (p : RecordId × RecordId) (mem : p ∈ renames) : p.2 ∉ renames.map (·.1) := by
      intro key
      have renamed := h.isTemporary_of_renamed key
      rw [final _ (h.granted_of_renamed (List.mem_map_of_mem mem))] at renamed
      cases renamed
    have known := h.renamed_of_isTemporary asks temporary
    exact (h.mem_renames.1 (RecordId.replaceAll_mem apart known)).1
  | false =>
    rw [h.replaceAll_kept temporary]
    exact h.partner_of_kept asks temporary

/-- If the ids asked for are distinct, each is renamed to the place granted for it. -/
theorem map_replaceAll (h : Grants asked granted renames)
    (final : ∀ id ∈ granted, id.isTemporary = false) (distinct : asked.Nodup) :
    asked.map (RecordId.replaceAll renames) = granted := by
  refine List.ext_getElem (by rw [List.length_map, h.length]) fun n bound bound' => ?_
  rw [List.getElem_map]
  rw [List.length_map] at bound
  have mem := h.replaceAll_mem final (List.getElem_mem bound)
  obtain ⟨k, hk, eq⟩ := List.mem_iff_getElem.1 mem
  rw [List.getElem_zip, Prod.mk.injEq] at eq
  have place : k = n := (List.getElem_inj distinct).1 eq.1
  subst place
  exact eq.2.symm

/-- Ids that are not temporary are granted as they are. -/
theorem granted_eq (h : Grants asked granted renames)
    (final : ∀ id ∈ asked, id.isTemporary = false) : granted = asked := by
  refine List.ext_getElem h.length fun n bound bound' => ?_
  refine h.kept (asked[n], granted[n]) (List.mem_iff_getElem.2 ⟨n, ?_, List.getElem_zip⟩)
    (final _ (List.getElem_mem bound'))
  rw [List.length_zip]
  omega

end Grants

/-- What a change set looks like once the places of its records are reserved. -/
structure Placed (t : ChangeSet) (reserved : List RecordId) (t' : ChangeSet) : Prop where
  created : ∀ id ∈ t'.createdRecords, id ∈ reserved
  final : (∀ id ∈ reserved, id.isTemporary = false) → t'.hasTemporary = false
  distinct : (∀ id ∈ reserved, id.isTemporary = false) → t.createdRecords.Nodup →
    t'.createdRecords = reserved
  apart : t'.createdRecords.Nodup → t.createdRecords.Nodup
  clusters : t'.clusters = t.clusters
  kept : t.hasTemporary = false → t' = t

theorem Grants.placed {places : List RecordId} {renames : List (RecordId × RecordId)}
    (grants : Grants t.createdRecords places renames) : Placed t places (t.renameAll renames) := by
  have created := t.createdRecords_renameAll renames
  have mem (id : RecordId) (h : id ∈ (t.renameAll renames).createdRecords) : id ∈ places := by
    rw [created, List.mem_map] at h
    obtain ⟨old, asks, rfl⟩ := h
    exact grants.replaceAll_granted asks
  refine ⟨mem, fun final => ?_, fun final distinct => ?_, fun apart => ?_,
    t.clusters_renameAll renames, fun asked => ?_⟩
  · exact ChangeSet.hasTemporary_eq_false.2 fun id h => final id (mem id h)
  · exact created.trans (grants.map_replaceAll final distinct)
  · rw [created] at apart
    exact List.Pairwise.of_map _ (fun _ _ ne same => ne (congrArg _ same)) apart
  · have none : renames = [] := List.eq_nil_iff_forall_not_mem.2 fun p mem => by
      obtain ⟨asks, temporary⟩ := grants.mem_renames.1 mem
      have := ChangeSet.hasTemporary_eq_false.1 asked p.1 (List.of_mem_zip (b := p.2) asks).1
      rw [this] at temporary
      cases temporary
    rw [none]
    rfl

/-- Preallocation grants a place to every created record or changes nothing. -/
theorem preallocate_grants (tidy : s.Tidy) (t : ChangeSet) :
    match s.preallocate t with
    | (.ok (places, t'), s') => s.Reserves places s' ∧
        ∃ renames, Grants t.createdRecords places renames ∧ t' = t.renameAll renames
    | (.error _, s') => s.Reserves [] s' := by
  have spec := reserve_all_spec tidy t.createdRecords
  unfold preallocate
  rcases h : reserveFrom ⟨[], []⟩ t.createdRecords s with ⟨fault | r, s'⟩
  · rw [h] at spec
    exact spec
  · rw [h] at spec
    exact ⟨spec.1, r.renames, spec.2, rfl⟩

theorem preallocate_spec (tidy : s.Tidy) (t : ChangeSet) :
    match s.preallocate t with
    | (.ok (reserved, t'), s') => s.Reserves reserved s' ∧ Placed t reserved t'
    | (.error _, s') => s.Reserves [] s' := by
  have spec := preallocate_grants tidy t
  rcases h : s.preallocate t with ⟨fault | ⟨places, t'⟩, s'⟩
  · rw [h] at spec
    exact spec
  · rw [h] at spec
    obtain ⟨reserves, renames, grants, rfl⟩ := spec
    exact ⟨reserves, grants.placed⟩

/-- What a preallocation renames gets a place that it reserved, and ids that are not temporary are
the places reserved for them. -/
theorem preallocate_renames (tidy : s.Tidy) {reserved : List RecordId} {t' : ChangeSet}
    (h : s.preallocate t = (.ok (reserved, t'), s')) :
    (∃ renames, t' = t.renameAll renames ∧ ∀ p ∈ renames, p.2 ∈ reserved) ∧
      (t.hasTemporary = false → reserved = t.createdRecords) := by
  have spec := preallocate_grants tidy t
  rw [h] at spec
  obtain ⟨-, renames, grants, rfl⟩ := spec
  refine ⟨⟨renames, rfl, fun p mem => ?_⟩, fun final => ?_⟩
  · exact (List.of_mem_zip (a := p.1) (b := p.2) (grants.mem_renames.1 mem).1).2
  · exact grants.granted_eq (ChangeSet.hasTemporary_eq_false.1 final)

/-- Renaming puts each created record at its place. No other id is renamed, and neither is a created
record whose place was chosen already. -/
theorem preallocate_relabels (tidy : s.Tidy) (distinct : t.createdRecords.Nodup)
    {places : List RecordId} {t' : ChangeSet} (h : s.preallocate t = (.ok (places, t'), s'))
    (room : s'.HasRoom) :
    ∃ f, t' = t.relabel f ∧ t.createdRecords.map f = places ∧
      ∀ id, ¬ (id ∈ t.createdRecords ∧ id.isTemporary = true) → f id = id := by
  have spec := preallocate_grants tidy t
  rw [h] at spec
  obtain ⟨reserves, renames, grants, rfl⟩ := spec
  refine ⟨RecordId.replaceAll renames, t.renameAll_eq renames,
    grants.map_replaceAll (reserves.final room) distinct, fun id other => ?_⟩
  refine RecordId.replaceAll_of_notMem fun renamed => other ?_
  obtain ⟨p, mem, rfl⟩ := List.mem_map.1 renamed
  obtain ⟨asks, temporary⟩ := grants.mem_renames.1 mem
  exact ⟨(List.of_mem_zip (b := p.2) asks).1, temporary⟩

/-- Places that were chosen elsewhere are reserved as they are, if all differ and none is
taken. -/
theorem reserveFrom_final {r : Reservation} (final : ∀ id ∈ ids, id.isTemporary = false)
    (distinct : ids.Nodup) (open_ : ∀ id ∈ ids, s.isTaken id = false) :
    ∃ s', reserveFrom r ids s = (.ok { r with reserved := r.reserved ++ ids }, s') ∧
      (s.HasRoom → (∀ id ∈ ids, id.position ≠ RecordId.lastPosition) → s'.HasRoom) := by
  induction ids generalizing r s with
  | nil =>
    rw [List.append_nil]
    exact ⟨s, rfl, fun room _ => room⟩
  | cons id rest ih =>
    rw [List.forall_mem_cons] at final open_
    rw [List.nodup_cons] at distinct
    have later (other : RecordId) (mem : other ∈ rest) : (s.reserve id).isTaken other = false := by
      have ne : id ≠ other := fun eq => distinct.1 (eq ▸ mem)
      rw [← Bool.not_eq_true, isTaken_iff, isReserved_reserve]
      have := open_.2 other mem
      rw [← Bool.not_eq_true, isTaken_iff] at this
      rintro (stored | same | held)
      · exact this (.inl stored)
      · exact ne same
      · exact this (.inr held)
    obtain ⟨s', h, leaves⟩ :=
      ih (r := { r with reserved := r.reserved ++ [id] }) final.2 distinct.2 later
    refine ⟨s', ?_, fun room others => ?_⟩
    rotate_left
    · rw [List.forall_mem_cons] at others
      exact leaves (room.reserve others.1) others.2
    unfold reserveFrom
    rw [final.1, open_.1]
    simpa using h

/-- A change set whose places were chosen elsewhere stays as it is. -/
theorem preallocate_final (final : t.hasTemporary = false) (distinct : t.createdRecords.Nodup)
    (open_ : ∀ id ∈ t.createdRecords, s.isTaken id = false) :
    ∃ s', s.preallocate t = (.ok (t.createdRecords, t), s') ∧
      (s.HasRoom → (∀ id ∈ t.createdRecords, id.position ≠ RecordId.lastPosition) →
        s'.HasRoom) := by
  obtain ⟨s', h, leaves⟩ := reserveFrom_final (r := ⟨[], []⟩)
    (ChangeSet.hasTemporary_eq_false.1 final) distinct open_
  unfold preallocate
  rw [h]
  exact ⟨s', rfl, leaves⟩

/-- Such places are refused as soon as one of them is taken, or comes twice. -/
theorem reserveFrom_untaken {r : Reservation} (final : ∀ id ∈ ids, id.isTemporary = false)
    {r' : Reservation} (ok : reserveFrom r ids s = (.ok r', s')) :
    ids.Nodup ∧ ∀ id ∈ ids, s.isTaken id = false := by
  induction ids generalizing r s with
  | nil => exact ⟨.nil, nofun⟩
  | cons id rest ih =>
    rw [List.forall_mem_cons] at final
    unfold reserveFrom at ok
    rw [if_neg (by simp [final.1])] at ok
    split at ok
    · cases ok
    · next open_ =>
      obtain ⟨distinct, untaken⟩ := ih final.2 ok
      have before (other : RecordId) (mem : other ∈ rest) :
          id ≠ other ∧ s.isTaken other = false := by
        have later := untaken other mem
        rw [← Bool.not_eq_true, isTaken_iff, isReserved_reserve] at later
        rw [← Bool.not_eq_true, isTaken_iff]
        exact ⟨fun same => later (.inr (.inl same)), fun taken => later (taken.imp_right .inr)⟩
      refine ⟨List.nodup_cons.2 ⟨fun mem => (before id mem).1 rfl, distinct⟩, ?_⟩
      rw [List.forall_mem_cons]
      exact ⟨by simpa using open_, fun other mem => (before other mem).2⟩

theorem preallocate_eq_ok (final : t.hasTemporary = false) :
    (∃ r s', s.preallocate t = (.ok r, s')) ↔
      t.createdRecords.Nodup ∧ ∀ id ∈ t.createdRecords, s.isTaken id = false := by
  constructor
  · rintro ⟨⟨places, t'⟩, s', h⟩
    unfold preallocate at h
    rcases eq : reserveFrom ⟨[], []⟩ t.createdRecords s with ⟨fault | r, s''⟩
    · rw [eq] at h
      cases h
    · exact reserveFrom_untaken (ChangeSet.hasTemporary_eq_false.1 final) eq
  · rintro ⟨distinct, open_⟩
    obtain ⟨s', h, -⟩ := preallocate_final final distinct open_
    exact ⟨_, s', h⟩

end QuorumCommit.Store
