import QuorumCommit.Proofs.Store.Places
import QuorumCommit.Store.Admission

/-!
The content of a store: all of it but the places of its clusters and the failures that are due.
Checks read the content alone, and two stores of one content remain so when both commit the same
change set.
-/
namespace QuorumCommit

/-- A traversal that only checks succeeds when every single check does. -/
theorem forM_eq_ok {α : Type} {f : α → Except Fault Unit} {l : List α} :
    l.forM f = .ok () ↔ ∀ a ∈ l, f a = .ok () := by
  induction l with
  | nil => simp [List.forM, pure, Except.pure]
  | cons a l ih =>
    have step : (a :: l).forM f = f a >>= fun _ => l.forM f := rfl
    rw [step, List.forall_mem_cons, ← ih]
    cases f a with
    | error fault => simp [bind, Except.bind]
    | ok u => simp [bind, Except.bind]

theorem forM_congr {α : Type} {f g : α → Except Fault Unit} {l : List α}
    (same : ∀ a ∈ l, f a = g a) : l.forM f = l.forM g := by
  induction l with
  | nil => rfl
  | cons a l ih =>
    rw [List.forall_mem_cons] at same
    have first : f a = g a := same.1
    calc (a :: l).forM f
      _ = f a >>= fun _ => l.forM f := rfl
      _ = g a >>= fun _ => l.forM g := by rw [first, ih same.2]
      _ = (a :: l).forM g := rfl

namespace Store

variable {s s' : Store} {t : ChangeSet} {a : Applied} {id : RecordId}

/-- What a store holds, apart from its places and the failures that are due. -/
def content (s : Store) : Store := { s with places := ∅, failing := 0 }

@[simp] theorem content_release : (s.release id).content = s.content := rfl

@[simp] theorem content_releaseAll (ids : List RecordId) :
    (s.releaseAll ids).content = s.content := by
  induction ids generalizing s with
  | nil => rfl
  | cons id rest ih => exact (ih (s := s.release id)).trans content_release

@[simp] theorem failing_releaseAll (ids : List RecordId) :
    (s.releaseAll ids).failing = s.failing := by
  induction ids generalizing s with
  | nil => rfl
  | cons id rest ih => exact ih (s := s.release id)

theorem isStored_of_content (h : s.content = s'.content) (id : RecordId) :
    s.isStored id = s'.isStored id := by
  have := congrArg records h
  exact congrArg (·.contains id) this

theorem record?_of_content (h : s.content = s'.content) (id : RecordId) :
    s.record? id = s'.record? id := by
  have := congrArg records h
  exact congrArg (·[id]?) this

theorem applied_of_content (h : s.content = s'.content) : s.applied = s'.applied :=
  (congrArg applied h :)

theorem lockKeys_content (t : ChangeSet) : s.content.lockKeys t = s.lockKeys t := rfl

theorem checkUniqueKeys_content (t : ChangeSet) :
    s.content.checkUniqueKeys t = s.checkUniqueKeys t := rfl

theorem checkVersions_content (t : ChangeSet) :
    s.content.checkVersions t = s.checkVersions t := rfl

theorem content_putRecord (h : s.content = s'.content) (r : StoredRecord) :
    (s.putRecord id r).content = (s'.putRecord id r).content := by
  have := congrArg (·.putRecord id r) h
  exact this

theorem applyChange_content (h : s.content = s'.content) (c : RecordChange) :
    (s.applyChange c).map content = (s'.applyChange c).map content := by
  unfold applyChange
  rw [record?_of_content h c.record]
  cases c.kind with
  | created =>
    refine congrArg Except.ok (content_putRecord ?_ _)
    exact h
  | updated =>
    cases s'.record? c.record with
    | none => rfl
    | some r => exact congrArg Except.ok (content_putRecord h _)
  | deleted =>
    cases s'.record? c.record with
    | none => exact congrArg Except.ok h
    | some r => exact congrArg Except.ok (content_putRecord h _)

theorem applyChanges_content (h : s.content = s'.content) (changes : List RecordChange) :
    (applyChanges changes s).1 = (applyChanges changes s').1 ∧
      (applyChanges changes s).2.content = (applyChanges changes s').2.content := by
  induction changes generalizing s s' with
  | nil => exact ⟨rfl, h⟩
  | cons c rest ih =>
    have step := applyChange_content h c
    unfold applyChanges
    rcases hs : s.applyChange c with fault | u <;> rcases hs' : s'.applyChange c with fault' | u'
    · rw [hs, hs'] at step
      cases step
      exact ⟨rfl, h⟩
    · rw [hs, hs'] at step
      cases step
    · rw [hs, hs'] at step
      cases step
    · rw [hs, hs'] at step
      exact ih (Except.ok.inj step)

/-- A commit succeeds or fails by the content alone, and so does what it makes of it. -/
theorem commit_content (h : s.content = s'.content) (t : ChangeSet) (a : Applied) :
    (s.commit t a).1 = (s'.commit t a).1 ∧
      (s.commit t a).2.content = (s'.commit t a).2.content := by
  obtain ⟨result, same⟩ := applyChanges_content h t.changes
  unfold commit
  rcases hs : applyChanges t.changes s with ⟨fault | _, u⟩ <;>
    rcases hs' : applyChanges t.changes s' with ⟨fault' | _, u'⟩ <;>
    rw [hs, hs'] at result same
  · cases result
    exact ⟨rfl, same⟩
  · cases result
  · cases result
  · refine ⟨rfl, ?_⟩
    have := congrArg (fun s : Store => ((s.applyEdits t).note a).content) same
    exact this

def committed (content : Store) (t : ChangeSet) (a : Applied) : Store :=
  (content.commit t a).2.content

theorem committed_content (t : ChangeSet) (a : Applied) :
    s.content.committed t a = (s.commit t a).2.content :=
  (commit_content (show s.content.content = s.content from rfl) t a).2

theorem isStored_of_record? {r : StoredRecord} (h : s.record? id = some r) :
    s.isStored id = true := by
  unfold record? at h
  unfold isStored
  rw [Std.ExtTreeMap.contains_iff_mem, Std.ExtTreeMap.mem_iff_isSome_getElem?, h]
  rfl

/-- Writing to a record that is stored adds none. -/
theorem isStored_rewrite {r : StoredRecord} (h : s.record? id = some r) (r' : StoredRecord)
    (other : RecordId) : (s.putRecord id r').isStored other = s.isStored other := by
  rw [Bool.eq_iff_iff, isStored_putRecord]
  constructor
  · rintro (rfl | stored)
    · exact isStored_of_record? h
    · exact stored
  · exact .inr

/-- A change either stores the record that it creates, in the place reserved for it, or leaves
the places and the set of stored records alone. -/
theorem applyChange_cases {c : RecordChange} (h : s.applyChange c = .ok s') :
    (c.kind = .created ∧
      s' = (s.settle c.record).putRecord c.record ⟨1, c.content, false⟩) ∨
    (c.kind ≠ .created ∧ s'.places = s.places ∧ s'.failing = s.failing ∧
      ∀ id, s'.isStored id = s.isStored id) := by
  unfold applyChange at h
  cases kind : c.kind with
  | created =>
    rw [kind] at h
    cases h
    exact .inl ⟨rfl, rfl⟩
  | updated =>
    rw [kind] at h
    cases found : s.record? c.record with
    | none =>
      rw [found] at h
      cases h
    | some r =>
      rw [found] at h
      cases h
      exact .inr ⟨nofun, rfl, rfl, isStored_rewrite found _⟩
  | deleted =>
    rw [kind] at h
    cases found : s.record? c.record with
    | none =>
      rw [found] at h
      cases h
      exact .inr ⟨nofun, rfl, rfl, fun _ => rfl⟩
    | some r =>
      rw [found] at h
      cases h
      exact .inr ⟨nofun, rfl, rfl, isStored_rewrite found _⟩

theorem isReserved_of_places (h : s'.places = s.places) (id : RecordId) :
    s'.isReserved id = s.isReserved id := by
  simp only [isReserved, placesOf, h]

theorem isReserved_applyChange {c : RecordChange} (h : s.applyChange c = .ok s') :
    s'.isReserved id = true ↔
      ¬ (c.kind = .created ∧ c.record = id) ∧ s.isReserved id = true := by
  obtain ⟨kind, rfl⟩ | ⟨kind, places, -, -⟩ := applyChange_cases h
  · rw [isReserved_putRecord, isReserved_settle]
    simp [kind]
  · rw [isReserved_of_places places]
    simp [kind]

theorem isTaken_applyChange {c : RecordChange} (h : s.applyChange c = .ok s')
    (taken : s.isTaken id = true) : s'.isTaken id = true := by
  rw [isTaken_iff, isReserved_applyChange h]
  obtain ⟨kind, rfl⟩ | ⟨kind, -, -, stored⟩ := applyChange_cases h
  · rw [isStored_putRecord]
    rw [isTaken_iff] at taken
    by_cases same : c.record = id
    · exact .inl (.inl same)
    · exact taken.elim (fun held => .inl (.inr held)) fun held => .inr ⟨fun h => same h.2, held⟩
  · rw [stored]
    rw [isTaken_iff] at taken
    exact taken.imp_right fun held => ⟨fun h => kind h.1, held⟩

theorem HasRoom.of_applyChange {c : RecordChange} (h : s.applyChange c = .ok s')
    (room : s'.HasRoom) : s.HasRoom := by
  obtain ⟨-, rfl⟩ | ⟨-, places, -, stored⟩ := applyChange_cases h
  · exact room.of_store
  · exact room.congr places stored

theorem Tidy.applyChange {c : RecordChange} (tidy : s.Tidy) (h : s.applyChange c = .ok s')
    (taken : s.HasRoom → c.kind = .created → s.isTaken c.record = true) : s'.Tidy := by
  obtain ⟨kind, rfl⟩ | ⟨kind, places, -, stored⟩ := applyChange_cases h
  · exact tidy.store (fun room => taken room kind) _
  · exact tidy.congr places stored

theorem HasRoom.of_applyChanges {changes : List RecordChange}
    (room : (applyChanges changes s).2.HasRoom) : s.HasRoom := by
  induction changes generalizing s with
  | nil => exact room
  | cons c rest ih =>
    unfold applyChanges at room
    cases step : s.applyChange c with
    | error fault =>
      rw [step] at room
      exact room
    | ok u =>
      rw [step] at room
      exact (ih room).of_applyChange step

theorem HasRoom.of_commit (room : (s.commit t a).2.HasRoom) : s.HasRoom := by
  have back : (applyChanges t.changes s).2.HasRoom → s.HasRoom := of_applyChanges
  unfold commit at room
  rcases eq : applyChanges t.changes s with ⟨fault | _, u⟩ <;> rw [eq] at room back
  · exact back room
  · exact back (room.congr rfl fun _ => rfl)

def createdBy (changes : List RecordChange) : List RecordId :=
  (changes.filter (·.kind = .created)).map (·.record)

theorem createdBy_cons (c : RecordChange) (rest : List RecordChange) :
    id ∈ createdBy (c :: rest) ↔ (c.kind = .created ∧ c.record = id) ∨ id ∈ createdBy rest := by
  unfold createdBy
  by_cases kind : c.kind = .created
  · simp [kind, eq_comm]
  · simp [kind]

theorem HasRoom.applyChanges {changes : List RecordChange} (h : s.HasRoom)
    (others : ∀ id ∈ createdBy changes, id.position ≠ RecordId.lastPosition) :
    (applyChanges changes s).2.HasRoom := by
  induction changes generalizing s with
  | nil => exact h
  | cons c rest ih =>
    unfold Store.applyChanges
    cases step : s.applyChange c with
    | error fault => exact h
    | ok u =>
      refine ih ?_ fun id mem => others id ((createdBy_cons c rest).2 (.inr mem))
      obtain ⟨kind, rfl⟩ | ⟨-, places, -, stored⟩ := applyChange_cases step
      · exact h.store (others _ ((createdBy_cons c rest).2 (.inl ⟨kind, rfl⟩))) _
      · exact HasRoom.congr h places.symm fun id => (stored id).symm

/-- A commit leaves room if it creates no record at a last place. -/
theorem HasRoom.commit (h : s.HasRoom)
    (others : ∀ id ∈ t.createdRecords, id.position ≠ RecordId.lastPosition) (a : Applied) :
    (s.commit t a).2.HasRoom := by
  have room : (Store.applyChanges t.changes s).2.HasRoom := h.applyChanges others
  unfold Store.commit
  rcases eq : Store.applyChanges t.changes s with ⟨fault | _, u⟩ <;> rw [eq] at room
  · exact room
  · exact room.congr rfl fun _ => rfl

/-- What is left of the reserved places when changes are applied: those of created records are
used up, and all of them if no change fails. -/
structure Settles (s s' : Store) (created : List RecordId) (ok : Prop) : Prop where
  tidy : s'.Tidy
  failing : s'.failing = s.failing
  reserved : ∀ id, s'.isReserved id = true → s.isReserved id = true
  others : ∀ id, id ∉ created → s.isReserved id = true → s'.isReserved id = true
  used : ok → ∀ id ∈ created, s'.isReserved id = false

theorem applyChanges_settles {changes : List RecordChange} (tidy : s.Tidy)
    (taken : s.HasRoom → ∀ id ∈ createdBy changes, s.isTaken id = true) :
    Settles s (applyChanges changes s).2 (createdBy changes)
      ((applyChanges changes s).1 = .ok ()) := by
  induction changes generalizing s with
  | nil => exact ⟨tidy, rfl, fun _ => id, fun _ _ => id, fun _ _ => nofun⟩
  | cons c rest ih =>
    unfold applyChanges
    cases h : s.applyChange c with
    | error fault => exact ⟨tidy, rfl, fun _ => id, fun _ _ => id, nofun⟩
    | ok u =>
      have failing : u.failing = s.failing := by
        obtain ⟨-, rfl⟩ | ⟨-, -, failing, -⟩ := applyChange_cases h
        · rfl
        · exact failing
      have later : Settles u (applyChanges rest u).2 (createdBy rest)
          ((applyChanges rest u).1 = .ok ()) := by
        refine ih (tidy.applyChange h fun room kind => ?_) fun room id mem => ?_
        · exact taken room _ ((createdBy_cons c rest).2 (.inl ⟨kind, rfl⟩))
        · exact isTaken_applyChange h
            (taken (room.of_applyChange h) id ((createdBy_cons c rest).2 (.inr mem)))
      refine ⟨later.tidy, later.failing.trans failing, fun id held => ?_,
        fun id other held => ?_, fun ok id mem => ?_⟩
      · exact ((isReserved_applyChange h).1 (later.reserved id held)).2
      · rw [createdBy_cons, not_or] at other
        exact later.others id other.2 ((isReserved_applyChange h).2 ⟨other.1, held⟩)
      · rw [createdBy_cons] at mem
        rcases mem with created | mem
        · rw [← Bool.not_eq_true]
          intro held
          exact ((isReserved_applyChange h).1 (later.reserved id held)).1 created
        · exact later.used ok id mem

/-- A commit uses up the reserved places of the records that it creates. -/
theorem commit_settles (tidy : s.Tidy)
    (taken : s.HasRoom → ∀ id ∈ t.createdRecords, s.isTaken id = true) (a : Applied) :
    Settles s (s.commit t a).2 t.createdRecords ((s.commit t a).1 = .ok ()) := by
  have settles : Settles s (applyChanges t.changes s).2 t.createdRecords _ :=
    applyChanges_settles tidy taken
  unfold commit
  rcases h : applyChanges t.changes s with ⟨fault | _, u⟩
  · rw [h] at settles
    exact ⟨settles.tidy, settles.failing, settles.reserved, settles.others, nofun⟩
  · rw [h] at settles
    exact ⟨settles.tidy.congr rfl fun _ => rfl, settles.failing, settles.reserved, settles.others,
      fun _ => settles.used rfl⟩

theorem applyChanges_ok {changes : List RecordChange}
    (h : ∀ c ∈ changes, c.kind ≠ .created → s.isStored c.record = true) :
    (applyChanges changes s).1 = .ok () := by
  induction changes generalizing s with
  | nil => rfl
  | cons c rest ih =>
    have succeeds : ∃ u, s.applyChange c = .ok u := by
      by_cases kind : c.kind = .created
      · exact ⟨_, by rw [applyChange, kind]⟩
      · have stored := h c List.mem_cons_self kind
        rw [isStored, Std.ExtTreeMap.contains_iff_mem, Std.ExtTreeMap.mem_iff_isSome_getElem?,
          Option.isSome_iff_exists] at stored
        obtain ⟨r, found⟩ := stored
        have found : s.record? c.record = some r := found
        unfold applyChange
        rw [found]
        cases eq : c.kind with
        | created => exact absurd eq kind
        | updated => exact ⟨_, rfl⟩
        | deleted => exact ⟨_, rfl⟩
    obtain ⟨u, step⟩ := succeeds
    unfold applyChanges
    rw [step]
    refine ih fun d mem kind => ?_
    have stored := h d (List.mem_cons_of_mem _ mem) kind
    obtain ⟨-, rfl⟩ | ⟨-, -, -, same⟩ := applyChange_cases step
    · exact isStored_putRecord _ |>.2 (.inr stored)
    · rw [same]
      exact stored

theorem isStored_of_checkVersion {c : RecordChange} (h : s.checkVersion c = .ok ())
    (kind : c.kind ≠ .created) : s.isStored c.record = true := by
  unfold checkVersion at h
  rw [if_neg kind] at h
  cases found : s.record? c.record with
  | none =>
    rw [found] at h
    cases h
  | some r => exact isStored_of_record? found

/-- Changes of stored records can be applied. -/
theorem commit_ok_of_stored
    (h : ∀ c ∈ t.changes, c.kind ≠ .created → s.isStored c.record = true) (a : Applied) :
    (s.commit t a).1 = .ok () := by
  have ok := applyChanges_ok h
  unfold commit
  rcases eq : applyChanges t.changes s with ⟨fault | _, u⟩
  · rw [eq] at ok
    cases ok
  · rfl

/-- Changes whose versions were compared can be applied. -/
theorem commit_ok (h : s.checkVersions t = .ok ()) (a : Applied) : (s.commit t a).1 = .ok () :=
  commit_ok_of_stored (fun c mem => isStored_of_checkVersion (forM_eq_ok.1 h c mem)) a

/-- A change of one record is about records and places alone. -/
theorem applyChange_frame {c : RecordChange} (h : s.applyChange c = .ok s') :
    s' = { s with records := s'.records, places := s'.places } := by
  unfold applyChange at h
  cases kind : c.kind <;> cases found : s.record? c.record <;> rw [kind, found] at h <;> cases h <;>
    rfl

theorem applied_applyChanges (changes : List RecordChange) :
    (applyChanges changes s).2.applied = s.applied := by
  induction changes generalizing s with
  | nil => rfl
  | cons c rest ih =>
    unfold applyChanges
    cases step : s.applyChange c with
    | error fault => rfl
    | ok u => exact ih.trans (congrArg Store.applied (applyChange_frame step) :)

/-- A commit that succeeds is noted behind those before it. -/
theorem applied_commit (ok : (s.commit t a).1 = .ok ()) :
    (s.commit t a).2.applied = s.applied ++ [a] := by
  have changed := applied_applyChanges (s := s) t.changes
  unfold commit at ok ⊢
  rcases eq : applyChanges t.changes s with ⟨fault | _, u⟩
  · rw [eq] at ok
    cases ok
  · rw [eq] at changed
    exact congrArg (· ++ [a]) changed

end Store

end QuorumCommit
