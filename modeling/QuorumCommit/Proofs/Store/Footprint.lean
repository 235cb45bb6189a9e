import QuorumCommit.Proofs.Store.Admission

/-!
What a commit touches. It leaves records and index keys alone that its change set does not name, and
stored records stay stored, with a version that grows by one with each change, until it comes round.
So checks of a change set that names others come out as before.
-/
namespace QuorumCommit

namespace IndexValues

variable {v : IndexValues} {key other : IndexKey}

theorem get?_applyEdits (ne : key ≠ other) (edits : List IndexEdit) :
    (applyEdits key v edits).get? other = v.get? other := by
  induction edits generalizing v with
  | nil => rfl
  | cons e rest ih =>
    refine (ih (v := applyEdit key v e)).trans ?_
    unfold applyEdit set get?
    split
    · rw [Std.ExtTreeMap.getElem?_insert, if_neg (by simpa using ne)]
    · rw [Std.ExtTreeMap.getElem?_erase, if_neg (by simpa using ne)]

def applyKeys (v : IndexValues) (keys : List (IndexKey × List IndexEdit)) : IndexValues :=
  keys.foldl (fun v (key, edits) => applyEdits key v edits) v

theorem get?_applyKeys {keys : List (IndexKey × List IndexEdit)}
    (apart : ∀ p ∈ keys, p.1 ≠ other) : (v.applyKeys keys).get? other = v.get? other := by
  induction keys generalizing v with
  | nil => rfl
  | cons p rest ih =>
    rw [List.forall_mem_cons] at apart
    exact (ih apart.2).trans (get?_applyEdits apart.1 p.2)

/-- Keys that a change set does not edit lead where they led before. -/
theorem get?_applyAll {t : ChangeSet} (apart : ∀ p ∈ t.keyEdits, p.1 ≠ other) :
    (v.applyAll t).get? other = v.get? other :=
  get?_applyKeys apart

end IndexValues

namespace Store

variable {s s' : Store} {t : ChangeSet} {a : Applied} {id : RecordId}
  {c : RecordChange} {changes : List RecordChange}

theorem record?_putRecord_of_ne {other : RecordId} (ne : id ≠ other) (r : StoredRecord) :
    (s.putRecord id r).record? other = s.record? other := by
  unfold record? putRecord
  rw [Std.ExtTreeMap.getElem?_insert, if_neg (by simpa using ne)]

theorem record?_putRecord_self (r : StoredRecord) : (s.putRecord id r).record? id = some r := by
  unfold record? putRecord
  rw [Std.ExtTreeMap.getElem?_insert_self]

/-- A change writes the record that it names, or nothing. -/
theorem applyChange_writes (h : s.applyChange c = .ok s') :
    (∃ (u : Store) (r : StoredRecord), s' = u.putRecord c.record r ∧ u.records = s.records ∧
      (c.kind ≠ .created → ∃ old, s.record? c.record = some old ∧ r.version = old.nextVersion)) ∨
    (c.kind ≠ .created ∧ s.record? c.record = none ∧ s' = s) := by
  unfold applyChange at h
  cases kind : c.kind with
  | created =>
    rw [kind] at h
    cases h
    exact .inl ⟨_, _, rfl, rfl, nofun⟩
  | updated =>
    cases found : s.record? c.record with
    | none =>
      rw [kind, found] at h
      cases h
    | some old =>
      rw [kind, found] at h
      cases h
      exact .inl ⟨_, _, rfl, rfl, fun _ => ⟨old, rfl, rfl⟩⟩
  | deleted =>
    cases found : s.record? c.record with
    | none =>
      rw [kind, found] at h
      cases h
      exact .inr ⟨nofun, rfl, rfl⟩
    | some old =>
      rw [kind, found] at h
      cases h
      exact .inl ⟨_, _, rfl, rfl, fun _ => ⟨old, rfl, rfl⟩⟩

theorem record?_applyChange (h : s.applyChange c = .ok s') (ne : c.record ≠ id) :
    s'.record? id = s.record? id := by
  obtain ⟨u, r, rfl, same, -⟩ | ⟨-, -, rfl⟩ := applyChange_writes h
  · rw [record?_putRecord_of_ne ne]
    unfold record?
    rw [same]
  · rfl

theorem nextVersion_eq {r : StoredRecord} (low : r.version + 1 < 4294967296) :
    r.nextVersion = r.version + 1 :=
  Nat.mod_eq_of_lt low

/-- A change of a stored record raises its version, unless the version comes round. -/
theorem version_applyChange {r : StoredRecord} (found : s.record? c.record = some r)
    (step : s.applyChange c = .ok s') (kind : c.kind ≠ .created)
    (low : r.version + 1 < 4294967296) :
    ∃ r', s'.record? c.record = some r' ∧ r'.version = r.version + 1 := by
  obtain ⟨u, r', rfl, -, raised⟩ | ⟨-, missing, -⟩ := applyChange_writes step
  · obtain ⟨r₀, found₀, version⟩ := raised kind
    rw [found] at found₀
    cases found₀
    exact ⟨r', record?_putRecord_self r', version.trans (nextVersion_eq low)⟩
  · rw [found] at missing
    cases missing

theorem isStored_applyChange (h : s.applyChange c = .ok s') (stored : s.isStored id = true) :
    s'.isStored id = true := by
  obtain ⟨-, rfl⟩ | ⟨-, -, -, same⟩ := applyChange_cases h
  · exact isStored_putRecord _ |>.2 (.inr stored)
  · rw [same]
    exact stored

/-- A property of stores that every change of a list keeps is kept by all of them in turn. -/
theorem applyChanges_keeps {p : Store → Prop}
    (step : ∀ c ∈ changes, ∀ s s', s.applyChange c = .ok s' → p s → p s') (h : p s) :
    p (applyChanges changes s).2 := by
  induction changes generalizing s with
  | nil => exact h
  | cons c rest ih =>
    rw [List.forall_mem_cons] at step
    unfold applyChanges
    cases first : s.applyChange c with
    | error fault => exact h
    | ok u => exact ih step.2 (step.1 s u first h)

/-- So is one that does not depend on index values and commits. -/
theorem commit_keeps {p : Store → Prop}
    (step : ∀ c ∈ t.changes, ∀ s s', s.applyChange c = .ok s' → p s → p s')
    (edits : ∀ s, p s → p ((s.applyEdits t).note a)) (h : p s) : p (s.commit t a).2 := by
  have kept := applyChanges_keeps step h
  unfold commit
  rcases eq : applyChanges t.changes s with ⟨fault | _, u⟩
  · rw [eq] at kept
    exact kept
  · rw [eq] at kept
    exact edits u kept

theorem isStored_commit (stored : s.isStored id = true) : (s.commit t a).2.isStored id = true :=
  commit_keeps (p := fun s => s.isStored id = true)
    (fun _ _ _ _ step stored => isStored_applyChange step stored) (fun _ stored => stored) stored

/-- If no change fails, all records that were to be created are stored. -/
theorem isStored_applyChanges (ok : (applyChanges changes s).1 = .ok ())
    (mem : id ∈ createdBy changes) : (applyChanges changes s).2.isStored id = true := by
  induction changes generalizing s with
  | nil => cases mem
  | cons c rest ih =>
    unfold applyChanges at ok ⊢
    cases step : s.applyChange c with
    | error fault =>
      rw [step] at ok
      cases ok
    | ok u =>
      rw [step] at ok
      dsimp only at ok ⊢
      obtain ⟨kind, rfl⟩ | later := (createdBy_cons c rest).1 mem
      · obtain ⟨-, rfl⟩ | ⟨other, -⟩ := applyChange_cases step
        · exact applyChanges_keeps (p := fun s => s.isStored c.record = true)
            (fun _ _ _ _ step stored => isStored_applyChange step stored)
            ((isStored_putRecord _).2 (.inl rfl))
        · exact absurd kind other
      · exact ih ok later

theorem isStored_commit_created (ok : (s.commit t a).1 = .ok ()) (mem : id ∈ t.createdRecords) :
    (s.commit t a).2.isStored id = true := by
  unfold commit at ok ⊢
  rcases eq : applyChanges t.changes s with ⟨fault | _, u⟩
  · rw [eq] at ok
    cases ok
  · have stored : (applyChanges t.changes s).1 = .ok () →
        (applyChanges t.changes s).2.isStored id = true :=
      fun ok => isStored_applyChanges ok mem
    rw [eq] at stored
    exact stored rfl

theorem record?_commit (apart : ∀ c ∈ t.changes, c.record ≠ id) :
    (s.commit t a).2.record? id = s.record? id :=
  commit_keeps (p := fun s' => s'.record? id = s.record? id)
    (fun c mem _ _ step same => (record?_applyChange step (apart c mem)).trans same)
    (fun _ same => same) rfl

theorem indexKinds_commit : (s.commit t a).2.indexKinds = s.indexKinds :=
  commit_keeps (p := fun s' => s'.indexKinds = s.indexKinds)
    (fun _ _ _ _ step same => (congrArg Store.indexKinds (applyChange_frame step) :).trans same)
    (fun _ same => same) rfl

theorem commands_commit : (s.commit t a).2.commands = s.commands :=
  commit_keeps (p := fun s' => s'.commands = s.commands)
    (fun _ _ _ _ step same => (congrArg Store.commands (applyChange_frame step) :).trans same)
    (fun _ same => same) rfl

theorem indexValue?_commit {key : IndexKey} (apart : ∀ p ∈ t.keyEdits, p.1 ≠ key) :
    (s.commit t a).2.indexValue? key = s.indexValue? key :=
  commit_keeps (p := fun s' => s'.indexValue? key = s.indexValue? key)
    (fun _ _ _ _ step same => (congrArg (·.indexValue? key) (applyChange_frame step) :).trans same)
    (fun _ same => (IndexValues.get?_applyAll apart).trans same) rfl

/-- Changes that go through raise the version of a stored record by their number. -/
theorem version_applyChanges {r : StoredRecord} (found : s.record? id = some r)
    (old : ∀ c ∈ changes, c.record = id → c.kind ≠ .created)
    (low : r.version + changes.countP (·.record = id) < 4294967296)
    (ok : (applyChanges changes s).1 = .ok ()) :
    ∃ r', (applyChanges changes s).2.record? id = some r' ∧
      r'.version = r.version + changes.countP (·.record = id) := by
  induction changes generalizing s r with
  | nil => exact ⟨r, found, rfl⟩
  | cons c rest ih =>
    rw [List.forall_mem_cons] at old
    rw [List.countP_cons] at low ⊢
    unfold applyChanges at ok ⊢
    cases step : s.applyChange c with
    | error fault =>
      rw [step] at ok
      cases ok
    | ok u =>
      rw [step] at ok
      by_cases named : c.record = id
      · subst named
        simp only [decide_true, if_true] at low ⊢
        obtain ⟨r', found', version⟩ := version_applyChange found step (old.1 rfl) (by omega)
        obtain ⟨r'', found'', version'⟩ := ih found' old.2 (by omega) ok
        exact ⟨r'', found'', by omega⟩
      · rw [if_neg (by simpa using named), Nat.add_zero] at low ⊢
        exact ih ((record?_applyChange step named).trans found) old.2 low ok

/-- So does a commit that goes through. -/
theorem version_commit {r : StoredRecord} (found : s.record? id = some r)
    (old : id ∉ t.createdRecords)
    (low : r.version + t.changes.countP (·.record = id) < 4294967296)
    (ok : (s.commit t a).1 = .ok ()) :
    ∃ r', (s.commit t a).2.record? id = some r' ∧
      r'.version = r.version + t.changes.countP (·.record = id) := by
  have kinds : ∀ c ∈ t.changes, c.record = id → c.kind ≠ .created := fun c mem same created =>
    old (List.mem_map.2 ⟨c, List.mem_filter.2 ⟨mem, by simpa using created⟩, same⟩)
  have raised := version_applyChanges found kinds
  unfold Store.commit at ok ⊢
  rcases eq : applyChanges t.changes s with ⟨fault | _, u⟩ <;> rw [eq] at ok raised
  · cases ok
  · exact raised low rfl

theorem checkVersion_congr (same : s'.record? c.record = s.record? c.record) :
    s'.checkVersion c = s.checkVersion c := by
  unfold checkVersion
  rw [same]

/-- A version that passes the check is the one that is stored. -/
theorem version_of_checkVersion (h : s.checkVersion c = .ok ()) (kind : c.kind ≠ .created) :
    ∃ r, s.record? c.record = some r ∧ r.version = c.version := by
  unfold checkVersion at h
  rw [if_neg kind] at h
  cases found : s.record? c.record with
  | none =>
    rw [found] at h
    cases h
  | some r =>
    rw [found] at h
    dsimp only at h
    split at h
    · cases h
    · split at h
      · next version => exact ⟨r, rfl, version⟩
      · cases h

/-- The versions of a change set are judged by the records that it updates or removes. -/
theorem checkVersions_congr
    (same : ∀ c ∈ t.changes, c.kind ≠ .created → s'.record? c.record = s.record? c.record) :
    s'.checkVersions t = s.checkVersions t := by
  refine forM_congr fun c mem => ?_
  by_cases kind : c.kind = .created
  · unfold checkVersion
    rw [if_pos kind, if_pos kind]
  · exact checkVersion_congr (same c mem kind)

/-- Its unique keys are judged by the records that they lead to. -/
theorem checkUniqueKeys_congr (kinds : s'.indexKinds = s.indexKinds)
    (same : ∀ p ∈ t.keyEdits, s.isUnique p.1.index = true →
      s'.indexValue? p.1 = s.indexValue? p.1) : s'.checkUniqueKeys t = s.checkUniqueKeys t := by
  have unique (name : String) : s'.isUnique name = s.isUnique name := by
    unfold isUnique indexKind?
    rw [kinds]
  refine forM_congr fun p mem => ?_
  dsimp only
  rw [unique]
  by_cases isUnique : s.isUnique p.1.index = true
  · rw [if_pos isUnique, if_pos isUnique]
    unfold checkKey
    rw [same p mem isUnique]
  · rw [if_neg isUnique, if_neg isUnique]

end Store

end QuorumCommit
