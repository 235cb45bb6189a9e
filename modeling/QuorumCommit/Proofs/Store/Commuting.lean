import Mathlib.Tactic.Tauto
import QuorumCommit.Proofs.Store.UniqueKeys

/-!
Transactions that lock nothing in common. What a commit makes of a record, an index key or a
reserved place depends on that alone, and it reads and writes only what its change set locks. So two
commits whose locks are disjoint come to the same in either order, and neither changes how the other
is judged.
-/
namespace QuorumCommit

/-- No record is changed by both change sets, and no index key edited by both. -/
structure ChangeSet.Apart (t u : ChangeSet) : Prop where
  records : ∀ c ∈ t.changes, ∀ d ∈ u.changes, c.record ≠ d.record
  keys : ∀ p ∈ t.keyEdits, ∀ q ∈ u.keyEdits, p.1 ≠ q.1

theorem ChangeSet.Apart.symm {t u : ChangeSet} (h : t.Apart u) : u.Apart t where
  records d mem c mem' := (h.records c mem' d mem).symm
  keys q mem p mem' := (h.keys p mem' q mem).symm

def RecordChange.outcome (c : RecordChange) (before : Option StoredRecord) : Option StoredRecord :=
  match c.kind with
  | .created => some ⟨1, c.content, false⟩
  | .updated => before.map fun r => { r with version := r.nextVersion, content := c.content }
  | .deleted => before.map fun r => ⟨r.nextVersion, [], true⟩

theorem IndexValues.ext_get? {v w : IndexValues} (same : ∀ key, v.get? key = w.get? key) : v = w :=
  congrArg IndexValues.mk (Std.ExtTreeMap.ext_getElem? same)

/-- Where the edits of a change set lead a key depends on where it led before. -/
theorem IndexValues.get?_applyAll_congr {v w : IndexValues} {key : IndexKey} (t : ChangeSet)
    (same : v.get? key = w.get? key) : (v.applyAll t).get? key = (w.applyAll t).get? key := by
  by_cases edited : ∃ edits, (key, edits) ∈ t.keyEdits
  · obtain ⟨edits, mem⟩ := edited
    rw [get?_applyAll_of_mem v mem, get?_applyAll_of_mem w mem, same]
  · have apart : ∀ p ∈ t.keyEdits, p.1 ≠ key := fun p mem eq => edited ⟨p.2, eq ▸ mem⟩
    rw [get?_applyAll apart, get?_applyAll apart, same]

namespace Store

variable {s s' u u' : Store} {t t₁ t₂ : ChangeSet} {a a₁ a₂ : Applied} {id : RecordId}
  {c : RecordChange} {changes : List RecordChange}

theorem applyChanges_cons_eq_ok : applyChanges (c :: changes) s = (.ok (), s') ↔
    ∃ u, s.applyChange c = .ok u ∧ applyChanges changes u = (.ok (), s') := by
  rw [applyChanges]
  cases s.applyChange c with
  | error fault => simp
  | ok u => simp

theorem commit_eq_ok : s.commit t a = (.ok (), s') ↔
    ∃ u, applyChanges t.changes s = (.ok (), u) ∧ s' = (u.applyEdits t).note a := by
  unfold commit
  rcases applyChanges t.changes s with ⟨fault | _, u⟩
  · simp
  · simp [eq_comm]

theorem record?_applyChange_self (h : s.applyChange c = .ok s') :
    s'.record? c.record = c.outcome (s.record? c.record) := by
  unfold applyChange at h
  unfold RecordChange.outcome
  cases kind : c.kind with
  | created =>
    rw [kind] at h
    cases h
    exact record?_putRecord_self _
  | updated =>
    cases found : s.record? c.record with
    | none =>
      rw [kind, found] at h
      cases h
    | some r =>
      rw [kind, found] at h
      cases h
      exact record?_putRecord_self _
  | deleted =>
    cases found : s.record? c.record with
    | none =>
      rw [kind, found] at h
      cases h
      exact found
    | some r =>
      rw [kind, found] at h
      cases h
      exact record?_putRecord_self _

theorem record?_applyChange_congr (same : s.record? id = u.record? id)
    (h : s.applyChange c = .ok s') (h' : u.applyChange c = .ok u') :
    s'.record? id = u'.record? id := by
  by_cases named : c.record = id
  · subst named
    rw [record?_applyChange_self h, record?_applyChange_self h', same]
  · rw [record?_applyChange h named, record?_applyChange h' named, same]

theorem record?_applyChanges_congr (same : s.record? id = u.record? id)
    (h : applyChanges changes s = (.ok (), s')) (h' : applyChanges changes u = (.ok (), u')) :
    s'.record? id = u'.record? id := by
  induction changes generalizing s u with
  | nil =>
    cases h
    cases h'
    exact same
  | cons c rest ih =>
    obtain ⟨v, step, later⟩ := applyChanges_cons_eq_ok.1 h
    obtain ⟨v', step', later'⟩ := applyChanges_cons_eq_ok.1 h'
    exact ih (record?_applyChange_congr same step step') later later'

theorem record?_commit_congr (same : s.record? id = u.record? id)
    (h : s.commit t a = (.ok (), s')) (h' : u.commit t a = (.ok (), u')) :
    s'.record? id = u'.record? id := by
  obtain ⟨v, applied, rfl⟩ := commit_eq_ok.1 h
  obtain ⟨v', applied', rfl⟩ := commit_eq_ok.1 h'
  have records : v.record? id = v'.record? id := record?_applyChanges_congr same applied applied'
  exact records

theorem indexValue?_commit_congr {key : IndexKey} (same : s.indexValue? key = u.indexValue? key)
    (h : s.commit t a = (.ok (), s')) (h' : u.commit t a = (.ok (), u')) :
    s'.indexValue? key = u'.indexValue? key := by
  obtain ⟨v, applied, rfl⟩ := commit_eq_ok.1 h
  obtain ⟨v', applied', rfl⟩ := commit_eq_ok.1 h'
  have kept := indexValue?_applyChanges (s := s) t.changes key
  have kept' := indexValue?_applyChanges (s := u) t.changes key
  rw [applied] at kept
  rw [applied'] at kept'
  exact IndexValues.get?_applyAll_congr t (kept.trans (same.trans kept'.symm))

theorem isReserved_applyChanges (h : applyChanges changes s = (.ok (), s')) :
    s'.isReserved id = true ↔ id ∉ createdBy changes ∧ s.isReserved id = true := by
  induction changes generalizing s with
  | nil =>
    cases h
    simp [createdBy]
  | cons c rest ih =>
    obtain ⟨u, step, later⟩ := applyChanges_cons_eq_ok.1 h
    rw [ih later, isReserved_applyChange step, createdBy_cons]
    tauto

/-- A commit uses up the places of the records that it creates and leaves all others reserved. -/
theorem isReserved_commit (h : s.commit t a = (.ok (), s')) :
    s'.isReserved id = true ↔ id ∉ t.createdRecords ∧ s.isReserved id = true := by
  obtain ⟨v, applied, rfl⟩ := commit_eq_ok.1 h
  have left : v.isReserved id = true ↔ id ∉ createdBy t.changes ∧ s.isReserved id = true :=
    isReserved_applyChanges applied
  exact left

section Orders

variable {s₁ s₁₂ s₂ s₂₁ : Store} (h₁ : s.commit t₁ a₁ = (.ok (), s₁))
  (h₁₂ : s₁.commit t₂ a₂ = (.ok (), s₁₂)) (h₂ : s.commit t₂ a₂ = (.ok (), s₂))
  (h₂₁ : s₂.commit t₁ a₁ = (.ok (), s₂₁))

include h₁ h₁₂ h₂ h₂₁

/-- What one of two commits makes of a record is the same before and after the other, which leaves
that record alone. -/
theorem record?_commit_comm (apart : ∀ c ∈ t₂.changes, c.record ≠ id) :
    s₁₂.record? id = s₂₁.record? id := by
  have kept₁ := record?_commit (s := s₁) (a := a₂) apart
  have kept := record?_commit (s := s) (a := a₂) apart
  rw [h₁₂] at kept₁
  rw [h₂] at kept
  calc s₁₂.record? id
    _ = s₁.record? id := kept₁
    _ = s₂₁.record? id := record?_commit_congr kept.symm h₁ h₂₁

theorem indexValue?_commit_comm {key : IndexKey} (apart : ∀ p ∈ t₂.keyEdits, p.1 ≠ key) :
    s₁₂.indexValue? key = s₂₁.indexValue? key := by
  have kept₁ := indexValue?_commit (s := s₁) (a := a₂) apart
  have kept := indexValue?_commit (s := s) (a := a₂) apart
  rw [h₁₂] at kept₁
  rw [h₂] at kept
  calc s₁₂.indexValue? key
    _ = s₁.indexValue? key := kept₁
    _ = s₂₁.indexValue? key := indexValue?_commit_congr kept.symm h₁ h₂₁

theorem isReserved_commit_comm : s₁₂.isReserved id = s₂₁.isReserved id := by
  rw [Bool.eq_iff_iff, isReserved_commit h₁₂, isReserved_commit h₁, isReserved_commit h₂₁,
    isReserved_commit h₂]
  tauto

end Orders

theorem checkVersions_commit (apart : t₁.Apart t₂) :
    (s.commit t₁ a).2.checkVersions t₂ = s.checkVersions t₂ :=
  checkVersions_congr fun d mem _ => record?_commit fun c mem' => apart.records c mem' d mem

theorem checkUniqueKeys_commit (apart : t₁.Apart t₂) :
    (s.commit t₁ a).2.checkUniqueKeys t₂ = s.checkUniqueKeys t₂ :=
  checkUniqueKeys_congr indexKinds_commit fun q mem _ =>
    indexValue?_commit fun p mem' => apart.keys p mem' q mem

def LocksAll (s : Store) (t : ChangeSet) : Prop :=
  ∀ name ∈ t.indexes.keys, (s.indexKind? name).any (·.locksKeys) = true

instance : Decidable (s.LocksAll t) :=
  inferInstanceAs (Decidable (∀ name ∈ t.indexes.keys, _))

theorem LocksAll.mem_keys {keys : List LockKey} (all : s.LocksAll t)
    (covers : s.Covers keys t) {p : IndexKey × List IndexEdit} (mem : p ∈ t.keyEdits) :
    LockKey.ofIndexKey p.1 ∈ keys := by
  obtain ⟨edits, known, -⟩ := ChangeSet.mem_keyEdits.1 mem
  have named : p.1.index ∈ t.indexes.keys := by
    rw [Std.ExtTreeMap.mem_keys, Std.ExtTreeMap.mem_iff_isSome_getElem?, known]
    rfl
  obtain ⟨kind, found, locked⟩ := covers p mem
  have locks := all p.1.index named
  rw [found] at locks
  exact locked locks

/-- Disjoint locks keep change sets apart. Two index keys may share the text of a lock, but a key
that both edit has one text in both. -/
theorem apart_of_lockKeys {keys₁ keys₂ : List LockKey} (all₁ : s.LocksAll t₁)
    (all₂ : s.LocksAll t₂) (locks₁ : s.lockKeys t₁ = .ok keys₁)
    (locks₂ : s.lockKeys t₂ = .ok keys₂) (disjoint : ∀ key ∈ keys₁, key ∉ keys₂) : t₁.Apart t₂ := by
  obtain ⟨records₁, covers₁⟩ := lockKeys_covers locks₁
  obtain ⟨records₂, covers₂⟩ := lockKeys_covers locks₂
  constructor
  · intro c mem d mem' same
    exact disjoint _ (records₁ c mem) (same ▸ records₂ d mem')
  · intro p mem q mem' same
    exact disjoint _ (all₁.mem_keys covers₁ mem) (same ▸ all₂.mem_keys covers₂ mem')

/-- Change sets that lock nothing in common can be committed in either order if their versions are
right, with the same records, index values and reserved places in the end. Each is judged after the
other as it was before. -/
theorem commit_comm {keys₁ keys₂ : List LockKey} (all₁ : s.LocksAll t₁) (all₂ : s.LocksAll t₂)
    (locks₁ : s.lockKeys t₁ = .ok keys₁) (locks₂ : s.lockKeys t₂ = .ok keys₂)
    (disjoint : ∀ key ∈ keys₁, key ∉ keys₂) (versions₁ : s.checkVersions t₁ = .ok ())
    (versions₂ : s.checkVersions t₂ = .ok ()) (a₁ a₂ : Applied) :
    ∃ s₁ s₁₂ s₂ s₂₁,
      s.commit t₁ a₁ = (.ok (), s₁) ∧ s₁.commit t₂ a₂ = (.ok (), s₁₂) ∧
      s.commit t₂ a₂ = (.ok (), s₂) ∧ s₂.commit t₁ a₁ = (.ok (), s₂₁) ∧
      s₁₂.records = s₂₁.records ∧ s₁₂.indexValues = s₂₁.indexValues ∧
      (∀ id, s₁₂.isReserved id = s₂₁.isReserved id) ∧
      s₁.checkVersions t₂ = .ok () ∧ s₂.checkVersions t₁ = .ok () ∧
      s₁.checkUniqueKeys t₂ = s.checkUniqueKeys t₂ ∧
      s₂.checkUniqueKeys t₁ = s.checkUniqueKeys t₁ := by
  have apart := apart_of_lockKeys all₁ all₂ locks₁ locks₂ disjoint
  have again₂ := (checkVersions_commit (a := a₁) apart).trans versions₂
  have again₁ := (checkVersions_commit (a := a₂) apart.symm).trans versions₁
  have h₁ : s.commit t₁ a₁ = (.ok (), _) := Prod.ext (commit_ok versions₁ a₁) rfl
  have h₂ : s.commit t₂ a₂ = (.ok (), _) := Prod.ext (commit_ok versions₂ a₂) rfl
  have h₁₂ : (s.commit t₁ a₁).2.commit t₂ a₂ = (.ok (), _) := Prod.ext (commit_ok again₂ a₂) rfl
  have h₂₁ : (s.commit t₂ a₂).2.commit t₁ a₁ = (.ok (), _) := Prod.ext (commit_ok again₁ a₁) rfl
  refine ⟨_, _, _, _, h₁, h₁₂, h₂, h₂₁, Std.ExtTreeMap.ext_getElem? fun id => ?_,
    IndexValues.ext_get? fun key => ?_, fun id => isReserved_commit_comm h₁ h₁₂ h₂ h₂₁,
    again₂, again₁, checkUniqueKeys_commit apart, checkUniqueKeys_commit apart.symm⟩
  -- Whichever record or key it is, one of the two leaves it alone.
  · by_cases named : ∃ d ∈ t₂.changes, d.record = id
    · obtain ⟨d, mem, rfl⟩ := named
      have other (c : RecordChange) (mem' : c ∈ t₁.changes) := apart.records c mem' d mem
      exact (record?_commit_comm h₂ h₂₁ h₁ h₁₂ other).symm
    · have other : ∀ c ∈ t₂.changes, c.record ≠ id := fun c mem eq => named ⟨c, mem, eq⟩
      exact record?_commit_comm h₁ h₁₂ h₂ h₂₁ other
  · by_cases named : ∃ q ∈ t₂.keyEdits, q.1 = key
    · obtain ⟨q, mem, rfl⟩ := named
      have other (p : IndexKey × List IndexEdit) (mem' : p ∈ t₁.keyEdits) := apart.keys p mem' q mem
      exact (indexValue?_commit_comm h₂ h₂₁ h₁ h₁₂ other).symm
    · have other : ∀ p ∈ t₂.keyEdits, p.1 ≠ key := fun p mem eq => named ⟨p, mem, eq⟩
      exact indexValue?_commit_comm h₁ h₁₂ h₂ h₂₁ other

/-- A store with two records, a place reserved for a third, and a unique key that is in use. -/
def shelf : Store :=
  ((occupied.insertRecord ⟨1, 0⟩ 1 [7]).insertRecord ⟨1, 1⟩ 4 []).reserve ⟨1, 2⟩

def restock : ChangeSet :=
  let updated := ChangeSet.empty.update "log" ⟨1, 0⟩ 1 [8]
  (updated.pushChange ⟨⟨1, 2⟩, "log", .created, 0, []⟩).put "idx" (some "new") ⟨1, 2⟩

def clearOut : ChangeSet :=
  (ChangeSet.empty.delete "log" ⟨1, 1⟩ 4).remove "idx" (some "k") (some ⟨9, 1⟩)

theorem commit_comm_restock : ∃ s₁ s₁₂ s₂ s₂₁,
    shelf.commit restock ⟨⟨1, 1⟩, 1⟩ = (.ok (), s₁) ∧
    s₁.commit clearOut ⟨⟨2, 1⟩, 2⟩ = (.ok (), s₁₂) ∧
    shelf.commit clearOut ⟨⟨2, 1⟩, 2⟩ = (.ok (), s₂) ∧
    s₂.commit restock ⟨⟨1, 1⟩, 1⟩ = (.ok (), s₂₁) ∧
    s₁₂.records = s₂₁.records ∧ s₁₂.indexValues = s₂₁.indexValues ∧
    (∀ id, s₁₂.isReserved id = s₂₁.isReserved id) ∧
    s₁.checkVersions clearOut = .ok () ∧ s₂.checkVersions restock = .ok () ∧
    s₁.checkUniqueKeys clearOut = shelf.checkUniqueKeys clearOut ∧
    s₂.checkUniqueKeys restock = shelf.checkUniqueKeys restock := by
  have locks₁ : shelf.lockKeys restock =
      .ok [.record ⟨1, 0⟩, .record ⟨1, 2⟩, .indexKey "idx#new"] := by decide +kernel
  have locks₂ : shelf.lockKeys clearOut = .ok [.record ⟨1, 1⟩, .indexKey "idx#k"] := by
    decide +kernel
  exact commit_comm (by decide +kernel) (by decide +kernel) locks₁ locks₂ (by decide)
    (by decide +kernel) (by decide +kernel) _ _

end Store

end QuorumCommit
