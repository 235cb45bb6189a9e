import QuorumCommit.ChangeSet

/-!
Renaming of record ids in a change set. Renaming puts one id in the place of another wherever it
stands, and a sequence of renamings does so for all of its ids at once; if no new id is renamed
again, every id goes to its partner.
-/
namespace QuorumCommit

namespace RecordId

def replace (old new id : RecordId) : RecordId := if id = old then new else id

def replaceAll (pairs : List (RecordId × RecordId)) (id : RecordId) : RecordId :=
  pairs.foldl (fun id (old, new) => replace old new id) id

@[simp] theorem replaceAll_cons (old new id : RecordId) (rest : List (RecordId × RecordId)) :
    replaceAll ((old, new) :: rest) id = replaceAll rest (replace old new id) := rfl

theorem replaceAll_of_notMem {pairs : List (RecordId × RecordId)} {id : RecordId}
    (h : id ∉ pairs.map (·.1)) : replaceAll pairs id = id := by
  induction pairs with
  | nil => rfl
  | cons p rest ih =>
    rw [List.map_cons, List.mem_cons, not_or] at h
    rw [replaceAll_cons, replace, if_neg h.1]
    exact ih h.2

/-- An id stays as it is or becomes one of the new ids. -/
theorem replaceAll_cases (pairs : List (RecordId × RecordId)) (id : RecordId) :
    replaceAll pairs id ∈ pairs.map (·.2) ∨ replaceAll pairs id = id := by
  induction pairs generalizing id with
  | nil => exact .inr rfl
  | cons p rest ih =>
    rw [replaceAll_cons, List.map_cons, List.mem_cons]
    rcases ih (replace p.1 p.2 id) with new | same
    · exact .inl (.inr new)
    · rw [same, replace]
      split
      · exact .inl (.inl rfl)
      · exact .inr rfl

/-- An id that is renamed becomes one of the new ids. -/
theorem replaceAll_mem_map {pairs : List (RecordId × RecordId)} {id : RecordId}
    (h : id ∈ pairs.map (·.1)) : replaceAll pairs id ∈ pairs.map (·.2) := by
  induction pairs with
  | nil => cases h
  | cons p rest ih =>
    rw [List.map_cons, List.mem_cons] at h ⊢
    rw [replaceAll_cons, replace]
    by_cases same : id = p.1
    · rw [if_pos same]
      exact (replaceAll_cases rest p.2).symm
    · rw [if_neg same]
      exact .inr (ih (h.resolve_left same))

/-- An id that is renamed goes to one of its partners, if no new id is renamed itself. -/
theorem replaceAll_mem {pairs : List (RecordId × RecordId)} {id : RecordId}
    (apart : ∀ p ∈ pairs, p.2 ∉ pairs.map (·.1)) (h : id ∈ pairs.map (·.1)) :
    (id, replaceAll pairs id) ∈ pairs := by
  induction pairs with
  | nil => simp at h
  | cons p rest ih =>
    obtain ⟨old, new⟩ := p
    by_cases same : id = old
    · have settled : new ∉ rest.map (·.1) := fun mem =>
        apart (old, new) List.mem_cons_self (List.mem_cons_of_mem _ mem)
      rw [replaceAll_cons, replace, if_pos same, replaceAll_of_notMem settled, same]
      exact List.mem_cons_self
    · rw [replaceAll_cons, replace, if_neg same]
      rw [List.map_cons, List.mem_cons] at h
      refine List.mem_cons_of_mem _ (ih (fun q mem known => ?_) (h.resolve_left same))
      exact apart q (List.mem_cons_of_mem _ mem) (List.mem_cons_of_mem _ known)

end RecordId

variable {f g : RecordId → RecordId} {old new : RecordId}

def RecordChange.relabel (f : RecordId → RecordId) (c : RecordChange) : RecordChange :=
  { c with record := f c.record }

def IndexEdit.relabel (f : RecordId → RecordId) (e : IndexEdit) : IndexEdit :=
  { e with value := e.value.map f }

def IndexEdits.relabel (f : RecordId → RecordId) (e : IndexEdits) : IndexEdits :=
  ⟨e.keyed.map fun _ edits => edits.map (·.relabel f), e.unkeyed.map (·.relabel f)⟩

/-- Puts the image of an id wherever the id stands, all ids at once. -/
def ChangeSet.relabel (f : RecordId → RecordId) (t : ChangeSet) : ChangeSet :=
  { t with
    changes := t.changes.map (·.relabel f)
    indexes := t.indexes.map fun _ edits => edits.relabel f }

theorem RecordChange.rename_eq :
    RecordChange.rename old new = RecordChange.relabel (RecordId.replace old new) := by
  funext c
  unfold RecordChange.rename RecordChange.relabel RecordId.replace
  split <;> rfl

theorem IndexEdit.rename_eq :
    IndexEdit.rename old new = IndexEdit.relabel (RecordId.replace old new) := by
  funext ⟨action, value⟩
  unfold IndexEdit.rename IndexEdit.relabel RecordId.replace
  cases value with
  | none => rfl
  | some id =>
    simp only [Option.map_some, Option.some.injEq]
    split <;> rfl

theorem IndexEdits.rename_eq :
    IndexEdits.rename old new = IndexEdits.relabel (RecordId.replace old new) := by
  unfold IndexEdits.rename
  rw [IndexEdit.rename_eq]
  rfl

theorem IndexEdits.relabel_relabel (e : IndexEdits) :
    (e.relabel f).relabel g = e.relabel (g ∘ f) := by
  have edit (edits : List IndexEdit) :
      (edits.map (·.relabel f)).map (·.relabel g) = edits.map (·.relabel (g ∘ f)) := by
    simp [IndexEdit.relabel, Function.comp_def]
  simp only [relabel, Std.ExtTreeMap.map_map, edit]

namespace ChangeSet

theorem relabel_id (t : ChangeSet) : t.relabel id = t := by
  have edits (e : IndexEdits) : e.relabel id = e := by
    simp [IndexEdits.relabel, IndexEdit.relabel]
  simp [relabel, RecordChange.relabel, edits]

theorem relabel_relabel (t : ChangeSet) : (t.relabel f).relabel g = t.relabel (g ∘ f) := by
  simp only [relabel, List.map_map, Std.ExtTreeMap.map_map, IndexEdits.relabel_relabel]
  rfl

theorem rename_eq (t : ChangeSet) : t.rename old new = t.relabel (RecordId.replace old new) := by
  unfold rename relabel
  rw [RecordChange.rename_eq, IndexEdits.rename_eq]

theorem createdRecords_relabel (t : ChangeSet) :
    (t.relabel f).createdRecords = t.createdRecords.map f := by
  simp only [createdRecords, relabel, List.filter_map, List.map_map]
  rfl

theorem clusters_relabel (t : ChangeSet) : (t.relabel f).clusters = t.clusters := by
  simp only [clusters, relabel, List.map_map]
  rfl

theorem mem_keyEdits {t : ChangeSet} {p : IndexKey × List IndexEdit} :
    p ∈ t.keyEdits ↔ ∃ edits, t.indexes[p.1.index]? = some edits ∧
      (p.1.key, p.2) ∈ edits.toList := by
  obtain ⟨⟨index, key⟩, es⟩ := p
  unfold keyEdits
  simp only [List.mem_flatMap, List.mem_map, Prod.exists, Prod.mk.injEq, IndexKey.mk.injEq,
    Std.ExtTreeMap.mem_toList_iff_getElem?_eq_some]
  constructor
  · rintro ⟨_, edits, known, _, _, mem, ⟨rfl, rfl⟩, rfl⟩
    exact ⟨edits, known, mem⟩
  · rintro ⟨edits, known, mem⟩
    exact ⟨index, edits, known, key, es, mem, ⟨rfl, rfl⟩, rfl⟩

/-- Record ids may change under an index key, but the keys with edits do not. -/
theorem mem_keyEdits_relabel {t : ChangeSet} {p : IndexKey × List IndexEdit}
    (mem : p ∈ (t.relabel f).keyEdits) : ∃ es, (p.1, es) ∈ t.keyEdits := by
  obtain ⟨edits, known, mem⟩ := mem_keyEdits.1 mem
  have relabelled : (t.indexes.map fun _ edits => edits.relabel f)[p.1.index]? = some edits := known
  rw [Std.ExtTreeMap.getElem?_map, Option.map_eq_some_iff] at relabelled
  obtain ⟨before, found, rfl⟩ := relabelled
  suffices ∃ es, (p.1.key, es) ∈ before.toList by
    obtain ⟨es, mem⟩ := this
    exact ⟨es, mem_keyEdits.2 ⟨before, found, mem⟩⟩
  unfold IndexEdits.toList IndexEdits.relabel at mem
  unfold IndexEdits.toList
  rw [List.mem_append] at mem
  rcases mem with keyed | unkeyed
  · rw [Std.ExtTreeMap.toList_map, List.map_map] at keyed
    obtain ⟨q, mem, eq⟩ := List.mem_map.1 keyed
    have key : some q.1 = p.1.key := congrArg Prod.fst eq
    exact ⟨q.2, List.mem_append_left _ (List.mem_map.2 ⟨q, mem, Prod.ext key rfl⟩)⟩
  · rw [List.isEmpty_map] at unkeyed
    refine ⟨before.unkeyed, List.mem_append_right _ ?_⟩
    split at unkeyed
    · simp at unkeyed
    · next some =>
      rw [if_neg some]
      rw [List.mem_singleton, Prod.mk.injEq] at unkeyed
      rw [List.mem_singleton, unkeyed.1]

def renameAll (t : ChangeSet) (pairs : List (RecordId × RecordId)) : ChangeSet :=
  pairs.foldl (fun t (old, new) => t.rename old new) t

/-- Renamings one after the other do what one does at once. -/
theorem renameAll_eq (pairs : List (RecordId × RecordId)) (t : ChangeSet) :
    t.renameAll pairs = t.relabel (RecordId.replaceAll pairs) := by
  induction pairs generalizing t with
  | nil => exact t.relabel_id.symm
  | cons p rest ih =>
    calc t.renameAll (p :: rest)
      _ = (t.rename p.1 p.2).renameAll rest := rfl
      _ = (t.relabel (RecordId.replace p.1 p.2)).relabel (RecordId.replaceAll rest) := by
        rw [ih, rename_eq]
      _ = t.relabel (RecordId.replaceAll (p :: rest)) := relabel_relabel t

theorem createdRecords_renameAll (pairs : List (RecordId × RecordId)) (t : ChangeSet) :
    (t.renameAll pairs).createdRecords = t.createdRecords.map (RecordId.replaceAll pairs) := by
  rw [renameAll_eq, createdRecords_relabel]

theorem clusters_renameAll (pairs : List (RecordId × RecordId)) (t : ChangeSet) :
    (t.renameAll pairs).clusters = t.clusters := by
  rw [renameAll_eq, clusters_relabel]

/-- A change after some renamings is one of a record as before, or of a new id. -/
theorem record_of_mem_renameAll {pairs : List (RecordId × RecordId)} {t : ChangeSet}
    {c : RecordChange} (mem : c ∈ (t.renameAll pairs).changes) :
    c.record ∈ pairs.map (·.2) ∨ ∃ old ∈ t.changes, old.record = c.record := by
  rw [renameAll_eq] at mem
  obtain ⟨old, listed, rfl⟩ := List.mem_map.1 mem
  exact (RecordId.replaceAll_cases pairs old.record).imp_right fun same => ⟨old, listed, same.symm⟩

theorem mem_keyEdits_renameAll {pairs : List (RecordId × RecordId)} {t : ChangeSet}
    {p : IndexKey × List IndexEdit} (mem : p ∈ (t.renameAll pairs).keyEdits) :
    ∃ es, (p.1, es) ∈ t.keyEdits := by
  rw [renameAll_eq] at mem
  exact mem_keyEdits_relabel mem

/-- A change set without temporary ids has none to replace. -/
theorem hasTemporary_eq_false {t : ChangeSet} :
    t.hasTemporary = false ↔ ∀ id ∈ t.createdRecords, id.isTemporary = false := by
  simp [hasTemporary]

end ChangeSet

end QuorumCommit
