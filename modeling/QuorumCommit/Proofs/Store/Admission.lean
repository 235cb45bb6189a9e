import QuorumCommit.Proofs.Store.Reservation

/-!
What a change set locks. The keys cover every record that it changes and every index key whose
writers take turns, and they still do so when its created records have got their places.
-/
namespace QuorumCommit

theorem bind_eq_ok {α β : Type} {x : Except Fault α} {f : α → Except Fault β} {b : β} :
    x >>= f = .ok b ↔ ∃ a, x = .ok a ∧ f a = .ok b := by
  cases x with
  | error fault => simp [bind, Except.bind]
  | ok a => simp [bind, Except.bind]

/-- Each element of a traversal that succeeds has its result among the results. -/
theorem mem_of_mapM_eq_ok {α β : Type} {f : α → Except Fault β} {l : List α} {ys : List β}
    (h : l.mapM f = .ok ys) {x : α} (mem : x ∈ l) : ∃ y ∈ ys, f x = .ok y := by
  induction l generalizing ys with
  | nil => simp at mem
  | cons a rest ih =>
    rw [List.mapM_cons, bind_eq_ok] at h
    obtain ⟨b, first, h⟩ := h
    obtain ⟨bs, later, h⟩ := bind_eq_ok.1 h
    cases h
    rcases List.mem_cons.1 mem with rfl | mem
    · exact ⟨b, List.mem_cons_self, first⟩
    · obtain ⟨y, known, eq⟩ := ih later mem
      exact ⟨y, List.mem_cons_of_mem _ known, eq⟩

theorem LockKey.mem_inOrder {keys : List LockKey} {key : LockKey} :
    key ∈ LockKey.inOrder keys ↔ key ∈ keys := by
  unfold inOrder
  rw [Std.ExtTreeSet.mem_toList, Std.ExtTreeSet.mem_ofList, List.contains_iff_mem]

theorem IndexKind.locksKeys_of_isUnique {kind : IndexKind} (unique : kind.isUnique = true) :
    kind.locksKeys = true := by
  cases kind <;> first | rfl | cases unique

namespace Store

variable {s s' : Store} {t t' : ChangeSet} {keys : List LockKey} {reserved : List RecordId}

/-- All indexes of the change set are known, and `keys` has all keys of those that lock theirs. -/
def Covers (s : Store) (keys : List LockKey) (t : ChangeSet) : Prop :=
  ∀ p ∈ t.keyEdits, ∃ kind, s.indexKind? p.1.index = some kind ∧
    (kind.locksKeys = true → LockKey.ofIndexKey p.1 ∈ keys)

theorem lockKeys_covers (h : s.lockKeys t = .ok keys) :
    (∀ c ∈ t.changes, .record c.record ∈ keys) ∧ s.Covers keys t := by
  obtain ⟨lists, found, h⟩ := bind_eq_ok.1 h
  cases h
  simp only [LockKey.mem_inOrder, List.mem_append]
  refine ⟨fun c mem => .inl (List.mem_map.2 ⟨c, mem, rfl⟩), fun p mem => ?_⟩
  obtain ⟨edits, known, mem⟩ := ChangeSet.mem_keyEdits.1 mem
  obtain ⟨list, listed, eq⟩ := mem_of_mapM_eq_ok found
    (Std.ExtTreeMap.mem_toList_iff_getElem?_eq_some.2 known)
  cases kind : s.indexKind? p.1.index with
  | none =>
    simp only [kind] at eq
    cases eq
  | some k =>
    simp only [kind] at eq
    cases eq
    refine ⟨k, rfl, fun locks => ?_⟩
    rw [if_pos locks] at listed
    rw [LockKey.mem_inOrder, List.mem_append]
    exact .inr (List.mem_flatten.2 ⟨_, listed, List.mem_map.2 ⟨_, mem, rfl⟩⟩)

theorem Covers.renameAll (h : s.Covers keys t) (pairs : List (RecordId × RecordId)) :
    s.Covers keys (t.renameAll pairs) := by
  intro p mem
  obtain ⟨es, known⟩ := ChangeSet.mem_keyEdits_renameAll mem
  exact h (p.1, es) known

theorem Covers.mono (h : s.Covers keys t) {more : List LockKey} (sub : keys ⊆ more) :
    s.Covers more t := by
  intro p mem
  obtain ⟨kind, known, locked⟩ := h p mem
  exact ⟨kind, known, fun locks => sub (locked locks)⟩

theorem Covers.congr (h : s.Covers keys t) (kinds : s'.indexKinds = s.indexKinds) :
    s'.Covers keys t := by
  intro p mem
  unfold indexKind?
  rw [kinds]
  exact h p mem

end Store

end QuorumCommit
