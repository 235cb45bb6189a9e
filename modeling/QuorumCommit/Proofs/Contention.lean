import Mathlib.Logic.Function.Basic
import Mathlib.Logic.Relation
import QuorumCommit.Proofs.LockTable
import QuorumCommit.Proofs.Store.Admission

/-!
Transactions that take their keys in the order of `Store.lockKeys`, one attempt at a time. The key
that a transaction lacks comes after every key that it holds, so a transaction that waits is behind
the one it waits for, and no chain of waiting transactions comes back to where it began.
-/
namespace QuorumCommit

/-- Every result of a traversal comes from an element of the list. -/
theorem of_mem_mapM_eq_ok {α β : Type} {f : α → Except Fault β} {l : List α} {ys : List β}
    (h : l.mapM f = .ok ys) {y : β} (mem : y ∈ ys) : ∃ x ∈ l, f x = .ok y := by
  induction l generalizing ys with
  | nil =>
    cases h
    simp at mem
  | cons a rest ih =>
    rw [List.mapM_cons, bind_eq_ok] at h
    obtain ⟨b, first, h⟩ := h
    obtain ⟨bs, later, h⟩ := bind_eq_ok.1 h
    cases h
    rcases List.mem_cons.1 mem with rfl | mem
    · exact ⟨a, List.mem_cons_self, first⟩
    · obtain ⟨x, known, eq⟩ := ih later mem
      exact ⟨x, List.mem_cons_of_mem _ known, eq⟩

namespace LockKey

theorem inOrder_sorted (keys : List LockKey) :
    (inOrder keys).Pairwise fun a b => compare a b = .lt :=
  Std.ExtTreeSet.ordered_toList

theorem inOrder_congr {keys others : List LockKey} (same : ∀ key, key ∈ keys ↔ key ∈ others) :
    inOrder keys = inOrder others := by
  unfold inOrder
  refine congrArg _ (Std.ExtTreeSet.ext_mem fun key => ?_)
  rw [Std.ExtTreeSet.mem_ofList, Std.ExtTreeSet.mem_ofList, List.contains_iff_mem,
    List.contains_iff_mem]
  exact same key

end LockKey

namespace Store

variable {s s' : Store} {t t' : ChangeSet} {keys keys' : List LockKey}

def Lockable (s : Store) (t : ChangeSet) (key : IndexKey) : Prop :=
  (∃ edits, (key, edits) ∈ t.keyEdits) ∧
    ∃ kind, s.indexKind? key.index = some kind ∧ kind.locksKeys = true

theorem lockKeys_sorted (h : s.lockKeys t = .ok keys) :
    keys.Pairwise fun a b => compare a b = .lt := by
  obtain ⟨lists, -, h⟩ := bind_eq_ok.1 h
  cases h
  exact LockKey.inOrder_sorted _

/-- The keys of a change set are those of its records and of its lockable index keys. -/
theorem mem_lockKeys (h : s.lockKeys t = .ok keys) {key : LockKey} :
    key ∈ keys ↔ (∃ c ∈ t.changes, .record c.record = key) ∨
      ∃ k, s.Lockable t k ∧ .ofIndexKey k = key := by
  constructor
  · intro mem
    obtain ⟨lists, found, h⟩ := bind_eq_ok.1 h
    cases h
    rw [LockKey.mem_inOrder, List.mem_append] at mem
    rcases mem with record | entry
    · obtain ⟨c, known, rfl⟩ := List.mem_map.1 record
      exact .inl ⟨c, known, rfl⟩
    · obtain ⟨list, listed, mem⟩ := List.mem_flatten.1 entry
      obtain ⟨⟨name, edits⟩, known, eq⟩ := of_mem_mapM_eq_ok found listed
      rw [Std.ExtTreeMap.mem_toList_iff_getElem?_eq_some] at known
      cases kind : s.indexKind? name with
      | none =>
        simp only [kind] at eq
        cases eq
      | some k =>
        simp only [kind] at eq
        cases eq
        split at mem
        · next locks =>
          obtain ⟨⟨text, es⟩, edited, rfl⟩ := List.mem_map.1 mem
          exact .inr ⟨⟨name, text⟩,
            ⟨⟨es, ChangeSet.mem_keyEdits.2 ⟨edits, known, edited⟩⟩, k, kind, locks⟩, rfl⟩
        · simp at mem
  · obtain ⟨records, covers⟩ := lockKeys_covers h
    rintro (⟨c, known, rfl⟩ | ⟨k, ⟨⟨edits, edited⟩, kind, known, locks⟩, rfl⟩)
    · exact records c known
    · obtain ⟨kind', known', locked⟩ := covers (k, edits) edited
      cases known.symm.trans known'
      exact locked locks

/-- Change sets with the same records and the same lockable index keys lock in the same order. -/
theorem lockKeys_congr (h : s.lockKeys t = .ok keys) (h' : s'.lockKeys t' = .ok keys')
    (records : ∀ id, (∃ c ∈ t.changes, c.record = id) ↔ ∃ c ∈ t'.changes, c.record = id)
    (indexKeys : ∀ key, s.Lockable t key ↔ s'.Lockable t' key) : keys = keys' := by
  have same : ∀ key, key ∈ keys ↔ key ∈ keys' := by
    intro key
    rw [mem_lockKeys h, mem_lockKeys h']
    simp only [indexKeys]
    refine or_congr_left ⟨?_, ?_⟩
    · rintro ⟨c, known, rfl⟩
      obtain ⟨c', known', eq⟩ := (records c.record).1 ⟨c, known, rfl⟩
      exact ⟨c', known', congrArg LockKey.record eq⟩
    · rintro ⟨c, known, rfl⟩
      obtain ⟨c', known', eq⟩ := (records c.record).2 ⟨c, known, rfl⟩
      exact ⟨c', known', congrArg LockKey.record eq⟩
  obtain ⟨lists, -, h⟩ := bind_eq_ok.1 h
  obtain ⟨lists', -, h'⟩ := bind_eq_ok.1 h'
  cases h
  cases h'
  exact LockKey.inOrder_congr fun key => by simpa only [LockKey.mem_inOrder] using same key

end Store

/-- Who holds which key, and how many of its keys each transaction has taken. -/
structure Contention (ι : Type) where
  table : LockTable
  taken : ι → Nat

namespace Contention

inductive Move (ι : Type) where
  | attempt (i : ι)
  | release (i : ι)
  deriving DecidableEq, Repr

def start {ι : Type} : Contention ι := ⟨.empty, fun _ => 0⟩

variable {ι : Type} (request : ι → RequestId) (keys : ι → List LockKey)

def next? (s : Contention ι) (i : ι) : Option LockKey := (keys i)[s.taken i]?

/-- An attempt that is refused changes nothing. Keys are given back once all of them are taken. -/
def step [DecidableEq ι] (s : Contention ι) : Move ι → Contention ι
  | .attempt i =>
    match s.next? keys i with
    | none => s
    | some key =>
      match s.table.lock key (request i) with
      | .ok table => ⟨table, Function.update s.taken i (s.taken i + 1)⟩
      | .error _ => s
  | .release i =>
    if s.taken i = (keys i).length then
      { s with table := s.table.unlockAll (keys i) (request i) }
    else s

def run [DecidableEq ι] (moves : List (Move ι)) : Contention ι :=
  moves.foldl (step request keys) start

def WaitsFor (s : Contention ι) (i j : ι) : Prop :=
  ∃ key, s.next? keys i = some key ∧ s.table.tryLock key (request i) = .error (request j)

def Orderly (s : Contention ι) : Prop :=
  ∀ key holder, s.table.holder? key = some holder →
    ∃ i, request i = holder ∧ key ∈ (keys i).take (s.taken i)

variable {request : ι → RequestId} {keys : ι → List LockKey} {s : Contention ι} {i j : ι}

theorem orderly_start : (start : Contention ι).Orderly request keys := by
  intro key holder held
  rw [start, LockTable.holder?_empty] at held
  cases held

theorem Orderly.step [DecidableEq ι] (h : s.Orderly request keys) (move : Move ι) :
    (s.step request keys move).Orderly request keys := by
  cases move with
  | attempt i =>
    simp only [Contention.step]
    cases upcoming : s.next? keys i with
    | none => exact h
    | some key =>
      cases locked : s.table.lock key (request i) with
      | error _ => simpa only [locked] using h
      | ok table =>
        simp only [locked]
        intro other holder held
        rw [LockTable.holder?_lock locked] at held
        split at held
        · next same =>
          cases held
          subst same
          refine ⟨i, rfl, List.mem_of_getElem? (i := s.taken i) ?_⟩
          simp only [Function.update_self]
          rw [List.getElem?_take_of_lt (Nat.lt_succ_self _)]
          exact upcoming
        · obtain ⟨k, same, early⟩ := h other holder held
          refine ⟨k, same, List.take_subset_take_left _ ?_ early⟩
          by_cases own : k = i
          · subst own
            simp only [Function.update_self, Nat.le_succ]
          · simp only [Function.update_of_ne own, Nat.le_refl]
  | release i =>
    simp only [Contention.step]
    split
    · intro key holder held
      rw [LockTable.holder?_unlockAll] at held
      split at held
      · cases held
      · exact h key holder held
    · exact h

theorem orderly_run [DecidableEq ι] (moves : List (Move ι)) :
    (run request keys moves).Orderly request keys := by
  suffices ∀ s : Contention ι, s.Orderly request keys →
      (moves.foldl (Contention.step request keys) s).Orderly request keys from
    this start orderly_start
  induction moves with
  | nil => exact fun _ h => h
  | cons move rest ih => exact fun s h => ih _ (h.step move)

/-- Whoever waits lacks an earlier key than the one it waits for. -/
theorem Orderly.next_lt (h : s.Orderly request keys) (distinct : Function.Injective request)
    (sorted : ∀ i, (keys i).Pairwise fun a b => compare a b = .lt)
    (waits : s.WaitsFor request keys i j) {a b : LockKey} (ha : s.next? keys i = some a)
    (hb : s.next? keys j = some b) : compare a b = .lt := by
  obtain ⟨key, next, refused⟩ := waits
  cases ha.symm.trans next
  have held : s.table.holder? a = some (request j) := by
    unfold LockTable.tryLock at refused
    split at refused
    · cases refused
    · next holder known =>
      split at refused
      · cases refused
      · cases refused
        exact known
  obtain ⟨k, same, early⟩ := h a (request j) held
  cases distinct same
  obtain ⟨n, lt, rfl⟩ := List.mem_take_iff_getElem.1 early
  obtain ⟨bound, rfl⟩ := List.getElem?_eq_some_iff.1 hb
  exact List.pairwise_iff_getElem.1 (sorted j) n (s.taken j) (by omega) bound (by omega)

theorem Orderly.chain_lt (h : s.Orderly request keys) (distinct : Function.Injective request)
    (sorted : ∀ i, (keys i).Pairwise fun a b => compare a b = .lt)
    (chain : Relation.TransGen (s.WaitsFor request keys) i j) {a b : LockKey}
    (ha : s.next? keys i = some a) (hb : s.next? keys j = some b) : compare a b = .lt := by
  induction chain generalizing b with
  | single waits => exact h.next_lt distinct sorted waits ha hb
  | tail _ waits ih =>
    obtain ⟨c, hc, refused⟩ := id waits
    exact Std.TransCmp.lt_trans (ih hc)
      (h.next_lt distinct sorted waits hc hb)

/-- Transactions that ask for the keys of their change sets in order never wait in a circle, however
their attempts interleave. The order is one of the keys and not of the change set: it depends only
on which records and lockable index keys there are. -/
theorem run_waitsFor_acyclic [DecidableEq ι] (distinct : Function.Injective request)
    {store : ι → Store} {changes : ι → ChangeSet}
    (asked : ∀ i, (store i).lockKeys (changes i) = .ok (keys i)) :
    (∀ moves i, ¬ Relation.TransGen ((run request keys moves).WaitsFor request keys) i i) ∧
      ∀ i j,
        (∀ id, (∃ c ∈ (changes i).changes, c.record = id) ↔
          ∃ c ∈ (changes j).changes, c.record = id) →
        (∀ key, (store i).Lockable (changes i) key ↔ (store j).Lockable (changes j) key) →
        keys i = keys j := by
  refine ⟨fun moves i circle => ?_, fun i j => Store.lockKeys_congr (asked i) (asked j)⟩
  have waits : ∃ k, (run request keys moves).WaitsFor request keys i k := by
    obtain ⟨k, waits, -⟩ := Relation.TransGen.head'_iff.1 circle
    exact ⟨k, waits⟩
  obtain ⟨k, key, next, -⟩ := waits
  have lt := (orderly_run moves).chain_lt distinct (fun i => Store.lockKeys_sorted (asked i))
    circle next next
  cases lt.symm.trans Std.ReflCmp.compare_self

/-- Two transactions that name the same records and index key in opposite orders. -/
def crossed : Bool → ChangeSet
  | false =>
    ((ChangeSet.empty.update "person" ⟨9, 1⟩ 1 [1]).update "person" ⟨9, 0⟩ 1 [1]).put "names"
      (some "ada") ⟨9, 0⟩
  | true =>
    ((ChangeSet.empty.put "names" (some "ada") ⟨9, 1⟩).update "person" ⟨9, 0⟩ 1 [2]).update "person"
      ⟨9, 1⟩ 1 [2]

theorem run_waitsFor_acyclic_crossed :
    let request : Bool → RequestId := fun i => ⟨cond i 2 1, 1⟩
    let keys := fun _ : Bool => [.record ⟨9, 0⟩, .record ⟨9, 1⟩, .indexKey "names#ada"]
    let s := run request keys [.attempt false, .attempt true, .attempt false]
    (∀ i, ((Store.empty none).defineIndex "names" .dictionary).lockKeys (crossed i) =
        .ok (keys i)) ∧
      s.WaitsFor request keys true false ∧
      ∀ i, ¬ Relation.TransGen (s.WaitsFor request keys) i i := by
  have distinct : Function.Injective fun i : Bool => (⟨cond i 2 1, 1⟩ : RequestId) := by
    intro i j
    cases i <;> cases j <;> simp
  have asked : ∀ i, ((Store.empty none).defineIndex "names" .dictionary).lockKeys (crossed i) =
      .ok [.record ⟨9, 0⟩, .record ⟨9, 1⟩, .indexKey "names#ada"] := by
    intro i
    cases i <;> rfl
  exact ⟨asked, ⟨.record ⟨9, 0⟩, rfl, rfl⟩, (run_waitsFor_acyclic distinct asked).1 _⟩

end Contention

end QuorumCommit
