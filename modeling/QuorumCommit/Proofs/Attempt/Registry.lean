import Mathlib.Data.Multiset.Bind
import QuorumCommit.Attempt.Registry

/-!
The attempts of a registry. As each waits under its own request, taking one out and putting it back
is taking it out of a multiset and adding it again.
-/
namespace QuorumCommit.Registry

variable {g : Registry} {a : Attempt} {request q : RequestId}

def Keyed (g : Registry) : Prop := ∀ request a, g.get? request = some a → a.request = request

def all (g : Registry) : Multiset Attempt := (g.attempts.toList.map (·.2) : List Attempt)

@[simp] theorem get?_empty : empty.get? request = none := by
  simp [get?, empty]

theorem get?_insert : (g.insert a).get? q = if q = a.request then some a else g.get? q := by
  simp only [get?, insert, Std.ExtTreeMap.getElem?_insert, Std.compare_eq_iff_eq]
  grind

theorem get?_erase : (g.erase request).get? q = if q = request then none else g.get? q := by
  simp only [get?, erase, Std.ExtTreeMap.getElem?_erase, Std.compare_eq_iff_eq]
  grind

theorem Keyed.empty : empty.Keyed := fun request a found => by
  rw [get?_empty] at found
  cases found

theorem Keyed.insert (h : g.Keyed) (a : Attempt) : (g.insert a).Keyed := by
  intro q c found
  rw [get?_insert] at found
  split at found
  · next eq =>
    cases found
    exact eq.symm
  · exact h q c found

theorem Keyed.erase (h : g.Keyed) (request : RequestId) : (g.erase request).Keyed := by
  intro q c found
  rw [get?_erase] at found
  split at found
  · cases found
  · exact h q c found

theorem mem_all : a ∈ g.all ↔ ∃ request, g.get? request = some a := by
  unfold all get?
  rw [Multiset.mem_coe, List.mem_map]
  constructor
  · rintro ⟨⟨request, c⟩, mem, rfl⟩
    exact ⟨request, Std.ExtTreeMap.mem_toList_iff_getElem?_eq_some.1 mem⟩
  · rintro ⟨request, found⟩
    exact ⟨(request, a), Std.ExtTreeMap.mem_toList_iff_getElem?_eq_some.2 found, rfl⟩

/-- An attempt that waits under its request is the one that is found there. -/
theorem Keyed.get?_of_mem (h : g.Keyed) (mem : a ∈ g.all) : g.get? a.request = some a := by
  obtain ⟨request, found⟩ := mem_all.1 mem
  rw [h request a found]
  exact found

@[simp] theorem all_empty : empty.all = 0 := by
  refine Multiset.eq_zero_of_forall_notMem fun a mem => ?_
  obtain ⟨request, found⟩ := mem_all.1 mem
  rw [get?_empty] at found
  cases found

def entries (g : Registry) : Multiset (RequestId × Attempt) := (g.attempts.toList : List _)

theorem mem_entries {p : RequestId × Attempt} : p ∈ g.entries ↔ g.get? p.1 = some p.2 := by
  unfold entries get?
  rw [Multiset.mem_coe]
  exact Std.ExtTreeMap.mem_toList_iff_getElem?_eq_some

theorem nodup_entries (g : Registry) : g.entries.Nodup := by
  refine Multiset.coe_nodup.2 (Std.ExtTreeMap.distinct_keys_toList.imp fun {p q} apart eq => ?_)
  exact apart (by rw [eq]; exact Std.compare_self)

theorem all_eq_map_entries (g : Registry) : g.all = g.entries.map (·.2) := rfl

theorem entries_erase (found : g.get? request = some a) :
    g.entries = (request, a) ::ₘ (g.erase request).entries := by
  refine (Multiset.Nodup.ext g.nodup_entries ?_).2 fun p => ?_
  · refine Multiset.nodup_cons.2 ⟨fun mem => ?_, (g.erase request).nodup_entries⟩
    rw [mem_entries, get?_erase, if_pos rfl] at mem
    cases mem
  · rw [Multiset.mem_cons, mem_entries, mem_entries, get?_erase]
    obtain ⟨q, c⟩ := p
    by_cases same : q = request
    · subst same
      simp [found, eq_comm]
    · simp [same]

/-- An attempt that is taken out. -/
theorem all_erase (found : g.get? request = some a) : g.all = a ::ₘ (g.erase request).all := by
  rw [all_eq_map_entries, entries_erase found, Multiset.map_cons]
  rfl

/-- A registry is what is found in it. -/
theorem ext_get? {g' : Registry} (same : ∀ q, g.get? q = g'.get? q) : g = g' := by
  cases g
  cases g'
  exact congrArg Registry.mk (Std.ExtTreeMap.ext_getElem? same)

theorem erase_of_none (none : g.get? request = none) : g.erase request = g := by
  refine ext_get? fun q => ?_
  rw [get?_erase]
  split
  · next same => rw [same, none]
  · rfl

theorem erase_insert (g : Registry) (a : Attempt) :
    (g.insert a).erase a.request = g.erase a.request := by
  refine ext_get? fun q => ?_
  rw [get?_erase, get?_erase, get?_insert]
  split <;> rfl

/-- An attempt is added to those of other requests. -/
theorem all_insert (g : Registry) (a : Attempt) :
    (g.insert a).all = a ::ₘ (g.erase a.request).all := by
  have found : (g.insert a).get? a.request = some a := by rw [get?_insert, if_pos rfl]
  rw [all_erase found, erase_insert]

theorem values_eq (g : Registry) : g.attempts.values = g.attempts.toList.map (·.2) := by
  have fold : g.attempts.values =
      g.attempts.foldr (fun _ a (all : List Attempt) => a :: all) [] := rfl
  rw [fold, Std.ExtTreeMap.foldr_eq_foldr_toList]
  induction g.attempts.toList with
  | nil => rfl
  | cons p rest ih => rw [List.foldr_cons, ih, List.map_cons]

end QuorumCommit.Registry
