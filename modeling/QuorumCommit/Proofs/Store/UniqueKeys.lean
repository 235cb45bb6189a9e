import Mathlib.Data.List.Induction
import Mathlib.Data.List.Nodup
import Mathlib.Tactic.ByContra
import QuorumCommit.Proofs.Store.Footprint

/-!
What the check of unique keys is worth when the index edits are replayed. The check reads the last
edit of a key only, the replay runs through all of them. A key that gets a record by its last edit
alone never has one displaced. A key that gets records before that is safe just when the records
take turns: between two that differ stands an edit that clears the first.
-/
namespace QuorumCommit

namespace IndexEdit

variable {e : IndexEdit} {current : Option RecordId} {r q : RecordId} {edits : List IndexEdit}

/-- The key does not lead to this record after the edit, whatever was there before. -/
def Clears (e : IndexEdit) (r : RecordId) : Prop := e.value = none ∨ e = ⟨.remove, some r⟩

def Displaces (e : IndexEdit) (current : Option RecordId) : Prop :=
  ∃ old new, current = some old ∧ e = ⟨.put, some new⟩ ∧ old ≠ new

def replay (current : Option RecordId) (edits : List IndexEdit) : Option RecordId :=
  edits.foldl (fun current e => e.apply current) current

/-- No edit puts a record where another one stands. -/
def Undisturbed (current : Option RecordId) (edits : List IndexEdit) : Prop :=
  ∀ done e rest, edits = done ++ e :: rest → ¬ e.Displaces (replay current done)

/-- Of two records that are put one after the other, the first is cleared before the second. -/
def InTurn (edits : List IndexEdit) : Prop :=
  ∀ before q between r after,
    edits = before ++ ⟨.put, some q⟩ :: (between ++ ⟨.put, some r⟩ :: after) →
      q ≠ r → ∃ e ∈ between, e.Clears q

def PutsEarly (edits : List IndexEdit) : Prop := ∃ r, ⟨.put, some r⟩ ∈ edits.dropLast

/-- The edit that would have put the present record of a key. -/
def present (current : Option RecordId) : List IndexEdit :=
  current.toList.map fun r => ⟨.put, some r⟩

theorem apply_eq_some :
    e.apply current = some r ↔ e = ⟨.put, some r⟩ ∨
      current = some r ∧ ¬ e.Clears r ∧ e.action = .remove := by
  obtain ⟨action, value⟩ := e
  cases action <;> cases value <;> simp [apply, Clears, eq_comm]
  constructor
  · rintro ⟨named, rfl⟩
    exact ⟨rfl, fun same => named (same ▸ rfl)⟩
  · rintro ⟨rfl, named⟩
    exact ⟨fun same => named (Option.some.inj same), rfl⟩

/-- A record stays if the edit neither clears it nor puts another one in its place. -/
theorem apply_some (kept : ¬ e.Clears r) (calm : ¬ e.Displaces (some r)) :
    e.apply (some r) = some r := by
  obtain ⟨action, value⟩ := e
  refine apply_eq_some.2 ?_
  cases action with
  | remove => exact .inr ⟨rfl, kept, rfl⟩
  | put =>
    cases value with
    | none => exact absurd (.inl rfl) kept
    | some new =>
      have same : r = new := Classical.byContradiction fun other =>
        calm ⟨r, new, rfl, rfl, other⟩
      exact .inl (same ▸ rfl)

theorem replay_concat : replay current (edits ++ [e]) = e.apply (replay current edits) := by
  simp [replay]

/-- The record of a key was put there and not cleared since, or it was there from the start. -/
theorem replay_eq_some (h : replay current edits = some q) :
    (∃ before since, edits = before ++ ⟨.put, some q⟩ :: since ∧ ∀ e ∈ since, ¬ e.Clears q) ∨
      current = some q ∧ ∀ e ∈ edits, ¬ e.Clears q := by
  induction edits using List.reverseRecOn with
  | nil => exact .inr ⟨h, nofun⟩
  | append_singleton edits e ih =>
    rw [replay_concat, apply_eq_some] at h
    rcases h with rfl | ⟨here, kept, -⟩
    · exact .inl ⟨edits, [], rfl, nofun⟩
    · have later {since : List IndexEdit} (h : ∀ e ∈ since, ¬ e.Clears q) :
          ∀ e' ∈ since ++ [e], ¬ e'.Clears q := by
        intro e' mem
        rcases List.mem_append.1 mem with mem | mem
        · exact h e' mem
        · rw [List.mem_singleton.1 mem]
          exact kept
      rcases ih here with ⟨before, since, rfl, none⟩ | ⟨start, none⟩
      · exact .inl ⟨before, since ++ [e], by simp, later none⟩
      · exact .inr ⟨start, later none⟩

theorem Undisturbed.initial {more : List IndexEdit} (h : Undisturbed current (edits ++ more)) :
    Undisturbed current edits := by
  intro done e rest split
  exact h done e (rest ++ more) (by simp [split])

theorem Undisturbed.later {more : List IndexEdit} (h : Undisturbed current (edits ++ more)) :
    Undisturbed (replay current edits) more := by
  intro done e rest split
  have calm := h (edits ++ done) e rest (by simp [split])
  rwa [replay, List.foldl_append] at calm

/-- Where no record is displaced, a record is lost by an edit that clears it and by no other. -/
theorem Undisturbed.replay_some (h : Undisturbed (some q) edits)
    (kept : ∀ e ∈ edits, ¬ e.Clears q) : replay (some q) edits = some q := by
  induction edits using List.reverseRecOn with
  | nil => rfl
  | append_singleton edits e ih =>
    have here := ih h.initial fun e mem => kept e (List.mem_append_left _ mem)
    have calm := h edits e [] rfl
    rw [here] at calm
    rw [replay_concat, here]
    exact apply_some (kept e (by simp)) calm

theorem undisturbed_none_iff : Undisturbed none edits ↔ InTurn edits := by
  constructor
  · intro calm before q between r after split ne
    by_contra uncleared
    rw [split] at calm
    have first : Undisturbed (replay none before)
        ([⟨.put, some q⟩] ++ (between ++ ⟨.put, some r⟩ :: after)) := calm.later
    have rest : Undisturbed (replay (replay none before) [⟨.put, some q⟩])
        (between ++ ⟨.put, some r⟩ :: after) := first.later
    have here := rest.initial.replay_some fun e mem clears => uncleared ⟨e, mem, clears⟩
    exact rest between ⟨.put, some r⟩ after rfl ⟨q, r, here, rfl, ne⟩
  · rintro turns done e rest rfl ⟨old, new, here, rfl, ne⟩
    rcases replay_eq_some here with ⟨before, since, rfl, kept⟩ | ⟨nowhere, -⟩
    · obtain ⟨e, mem, clears⟩ := turns before old since new rest (by simp) ne
      exact kept e mem clears
    · cases nowhere

/-- The present record counts as put before all edits. -/
theorem undisturbed_iff_inTurn : Undisturbed current edits ↔ InTurn (present current ++ edits) := by
  rw [← undisturbed_none_iff]
  cases current with
  | none => rfl
  | some q =>
    constructor
    · rintro calm (_ | ⟨first, done⟩) e rest split
      · rintro ⟨_, _, nowhere, -⟩
        cases nowhere
      · obtain ⟨rfl, same⟩ : ⟨.put, some q⟩ = first ∧ edits = done ++ e :: rest :=
          List.cons.inj split
        exact calm done e rest same
    · intro calm
      have later : Undisturbed (replay none (present (some q))) edits := calm.later
      exact later

theorem InTurn.later {more : List IndexEdit} (h : InTurn (edits ++ more)) : InTurn more := by
  intro before q between r after split
  exact h (edits ++ before) q between r after (by simp [split])

/-- Edits of which only the last puts a record, and that clears the way for it. -/
theorem undisturbed_of_putsLate (late : ¬ PutsEarly edits)
    (clear : ∀ old new, current = some old → edits.getLast? = some ⟨.put, some new⟩ → old ≠ new →
      ⟨.remove, some old⟩ ∈ edits) : Undisturbed current edits := by
  rintro done e rest rfl ⟨old, new, here, rfl, ne⟩
  cases rest with
  | cons e rest =>
    refine late ⟨new, ?_⟩
    rw [List.dropLast_append_cons, List.dropLast_cons_cons]
    simp
  | nil =>
    rcases replay_eq_some here with ⟨before, since, rfl, -⟩ | ⟨start, kept⟩
    · exact late ⟨old, by rw [List.dropLast_concat]; simp⟩
    · have removed := clear old new start (by simp) ne
      rcases List.mem_append.1 removed with mem | mem
      · exact kept _ mem (.inr rfl)
      · simp at mem

end IndexEdit

namespace IndexEdits

theorem toList_keys_nodup (e : IndexEdits) : (e.toList.map (·.1)).Nodup := by
  unfold toList
  rw [List.map_append, List.map_map]
  refine List.Nodup.append ?_ ?_ ?_
  · refine List.Pairwise.map _ ?_ e.keyed.distinct_keys_toList
    intro a b ne same
    exact ne (by simpa using same)
  · split <;> simp
  · intro key mem
    split <;> simp_all
    rintro rfl
    simp at mem

end IndexEdits

namespace ChangeSet

/-- No key has its edits in two places. -/
theorem keyEdits_keys_nodup (t : ChangeSet) : (t.keyEdits.map (·.1)).Nodup := by
  unfold keyEdits
  rw [List.map_flatMap, List.nodup_flatMap]
  constructor
  · intro (name, edits) _
    have distinct := (edits.toList_keys_nodup).map (f := IndexKey.mk name) fun _ _ same => by
      simpa using same
    simpa [Function.comp_def] using distinct
  · refine t.indexes.distinct_keys_toList.imp ?_
    intro (name, edits) (other, edits') ne key mem mem'
    simp only [List.mem_map, Prod.exists] at mem mem'
    obtain ⟨_, _, ⟨_, _, _, rfl, -⟩, rfl⟩ := mem
    obtain ⟨_, _, ⟨_, _, _, rfl, -⟩, same⟩ := mem'
    exact ne (by simpa using (congrArg IndexKey.index same).symm)

end ChangeSet

namespace IndexValues

theorem get?_set (v : IndexValues) (key : IndexKey) (value : Option RecordId) :
    (v.set key value).get? key = value := by
  cases value <;> simp [set, get?]

theorem get?_applyEdits_self (v : IndexValues) (key : IndexKey) (edits : List IndexEdit) :
    (applyEdits key v edits).get? key = IndexEdit.replay (v.get? key) edits := by
  induction edits generalizing v with
  | nil => rfl
  | cons e rest ih =>
    have step := ih (applyEdit key v e)
    rw [applyEdit, get?_set] at step
    exact step

/-- When its turn comes, a key still has the record that it had before all edits. -/
theorem get?_at_turn (v : IndexValues) {t : ChangeSet} {key : IndexKey} {edits : List IndexEdit}
    {before after : List (IndexKey × List IndexEdit)}
    (split : t.keyEdits = before ++ (key, edits) :: after) :
    (v.applyKeys before).get? key = v.get? key := by
  have distinct := t.keyEdits_keys_nodup
  rw [split, List.map_append, List.map_cons] at distinct
  refine get?_applyKeys fun p mem same => ?_
  exact List.disjoint_of_nodup_append distinct (List.mem_map.2 ⟨p, mem, same⟩) (by simp)

theorem get?_applyAll_of_mem (v : IndexValues) {t : ChangeSet} {key : IndexKey}
    {edits : List IndexEdit} (mem : (key, edits) ∈ t.keyEdits) :
    (v.applyAll t).get? key = IndexEdit.replay (v.get? key) edits := by
  obtain ⟨before, after, split⟩ := List.append_of_mem mem
  have distinct := t.keyEdits_keys_nodup
  rw [split, List.map_append, List.map_cons, List.nodup_append, List.nodup_cons] at distinct
  have unfolded : v.applyAll t = (applyEdits key (v.applyKeys before) edits).applyKeys after := by
    unfold applyAll applyKeys
    rw [split, List.foldl_append, List.foldl_cons]
  rw [unfolded, get?_applyKeys fun p mem same => distinct.2.1.1 (List.mem_map.2 ⟨p, mem, same⟩),
    get?_applyEdits_self, get?_at_turn v split]

end IndexValues

namespace Store

variable {s : Store} {t : ChangeSet}

open IndexEdit

/-- The replay of the index edits never puts a record under a unique key that leads to another
one: not when `before` are the keys done and `done` the edits done of the present key. -/
def Undisturbed (s : Store) (t : ChangeSet) : Prop :=
  ∀ before key done e rest after, t.keyEdits = before ++ (key, done ++ e :: rest) :: after →
    s.isUnique key.index = true →
    ¬ e.Displaces ((IndexValues.applyEdits key (s.indexValues.applyKeys before) done).get? key)

theorem undisturbed_iff_keys : s.Undisturbed t ↔ ∀ p ∈ t.keyEdits,
    s.isUnique p.1.index = true → IndexEdit.Undisturbed (s.indexValue? p.1) p.2 := by
  constructor
  · intro calm (key, edits) mem unique done e rest same
    obtain ⟨before, after, split⟩ := List.append_of_mem mem
    have here := calm before key done e rest after (same ▸ split) unique
    rwa [IndexValues.get?_applyEdits_self, IndexValues.get?_at_turn _ split] at here
  · intro calm before key done e rest after split unique
    rw [IndexValues.get?_applyEdits_self, IndexValues.get?_at_turn _ split]
    exact calm (key, done ++ e :: rest) (by simp [split]) unique done e rest rfl

/-- What the check says of a key: if its last edit puts a record, the present one is removed. -/
theorem removed_of_checkKey {key : IndexKey} {edits : List IndexEdit} {old new : RecordId}
    (ok : s.checkKey key edits = .ok ()) (here : s.indexValue? key = some old)
    (last : edits.getLast? = some ⟨.put, some new⟩) (ne : old ≠ new) :
    ⟨.remove, some old⟩ ∈ edits := by
  have put : lastPut? edits = some new := by simp [lastPut?, last]
  unfold checkKey at ok
  rw [put, here] at ok
  by_contra kept
  simp [ne, kept] at ok

theorem indexValue?_applyChanges (changes : List RecordChange) (key : IndexKey) :
    (applyChanges changes s).2.indexValue? key = s.indexValue? key :=
  applyChanges_keeps (p := fun s' => s'.indexValue? key = s.indexValue? key)
    (fun _ _ _ _ step same => (congrArg (·.indexValue? key) (applyChange_frame step) :).trans same)
    rfl

/-- A commit replays all edits of a key, or it fails before it comes to any. -/
theorem indexValue?_commit_of_mem {a : Applied} {key : IndexKey} {edits : List IndexEdit}
    (mem : (key, edits) ∈ t.keyEdits) :
    (s.commit t a).2.indexValue? key = replay (s.indexValue? key) edits ∨
      (s.commit t a).2.indexValue? key = s.indexValue? key := by
  have before := indexValue?_applyChanges (s := s) t.changes key
  unfold commit
  rcases eq : applyChanges t.changes s with ⟨fault | _, u⟩
  · rw [eq] at before
    exact .inr before
  · rw [eq] at before
    refine .inl ?_
    rw [← before]
    exact IndexValues.get?_applyAll_of_mem u.indexValues mem

theorem checkKey_of_mem {p : IndexKey × List IndexEdit} (ok : s.checkUniqueKeys t = .ok ())
    (mem : p ∈ t.keyEdits) (unique : s.isUnique p.1.index = true) :
    s.checkKey p.1 p.2 = .ok () := by
  have passed := forM_eq_ok.1 ok p mem
  dsimp only at passed
  rwa [if_pos unique] at passed

/-- A change set that passes the check displaces no record of a unique key just when the records
take turns under every unique key that gets one before its last edit. Then a key loses its record
only by an edit that clears it, and no two records are put under one key without such an edit
between them. -/
theorem checkUniqueKeys_undisturbed_iff (ok : s.checkUniqueKeys t = .ok ()) :
    (s.Undisturbed t ↔ ∀ p ∈ t.keyEdits, s.isUnique p.1.index = true → PutsEarly p.2 →
      InTurn (present (s.indexValue? p.1) ++ p.2)) ∧
    (s.Undisturbed t → ∀ p ∈ t.keyEdits, s.isUnique p.1.index = true → InTurn p.2 ∧
      ∀ r a, s.indexValue? p.1 = some r →
        (s.commit t a).2.indexValue? p.1 = some r ∨ ∃ e ∈ p.2, e.Clears r) := by
  constructor
  · rw [undisturbed_iff_keys]
    constructor
    · intro calm p mem unique _
      exact undisturbed_iff_inTurn.1 (calm p mem unique)
    · intro turns p mem unique
      by_cases early : PutsEarly p.2
      · exact undisturbed_iff_inTurn.2 (turns p mem unique early)
      · have passed := checkKey_of_mem ok mem unique
        exact undisturbed_of_putsLate early fun _ _ here last ne =>
          removed_of_checkKey passed here last ne
  · intro calm p mem unique
    have calm := undisturbed_iff_keys.1 calm p mem unique
    refine ⟨(undisturbed_iff_inTurn.1 calm).later, fun r a here => ?_⟩
    by_contra lost
    rw [not_or] at lost
    rw [here] at calm
    have kept := calm.replay_some fun e listed clears => lost.2 ⟨e, listed, clears⟩
    rcases indexValue?_commit_of_mem (s := s) (a := a) mem with same | same
    · exact lost.1 (by rw [same, here, kept])
    · exact lost.1 (same.trans here)

def occupied : Store :=
  ((empty none).defineIndex "idx" .unique).setIndexValue ⟨"idx", some "k"⟩ ⟨9, 1⟩

def handover : ChangeSet :=
  (ChangeSet.empty.remove "idx" (some "k") (some ⟨9, 1⟩)).put "idx" (some "k") ⟨9, 2⟩

theorem checkUniqueKeys_undisturbed_iff_handover :
    occupied.checkUniqueKeys handover = .ok () ∧ occupied.Undisturbed handover := by
  have ok : occupied.checkUniqueKeys handover = .ok () := by decide +kernel
  have keys : handover.keyEdits =
      [(⟨"idx", some "k"⟩, [⟨.remove, some ⟨9, 1⟩⟩, ⟨.put, some ⟨9, 2⟩⟩])] := by decide +kernel
  refine ⟨ok, (checkUniqueKeys_undisturbed_iff ok).1.2 ?_⟩
  intro p mem _ early
  rw [keys, List.mem_singleton] at mem
  subst mem
  obtain ⟨r, mem⟩ := early
  simp at mem

def borrow : ChangeSet :=
  (ChangeSet.empty.put "idx" (some "k") ⟨9, 2⟩).remove "idx" (some "k") (some ⟨9, 2⟩)

/-- The check reads the last edit only, so a record is displaced and lost although nothing removes
it. -/
theorem not_undisturbed_borrow :
    occupied.checkUniqueKeys borrow = .ok () ∧ ¬ occupied.Undisturbed borrow ∧
      (∀ p ∈ borrow.keyEdits, ∀ e ∈ p.2, ¬ e.Clears ⟨9, 1⟩) ∧
      occupied.indexValue? ⟨"idx", some "k"⟩ = some ⟨9, 1⟩ ∧
      (occupied.commit borrow ⟨⟨1, 1⟩, 1⟩).1 = .ok () ∧
      (occupied.commit borrow ⟨⟨1, 1⟩, 1⟩).2.indexValue? ⟨"idx", some "k"⟩ = none := by
  have keys : borrow.keyEdits =
      [(⟨"idx", some "k"⟩, [⟨.put, some ⟨9, 2⟩⟩, ⟨.remove, some ⟨9, 2⟩⟩])] := by decide +kernel
  refine ⟨by decide +kernel, fun calm => ?_, ?_, by decide +kernel, by decide +kernel,
    by decide +kernel⟩
  · refine calm [] ⟨"idx", some "k"⟩ [] ⟨.put, some ⟨9, 2⟩⟩ [⟨.remove, some ⟨9, 2⟩⟩] [] keys
      (by decide +kernel) ⟨⟨9, 1⟩, ⟨9, 2⟩, by decide +kernel, rfl, by decide⟩
  · rw [keys]
    simp [Clears]

end Store

end QuorumCommit
