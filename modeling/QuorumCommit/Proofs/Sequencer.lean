import QuorumCommit.Sequencer.Basic

/-!
The places of an origin and who has them. Behind the last committed place stand the places that
are issued and not yet taken back; when no place is promised these are consecutive, so the next
place issued is always the one behind them.
-/
namespace QuorumCommit

theorem Sequencer.following_le (n : Nat) : following n ≤ n + 1 := Nat.mod_le _ _

/-- Short of the last word, the following word is the next number. -/
theorem Sequencer.following_eq {n : Nat} (room : n + 1 < 18446744073709551616) :
    following n = n + 1 := Nat.mod_eq_of_lt room

namespace Slot

open Sequencer (following following_le following_eq)

@[simp] theorem mem_promise {s : Slot} {n k : Nat} :
    k ∈ (s.promise n).promised ↔ n = k ∨ k ∈ s.promised := by
  simp [promise, Std.ExtTreeSet.mem_insert]

@[simp] theorem mem_unpromise {s : Slot} {n k : Nat} :
    k ∈ (s.unpromise n).promised ↔ n ≠ k ∧ k ∈ s.promised := by
  simp [unpromise, Std.ExtTreeSet.mem_erase]

theorem isFree_iff {s : Slot} {n : Nat} : s.isFree n = true ↔ s.last < n ∧ n ∉ s.promised := by
  simp [isFree, ← Bool.not_eq_true]

/-- What all nodes may know of an origin: how far its ids are committed, and which are promised.
The rest matters on the node that issues them. -/
def standing (s : Slot) : Slot := { s with nextIssue := 0, recycled := ∅ }

@[simp] theorem standing_recycle (s : Slot) (n : Nat) :
    (s.recycle n).standing = s.standing := by
  unfold recycle
  split <;> rfl

theorem standing_issue (s : Slot) : s.issue.2.standing = s.standing := by
  unfold issue
  cases (s.recycled.filter s.isFree).toList.head? <;> rfl

theorem classify_standing (s : Slot) (depth n : Nat) :
    s.standing.classify depth n = s.classify depth n := rfl

theorem classify_eq_valid {s : Slot} {depth n : Nat} :
    s.classify depth n = .valid ↔ s.last < n ∧ n ∉ s.promised ∧ n ≤ s.last + depth := by
  unfold classify
  by_cases h₁ : n ≤ s.last
  · simp only [h₁, ↓reduceIte, reduceCtorEq, false_iff]
    omega
  · by_cases h₂ : n ∈ s.promised
    · simp [h₁, h₂]
    · by_cases h₃ : s.last + depth < n
      · simp [h₁, h₂, h₃]
      · simp [h₁, h₂, h₃]
        omega

theorem classify_eq_alreadyPresent {s : Slot} {depth n : Nat} :
    s.classify depth n = .alreadyPresent ↔ n ≤ s.last := by
  unfold classify
  by_cases h₁ : n ≤ s.last
  · simp [h₁]
  · by_cases h₂ : n ∈ s.promised
    · simp [h₁, h₂]
    · by_cases h₃ : s.last + depth < n <;> simp [h₁, h₂, h₃]

/-- The `out` places behind the last committed one are issued and in use; every later place is
either not issued yet or was taken back. -/
structure InUse (s : Slot) (out : Nat) : Prop where
  issued : ∀ k, s.last < k → (k < s.nextIssue ↔ k ≤ s.last + out ∨ k ∈ s.recycled)
  apart : ∀ k ∈ s.recycled, s.last < k → s.last + out < k

theorem InUse.fresh : fresh.InUse 0 where
  issued k h := by
    simp only [Slot.fresh] at *
    simp
  apart k h := by simp [Slot.fresh] at h

theorem mem_free {s : Slot} {k : Nat} :
    k ∈ s.recycled.filter s.isFree ↔ k ∈ s.recycled ∧ s.last < k ∧ k ∉ s.promised := by
  simp only [Std.ExtTreeSet.mem_filter, Std.ExtTreeSet.get_eq, isFree_iff, exists_prop]

/-- The place that `issue` takes from those taken back is the smallest free one. -/
theorem head?_free_eq_some {s : Slot} {n : Nat}
    (h : (s.recycled.filter s.isFree).toList.head? = some n) :
    n ∈ s.recycled ∧ s.last < n ∧ n ∉ s.promised ∧
      ∀ k ∈ s.recycled, s.last < k → k ∉ s.promised → n ≤ k := by
  rw [Std.ExtTreeSet.head?_toList, Std.ExtTreeSet.min?_eq_some_iff_mem_and_forall, mem_free] at h
  obtain ⟨⟨mem, after, free⟩, least⟩ := h
  refine ⟨mem, after, free, fun k hk after free => ?_⟩
  have le := least k (mem_free.2 ⟨hk, after, free⟩)
  simpa [Nat.isLE_compare] using le

theorem head?_free_eq_none {s : Slot} (h : (s.recycled.filter s.isFree).toList.head? = none) :
    ∀ k ∈ s.recycled, s.last < k → k ∈ s.promised := by
  rw [Std.ExtTreeSet.head?_toList, Std.ExtTreeSet.min?_eq_none_iff] at h
  intro k hk after
  by_cases free : k ∈ s.promised
  · exact free
  · have mem := mem_free.2 ⟨hk, after, free⟩
    simp [h] at mem

theorem nextIssue_issue_le (s : Slot) :
    s.issue.2.nextIssue ≤ max s.nextIssue (s.last + 1) + 1 := by
  have behind := following_le s.last
  have further := following_le (max s.nextIssue (following s.last))
  unfold Slot.issue
  cases (s.recycled.filter s.isFree).toList.head? with
  | some n =>
    dsimp only
    omega
  | none =>
    dsimp only
    omega

/-- So many places can be issued before the words are used up. -/
def HasWords (count : Nat) (s : Slot) : Prop :=
  max s.nextIssue (s.last + 1) + count < 18446744073709551616

instance (count : Nat) : DecidablePred (HasWords count) := fun _ => Nat.decLt _ _

theorem HasWords.mono {s : Slot} {count more : Nat} (h : s.HasWords more) (less : count ≤ more) :
    s.HasWords count :=
  Nat.lt_of_le_of_lt (Nat.add_le_add_left less _) h

theorem HasWords.issue {s : Slot} {count : Nat} (h : s.HasWords (count + 1)) :
    s.issue.2.HasWords count := by
  have last : s.issue.2.last = s.last := (congrArg Slot.last s.standing_issue :)
  have used := s.nextIssue_issue_le
  unfold HasWords at h ⊢
  omega

/-- With no promise open, the place behind those in use is issued, unless it is the last word. -/
theorem InUse.issue {s : Slot} {out : Nat} (h : s.InUse out) (open_ : s.promised = ∅)
    (room : s.last + out + 2 < 18446744073709551616) :
    ∃ s', s.issue = (s.last + out + 1, s') ∧ s'.InUse (out + 1) ∧ s'.standing = s.standing := by
  have issued := h.issued (s.last + out + 1) (by omega)
  unfold Slot.issue
  cases free : (s.recycled.filter s.isFree).toList.head? with
  | some n =>
    obtain ⟨mem, after, -, least⟩ := head?_free_eq_some free
    have behind := h.apart n mem after
    have known := (h.issued n after).2 (.inr mem)
    have first : n = s.last + out + 1 := by
      have taken : s.last + out + 1 ∈ s.recycled := by
        rcases issued.1 (by omega) with le | taken
        · omega
        · exact taken
      have := least _ taken (by omega) (by simp [open_])
      omega
    subst first
    refine ⟨_, rfl, ⟨fun k hk => ?_, fun k hk _ => ?_⟩, rfl⟩
    · have := h.issued k hk
      simp [Std.ExtTreeSet.mem_filter] at this ⊢
      by_cases same : k = s.last + out + 1
      · subst same
        simp only [known, true_iff]
        omega
      · rw [this]
        have := h.apart k
        grind
    · simp [Std.ExtTreeSet.mem_filter] at hk
      simp
      omega
  | none =>
    have none_free := head?_free_eq_none free
    have last_issue : ¬ s.last + out + 1 < s.nextIssue := by
      intro lt
      rcases issued.1 lt with le | taken
      · omega
      · have := none_free _ taken (by omega)
        simp [open_] at this
    have place : max s.nextIssue (following s.last) = s.last + out + 1 := by
      rw [following_eq (by omega)]
      cases out with
      | zero => omega
      | succ out =>
        have := (h.issued (s.last + (out + 1)) (by omega)).2 (.inl (by omega))
        omega
    simp only [place]
    refine ⟨_, rfl, ⟨fun k hk => ?_, fun k hk _ => ?_⟩, rfl⟩
    · rw [following_eq room]
      simp
      omega
    · simp at hk

/-- The place behind the last one in use may be taken back. -/
theorem InUse.recycle {s : Slot} {out : Nat} (h : s.InUse (out + 1))
    (free : s.last + out + 1 ∉ s.promised) : (s.recycle (s.last + out + 1)).InUse out := by
  have ready : s.isFree (s.last + out + 1) = true := isFree_iff.2 ⟨by omega, free⟩
  unfold Slot.recycle
  rw [if_pos ready]
  refine ⟨fun k hk => ?_, fun k hk after => ?_⟩
  · have := h.issued k hk
    simp only [Std.ExtTreeSet.mem_insert, Nat.compare_eq_eq] at *
    rw [this, ← or_assoc]
    refine or_congr_left ?_
    omega
  · simp only [Std.ExtTreeSet.mem_insert, Nat.compare_eq_eq] at *
    rcases hk with rfl | hk
    · omega
    · have := h.apart k hk after
      omega

theorem recycle_of_le {s : Slot} {n : Nat} (h : n ≤ s.last) : s.recycle n = s := by
  unfold recycle
  rw [if_neg]
  rw [isFree_iff]
  omega

/-- The next commit takes the first place in use, if there is one. -/
theorem InUse.commit {s : Slot} {out : Nat} (h : s.InUse out) (offset : Nat) :
    (s.commit (s.last + 1) offset).InUse (out - 1) where
  issued k hk := by
    have behind := following_le (s.last + 1)
    have := h.issued k
    simp only [Slot.commit, Std.ExtTreeSet.mem_filter, Std.ExtTreeSet.get_eq, decide_eq_true_eq,
      exists_prop] at *
    have := this (by omega)
    constructor
    · intro lt
      rcases this.1 (by omega) with le | taken
      · left
        omega
      · exact .inr ⟨taken, by omega⟩
    · rintro (le | ⟨taken, -⟩)
      · have := this.2 (.inl (by omega))
        omega
      · have := this.2 (.inr taken)
        omega
  apart k hk after := by
    simp only [Slot.commit, Std.ExtTreeSet.mem_filter, Std.ExtTreeSet.get_eq, decide_eq_true_eq,
      exists_prop] at *
    have := h.apart k hk.1 (by omega)
    omega

def bare (s : Slot) : Slot := { s with promised := ∅ }

@[simp] theorem bare_promise (s : Slot) (n : Nat) : (s.promise n).bare = s.bare := rfl

@[simp] theorem bare_unpromise (s : Slot) (n : Nat) : (s.unpromise n).bare = s.bare := rfl

@[simp] theorem bare_markPromised (s : Slot) (n : Nat) : (s.markPromised n).bare = s.bare := by
  unfold markPromised
  split <;> rfl

theorem bare_commit {s s' : Slot} (h : s.bare = s'.bare) (n offset : Nat) :
    (s.commit n offset).bare = (s'.commit n offset).bare :=
  (congrArg (fun s : Slot => (s.commit n offset).bare) h :)

@[simp] theorem mem_commit {s : Slot} {n offset k : Nat} :
    k ∈ (s.commit n offset).promised ↔ n ≠ k ∧ k ∈ s.promised := by
  simp [commit, Std.ExtTreeSet.mem_erase]

theorem mem_markPromised {s : Slot} {n k : Nat} :
    k ∈ (s.markPromised n).promised ↔ (s.last < n ∧ n = k) ∨ k ∈ s.promised := by
  unfold markPromised
  by_cases h : s.last < n
  · simp [h]
  · simp [h]

/-- Slots that agree but for their promises, and promise the same places, are equal. -/
theorem eq_of_bare {s s' : Slot} (rest : s.bare = s'.bare)
    (promised : ∀ k, k ∈ s.promised ↔ k ∈ s'.promised) : s = s' := by
  have same : s.promised = s'.promised := Std.ExtTreeSet.ext_mem promised
  cases s
  cases s'
  simp_all [bare]

theorem last_of_bare {s s' : Slot} (h : s.bare = s'.bare) : s.last = s'.last := by
  have := congrArg Slot.last h
  exact this

end Slot

namespace Sequencer

variable (s : Sequencer) (o k : Nat) (id : TxId)

@[simp] theorem slot_new (origin depth : Nat) : (new origin depth).slot k = Slot.fresh := by
  simp [slot, new]

theorem slot_setSlot (x : Slot) : (s.setSlot o x).slot k = if k = o then x else s.slot k := by
  simp only [slot, setSlot, Std.ExtTreeMap.getD_insert, Nat.compare_eq_eq]
  grind

theorem slot_onSlot (f : Slot → Slot) :
    (s.onSlot o f).slot k = if k = o then f (s.slot o) else s.slot k := slot_setSlot s o k _

def frame : Nat × Nat × Nat := (s.origin, s.depth, s.nextOffset)

theorem tryPromise_eq_ok {s s' : Sequencer} {id : TxId} :
    s.tryPromise id = .ok s' ↔
      s.validate id = .valid ∧ s' = s.onSlot id.origin (·.promise id.sequence) := by
  unfold tryPromise
  cases s.validate id <;> simp [eq_comm]

def releasePromises (ids : List TxId) : Sequencer := ids.foldl releasePromise s

theorem releasePromises_spec (ids : List TxId) :
    (s.releasePromises ids).frame = s.frame ∧
      (∀ o, ((s.releasePromises ids).slot o).bare = (s.slot o).bare) ∧
      ∀ o k, k ∈ ((s.releasePromises ids).slot o).promised ↔
        k ∈ (s.slot o).promised ∧ (⟨o, k⟩ : TxId) ∉ ids := by
  induction ids generalizing s with
  | nil => simp [releasePromises]
  | cons id rest ih =>
    obtain ⟨frame, bare, mem⟩ := ih (s.releasePromise id)
    refine ⟨frame, fun o => ?_, fun o k => ?_⟩
    · refine (bare o).trans ?_
      rw [releasePromise, slot_onSlot]
      split
      · next h => simp [h]
      · rfl
    · refine (mem o k).trans ?_
      rw [releasePromise, slot_onSlot, List.mem_cons]
      cases id
      grind [Slot.mem_unpromise]

def advance : Sequencer :=
  { s.onSlot id.origin (·.commit id.sequence s.nextOffset) with
    nextOffset := following s.nextOffset }

theorem commit_next {s : Sequencer} {id : TxId}
    (h : id.sequence = (s.slot id.origin).last + 1) :
    s.commit id = .ok (s.nextOffset, s.advance id) := by
  unfold commit
  simp [h, advance, onSlot]

/-- An id that is committed is refused as such. -/
theorem commit_done {s : Sequencer} {id : TxId} (done : id.sequence ≤ (s.slot id.origin).last) :
    s.commit id = .error (.alreadyCommitted id) := by
  unfold commit
  exact if_pos done

/-- An id further ahead than the next one is refused as well. -/
theorem commit_ahead {s : Sequencer} {id : TxId}
    (ahead : (s.slot id.origin).last + 1 < id.sequence) :
    s.commit id = .error (.outOfSequence id .missingPrevious) := by
  unfold commit
  dsimp only
  rw [if_neg (by omega), if_pos (by omega)]

/-- Only the id behind the last committed one can be committed. -/
theorem commit_other {s : Sequencer} {id : TxId}
    (h : id.sequence ≠ (s.slot id.origin).last + 1) :
    s.commit id = .error (.alreadyCommitted id) ∨
      s.commit id = .error (.outOfSequence id .missingPrevious) := by
  by_cases done : id.sequence ≤ (s.slot id.origin).last
  · exact .inl (commit_done done)
  · exact .inr (commit_ahead (by omega))

theorem slot_advance : (s.advance id).slot k =
    if k = id.origin then (s.slot id.origin).commit id.sequence s.nextOffset else s.slot k :=
  slot_onSlot s id.origin k (·.commit id.sequence s.nextOffset)

end Sequencer

end QuorumCommit
