import QuorumCommit.Proofs.Sequencer

/-!
Which id a sequencer issues. A ledger beside it notes what was issued, promised, committed and given
back; from the ledger alone one can tell the next id: the smallest one that was given back and is
still to be had, or else one that was never issued before.
-/
namespace QuorumCommit

namespace Slot

def Free (s : Slot) : Prop := ∀ k ∈ s.recycled, s.last < k ∧ k ∉ s.promised ∧ k < s.nextIssue

/-- Place `n` is issued: the smallest one that was taken back, or else one that is new. -/
structure Issues (s : Slot) (n : Nat) (s' : Slot) : Prop where
  standing : s'.standing = s.standing
  after : s.last < n
  issued : n < s'.nextIssue ∧ s.nextIssue ≤ s'.nextIssue
  recycled : ∀ k, k ∈ s'.recycled ↔ k ∈ s.recycled ∧ k ≠ n
  place : (n ∈ s.recycled ∧ ∀ k ∈ s.recycled, n ≤ k) ∨
    (∀ k, k ∉ s.recycled) ∧ s.nextIssue ≤ n

/-- Short of the last word, the place that is issued is not in use. -/
theorem Free.issue {s : Slot} (free : s.Free) (words : s.HasWords 1) :
    s.Issues s.issue.1 s.issue.2 := by
  have room : max s.nextIssue (s.last + 1) + 1 < 18446744073709551616 := words
  unfold Slot.issue
  cases first : (s.recycled.filter s.isFree).toList.head? with
  | some n =>
    obtain ⟨mem, after, -, least⟩ := head?_free_eq_some first
    have least : ∀ k ∈ s.recycled, n ≤ k := fun k hk => least k hk (free k hk).1 (free k hk).2.1
    refine ⟨rfl, after, ⟨(free n mem).2.2, Nat.le_refl _⟩, fun k => ?_, .inl ⟨mem, least⟩⟩
    simp only [Std.ExtTreeSet.mem_filter, Std.ExtTreeSet.get_eq, decide_eq_true_eq, exists_prop]
    exact and_congr_right fun hk => by have := least k hk; omega
  | none =>
    have promised := head?_free_eq_none first
    have none_left : ∀ k, k ∉ s.recycled := fun k hk =>
      (free k hk).2.1 (promised k hk (free k hk).1)
    have behind := Sequencer.following_eq (n := s.last) (by omega)
    refine ⟨rfl, ?_, ?_, fun k => ?_, .inr ⟨none_left, Nat.le_max_left _ _⟩⟩
    · dsimp only
      omega
    · dsimp only
      rw [behind, Sequencer.following_eq room]
      omega
    · simp [none_left k]

theorem mem_recycle {s : Slot} {n k : Nat} :
    k ∈ (s.recycle n).recycled ↔ k ∈ s.recycled ∨ s.isFree n = true ∧ n = k := by
  unfold recycle
  split
  · next free => simp [free, Std.ExtTreeSet.mem_insert, or_comm]
  · next taken => simp [taken]

@[simp] theorem nextIssue_recycle (s : Slot) (n : Nat) :
    (s.recycle n).nextIssue = s.nextIssue := by
  unfold recycle
  split <;> rfl

@[simp] theorem mem_recycled_commit {s : Slot} {n offset k : Nat} :
    k ∈ (s.commit n offset).recycled ↔ k ∈ s.recycled ∧ Sequencer.following n ≤ k := by
  simp [commit, Std.ExtTreeSet.mem_filter]

end Slot

namespace TxId

variable {id : TxId} {o k : Nat}

theorem mk_ne_iff : (⟨id.origin, k⟩ : TxId) ≠ id ↔ id.sequence ≠ k := by
  cases id
  simp [eq_comm]

theorem mk_ne_of_origin (other : o ≠ id.origin) : (⟨o, k⟩ : TxId) ≠ id :=
  fun eq => other (congrArg origin eq)

end TxId

namespace Sequencer

inductive Op where
  | nextId
  | releaseId (id : TxId)
  | tryPromise (id : TxId)
  | markPromised (id : TxId)
  | releasePromise (id : TxId)
  | commit (id : TxId)
  deriving DecidableEq, Repr

def perform (s : Sequencer) : Op → Sequencer
  | .nextId => s.nextId.2
  | .releaseId id => s.releaseId id
  | .tryPromise id =>
    match s.tryPromise id with
    | .ok s' => s'
    | .error _ => s
  | .markPromised id => s.markPromised id
  | .releasePromise id => s.releasePromise id
  | .commit id =>
    match s.commit id with
    | .ok (_, s') => s'
    | .error _ => s

variable {s : Sequencer} {id : TxId} {o k : Nat}

theorem mem_promised_advance : k ∈ ((s.advance id).slot o).promised ↔
    k ∈ (s.slot o).promised ∧ (⟨o, k⟩ : TxId) ≠ id := by
  rw [slot_advance]
  split
  · next same =>
    subst same
    rw [Slot.mem_commit, TxId.mk_ne_iff, and_comm]
  · next other => exact (and_iff_left (TxId.mk_ne_of_origin other)).symm

/-- Only the next place is committed, so of those taken back it takes none but its own. -/
theorem mem_recycled_advance (next : id.sequence = (s.slot id.origin).last + 1)
    (room : id.sequence + 1 < 18446744073709551616)
    (after : k ∈ (s.slot o).recycled → (s.slot o).last < k) :
    k ∈ ((s.advance id).slot o).recycled ↔ k ∈ (s.slot o).recycled ∧ (⟨o, k⟩ : TxId) ≠ id := by
  rw [slot_advance]
  split
  · next same =>
    subst same
    rw [Slot.mem_recycled_commit, TxId.mk_ne_iff, following_eq room]
    refine and_congr_right fun mem => ?_
    have := after mem
    omega
  · next other => exact (and_iff_left (TxId.mk_ne_of_origin other)).symm

theorem last_advance_lt (next : id.sequence = (s.slot id.origin).last + 1)
    (after : (s.slot o).last < k) (ne : (⟨o, k⟩ : TxId) ≠ id) :
    ((s.advance id).slot o).last < k := by
  rw [slot_advance]
  split
  · next same =>
    subst same
    have := TxId.mk_ne_iff.1 ne
    show id.sequence < k
    omega
  · exact after

theorem le_last_advance (next : id.sequence = (s.slot id.origin).last + 1)
    (done : k ≤ (s.slot o).last) : k ≤ ((s.advance id).slot o).last := by
  rw [slot_advance]
  split
  · next same =>
    subst same
    show k ≤ id.sequence
    omega
  · exact done

theorem nextIssue_le_advance : (s.slot o).nextIssue ≤ ((s.advance id).slot o).nextIssue := by
  rw [slot_advance]
  split
  · next same => exact same ▸ Nat.le_max_left _ _
  · exact Nat.le_refl _

end Sequencer

open Sequencer

/-- What became of the ids. `outstanding` are those in use; `returned` were given back when they
were neither committed nor promised, and have not been issued again or committed since. -/
structure Ledger where
  outstanding : List TxId
  issued : List TxId
  promised : List TxId
  committed : List TxId
  returned : List TxId
  deriving DecidableEq, Repr

namespace Ledger

def blank : Ledger := ⟨[], [], [], [], []⟩

/-- Whoever works on an id other than to commit it has it from `nextId`. -/
def Allows (l : Ledger) : Op → Prop
  | .releaseId id | .tryPromise id | .markPromised id | .releasePromise id => id ∈ l.outstanding
  | .nextId | .commit _ => True

instance (l : Ledger) : (op : Op) → Decidable (l.Allows op)
  | .releaseId id | .tryPromise id | .markPromised id | .releasePromise id =>
    inferInstanceAs (Decidable (id ∈ l.outstanding))
  | .nextId | .commit _ => inferInstanceAs (Decidable True)

def enter (l : Ledger) (s : Sequencer) : Op → Ledger
  | .nextId =>
    { l with
      outstanding := s.nextId.1 :: l.outstanding
      issued := s.nextId.1 :: l.issued
      returned := l.returned.filter (· ≠ s.nextId.1) }
  | .releaseId id =>
    { l with
      outstanding := l.outstanding.filter (· ≠ id)
      returned := if id ∈ l.committed ∨ id ∈ l.promised then l.returned else id :: l.returned }
  | .tryPromise id =>
    match s.tryPromise id with
    | .ok _ => { l with promised := id :: l.promised }
    | .error _ => l
  | .markPromised id => { l with promised := id :: l.promised }
  | .releasePromise id => { l with promised := l.promised.filter (· ≠ id) }
  | .commit id =>
    match s.commit id with
    | .ok _ =>
      { l with
        outstanding := l.outstanding.filter (· ≠ id)
        promised := l.promised.filter (· ≠ id)
        committed := id :: l.committed
        returned := l.returned.filter (· ≠ id) }
    | .error _ => l

structure Fits (l : Ledger) (s : Sequencer) : Prop where
  issued : ∀ id ∈ l.issued, id.origin = s.origin ∧ id.sequence < (s.slot s.origin).nextIssue
  outstanding : ∀ id ∈ l.outstanding, id ∈ l.issued ∧ (s.slot s.origin).last < id.sequence
  distinct : l.outstanding.Nodup
  promised : ∀ k, k ∈ (s.slot s.origin).promised ↔ ⟨s.origin, k⟩ ∈ l.promised
  committed : ∀ id ∈ l.committed, id.sequence ≤ (s.slot id.origin).last
  recycled : ∀ k, k ∈ (s.slot s.origin).recycled ↔ ⟨s.origin, k⟩ ∈ l.returned
  returned : ∀ id ∈ l.returned, id ∈ l.issued ∧ (s.slot s.origin).last < id.sequence ∧
    id ∉ l.promised ∧ id ∉ l.outstanding

variable {l : Ledger} {s s' : Sequencer} {id : TxId} {origin depth : Nat}

/-- No words are used but for the ids that were issued and committed. -/
structure Covers (l : Ledger) (s : Sequencer) : Prop where
  last : ∀ o, (s.slot o).last ≤ l.committed.length
  nextIssue : ∀ o, (s.slot o).nextIssue ≤ l.issued.length + l.committed.length + 1

namespace Covers

theorem new : blank.Covers (new origin depth) := by
  constructor <;> simp [blank, Slot.fresh]

variable (h : l.Covers s)
include h

/-- A slot is replaced, and the ledger may be a longer one. -/
theorem setSlot {l' : Ledger} {o : Nat} {slot : Slot} (issued : l.issued.length ≤ l'.issued.length)
    (committed : l.committed.length ≤ l'.committed.length) (last : slot.last ≤ l'.committed.length)
    (nextIssue : slot.nextIssue ≤ l'.issued.length + l'.committed.length + 1) :
    l'.Covers (s.setSlot o slot) := by
  constructor
  · intro k
    rw [slot_setSlot]
    split
    · exact last
    · exact Nat.le_trans (h.last k) committed
  · intro k
    rw [slot_setSlot]
    split
    · exact nextIssue
    · have := h.nextIssue k
      omega

/-- Promises and what was taken back use no words. -/
theorem onSlot {l' : Ledger} {o : Nat} {f : Slot → Slot} (issued : l'.issued = l.issued)
    (committed : l'.committed = l.committed) (last : (f (s.slot o)).last = (s.slot o).last)
    (nextIssue : (f (s.slot o)).nextIssue = (s.slot o).nextIssue) : l'.Covers (s.onSlot o f) := by
  refine h.setSlot (Nat.le_of_eq (by rw [issued])) (Nat.le_of_eq (by rw [committed])) ?_ ?_
  · rw [last, committed]
    exact h.last o
  · rw [nextIssue, issued, committed]
    exact h.nextIssue o

theorem nextId : (l.enter s .nextId).Covers s.nextId.2 := by
  have issued : (l.enter s .nextId).issued.length = l.issued.length + 1 := rfl
  have committed : (l.enter s .nextId).committed.length = l.committed.length := rfl
  have last : (s.slot s.origin).issue.2.last = (s.slot s.origin).last :=
    (congrArg Slot.last (s.slot s.origin).standing_issue :)
  have used := (s.slot s.origin).nextIssue_issue_le
  have known := h.last s.origin
  have before := h.nextIssue s.origin
  have issuing : s.nextId.2 = s.setSlot s.origin (s.slot s.origin).issue.2 := rfl
  rw [issuing]
  exact h.setSlot (by omega) (by omega) (by omega) (by omega)

theorem commit (next : id.sequence = (s.slot id.origin).last + 1) :
    (l.enter s (.commit id)).Covers (s.advance id) := by
  have entered : (l.enter s (.commit id)).committed.length = l.committed.length + 1 := by
    simp only [enter, commit_next next, List.length_cons]
  have same : (l.enter s (.commit id)).issued.length = l.issued.length := by
    simp only [enter, commit_next next]
  have known := h.last id.origin
  have before := h.nextIssue id.origin
  have behind := following_le id.sequence
  have covers : (l.enter s (.commit id)).Covers
      (s.onSlot id.origin (·.commit id.sequence s.nextOffset)) := by
    refine h.setSlot (by omega) (by omega) ?_ ?_
    · dsimp only [Slot.commit]
      omega
    · dsimp only [Slot.commit]
      omega
  exact ⟨covers.last, covers.nextIssue⟩

theorem perform (op : Op) : (l.enter s op).Covers (s.perform op) := by
  have bare {f : Slot → Slot} {o : Nat} {l' : Ledger} (issued : l'.issued = l.issued)
      (committed : l'.committed = l.committed) (bare : (f (s.slot o)).bare = (s.slot o).bare) :
      l'.Covers (s.onSlot o f) :=
    h.onSlot issued committed (congrArg Slot.last bare :) (congrArg Slot.nextIssue bare :)
  cases op with
  | nextId => exact h.nextId
  | releaseId id =>
    have standing := Slot.standing_recycle (s.slot id.origin) id.sequence
    simp only [Sequencer.perform, Sequencer.releaseId]
    split
    · exact h.onSlot rfl rfl (congrArg Slot.last standing :) (Slot.nextIssue_recycle _ _)
    · exact ⟨h.last, h.nextIssue⟩
  | tryPromise id =>
    cases promised : s.tryPromise id with
    | ok s' =>
      simp only [Sequencer.perform, enter, promised]
      obtain ⟨-, rfl⟩ := tryPromise_eq_ok.1 promised
      exact bare rfl rfl (Slot.bare_promise (s.slot id.origin) id.sequence)
    | error _ => simpa only [Sequencer.perform, enter, promised] using h
  | markPromised id =>
    exact bare rfl rfl (Slot.bare_markPromised (s.slot id.origin) id.sequence)
  | releasePromise id =>
    exact bare (f := (·.unpromise id.sequence)) rfl rfl (Slot.bare_unpromise _ _)
  | commit id =>
    by_cases next : id.sequence = (s.slot id.origin).last + 1
    · have performed : s.perform (.commit id) = s.advance id := by
        simp only [Sequencer.perform, commit_next next]
      exact performed ▸ h.commit next
    · obtain ⟨fault, refused⟩ : ∃ fault, s.commit id = .error fault :=
        (commit_other next).elim (fun eq => ⟨_, eq⟩) fun eq => ⟨_, eq⟩
      simpa only [Sequencer.perform, enter, refused] using h

/-- As long as fewer ids are issued and committed than there are words, the next one is no last
word. -/
theorem hasWords (room : l.issued.length + l.committed.length + 2 < 18446744073709551616) :
    (s.slot s.origin).HasWords 1 := by
  have last := h.last s.origin
  have nextIssue := h.nextIssue s.origin
  unfold Slot.HasWords
  omega

end Covers

/-- Nothing is ever struck off the lists of what was issued and committed. -/
theorem length_le_enter (l : Ledger) (s : Sequencer) (op : Op) :
    l.issued.length ≤ (l.enter s op).issued.length ∧
      l.committed.length ≤ (l.enter s op).committed.length := by
  cases op with
  | nextId => exact ⟨Nat.le_succ _, Nat.le_refl _⟩
  | tryPromise id =>
    cases promised : s.tryPromise id <;> simp [enter, promised]
  | commit id =>
    cases committed : s.commit id <;> simp [enter, committed]
  | _ => exact ⟨Nat.le_refl _, Nat.le_refl _⟩

theorem Fits.new : blank.Fits (new origin depth) := by
  refine ⟨?_, ?_, .nil, ?_, ?_, ?_, ?_⟩ <;> simp [blank, Slot.fresh]

namespace Fits

variable (h : l.Fits s)
include h

theorem own (known : id ∈ l.issued) : id = ⟨s.origin, id.sequence⟩ := by
  obtain ⟨origin, -⟩ := h.issued id known
  rw [← origin]

theorem own_iff (known : id ∈ l.issued) {k : Nat} : id = ⟨s.origin, k⟩ ↔ id.sequence = k := by
  constructor
  · rintro rfl
    rfl
  · rintro rfl
    exact h.own known

theorem free : (s.slot s.origin).Free := by
  intro k mem
  obtain ⟨known, after, unpromised, -⟩ := h.returned _ ((h.recycled k).1 mem)
  exact ⟨after, fun promised => unpromised ((h.promised k).1 promised), (h.issued _ known).2⟩

section

variable (words : (s.slot s.origin).HasWords 1)
include words

/-- The next id is the smallest one given back, or else it is new. -/
theorem nextId_cases :
    (s.nextId.1 ∈ l.returned ∧ ∀ id ∈ l.returned, s.nextId.1.sequence ≤ id.sequence) ∨
      l.returned = [] ∧ s.nextId.1 ∉ l.issued := by
  rcases (h.free.issue words).place with ⟨mem, least⟩ | ⟨none, new⟩
  · refine .inl ⟨(h.recycled _).1 mem, fun id back => least _ ((h.recycled _).2 ?_)⟩
    rwa [← h.own (h.returned id back).1]
  · refine .inr ⟨List.eq_nil_iff_forall_not_mem.2 fun id back => none id.sequence ?_,
      fun known => ?_⟩
    · rwa [h.recycled, ← h.own (h.returned id back).1]
    · exact Nat.not_lt.2 new (h.issued _ known).2

theorem nextId_not_outstanding : s.nextId.1 ∉ l.outstanding := by
  intro mem
  rcases h.nextId_cases words with ⟨back, -⟩ | ⟨-, new⟩
  · exact (h.returned _ back).2.2.2 mem
  · exact new (h.outstanding _ mem).1

theorem nextId_not_committed : s.nextId.1 ∉ l.committed := fun mem =>
  Nat.not_lt.2 (h.committed _ mem) (h.free.issue words).after

theorem nextId : (l.enter s .nextId).Fits s.nextId.2 := by
  have issue := h.free.issue words
  have own : s.nextId.2.slot s.origin = (s.slot s.origin).issue.2 :=
    (slot_setSlot ..).trans (if_pos rfl)
  have last (o : Nat) : (s.nextId.2.slot o).last = (s.slot o).last := by
    refine (congrArg Slot.last (slot_setSlot ..)).trans ?_
    split
    · next eq =>
      rw [eq]
      exact (congrArg Slot.last issue.standing :)
    · rfl
  have promised : (s.slot s.origin).issue.2.promised = (s.slot s.origin).promised :=
    (congrArg Slot.promised issue.standing :)
  have origin : s.nextId.2.origin = s.origin := rfl
  refine ⟨fun id known => ?_, fun id out => ?_, ?_, ?_, ?_, fun k => ?_, fun id back => ?_⟩
  · rw [origin, own]
    rcases List.mem_cons.1 known with rfl | known
    · exact ⟨rfl, issue.issued.1⟩
    · exact ⟨(h.issued id known).1, Nat.lt_of_lt_of_le (h.issued id known).2 issue.issued.2⟩
  · rw [origin, last]
    rcases List.mem_cons.1 out with rfl | out
    · exact ⟨List.mem_cons_self, issue.after⟩
    · exact ⟨List.mem_cons_of_mem _ (h.outstanding id out).1, (h.outstanding id out).2⟩
  · exact List.nodup_cons.2 ⟨h.nextId_not_outstanding words, h.distinct⟩
  · rw [origin, own, promised]
    exact h.promised
  · intro id mem
    rw [last]
    exact h.committed id mem
  · rw [origin, own, issue.recycled, h.recycled]
    simp [enter, Sequencer.nextId]
  · obtain ⟨back, other⟩ := List.mem_filter.1 back
    obtain ⟨known, after, unpromised, apart⟩ := h.returned id back
    rw [origin, last]
    refine ⟨List.mem_cons_of_mem _ known, after, unpromised, fun out => ?_⟩
    rcases List.mem_cons.1 out with rfl | out
    · simp at other
    · exact apart out

end

theorem releaseId (out : id ∈ l.outstanding) :
    (l.enter s (.releaseId id)).Fits (s.releaseId id) := by
  obtain ⟨known, after⟩ := h.outstanding id out
  have here := (h.issued id known).1
  have eq := h.own known
  have uncommitted : id ∉ l.committed := fun mem => by
    have := h.committed id mem
    rw [here] at this
    omega
  have freed : (s.slot s.origin).isFree id.sequence = true ↔ id ∉ l.promised := by
    rw [Slot.isFree_iff, h.promised, ← eq]
    exact and_iff_right after
  have release : s.releaseId id = s.onSlot s.origin (·.recycle id.sequence) := by
    unfold Sequencer.releaseId
    rw [if_pos here, here]
  have own : (s.releaseId id).slot s.origin = (s.slot s.origin).recycle id.sequence := by
    rw [release, slot_onSlot, if_pos rfl]
  have origin : (s.releaseId id).origin = s.origin := by rw [release]; rfl
  have standing (o : Nat) : ((s.releaseId id).slot o).standing = (s.slot o).standing := by
    rw [release, slot_onSlot]
    split
    · next same => rw [Slot.standing_recycle, same]
    · rfl
  have last (o : Nat) : ((s.releaseId id).slot o).last = (s.slot o).last :=
    (congrArg Slot.last (standing o) :)
  have back {other : TxId} : other ∈ (l.enter s (.releaseId id)).returned ↔
      other ∈ l.returned ∨ id ∉ l.promised ∧ id = other := by
    simp only [enter]
    by_cases promised : id ∈ l.promised
    · simp [promised]
    · simp [uncommitted, promised, or_comm, eq_comm]
  refine ⟨?_, fun other mem => ?_, h.distinct.filter _, ?_, fun other done => ?_, fun k => ?_,
    fun other mem => ?_⟩
  · rw [origin, own, Slot.nextIssue_recycle]
    exact h.issued
  · rw [origin, last]
    exact h.outstanding other (List.mem_filter.1 mem).1
  · rw [origin]
    exact (congrArg Slot.promised (standing s.origin) :) ▸ h.promised
  · rw [last]
    exact h.committed other done
  · rw [origin, own, Slot.mem_recycle, h.recycled, back, freed]
    exact or_congr_right (and_congr_right fun _ => (h.own_iff known).symm)
  · rw [origin, last]
    rcases back.1 mem with before | ⟨unpromised, rfl⟩
    · obtain ⟨known, after, unpromised, apart⟩ := h.returned other before
      exact ⟨known, after, unpromised, fun mem => apart (List.mem_filter.1 mem).1⟩
    · exact ⟨known, after, unpromised, fun mem => by simpa using (List.mem_filter.1 mem).2⟩

/-- Promises of ids issued here, and nothing else, may change. -/
theorem repledge {f : Slot → Slot} {pledged : List TxId} (bare : ∀ slot, (f slot).bare = slot.bare)
    (promised : ∀ k, k ∈ (f (s.slot s.origin)).promised ↔ ⟨s.origin, k⟩ ∈ pledged)
    (apart : ∀ id ∈ l.returned, id ∉ pledged) :
    { l with promised := pledged }.Fits (s.onSlot s.origin f) := by
  have own : (s.onSlot s.origin f).slot s.origin = f (s.slot s.origin) := by
    rw [slot_onSlot, if_pos rfl]
  have last (o : Nat) : ((s.onSlot s.origin f).slot o).last = (s.slot o).last := by
    rw [slot_onSlot]
    split
    · next same => rw [Slot.last_of_bare (bare _), same]
    · rfl
  have origin : (s.onSlot s.origin f).origin = s.origin := rfl
  have nextIssue : (f (s.slot s.origin)).nextIssue = (s.slot s.origin).nextIssue :=
    (congrArg Slot.nextIssue (bare _) :)
  have recycled : (f (s.slot s.origin)).recycled = (s.slot s.origin).recycled :=
    (congrArg Slot.recycled (bare _) :)
  refine ⟨?_, ?_, h.distinct, ?_, fun id done => ?_, ?_, fun id back => ?_⟩
  · rw [origin, own, nextIssue]
    exact h.issued
  · rw [origin, last]
    exact h.outstanding
  · rw [origin, own]
    exact promised
  · rw [last]
    exact h.committed id done
  · rw [origin, own, recycled]
    exact h.recycled
  · rw [origin, last]
    obtain ⟨known, after, -, out⟩ := h.returned id back
    exact ⟨known, after, apart id back, out⟩

theorem promise (out : id ∈ l.outstanding) :
    { l with promised := id :: l.promised }.Fits (s.onSlot id.origin (·.promise id.sequence)) := by
  have known := (h.outstanding id out).1
  rw [(h.issued id known).1]
  refine h.repledge (fun _ => Slot.bare_promise _ _) (fun k => ?_) fun other back mem => ?_
  · rw [Slot.mem_promise, h.promised, List.mem_cons]
    exact or_congr_left ((h.own_iff known).symm.trans eq_comm)
  · obtain ⟨-, -, unpromised, apart⟩ := h.returned other back
    rcases List.mem_cons.1 mem with rfl | mem
    · exact apart out
    · exact unpromised mem

theorem unpromise (out : id ∈ l.outstanding) :
    { l with promised := l.promised.filter (· ≠ id) }.Fits (s.releasePromise id) := by
  have known := (h.outstanding id out).1
  unfold Sequencer.releasePromise
  rw [(h.issued id known).1]
  refine h.repledge (fun _ => Slot.bare_unpromise _ _) (fun k => ?_) fun other back mem => ?_
  · rw [Slot.mem_unpromise, h.promised, List.mem_filter, and_comm]
    refine and_congr_right fun _ => ?_
    rw [decide_eq_true_eq, ne_comm (b := id), ne_eq, ne_eq, h.own_iff known]
  · exact (h.returned other back).2.2.1 (List.mem_filter.1 mem).1

theorem commit (next : id.sequence = (s.slot id.origin).last + 1)
    (room : id.sequence + 1 < 18446744073709551616) :
    (l.enter s (.commit id)).Fits (s.advance id) := by
  have entered : l.enter s (.commit id) =
      { l with
        outstanding := l.outstanding.filter (· ≠ id)
        promised := l.promised.filter (· ≠ id)
        committed := id :: l.committed
        returned := l.returned.filter (· ≠ id) } := by
    simp only [enter, commit_next next]
  have origin : (s.advance id).origin = s.origin := rfl
  rw [entered]
  refine ⟨fun other known => ?_, fun other mem => ?_, h.distinct.filter _, fun k => ?_,
    fun other mem => ?_, fun k => ?_, fun other mem => ?_⟩
  · exact ⟨(h.issued other known).1,
      Nat.lt_of_lt_of_le (h.issued other known).2 nextIssue_le_advance⟩
  · obtain ⟨mem, ne⟩ := List.mem_filter.1 mem
    obtain ⟨known, after⟩ := h.outstanding other mem
    exact ⟨known, last_advance_lt next after (h.own known ▸ of_decide_eq_true ne)⟩
  · rw [origin, mem_promised_advance, h.promised, List.mem_filter, decide_eq_true_eq]
  · rcases List.mem_cons.1 mem with rfl | mem
    · rw [slot_advance, if_pos rfl]
      exact Nat.le_refl _
    · exact le_last_advance next (h.committed other mem)
  · rw [origin, mem_recycled_advance next room fun mem => (h.free k mem).1, h.recycled,
      List.mem_filter,
      decide_eq_true_eq]
  · obtain ⟨mem, ne⟩ := List.mem_filter.1 mem
    obtain ⟨known, after, unpromised, apart⟩ := h.returned other mem
    exact ⟨known, last_advance_lt next after (h.own known ▸ of_decide_eq_true ne),
      fun mem => unpromised (List.mem_filter.1 mem).1, fun mem => apart (List.mem_filter.1 mem).1⟩

theorem perform (covers : l.Covers s)
    (room : l.issued.length + l.committed.length + 2 < 18446744073709551616) (op : Op)
    (allowed : l.Allows op) : (l.enter s op).Fits (s.perform op) := by
  cases op with
  | nextId => exact h.nextId (covers.hasWords room)
  | releaseId id => exact h.releaseId allowed
  | tryPromise id =>
    cases promised : s.tryPromise id with
    | ok s' =>
      simp only [Sequencer.perform, enter, promised]
      obtain ⟨-, rfl⟩ := tryPromise_eq_ok.1 promised
      exact h.promise allowed
    | error _ => simpa only [Sequencer.perform, enter, promised] using h
  | markPromised id =>
    obtain ⟨known, after⟩ := h.outstanding id allowed
    have ahead : (s.slot id.origin).last < id.sequence := (h.issued id known).1 ▸ after
    have marked : s.perform (.markPromised id) = s.onSlot id.origin (·.promise id.sequence) := by
      simp only [Sequencer.perform, Sequencer.markPromised, onSlot, Slot.markPromised, if_pos ahead]
    rw [marked]
    exact h.promise allowed
  | releasePromise id => exact h.unpromise allowed
  | commit id =>
    by_cases next : id.sequence = (s.slot id.origin).last + 1
    · have performed : s.perform (.commit id) = s.advance id := by
        simp only [Sequencer.perform, commit_next next]
      have last := covers.last id.origin
      exact performed ▸ h.commit next (by omega)
    · obtain ⟨fault, refused⟩ : ∃ fault, s.commit id = .error fault :=
        (commit_other next).elim (fun eq => ⟨_, eq⟩) fun eq => ⟨_, eq⟩
      simpa only [Sequencer.perform, enter, refused] using h

end Fits

end Ledger

/-- Operations on a new sequencer one after the other, and the ledger of them. -/
inductive Session (origin depth : Nat) : Sequencer → Ledger → Prop where
  | start : Session origin depth (new origin depth) .blank
  | step {s : Sequencer} {l : Ledger} (op : Op) (earlier : Session origin depth s l)
      (allowed : l.Allows op) : Session origin depth (s.perform op) (l.enter s op)

variable {origin depth : Nat} {s : Sequencer} {l : Ledger}

theorem Session.covers (h : Session origin depth s l) : l.Covers s := by
  induction h with
  | start => exact .new
  | step op _ _ ih => exact ih.perform op

theorem Session.fits (h : Session origin depth s l)
    (room : l.issued.length + l.committed.length + 2 < 18446744073709551616) : l.Fits s := by
  induction h with
  | start => exact .new
  | @step s l op earlier allowed ih =>
    obtain ⟨issued, committed⟩ := l.length_le_enter s op
    have room : l.issued.length + l.committed.length + 2 < 18446744073709551616 := by omega
    exact (ih room).perform earlier.covers room op allowed

/-- A sequencer never issues an id that is in use or committed, and no place is lost: the smallest
id that was given back is issued first, and only when there is none a new one. Only when all words
are used up do the numbers start anew. -/
theorem Session.nextId_unique (h : Session origin depth s l)
    (room : l.issued.length + l.committed.length + 2 < 18446744073709551616) :
    s.nextId.1 ∉ l.outstanding ∧ s.nextId.1 ∉ l.committed ∧ l.outstanding.Nodup ∧
      (l.returned ≠ [] → s.nextId.1 ∈ l.returned ∧
        ∀ id ∈ l.returned, s.nextId.1.sequence ≤ id.sequence) ∧
      (l.returned = [] → s.nextId.1 ∉ l.issued) := by
  have fits := h.fits room
  have words := h.covers.hasWords room
  refine ⟨fits.nextId_not_outstanding words, fits.nextId_not_committed words, fits.distinct,
    fun some => ?_, fun none => ?_⟩
  · exact (fits.nextId_cases words).resolve_right fun new => some new.1
  · refine ((fits.nextId_cases words).resolve_left fun back => ?_).2
    rw [none] at back
    exact List.not_mem_nil back.1

/-- Of three ids one is given back while it is promised, and one when it is free. -/
theorem Session.nextId_unique_returned : ∃ s l, Session 1 1 s l ∧ l.returned = [⟨1, 2⟩] ∧
    l.outstanding = [⟨1, 3⟩] ∧ s.nextId.1 = ⟨1, 2⟩ ∧ s.nextId.1 ∉ l.outstanding := by
  have three : Session 1 1 _ _ := ((Session.start.step .nextId trivial).step .nextId trivial).step
    .nextId trivial
  have session : ∃ s l, Session 1 1 s l ∧ l.returned = [⟨1, 2⟩] ∧ l.outstanding = [⟨1, 3⟩] ∧
      l.issued.length + l.committed.length + 2 < 18446744073709551616 :=
    ⟨_, _, (((three.step (.tryPromise ⟨1, 1⟩) (by decide)).step (.releaseId ⟨1, 1⟩)
      (by decide)).step (.releaseId ⟨1, 2⟩) (by decide)).step (.commit ⟨1, 1⟩) trivial,
      by decide, by decide, by decide⟩
  obtain ⟨s, l, h, returned, outstanding, room⟩ := session
  obtain ⟨unused, -, -, smallest, -⟩ := h.nextId_unique room
  have back := (smallest (by simp [returned])).1
  rw [returned, List.mem_singleton] at back
  exact ⟨s, l, h, returned, outstanding, back, unused⟩

end QuorumCommit
