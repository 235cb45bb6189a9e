import QuorumCommit.Retry

/-!
Runs of attempts. A transient fault is followed by another attempt as long as the policy allows one,
so every run stops, and its answer is that of the attempt that it stops with.
-/
namespace QuorumCommit.RetryPolicy

variable {σ α : Type} {op : Nat → σ → Except Fault α × σ} {p : RetryPolicy} {P : σ → Prop}
  {Q : σ → Except Fault α × σ → Prop} {s t : σ} {k : Nat}

/-- If an attempt that fails leaves things so that whatever is said of later attempts can be said
from the start, it can be said of all attempts together. -/
theorem runFrom_spec (single : ∀ k s, P s → Q s (op k s))
    (again : ∀ s s' fault, P s → Q s (.error fault, s') →
      P s' ∧ ∀ r, Q s' r → Q s r) (attempt more : Nat) {s : σ} (h : P s) :
    Q s (runFrom op attempt more s) := by
  -- By induction on the attempts that are left, from whatever state the last one has left.
  induction more generalizing attempt s with
  | zero => exact single attempt s h
  | succ more ih =>
    have first := single attempt s h
    unfold runFrom
    rcases eq : op attempt s with ⟨fault | a, s'⟩
    · rw [eq] at first
      obtain ⟨good, rest⟩ := again s s' fault h first
      dsimp only
      split
      · exact rest _ (ih (attempt + 1) good)
      · exact first
    · rw [eq] at first
      exact first

theorem run_spec (p : RetryPolicy) (single : ∀ k s, P s → Q s (op k s))
    (again : ∀ s s' fault, P s → Q s (.error fault, s') →
      P s' ∧ ∀ r, Q s' r → Q s r) {s : σ} (h : P s) : Q s (p.run op s) :=
  runFrom_spec single again 1 _ h

/-- The states in which attempts are made: all attempts before have failed, with faults that another
one might cure. -/
inductive Comes (op : Nat → σ → Except Fault α × σ) (s : σ) : Nat → σ → Prop where
  | first : Comes op s 1 s
  | again {k : Nat} {t t' : σ} {fault : Fault} : Comes op s k t → op k t = (.error fault, t') →
      fault.isRetryable = true → Comes op s (k + 1) t'

theorem Comes.keeps {s t : σ} {k : Nat} (comes : Comes op s k t)
    (single : ∀ k s, P s → P (op k s).2) (start : P s) : P t := by
  induction comes with
  | first => exact start
  | @again k t _ _ _ failed _ ih =>
    have after := single k t ih
    rwa [failed] at after

theorem Comes.pos (comes : Comes op s k t) : 0 < k := by
  cases comes with
  | first => exact Nat.one_pos
  | again => exact Nat.succ_pos _

inductive Transient : Except Fault α → Prop where
  | error {fault : Fault} : fault.isRetryable = true → Transient (.error fault)

@[simp] theorem transient_error {fault : Fault} :
    Transient (.error fault : Except Fault α) ↔ fault.isRetryable = true :=
  ⟨fun | .error retryable => retryable, .error⟩

instance : (r : Except Fault α) → Decidable (Transient r)
  | .ok _ => .isFalse nofun
  | .error fault => decidable_of_iff (fault.isRetryable = true) transient_error.symm

@[simp] theorem transient_map {β : Type} (f : α → β) (r : Except Fault α) :
    Transient (r.map f) ↔ Transient r := by
  cases r with
  | error fault => exact transient_error.trans transient_error.symm
  | ok a => exact iff_of_false nofun nofun

/-- The last attempt of a run, and the state in which it is made: it succeeds, or fails for good, or
is the last one that the policy allows. Every policy allows one. -/
structure StopsAt (p : RetryPolicy) (op : Nat → σ → Except Fault α × σ) (s : σ) (k : Nat) (t : σ) :
    Prop where
  comes : Comes op s k t
  allowed : k ≤ max 1 p.maxRetries
  final : Transient (op k t).1 → k = max 1 p.maxRetries

/-- Another attempt is made as long as the policy has not been used up. -/
theorem runFrom_again {fault : Fault} {t' : σ} (failed : op k t = (.error fault, t'))
    (transient : fault.isRetryable = true) (left : p.shouldRetry k = true) :
    runFrom op k (p.maxRetries - k) t = runFrom op (k + 1) (p.maxRetries - (k + 1)) t' := by
  have more : p.maxRetries - k = p.maxRetries - (k + 1) + 1 := by
    have fewer : k < p.maxRetries := of_decide_eq_true left
    omega
  rw [more, runFrom, failed]
  exact if_pos transient

theorem runFrom_final (final : Transient (op k t).1 → p.shouldRetry k = false) :
    runFrom op k (p.maxRetries - k) t = op k t := by
  cases more : p.maxRetries - k with
  | zero => rfl
  | succ more =>
    have left : p.shouldRetry k = true := decide_eq_true (by omega)
    rw [runFrom]
    rcases eq : op k t with ⟨fault | a, t'⟩
    · rw [eq] at final
      have settled : ¬ fault.isRetryable = true := fun transient =>
        nomatch left.symm.trans (final (.error transient))
      exact if_neg settled
    · rfl

/-- As far as the policy allows it, a run goes through all states in which attempts are made. -/
theorem Comes.run_eq (comes : Comes op s k t) (allowed : k ≤ max 1 p.maxRetries) :
    p.run op s = runFrom op k (p.maxRetries - k) t := by
  induction comes with
  | first => rfl
  | @again k t t' fault comes failed transient ih =>
    have pos := comes.pos
    rw [ih (by omega)]
    exact runFrom_again failed transient (decide_eq_true (by omega))

theorem StopsAt.run_eq (h : p.StopsAt op s k t) : p.run op s = op k t := by
  rw [h.comes.run_eq h.allowed]
  refine runFrom_final fun transient => decide_eq_false ?_
  have last := h.final transient
  omega

/-- Every attempt uses up a part of what the policy allows, so one of them is the last. -/
theorem Comes.stops (comes : Comes op s k t) (allowed : k ≤ max 1 p.maxRetries) :
    ∃ k t, p.StopsAt op s k t := by
  -- By induction on the attempts that are left.
  induction left : max 1 p.maxRetries - k generalizing k t with
  | zero => exact ⟨k, t, comes, allowed, fun _ => by omega⟩
  | succ left ih =>
    rcases eq : op k t with ⟨r, t'⟩
    by_cases again : Transient r
    · cases again with
      | error retryable => exact ih (comes.again eq retryable) (by omega) (by omega)
    · refine ⟨k, t, comes, allowed, fun transient => absurd ?_ again⟩
      rwa [eq] at transient

theorem exists_stopsAt (p : RetryPolicy) (op : Nat → σ → Except Fault α × σ) (s : σ) :
    ∃ k t, p.StopsAt op s k t :=
  Comes.first.stops (Nat.le_max_left _ _)

/-- The answer is that of one of the attempts. -/
theorem run_attempt (p : RetryPolicy) (op : Nat → σ → Except Fault α × σ) (s : σ) :
    ∃ k t, Comes op s k t ∧ p.run op s = op k t := by
  obtain ⟨k, t, stops⟩ := exists_stopsAt p op s
  exact ⟨k, t, stops.comes, stops.run_eq⟩

def noting (op : Nat → σ → Except Fault α × σ) (number : Nat) (s : σ × List Nat) :
    Except Fault α × σ × List Nat :=
  ((op number s.1).1, (op number s.1).2, s.2 ++ [number])

theorem range'_one_of_pos (pos : 0 < k) : List.range' 1 k = List.range' 1 (k - 1) ++ [k] := by
  obtain ⟨k, rfl⟩ := Nat.exists_eq_add_one_of_ne_zero (Nat.ne_of_gt pos)
  rw [List.range'_1_concat, Nat.add_sub_cancel, Nat.add_comm]

theorem Comes.noting (comes : Comes op s k t) (calls : List Nat) :
    Comes (noting op) (s, calls) k (t, calls ++ List.range' 1 (k - 1)) := by
  induction comes with
  | first =>
    rw [Nat.sub_self, List.range'_zero, List.append_nil]
    exact .first
  | @again k t t' fault comes failed transient ih =>
    refine ih.again ?_ transient
    unfold RetryPolicy.noting
    rw [failed, List.append_assoc, ← range'_one_of_pos comes.pos, Nat.add_sub_cancel]

/-- A run calls the operation with all numbers up to that of the last attempt, in order. -/
theorem StopsAt.run_noting (h : p.StopsAt op s k t) (calls : List Nat) :
    p.run (noting op) (s, calls) = ((op k t).1, (op k t).2, calls ++ List.range' 1 k) := by
  have stops : p.StopsAt (noting op) (s, calls) k (t, calls ++ List.range' 1 (k - 1)) :=
    ⟨h.comes.noting calls, h.allowed, h.final⟩
  rw [stops.run_eq]
  unfold noting
  rw [List.append_assoc, ← range'_one_of_pos h.comes.pos]

/-- A policy without attempts makes one all the same. -/
example : (RetryPolicy.mk 0 5).run
    (noting fun number (_ : Unit) => (.error (.lockTimeout "#9:1" ⟨2, 1⟩ number), ())) ((), []) =
      ((.error (.lockTimeout "#9:1" ⟨2, 1⟩ 1) : Except Fault Nat), (), [1]) := rfl

end QuorumCommit.RetryPolicy
