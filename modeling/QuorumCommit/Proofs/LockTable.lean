import QuorumCommit.LockTable

/-!
Who holds which key after locking and unlocking. A table is determined by its holders.
-/
namespace QuorumCommit.LockTable

variable {t t' : LockTable} {key other : LockKey} {request : RequestId}

theorem eq_of_holder? (h : ∀ key, t.holder? key = t'.holder? key) : t = t' := by
  cases t
  cases t'
  exact congrArg LockTable.mk (Std.ExtTreeMap.ext_getElem? fun key => h key)

@[simp] theorem holder?_empty : empty.holder? key = none := by
  simp [holder?, empty]

/-- A key is refused to a request just when another one holds it. -/
theorem lock_eq_ok :
    (∃ t', t.lock key request = .ok t') ↔
      ∀ holder, t.holder? key = some holder → holder = request := by
  unfold lock tryLock
  cases h : t.holder? key with
  | none => simp
  | some holder =>
    by_cases same : holder = request
    · simp [same]
    · simp [same]

theorem holder?_lock (h : t.lock key request = .ok t') (other : LockKey) :
    t'.holder? other = if other = key then some request else t.holder? other := by
  unfold lock tryLock at h
  cases free : t.holder? key with
  | none =>
    rw [free] at h
    cases h
    simp only [holder?, Std.ExtTreeMap.getElem?_insert, Std.compare_eq_iff_eq]
    grind
  | some holder =>
    by_cases same : holder = request
    · simp only [free, same, ↓reduceIte] at h
      cases h
      split
      · next eq => rw [eq, free, same]
      · rfl
    · simp only [free, same, ↓reduceIte] at h
      cases h

theorem holder?_unlock (other : LockKey) : (t.unlock key request).holder? other =
    if other = key ∧ t.holder? key = some request then none else t.holder? other := by
  unfold unlock
  by_cases held : t.holder? key = some request
  · rw [if_pos held]
    simp only [holder?, Std.ExtTreeMap.getElem?_erase, Std.compare_eq_iff_eq] at held ⊢
    grind
  · simp [held]

theorem holder?_unlockAll (keys : List LockKey) (other : LockKey) :
    (t.unlockAll keys request).holder? other =
      if other ∈ keys ∧ t.holder? other = some request then none else t.holder? other := by
  induction keys generalizing t with
  | nil => simp [unlockAll]
  | cons key rest ih =>
    have step := ih (t := t.unlock key request)
    rw [holder?_unlock] at step
    refine step.trans ?_
    grind

end QuorumCommit.LockTable
