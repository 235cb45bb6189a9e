import QuorumCommit.Attempt.Basic

/-!
How steps compose. A step is a function of the state; these equations open a sequence of steps one
step at a time, and the two notions below carry what single steps keep over to the sequence.
-/
namespace QuorumCommit.Step

variable {σ α β : Type}

theorem bind_apply (x : Step σ α) (f : α → Step σ β) (s : σ) :
    (x >>= f) s = match x s with
      | (.ok a, s) => f a s
      | (.error fault, s) => (.error fault, s) := by
  simp only [bind, ExceptT.bind, ExceptT.mk, StateT.bind, Id]
  rcases x s with ⟨_ | _, _⟩ <;> rfl

theorem tryCatch_apply (x : Step σ α) (f : Fault → Step σ α) (s : σ) :
    (tryCatch x f) s = match x s with
      | (.ok a, s) => (.ok a, s)
      | (.error fault, s) => f fault s := by
  simp only [tryCatch, tryCatchThe, MonadExceptOf.tryCatch, ExceptT.tryCatch, ExceptT.mk, bind,
    StateT.bind, Id]
  rcases x s with ⟨_ | _, _⟩ <;> rfl

@[simp] theorem pure_apply (a : α) (s : σ) : (pure a : Step σ α) s = (.ok a, s) := rfl

@[simp] theorem get_apply (s : σ) : (get : Step σ σ) s = (.ok s, s) := rfl

@[simp] theorem modify_apply (f : σ → σ) (s : σ) :
    (modify f : Step σ PUnit) s = (.ok ⟨⟩, f s) := rfl

@[simp] theorem run_apply (x : Step σ α) (s : σ) : ExceptT.run x s = x s := rfl

/-- A sequence succeeds when both of its parts do. -/
theorem bind_eq_ok {x : Step σ α} {f : α → Step σ β} {s s' : σ} {b : β} :
    (x >>= f) s = (.ok b, s') ↔ ∃ a t, x s = (.ok a, t) ∧ f a t = (.ok b, s') := by
  rw [bind_apply]
  constructor
  · intro h
    rcases hx : x s with ⟨_ | a, t⟩
    · rw [hx] at h
      cases h
    · rw [hx] at h
      exact ⟨a, t, rfl, h⟩
  · rintro ⟨a, t, hx, h⟩
    rw [hx]
    exact h

/-- Whatever the result, the step leads from a state with the property to one with it. -/
def Keeps (p : σ → Prop) (x : Step σ α) : Prop := ∀ s, p s → p (x s).2

theorem Keeps.bind {p : σ → Prop} {x : Step σ α} {f : α → Step σ β} (hx : Keeps p x)
    (hf : ∀ a, Keeps p (f a)) : Keeps p (x >>= f) := by
  intro s hs
  have hx := hx s hs
  rw [bind_apply]
  rcases h : x s with ⟨_ | a, t⟩
  · rw [h] at hx
    exact hx
  · rw [h] at hx
    exact hf a t hx

theorem Keeps.of_eq {p : σ → Prop} {x : Step σ α} (h : Keeps p x) {s t : σ} {r : Except Fault α}
    (eq : x s = (r, t)) (start : p s) : p t := by
  have kept := h s start
  rwa [eq] at kept

def Gives (p : σ → Prop) (x : Step σ α) (q : α → Prop) : Prop :=
  ∀ s, p s → p (x s).2 ∧ ∀ a, (x s).1 = .ok a → q a

theorem Gives.keeps {p : σ → Prop} {q : α → Prop} {x : Step σ α} (h : Gives p x q) : Keeps p x :=
  fun s start => (h s start).1

theorem Gives.bind {p : σ → Prop} {q : α → Prop} {x : Step σ α} {f : α → Step σ β}
    (hx : Gives p x q) (hf : ∀ a, q a → Keeps p (f a)) : Keeps p (x >>= f) := by
  intro s hs
  obtain ⟨kept, result⟩ := hx s hs
  rw [bind_apply]
  rcases h : x s with ⟨_ | a, t⟩
  · rw [h] at kept
    exact kept
  · rw [h] at kept result
    exact hf a (result a rfl) t kept

theorem Keeps.tryCatch {p : σ → Prop} {x : Step σ α} {f : Fault → Step σ α} (hx : Keeps p x)
    (hf : ∀ fault, Keeps p (f fault)) : Keeps p (tryCatch x f) := by
  intro s hs
  have hx := hx s hs
  rw [tryCatch_apply]
  rcases h : x s with ⟨fault | a, t⟩
  · rw [h] at hx
    exact hf fault t hx
  · rw [h] at hx
    exact hx

def Faults (q : Fault → Prop) (x : Step σ α) : Prop :=
  ∀ s fault t, x s = (.error fault, t) → q fault

theorem Faults.bind {q : Fault → Prop} {x : Step σ α} {f : α → Step σ β} (hx : Faults q x)
    (hf : ∀ a, Faults q (f a)) : Faults q (x >>= f) := by
  intro s fault t failed
  rw [bind_apply] at failed
  rcases h : x s with ⟨fault' | a, t'⟩
  · rw [h] at failed
    cases failed
    exact hx s _ _ h
  · rw [h] at failed
    exact hf a t' fault t failed

/-- From a state with `p`, the step ends in a state with `e` if it fails; if it succeeds, `q` holds
of the result and the state. -/
def Ends (p : σ → Prop) (x : Step σ α) (q : α → σ → Prop) (e : σ → Prop) : Prop :=
  ∀ s, p s → match x s with
    | (.ok a, t) => q a t
    | (.error _, t) => e t

theorem Keeps.ends {p : σ → Prop} {x : Step σ α} (h : Keeps p x) : Ends p x (fun _ => p) p := by
  intro s hs
  have after := h s hs
  rcases eq : x s with ⟨fault | a, t⟩
  · rwa [eq] at after
  · rwa [eq] at after

theorem Ends.keeps {p : σ → Prop} {x : Step σ α} (h : Ends p x (fun _ => p) p) : Keeps p x := by
  intro s hs
  have after := h s hs
  rcases eq : x s with ⟨fault | a, t⟩
  · rwa [eq] at after
  · rwa [eq] at after

theorem Ends.bind {p e : σ → Prop} {q : α → σ → Prop} {r : β → σ → Prop} {x : Step σ α}
    {f : α → Step σ β} (hx : Ends p x q e) (hf : ∀ a, Ends (q a) (f a) r e) :
    Ends p (x >>= f) r e := by
  intro s hs
  have after := hx s hs
  rw [bind_apply]
  rcases eq : x s with ⟨fault | a, t⟩
  · rwa [eq] at after
  · rw [eq] at after
    exact hf a t after

theorem Ends.tryCatch {p e e' : σ → Prop} {q : α → σ → Prop} {x : Step σ α}
    {f : Fault → Step σ α} (hx : Ends p x q e) (hf : ∀ fault, Ends e (f fault) q e') :
    Ends p (tryCatch x f) q e' := by
  intro s hs
  have after := hx s hs
  rw [tryCatch_apply]
  rcases eq : x s with ⟨fault | a, t⟩
  · rw [eq] at after
    exact hf fault t after
  · rwa [eq] at after

theorem Ends.throw {p : σ → Prop} {q : α → σ → Prop} (fault : Fault) :
    Ends p (throw fault : Step σ α) q p := fun _ hs => hs

theorem Keeps.pure {p : σ → Prop} (a : α) : Keeps p (pure a) := fun _ hs => hs

theorem Keeps.throw {p : σ → Prop} (fault : Fault) : Keeps p (throw fault : Step σ α) :=
  fun _ hs => hs

theorem Keeps.get {p : σ → Prop} : Keeps p (get : Step σ σ) := fun _ hs => hs

theorem Keeps.forM {p : σ → Prop} {f : α → Step σ Unit} (hf : ∀ a, Keeps p (f a)) (l : List α) :
    Keeps p (l.forM f) := by
  induction l with
  | nil => exact fun _ hs => hs
  | cons a rest ih => exact (hf a).bind fun _ => ih

end QuorumCommit.Step
