import Std.Data.ExtTreeMap
import Std.Data.ExtTreeSet

/-!
Order of composite keys. Identifiers compare field by field; two comparisons that agree on
every field identify the value, so such keys may index maps whose equality is extensional.
-/
namespace QuorumCommit

/-- Field-by-field comparison is lawful when the two fields determine the value. -/
theorem lawfulEqCmp_of_fields {α β γ : Type} [Ord β] [Ord γ]
    [Std.LawfulEqOrd β] [Std.LawfulEqOrd γ] (f : α → β) (g : α → γ)
    (inj : ∀ a b, f a = f b → g a = g b → a = b) :
    Std.LawfulEqCmp (compareLex (compareOn f) (compareOn g)) where
  compare_self {a} := by
    simp [compareLex, compareOn, Std.ReflCmp.compare_self]
  eq_of_compare {a b} h := by
    have both : compare (f a) (f b) = .eq ∧ compare (g a) (g b) = .eq := by
      simpa [compareLex, compareOn, Ordering.then_eq_eq] using h
    exact inj a b (Std.LawfulEqCmp.eq_of_compare both.1) (Std.LawfulEqCmp.eq_of_compare both.2)

end QuorumCommit
