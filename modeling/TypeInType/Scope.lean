/-!
# Indices and levels

A scope lists what is bound, the innermost entry first. An entry has an index, counted from the
innermost one, and a level, counted from the outermost one; the two determine each other once the
length of the scope is known.
-/

namespace TypeInType

/-- The level of the entry with index `i` in a scope of length `n`. -/
def levelOfIndex? (n i : Nat) : Option Nat :=
  if i < n then some (n - i - 1) else none

/-- The index of the entry with level `l` in a scope of length `n`. -/
def indexOfLevel? (n l : Nat) : Option Nat :=
  if l < n then some (n - l - 1) else none

/-- The entry with the given level. -/
def atLevel? {α : Type} (scope : List α) (l : Nat) : Option α :=
  (indexOfLevel? scope.length l).bind (scope[·]?)

theorem indexOfLevel?_levelOfIndex? {n i l : Nat} (h : levelOfIndex? n i = some l) :
    indexOfLevel? n l = some i := by
  simp only [levelOfIndex?, indexOfLevel?, Option.ite_none_right_eq_some, Option.some.injEq] at *
  omega

theorem levelOfIndex?_indexOfLevel? {n i l : Nat} (h : indexOfLevel? n l = some i) :
    levelOfIndex? n i = some l := by
  simp only [levelOfIndex?, indexOfLevel?, Option.ite_none_right_eq_some, Option.some.injEq] at *
  omega

end TypeInType
