import TypeInType.Proofs.Term.FreshName

/-!
# The least name that is free

Trying one candidate after another ends, at the first candidate that is neither in scope nor a name of the
signature that the body mentions. The name of a printed binder is the one at which it ends.
-/

namespace TypeInType

/-! ## Names that a body mentions -/

mutual

/-- The name of the signature occurs in the term. -/
def Synth.mentions (x : String) : Synth → Bool
  | .ann _ e t => e.mentions x || t.mentions x
  | .star _ => false
  | .pi _ _ d c => d.mentions x || c.mentions x
  | .bound _ _ => false
  | .free _ y => y == .global x
  | .app _ h a => h.mentions x || a.mentions x
  | .nat _ => false
  | .zero _ => false
  | .succ _ n => n.mentions x
  | .natElim _ m b s n => m.mentions x || b.mentions x || s.mentions x || n.mentions x
  | .vec _ a n => a.mentions x || n.mentions x
  | .nil _ a => a.mentions x
  | .cons _ a n y ys => a.mentions x || n.mentions x || y.mentions x || ys.mentions x
  | .vecElim _ a m b s n ys =>
    a.mentions x || m.mentions x || b.mentions x || s.mentions x || n.mentions x || ys.mentions x

/-- The name of the signature occurs in the term. -/
def Check.mentions (x : String) : Check → Bool
  | .synth t => t.mentions x
  | .lam _ _ b => b.mentions x
  | .ascribe _ t e => t.mentions x || e.mentions x
  | .sealed _ e => e.mentions x

end

mutual

theorem Synth.mentions_iff {x : String} : ∀ t : Synth, t.mentions x = true ↔ x ∈ t.globals
  | .ann _ e t => by simp [Synth.mentions, Synth.globals, e.mentions_iff, t.mentions_iff]
  | .star _ => by simp [Synth.mentions, Synth.globals]
  | .pi _ _ d c => by simp [Synth.mentions, Synth.globals, d.mentions_iff, c.mentions_iff]
  | .bound _ _ => by simp [Synth.mentions, Synth.globals]
  | .free _ (.global y) => by
    simp only [Synth.mentions, Synth.globals, beq_iff_eq, Name.global.injEq, List.mem_singleton]
    exact eq_comm
  | .free _ (.hyp _) => by simp [Synth.mentions, Synth.globals]
  | .free _ (.quote _) => by simp [Synth.mentions, Synth.globals]
  | .app _ h a => by simp [Synth.mentions, Synth.globals, h.mentions_iff, a.mentions_iff]
  | .nat _ => by simp [Synth.mentions, Synth.globals]
  | .zero _ => by simp [Synth.mentions, Synth.globals]
  | .succ _ n => n.mentions_iff
  | .natElim _ m b s n => by
    simp [Synth.mentions, Synth.globals, m.mentions_iff, b.mentions_iff, s.mentions_iff,
      n.mentions_iff, or_assoc]
  | .vec _ a n => by simp [Synth.mentions, Synth.globals, a.mentions_iff, n.mentions_iff]
  | .nil _ a => a.mentions_iff
  | .cons _ a n y ys => by
    simp [Synth.mentions, Synth.globals, a.mentions_iff, n.mentions_iff, y.mentions_iff,
      ys.mentions_iff, or_assoc]
  | .vecElim _ a m b s n ys => by
    simp [Synth.mentions, Synth.globals, a.mentions_iff, m.mentions_iff, b.mentions_iff,
      s.mentions_iff, n.mentions_iff, ys.mentions_iff, or_assoc]

theorem Check.mentions_iff {x : String} : ∀ t : Check, t.mentions x = true ↔ x ∈ t.globals
  | .synth t => t.mentions_iff
  | .lam _ _ b => b.mentions_iff
  | .ascribe _ t e => by simp [Check.mentions, Check.globals, t.mentions_iff, e.mentions_iff]
  | .sealed _ e => e.mentions_iff

end

/-! ## Trying candidates -/

/-- From the candidate with the given number on, the first that is free is `x`: trying the candidates in
turn ends there. -/
inductive Search (free : String → Prop) (candidate : Nat → String) : Nat → String → Prop where
  | stop {i : Nat} : free (candidate i) → Search free candidate i (candidate i)
  | next {i : Nat} {x : String} : ¬ free (candidate i) → Search free candidate (i + 1) x →
      Search free candidate i x

section Search

variable {free : String → Prop} {candidate : Nat → String}

theorem Search.unique {i : Nat} {x y : String} (h : Search free candidate i x)
    (h' : Search free candidate i y) : x = y := by
  induction h with
  | stop hfree =>
    cases h' with
    | stop => rfl
    | next hnot => exact absurd hfree hnot
  | next hnot _ ih =>
    cases h' with
    | stop hfree => exact absurd hfree hnot
    | next _ h' => exact ih h'

/-- Trying the candidates from the first on ends at the least one that is free. -/
theorem search_of_least {k : Nat} (hfree : free (candidate k)) (hleast : ∀ j < k, ¬ free (candidate j)) :
    ∀ {i}, i ≤ k → Search free candidate i (candidate k) := by
  intro i hi
  induction hd : k - i generalizing i with
  | zero =>
    obtain rfl : i = k := by omega
    exact .stop hfree
  | succ d ih => exact .next (hleast i (by omega)) (ih (by omega) (by omega))

end Search

/-- The name is neither in scope nor mentioned in the body. -/
def IsFree (scope : List String) (body : Check) (x : String) : Prop :=
  x ∉ scope ∧ body.mentions x = false

theorem isFree_iff {scope : List String} {body : Check} {x : String} :
    IsFree scope body x ↔ x ∉ scope ++ body.globals := by
  rw [IsFree, List.mem_append, not_or, ← body.mentions_iff, Bool.not_eq_true]

/-- How a binder gets its name: a letter is looked for if it has none, and then primes are added to the
name, one by one, until it is free. -/
inductive Chooses (scope : List String) (body : Check) : Option String → String → Prop where
  | named {x y : String} : Search (IsFree scope body) (primed x) 0 y → Chooses scope body (some x) y
  | unnamed {x y : String} : Search (IsFree scope body) alphabeticName 0 x →
      Search (IsFree scope body) (primed x) 0 y → Chooses scope body none y

/-- The names that are tried for a binder. -/
def candidates : Option String → Nat → String
  | some x => primed x
  | none => alphabeticName

theorem candidates_injective (name : Option String) : Function.Injective (candidates name) := by
  cases name with
  | none => exact alphabeticName_injective
  | some x => exact primed_injective x

theorem freshName_eq_firstFree (scope : List String) (name : Option String) (body : Check) :
    freshName scope name body = firstFree (candidates name) (scope ++ body.globals) := by
  cases name <;> rfl

theorem Chooses.unique {scope : List String} {body : Check} {name : Option String} {y y' : String}
    (h : Chooses scope body name y) (h' : Chooses scope body name y') : y = y' := by
  cases h with
  | named h =>
    cases h' with
    | named h' => exact h.unique h'
  | unnamed hx hy =>
    cases h' with
    | unnamed hx' hy' =>
      obtain rfl := hx.unique hx'
      exact hy.unique hy'

/-- A name that is free is not primed. -/
theorem chooses_of_search {scope : List String} {body : Check} {name : Option String} {y : String}
    (hfree : IsFree scope body y) (h : Search (IsFree scope body) (candidates name) 0 y) :
    Chooses scope body name y := by
  cases name with
  | some x => exact .named h
  | none =>
    have hprimed : Search (IsFree scope body) (primed y) 0 (primed y 0) := .stop (by rwa [primed_zero])
    rw [primed_zero] at hprimed
    exact .unnamed h hprimed

/-- Choosing a name for a binder ends, and it ends with the least candidate that is free: the name of the
binder with the least number of primes, or the first letter, perhaps with a number. -/
theorem freshName_is_least_free (scope : List String) (name : Option String) (body : Check) :
    Function.Injective alphabeticName ∧
    (∀ y, Chooses scope body name y ↔ y = freshName scope name body) ∧
    IsFree scope body (freshName scope name body) ∧
    ∃ i, freshName scope name body = candidates name i ∧ ∀ j < i, ¬ IsFree scope body (candidates name j) := by
  obtain ⟨i, hi, hnot, hleast⟩ :=
    firstFree_least (candidates_injective name) (scope ++ body.globals)
  rw [← freshName_eq_firstFree] at hi
  have hfree : IsFree scope body (candidates name i) := isFree_iff.mpr hnot
  have htaken : ∀ j < i, ¬ IsFree scope body (candidates name j) := by
    intro j hj h
    exact isFree_iff.mp h (hleast j hj)
  have hchooses : Chooses scope body name (freshName scope name body) := by
    rw [hi]
    exact chooses_of_search hfree (search_of_least hfree htaken (Nat.zero_le i))
  refine ⟨alphabeticName_injective, fun y => ⟨fun h => h.unique hchooses, ?_⟩, hi ▸ hfree, i, hi, htaken⟩
  rintro rfl
  exact hchooses

end TypeInType
