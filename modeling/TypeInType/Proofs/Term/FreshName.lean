import Mathlib.Data.List.Nodup
import Mathlib.Data.List.Perm.Subperm
import TypeInType.Proofs.Token.Words
import TypeInType.Term.FreshName
import TypeInType.Vocabulary

/-!
# Fresh names

A name that is chosen for a binder is not taken. It is scanned as one name and names no former, if that
holds of the name that the binder has.
-/

namespace TypeInType

/-! ## Names that a binder may have -/

/-- The text is scanned as one name, which is not the name of a former. -/
def IsVariable (x : String) : Prop :=
  IsName x ∧ Vocabulary.builtin.find? x = none

/-- The words that are no variables: keywords and names of formers. -/
def reserved : List (List Char) :=
  ["axiom", "check", "defun", "forall", "lambda", "Nat", "Zero", "Succ", "natElim", "Vec", "Nil",
    "Cons", "vecElim"].map String.toList

theorem ofWord_of_notMem {w : List Char} (h : w ∉ reserved) : Token.ofWord w = .name := by
  have hkeywords : ∀ k ∈ reserved.take 5, w ≠ k := fun k hk hw => h (hw ▸ List.mem_of_mem_take hk)
  unfold Token.ofWord
  rw [if_neg (hkeywords _ (by decide)), if_neg (hkeywords _ (by decide)),
    if_neg (hkeywords _ (by decide)), if_neg (hkeywords _ (by decide)),
    if_neg (hkeywords _ (by decide))]

theorem find?_of_notMem {x : String} (h : x.toList ∉ reserved) :
    Vocabulary.builtin.find? x = none := by
  have hnames : ∀ spec ∈ Vocabulary.builtin.specs, spec.name.toList ∈ reserved := by decide
  rw [Vocabulary.find?, List.find?_eq_none]
  intro spec hspec hx
  have hname := hnames spec hspec
  rw [beq_iff_eq.mp hx] at hname
  exact h hname

theorem isVariable_of_notMem {x : String} {c : Char} {w : List Char} (hx : x.toList = c :: w)
    (hc : isNameStart c = true) (hw : ∀ d ∈ w, isNameRest d = true) (h : c :: w ∉ reserved) :
    IsVariable x :=
  ⟨isName_iff.mpr ⟨c, w, hx, hc, hw, ofWord_of_notMem h⟩, find?_of_notMem (hx ▸ h)⟩

/-! ## Candidates -/

theorem primed_toList (x : String) (i : Nat) :
    (primed x i).toList = x.toList ++ List.replicate i '\'' := by
  simp [primed]

theorem primed_injective (x : String) : Function.Injective (primed x) := by
  intro i j h
  have hlen := congrArg (fun s => s.toList.length) h
  simp only [primed_toList, List.length_append, List.length_replicate] at hlen
  exact Nat.add_left_cancel hlen

theorem primed_zero (x : String) : primed x 0 = x := by
  simp [primed]

/-- A name with a prime is neither a keyword nor the name of a former. -/
theorem IsName.primed_succ {x : String} (hx : IsName x) (i : Nat) : IsVariable (primed x (i + 1)) := by
  obtain ⟨c, w, hcw, hc, hw, _⟩ := isName_iff.mp hx
  have hprimed : (primed x (i + 1)).toList = c :: (w ++ List.replicate (i + 1) '\'') := by
    rw [primed_toList, hcw, List.cons_append]
  have hquote : ∀ r ∈ reserved, '\'' ∉ r := by decide
  refine isVariable_of_notMem hprimed hc (fun d hd => ?_) fun hmem => hquote _ hmem (by simp)
  rcases List.mem_append.mp hd with hd | hd
  · exact hw d hd
  · rw [List.eq_of_mem_replicate hd]
    rfl

theorem IsName.primed {x : String} (hx : IsName x) (i : Nat) : IsName (primed x i) := by
  cases i with
  | zero =>
    rw [primed_zero]
    exact hx
  | succ i => exact (hx.primed_succ i).1

theorem IsVariable.primed {x : String} (hx : IsVariable x) (i : Nat) : IsVariable (primed x i) := by
  cases i with
  | zero =>
    rw [primed_zero]
    exact hx
  | succ i => exact hx.1.primed_succ i

/-- A letter and perhaps a number. -/
theorem alphabeticName_toList (i : Nat) : ∃ ds : List Char,
    (alphabeticName i).toList = Char.ofNat ('a'.toNat + i % 26) :: ds ∧
      (∀ d ∈ ds, d.isDigit = true) ∧ decimalValue ds = i / 26 := by
  by_cases h : i / 26 = 0
  · exact ⟨[], by simp [alphabeticName, h], nofun, by rw [h]; rfl⟩
  · refine ⟨(toString (i / 26)).toList, by simp [alphabeticName, h], fun d hd => ?_,
      decimalValue_toString _⟩
    rw [Nat.toString_eq_ofList_toDigits, String.toList_ofList] at hd
    exact Nat.isDigit_of_mem_toDigits (by decide) (by decide) hd

theorem letter_injective : ∀ i < 26, ∀ j < 26,
    Char.ofNat ('a'.toNat + i) = Char.ofNat ('a'.toNat + j) → i = j := by
  decide

theorem alphabeticName_injective : Function.Injective alphabeticName := by
  intro i j h
  obtain ⟨ds, hi, _, hds⟩ := alphabeticName_toList i
  obtain ⟨ds', hj, _, hds'⟩ := alphabeticName_toList j
  rw [h, hj] at hi
  injection hi with hletter hdigits
  have hmod := letter_injective _ (Nat.mod_lt j (by decide)) _ (Nat.mod_lt i (by decide)) hletter
  have hdiv : i / 26 = j / 26 := by rw [← hds, ← hds', hdigits]
  omega

theorem isVariable_alphabeticName (i : Nat) : IsVariable (alphabeticName i) := by
  obtain ⟨ds, hi, hds, _⟩ := alphabeticName_toList i
  have hletter : ∀ j < 26, isNameStart (Char.ofNat ('a'.toNat + j)) = true := by decide
  have hreserved : ∀ r ∈ reserved, r.tail.all Char.isDigit = false := by decide
  have hdigits : ds.all Char.isDigit = true := List.all_eq_true.mpr hds
  apply isVariable_of_notMem hi (hletter _ (Nat.mod_lt i (by decide)))
  · exact fun d hd => isNameRest_of_isDigit (hds d hd)
  · intro hmem
    have hfalse := hreserved _ hmem
    rw [List.tail_cons, hdigits] at hfalse
    cases hfalse

/-! ## The first candidate that is free -/

theorem firstFree_eq (candidate : Nat → String) (taken : List String) :
    ∃ i, firstFree candidate taken = candidate i :=
  ⟨_, rfl⟩

/-- Candidates that are all different cannot all be taken. -/
theorem exists_free {candidate : Nat → String} (h : Function.Injective candidate) (taken : List String) :
    ∃ i, (List.range (taken.length + 1)).find? (fun i => !taken.contains (candidate i)) = some i := by
  cases hfind : (List.range (taken.length + 1)).find? fun i => !taken.contains (candidate i) with
  | some i => exact ⟨i, rfl⟩
  | none =>
    have htaken : (List.range (taken.length + 1)).map candidate ⊆ taken := by
      intro x hx
      obtain ⟨i, hi, rfl⟩ := List.mem_map.mp hx
      simpa using List.find?_eq_none.mp hfind i hi
    have hnodup : ((List.range (taken.length + 1)).map candidate).Nodup :=
      List.Nodup.map h List.nodup_range
    have hlen := (List.subperm_of_subset hnodup htaken).length_le
    simp only [List.length_map, List.length_range] at hlen
    omega

theorem firstFree_least {candidate : Nat → String} (h : Function.Injective candidate)
    (taken : List String) : ∃ i, firstFree candidate taken = candidate i ∧ candidate i ∉ taken ∧
      ∀ j < i, candidate j ∈ taken := by
  obtain ⟨i, hi⟩ := exists_free h taken
  obtain ⟨hfree, _, hleast⟩ := List.find?_range_eq_some.mp hi
  refine ⟨i, by rw [firstFree, hi, Option.getD_some], by simpa using hfree, fun j hj => ?_⟩
  simpa using hleast j hj

theorem firstFree_notMem {candidate : Nat → String} (h : Function.Injective candidate)
    (taken : List String) : firstFree candidate taken ∉ taken := by
  obtain ⟨i, hi, hfree, _⟩ := firstFree_least h taken
  rw [hi]
  exact hfree

section

variable {scope : List String} {name : Option String} {body : Check}

theorem freshName_notMem : freshName scope name body ∉ scope ++ body.globals := by
  cases name with
  | none => exact firstFree_notMem alphabeticName_injective _
  | some x => exact firstFree_notMem (primed_injective x) _

/-- A binder keeps its name, with primes perhaps, or is given a letter. -/
theorem freshName_eq : (name = none ∧ ∃ i, freshName scope name body = alphabeticName i) ∨
    ∃ x i, name = some x ∧ freshName scope name body = primed x i := by
  cases name with
  | none => exact .inl ⟨rfl, firstFree_eq alphabeticName (scope ++ body.globals)⟩
  | some x =>
    obtain ⟨i, hi⟩ := firstFree_eq (primed x) (scope ++ body.globals)
    exact .inr ⟨x, i, rfl, hi⟩

theorem isName_freshName (h : ∀ x ∈ name, IsName x) : IsName (freshName scope name body) := by
  rcases @freshName_eq scope name body with ⟨_, i, hi⟩ | ⟨x, i, rfl, hi⟩
  · rw [hi]
    exact (isVariable_alphabeticName i).1
  · rw [hi]
    exact (h x rfl).primed i

theorem isVariable_freshName (h : ∀ x ∈ name, IsVariable x) : IsVariable (freshName scope name body) := by
  rcases @freshName_eq scope name body with ⟨_, i, hi⟩ | ⟨x, i, rfl, hi⟩
  · rw [hi]
    exact isVariable_alphabeticName i
  · rw [hi]
    exact (h x rfl).primed i

end

end TypeInType
