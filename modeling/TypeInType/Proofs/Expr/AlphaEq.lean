import Mathlib.Logic.Basic
import TypeInType.Expr
import TypeInType.Proofs.Term.Nameless

/-!
# Alpha-equivalence of expressions

Expressions that differ in the names of binders only. A name that no binder in scope has is free, the
name of a former too. An arrow binds nothing, so that it is equivalent to a function type whose name is
not used, and a number literal is equivalent to its successors of zero.
-/

namespace TypeInType

/-! ## The relation -/

/-- The names of the binders in scope on the two sides, the innermost first. -/
abbrev Binders := List (Option String × Option String)

namespace Binders

def left (Γ : Binders) : List (Option String) :=
  Γ.map Prod.fst

def right (Γ : Binders) : List (Option String) :=
  Γ.map Prod.snd

def swap (Γ : Binders) : Binders :=
  Γ.map Prod.swap

theorem swap_swap (Γ : Binders) : Γ.swap.swap = Γ := by
  simp [swap]

theorem right_swap (Γ : Binders) : Γ.swap.right = Γ.left := by
  simp [swap, right, left, Function.comp_def]

theorem left_swap (Γ : Binders) : Γ.swap.left = Γ.right := by
  simp [swap, right, left, Function.comp_def]

end Binders

/-- The names belong to binders in the same place, or are free and equal. -/
inductive SameName : Binders → String → String → Prop
  | free {x} : SameName [] x x
  | here {Γ x y} : SameName ((some x, some y) :: Γ) x y
  | there {Γ b b' x y} : b ≠ some x → b' ≠ some y → SameName Γ x y → SameName ((b, b') :: Γ) x y

namespace Expr

inductive AlphaEq : Binders → Expr → Expr → Prop
  | ann {Γ r r' e e' t t'} : AlphaEq Γ e e' → AlphaEq Γ t t' → AlphaEq Γ (.ann r e t) (.ann r' e' t')
  | star {Γ r r'} : AlphaEq Γ (.star r) (.star r')
  | pi {Γ r r' x x' d d' c c'} : AlphaEq Γ d d' →
      AlphaEq ((x.map Ident.name, x'.map Ident.name) :: Γ) c c' →
      AlphaEq Γ (.pi r x d c) (.pi r' x' d' c')
  | var {Γ r r' x x'} : SameName Γ x x' → AlphaEq Γ (.var r x) (.var r' x')
  | app {Γ r r' h h' a a'} : AlphaEq Γ h h' → AlphaEq Γ a a' → AlphaEq Γ (.app r h a) (.app r' h' a')
  | lam {Γ r r' x x' b b'} : AlphaEq ((some x.name, some x'.name) :: Γ) b b' →
      AlphaEq Γ (.lam r x b) (.lam r' x' b')
  | number {Γ r r' n} : AlphaEq Γ (.number r n) (.number r' n)
  | zeroLeft {Γ r r'} : some Former.zero.name ∉ Γ.right →
      AlphaEq Γ (.number r 0) (.var r' Former.zero.name)
  | zeroRight {Γ r r'} : some Former.zero.name ∉ Γ.left →
      AlphaEq Γ (.var r Former.zero.name) (.number r' 0)
  | succLeft {Γ r r' r'' n e} : some Former.succ.name ∉ Γ.right → AlphaEq Γ (.number r n) e →
      AlphaEq Γ (.number r (n + 1)) (.app r' (.var r'' Former.succ.name) e)
  | succRight {Γ r r' r'' n e} : some Former.succ.name ∉ Γ.left → AlphaEq Γ e (.number r' n) →
      AlphaEq Γ (.app r (.var r'' Former.succ.name) e) (.number r' (n + 1))

end Expr

/-! ## Nameless forms -/

/-- The formers that sources may use. -/
def Former.builtin : List Former :=
  [nat, zero, succ, natElim, vec, nil, cons, vecElim]

/-- The former that sources call by a name. -/
def Former.ofName? (x : String) : Option Former :=
  builtin.find? (·.name == x)

theorem Former.name_of_ofName? {x : String} {F : Former} (h : ofName? x = some F) : F.name = x := by
  simpa using List.find?_some h

namespace Nameless

def ofFree (x : String) : Nameless :=
  match Former.ofName? x with
  | some F => former F
  | none => free (.global x)

/-- A name under binders. -/
def ofName (scope : List (Option String)) (x : String) : Nameless :=
  match scope.findIdx? (· == some x) with
  | some i => bound i
  | none => ofFree x

def numeral : Nat → Nameless
  | 0 => former .zero
  | n + 1 => app (former .succ) (numeral n)

theorem ofFree_injective {x y : String} (h : ofFree x = ofFree y) : x = y := by
  unfold ofFree at h
  cases hx : Former.ofName? x with
  | none =>
    cases hy : Former.ofName? y with
    | none =>
      simp only [hx, hy, free.injEq, Name.global.injEq] at h
      exact h
    | some G => simp only [hx, hy, reduceCtorEq] at h
  | some F =>
    cases hy : Former.ofName? y with
    | none => simp only [hx, hy, reduceCtorEq] at h
    | some G =>
      simp only [hx, hy, former.injEq] at h
      rw [← Former.name_of_ofName? hx, ← Former.name_of_ofName? hy, h]

def lift : Nameless → Nameless
  | bound i => bound (i + 1)
  | n => n

theorem ofFree_lift {x : String} : (ofFree x).lift = ofFree x := by
  unfold ofFree
  split <;> rfl

theorem ofName_cons_eq {scope : List (Option String)} {x : String} :
    ofName (some x :: scope) x = bound 0 := by
  simp [ofName, List.findIdx?_cons]

theorem ofName_cons_ne {b : Option String} {scope : List (Option String)} {x : String}
    (h : b ≠ some x) : ofName (b :: scope) x = (ofName scope x).lift := by
  simp only [ofName, List.findIdx?_cons, beq_eq_false_iff_ne.mpr h]
  cases hi : scope.findIdx? (· == some x) with
  | none => exact ofFree_lift.symm
  | some i => rfl

theorem lift_ne_zero {n : Nameless} : n.lift ≠ bound 0 := by
  cases n <;> nofun

theorem lift_injective {n n' : Nameless} (h : n.lift = n'.lift) : n = n' := by
  cases n <;> cases n' <;> simp_all [lift]

theorem ofName_of_notMem {scope : List (Option String)} {x : String} (h : some x ∉ scope) :
    ofName scope x = ofFree x := by
  have hnone : scope.findIdx? (· == some x) = none := by
    rw [List.findIdx?_eq_none_iff]
    intro b hb
    exact beq_eq_false_iff_ne.mpr fun hbx => h (hbx ▸ hb)
  rw [ofName, hnone]

/-- A name stands for a former only where no binder has it. -/
theorem ofName_eq_former {scope : List (Option String)} {x : String} {F : Former}
    (h : ofName scope x = former F) : some x ∉ scope ∧ F.name = x := by
  unfold ofName at h
  cases hi : scope.findIdx? (· == some x) with
  | some i => simp only [hi, reduceCtorEq] at h
  | none =>
    simp only [hi, ofFree] at h
    cases hx : Former.ofName? x with
    | none => simp only [hx, reduceCtorEq] at h
    | some G =>
      simp only [hx, former.injEq] at h
      subst h
      refine ⟨fun hmem => ?_, Former.name_of_ofName? hx⟩
      simpa using List.findIdx?_eq_none_iff.mp hi _ hmem

/-- Neither a binder nor an application. -/
def isAtom : Nameless → Bool
  | bound _ | free _ | former _ => true
  | _ => false

theorem isAtom_ofName {scope : List (Option String)} {x : String} :
    (ofName scope x).isAtom = true := by
  unfold ofName
  split
  · rfl
  · unfold ofFree
    split <;> rfl

theorem ofName_ne {scope : List (Option String)} {x : String} {n : Nameless}
    (hn : n.isAtom = false) : ofName scope x ≠ n := by
  rintro rfl
  rw [isAtom_ofName] at hn
  cases hn

theorem numeral_injective : ∀ {n m : Nat}, numeral n = numeral m → n = m
  | 0, 0, _ => rfl
  | 0, m + 1, h | m + 1, 0, h => by simp [numeral] at h
  | n + 1, m + 1, h => by
    simp only [numeral, app.injEq, true_and] at h
    rw [numeral_injective h]

end Nameless

/-- The expression under binders with the given names. -/
def Expr.nameless (scope : List (Option String)) : Expr → Nameless
  | .ann _ e t => .ann (e.nameless scope) (t.nameless scope)
  | .star _ => .star
  | .pi _ x d c => .pi (d.nameless scope) (c.nameless (x.map Ident.name :: scope))
  | .var _ x => .ofName scope x
  | .app _ h a => .app (h.nameless scope) (a.nameless scope)
  | .lam _ x b => .lam (b.nameless (some x.name :: scope))
  | .number _ n => .numeral n

/-! ## Equivalent expressions have the same nameless form -/

theorem sameName_iff {Γ : Binders} {x y : String} :
    SameName Γ x y ↔ Nameless.ofName Γ.left x = Nameless.ofName Γ.right y := by
  constructor
  · intro h
    induction h with
    | free => rfl
    | here => exact Nameless.ofName_cons_eq.trans Nameless.ofName_cons_eq.symm
    | there hx hy _ ih =>
      exact (Nameless.ofName_cons_ne hx).trans
        ((congrArg Nameless.lift ih).trans (Nameless.ofName_cons_ne hy).symm)
  · intro h
    induction Γ with
    | nil =>
      cases Nameless.ofFree_injective h
      exact .free
    | cons b Γ ih =>
      obtain ⟨b, b'⟩ := b
      change Nameless.ofName (b :: Binders.left Γ) x = Nameless.ofName (b' :: Binders.right Γ) y at h
      by_cases hx : b = some x
      · subst hx
        rw [Nameless.ofName_cons_eq] at h
        by_cases hy : b' = some y
        · subst hy
          exact .here
        · rw [Nameless.ofName_cons_ne hy] at h
          exact (Nameless.lift_ne_zero h.symm).elim
      · rw [Nameless.ofName_cons_ne hx] at h
        by_cases hy : b' = some y
        · subst hy
          rw [Nameless.ofName_cons_eq] at h
          exact (Nameless.lift_ne_zero h).elim
        · rw [Nameless.ofName_cons_ne hy] at h
          exact .there hx hy (ih (Nameless.lift_injective h))

theorem SameName.symm {Γ : Binders} {x y : String} (h : SameName Γ x y) : SameName Γ.swap y x := by
  induction h with
  | free => exact .free
  | here => exact .here
  | there hx hy _ ih => exact .there hy hx ih

namespace Expr

theorem AlphaEq.symm {Γ : Binders} {s t : Expr} (h : AlphaEq Γ s t) : AlphaEq Γ.swap t s := by
  induction h with
  | ann _ _ ihe iht => exact .ann ihe iht
  | star => exact .star
  | pi _ _ ihd ihc => exact .pi ihd ihc
  | var hx => exact .var hx.symm
  | app _ _ ihh iha => exact .app ihh iha
  | lam _ ih => exact .lam ih
  | number => exact .number
  | zeroLeft hΓ => exact .zeroRight (by rwa [Binders.left_swap])
  | zeroRight hΓ => exact .zeroLeft (by rwa [Binders.right_swap])
  | succLeft hΓ _ ih => exact .succRight (by rwa [Binders.left_swap]) ih
  | succRight hΓ _ ih => exact .succLeft (by rwa [Binders.right_swap]) ih

theorem AlphaEq.nameless_eq {Γ : Binders} {s t : Expr} (h : AlphaEq Γ s t) :
    s.nameless Γ.left = t.nameless Γ.right := by
  induction h with
  | ann _ _ ihe iht => rw [Expr.nameless, ihe, iht, Expr.nameless]
  | star => rfl
  | pi _ _ ihd ihc => exact congrArg₂ Nameless.pi ihd ihc
  | var hx => exact sameName_iff.mp hx
  | app _ _ ihh iha => rw [Expr.nameless, ihh, iha, Expr.nameless]
  | lam _ ih => exact congrArg Nameless.lam ih
  | number => rfl
  | zeroLeft hΓ => exact (Nameless.ofName_of_notMem hΓ).symm
  | zeroRight hΓ => exact Nameless.ofName_of_notMem hΓ
  | succLeft hΓ _ ih =>
    have hsucc := Nameless.ofName_of_notMem hΓ
    exact congrArg₂ Nameless.app hsucc.symm ih
  | succRight hΓ _ ih =>
    have hsucc := Nameless.ofName_of_notMem hΓ
    exact congrArg₂ Nameless.app hsucc ih

/-- What a number literal is equivalent to. -/
theorem alphaEq_number {Γ : Binders} {r : Range} : ∀ {n : Nat} {t : Expr},
    Nameless.numeral n = t.nameless Γ.right → AlphaEq Γ (.number r n) t
  | n, .number _ m, h => by
    cases Nameless.numeral_injective h
    exact .number
  | 0, .var _ x, h => by
    obtain ⟨hx, rfl⟩ := Nameless.ofName_eq_former h.symm
    exact .zeroLeft hx
  | n + 1, .var _ x, h => by
    exact (Nameless.ofName_ne rfl h.symm).elim
  | n + 1, .app _ f a, h => by
    simp only [Nameless.numeral, Expr.nameless, Nameless.app.injEq] at h
    cases f with
    | var _ x =>
      obtain ⟨hx, rfl⟩ := Nameless.ofName_eq_former h.1.symm
      exact .succLeft hx (alphaEq_number h.2)
    | number _ m => cases m <;> simp [Expr.nameless, Nameless.numeral] at h
    | _ => simp [Expr.nameless] at h
  | 0, .app _ _ _, h | 0, .ann _ _ _, h | 0, .star _, h | 0, .pi _ _ _ _, h | 0, .lam _ _ _, h
  | n + 1, .ann _ _ _, h | n + 1, .star _, h | n + 1, .pi _ _ _ _, h | n + 1, .lam _ _ _, h => by
    simp [Nameless.numeral, Expr.nameless] at h

theorem alphaEq_number_right {Γ : Binders} {r : Range} {n : Nat} {s : Expr}
    (h : s.nameless Γ.left = Nameless.numeral n) : AlphaEq Γ s (.number r n) := by
  rw [← Binders.right_swap] at h
  rw [← Γ.swap_swap]
  exact (alphaEq_number h.symm).symm

theorem alphaEq_of_nameless_eq : ∀ {s t : Expr} {Γ : Binders},
    s.nameless Γ.left = t.nameless Γ.right → AlphaEq Γ s t
  | .ann _ e t, u, Γ, h => by
    cases u with
    | ann _ e' t' =>
      simp only [Expr.nameless, Nameless.ann.injEq] at h
      exact .ann (alphaEq_of_nameless_eq h.1) (alphaEq_of_nameless_eq h.2)
    | var _ x => exact (Nameless.ofName_ne rfl h.symm).elim
    | number _ n => exact alphaEq_number_right h
    | _ => cases h
  | .star _, u, Γ, h => by
    cases u with
    | star _ => exact .star
    | var _ x => exact (Nameless.ofName_ne rfl h.symm).elim
    | number _ n => exact alphaEq_number_right h
    | _ => cases h
  | .pi _ x d c, u, Γ, h => by
    cases u with
    | pi _ x' d' c' =>
      simp only [Expr.nameless, Nameless.pi.injEq] at h
      exact .pi (alphaEq_of_nameless_eq h.1) (alphaEq_of_nameless_eq h.2)
    | var _ x => exact (Nameless.ofName_ne rfl h.symm).elim
    | number _ n => exact alphaEq_number_right h
    | _ => cases h
  | .var _ x, u, Γ, h => by
    cases u with
    | var _ x' => exact .var (sameName_iff.mpr h)
    | number _ n => exact alphaEq_number_right h
    | _ => exact (Nameless.ofName_ne rfl h).elim
  | .app _ f a, u, Γ, h => by
    cases u with
    | app _ f' a' =>
      simp only [Expr.nameless, Nameless.app.injEq] at h
      exact .app (alphaEq_of_nameless_eq h.1) (alphaEq_of_nameless_eq h.2)
    | var _ x => exact (Nameless.ofName_ne rfl h.symm).elim
    | number _ n => exact alphaEq_number_right h
    | _ => cases h
  | .lam _ x b, u, Γ, h => by
    cases u with
    | lam _ x' b' =>
      simp only [Expr.nameless, Nameless.lam.injEq] at h
      exact .lam (alphaEq_of_nameless_eq h)
    | var _ x => exact (Nameless.ofName_ne rfl h.symm).elim
    | number _ n => exact alphaEq_number_right h
    | _ => cases h
  | .number _ n, u, Γ, h => alphaEq_number h

theorem alphaEq_iff {Γ : Binders} {s t : Expr} :
    AlphaEq Γ s t ↔ s.nameless Γ.left = t.nameless Γ.right :=
  ⟨AlphaEq.nameless_eq, alphaEq_of_nameless_eq⟩

end Expr

end TypeInType
