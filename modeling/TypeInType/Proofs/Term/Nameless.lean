import TypeInType.Term

/-!
# Terms without names of binders

A term without its spans and the names of its binders, in which a former is a constant that is applied
to its arguments. Two terms are equal up to spans and names of binders just when they have the same
nameless form.
-/

namespace TypeInType

/-- An expression with de Bruijn indices. -/
inductive Nameless where
  | ann (term type : Nameless)
  | star
  | pi (domain codomain : Nameless)
  | bound (index : Nat)
  | free (name : Name)
  | former (former : Former)
  | app (head arg : Nameless)
  | lam (body : Nameless)
  | ascribe (type term : Nameless)
  | sealed (term : Nameless)
  deriving DecidableEq, Repr

/-- Apply to arguments, the first one first. -/
def Nameless.apps (head : Nameless) (args : List Nameless) : Nameless :=
  args.foldl .app head

mutual

def Synth.nameless : Synth → Nameless
  | .ann _ e t => .ann e.nameless t.nameless
  | .star _ => .star
  | .pi _ _ d c => .pi d.nameless c.nameless
  | .bound _ i => .bound i
  | .free _ x => .free x
  | .app _ h a => .app h.nameless a.nameless
  | .nat _ => .former .nat
  | .zero _ => .former .zero
  | .succ _ n => .apps (.former .succ) [n.nameless]
  | .natElim _ m b s n => .apps (.former .natElim) [m.nameless, b.nameless, s.nameless, n.nameless]
  | .vec _ a n => .apps (.former .vec) [a.nameless, n.nameless]
  | .nil _ a => .apps (.former .nil) [a.nameless]
  | .cons _ a n x xs => .apps (.former .cons) [a.nameless, n.nameless, x.nameless, xs.nameless]
  | .vecElim _ a m b s n xs => .apps (.former .vecElim)
      [a.nameless, m.nameless, b.nameless, s.nameless, n.nameless, xs.nameless]

def Check.nameless : Check → Nameless
  | .synth t => t.nameless
  | .lam _ _ b => .lam b.nameless
  | .ascribe _ t e => .ascribe t.nameless e.nameless
  | .sealed _ e => .sealed e.nameless

end

/-! ## Formers have all their arguments -/

def Former.arity : Former → Nat
  | nat | zero => 0
  | succ | nil | sealed => 1
  | vec | ascribe => 2
  | natElim | cons => 4
  | vecElim => 6

namespace Nameless

/-- The former that is applied. -/
def head? : Nameless → Option Former
  | former F => some F
  | app h _ => h.head?
  | _ => none

/-- How many arguments the head is applied to. -/
def args : Nameless → Nat
  | app h _ => h.args + 1
  | _ => 0

theorem head?_apps (as : List Nameless) (n : Nameless) : (n.apps as).head? = n.head? := by
  induction as generalizing n with
  | nil => rfl
  | cons a as ih => exact ih (app n a)

theorem args_apps (as : List Nameless) (n : Nameless) : (n.apps as).args = n.args + as.length := by
  induction as generalizing n with
  | nil => rfl
  | cons a as ih =>
    have h : (n.apps (a :: as)).args = n.args + 1 + as.length := ih (app n a)
    rw [h, List.length_cons]
    omega

theorem apps_concat (as : List Nameless) (a n : Nameless) : n.apps (as ++ [a]) = app (n.apps as) a := by
  simp only [apps, List.foldl_append, List.foldl_cons, List.foldl_nil]

end Nameless

theorem Synth.arity_le_args : ∀ (t : Synth) {F : Former}, t.nameless.head? = some F →
    F.arity ≤ t.nameless.args
  | .ann _ _ _, _, h | .star _, _, h | .pi _ _ _ _, _, h | .bound _ _, _, h | .free _ _, _, h => by
    cases h
  | .app _ f a, F, h => by
    have hf : F.arity ≤ f.nameless.args := f.arity_le_args h
    exact Nat.le_succ_of_le hf
  | .nat _, _, h | .zero _, _, h | .succ _ _, _, h | .natElim _ _ _ _ _, _, h | .vec _ _ _, _, h
  | .nil _ _, _, h | .cons _ _ _ _ _, _, h | .vecElim _ _ _ _ _ _ _, _, h => by
    cases h
    exact Nat.le_refl _

/-- A term applies no former to too few arguments. -/
theorem Synth.ne_apps (t : Synth) {F : Former} {as : List Nameless} (h : as.length < F.arity) :
    t.nameless ≠ .apps (.former F) as := by
  intro ht
  have hle : F.arity ≤ t.nameless.args := t.arity_le_args (by rw [ht, Nameless.head?_apps]; rfl)
  rw [ht, Nameless.args_apps] at hle
  simp only [Nameless.args, Nat.zero_add] at hle
  exact Nat.not_lt_of_le hle h

/-! ## Equal up to spans and names of binders -/

/-- An application is no former with all its arguments: its head would lack the last one. -/
theorem Synth.app_ne_former (t : Synth) {a : Nameless} {F : Former} {as : List Nameless}
    (h : as.length = F.arity) : Nameless.app t.nameless a ≠ .apps (.former F) as := by
  intro ht
  rcases List.eq_nil_or_concat as with rfl | ⟨as, b, rfl⟩
  · cases ht
  · rw [List.concat_eq_append, Nameless.apps_concat] at ht
    injection ht with ht _
    refine t.ne_apps (F := F) ?_ ht
    rw [← h, List.length_concat]
    exact Nat.lt_succ_self _

mutual

theorem Synth.alphaEq_iff : ∀ {t u : Synth}, t.alphaEq u = true ↔ t.nameless = u.nameless
  | .ann _ e t, u => by
    cases u with
    | ann _ e' t' =>
      simp only [Synth.alphaEq, Synth.nameless, Bool.and_eq_true, Check.alphaEq_iff,
        Nameless.ann.injEq]
    | _ => simp [Synth.alphaEq, Synth.nameless, Nameless.apps]
  | .star _, u => by
    cases u <;> simp [Synth.alphaEq, Synth.nameless, Nameless.apps]
  | .pi _ _ d c, u => by
    cases u with
    | pi _ _ d' c' =>
      simp only [Synth.alphaEq, Synth.nameless, Bool.and_eq_true, Check.alphaEq_iff,
        Nameless.pi.injEq]
    | _ => simp [Synth.alphaEq, Synth.nameless, Nameless.apps]
  | .bound _ i, u => by
    cases u <;> simp [Synth.alphaEq, Synth.nameless, Nameless.apps]
  | .free _ x, u => by
    cases u <;> simp [Synth.alphaEq, Synth.nameless, Nameless.apps]
  | .app _ f a, u => by
    cases u with
    | app _ f' a' =>
      simp only [Synth.alphaEq, Synth.nameless, Bool.and_eq_true, Synth.alphaEq_iff,
        Check.alphaEq_iff, Nameless.app.injEq]
    | succ _ _ => exact iff_of_false Bool.false_ne_true (f.app_ne_former rfl)
    | natElim _ _ _ _ _ => exact iff_of_false Bool.false_ne_true (f.app_ne_former rfl)
    | vec _ _ _ => exact iff_of_false Bool.false_ne_true (f.app_ne_former rfl)
    | nil _ _ => exact iff_of_false Bool.false_ne_true (f.app_ne_former rfl)
    | cons _ _ _ _ _ => exact iff_of_false Bool.false_ne_true (f.app_ne_former rfl)
    | vecElim _ _ _ _ _ _ _ => exact iff_of_false Bool.false_ne_true (f.app_ne_former rfl)
    | _ => simp [Synth.alphaEq, Synth.nameless]
  | .nat _, u => by
    cases u <;> simp [Synth.alphaEq, Synth.nameless, Nameless.apps]
  | .zero _, u => by
    cases u <;> simp [Synth.alphaEq, Synth.nameless, Nameless.apps]
  | .succ _ n, u => by
    cases u with
    | app _ f _ => exact iff_of_false Bool.false_ne_true (f.app_ne_former rfl).symm
    | succ _ n' => simp [Synth.alphaEq, Synth.nameless, Nameless.apps, Check.alphaEq_iff]
    | _ => simp [Synth.alphaEq, Synth.nameless, Nameless.apps]
  | .natElim _ m b s n, u => by
    cases u with
    | app _ f _ => exact iff_of_false Bool.false_ne_true (f.app_ne_former rfl).symm
    | natElim _ m' b' s' n' =>
      simp [Synth.alphaEq, Synth.nameless, Nameless.apps, Check.alphaEq_iff]
    | _ => simp [Synth.alphaEq, Synth.nameless, Nameless.apps]
  | .vec _ a n, u => by
    cases u with
    | app _ f _ => exact iff_of_false Bool.false_ne_true (f.app_ne_former rfl).symm
    | vec _ a' n' => simp [Synth.alphaEq, Synth.nameless, Nameless.apps, Check.alphaEq_iff]
    | _ => simp [Synth.alphaEq, Synth.nameless, Nameless.apps]
  | .nil _ a, u => by
    cases u with
    | app _ f _ => exact iff_of_false Bool.false_ne_true (f.app_ne_former rfl).symm
    | nil _ a' => simp [Synth.alphaEq, Synth.nameless, Nameless.apps, Check.alphaEq_iff]
    | _ => simp [Synth.alphaEq, Synth.nameless, Nameless.apps]
  | .cons _ a n x xs, u => by
    cases u with
    | app _ f _ => exact iff_of_false Bool.false_ne_true (f.app_ne_former rfl).symm
    | cons _ a' n' x' xs' =>
      simp [Synth.alphaEq, Synth.nameless, Nameless.apps, Check.alphaEq_iff]
    | _ => simp [Synth.alphaEq, Synth.nameless, Nameless.apps]
  | .vecElim _ a m b s n xs, u => by
    cases u with
    | app _ f _ => exact iff_of_false Bool.false_ne_true (f.app_ne_former rfl).symm
    | vecElim _ a' m' b' s' n' xs' =>
      simp [Synth.alphaEq, Synth.nameless, Nameless.apps, Check.alphaEq_iff]
    | _ => simp [Synth.alphaEq, Synth.nameless, Nameless.apps]

theorem Check.alphaEq_iff : ∀ {t u : Check}, t.alphaEq u = true ↔ t.nameless = u.nameless
  | .synth t, u => by
    cases u with
    | synth t' => exact Synth.alphaEq_iff
    | _ => cases t <;> simp [Check.alphaEq, Check.nameless, Synth.nameless, Nameless.apps]
  | .lam _ _ b, u => by
    cases u with
    | lam _ _ b' => simp only [Check.alphaEq, Check.nameless, Check.alphaEq_iff, Nameless.lam.injEq]
    | synth t => cases t <;> simp [Check.alphaEq, Check.nameless, Synth.nameless, Nameless.apps]
    | _ => simp [Check.alphaEq, Check.nameless]
  | .ascribe _ t e, u => by
    cases u with
    | ascribe _ t' e' =>
      simp only [Check.alphaEq, Check.nameless, Bool.and_eq_true, Check.alphaEq_iff,
        Nameless.ascribe.injEq]
    | synth t => cases t <;> simp [Check.alphaEq, Check.nameless, Synth.nameless, Nameless.apps]
    | _ => simp [Check.alphaEq, Check.nameless]
  | .sealed _ e, u => by
    cases u with
    | sealed _ e' =>
      simp only [Check.alphaEq, Check.nameless, Synth.alphaEq_iff, Nameless.sealed.injEq]
    | synth t => cases t <;> simp [Check.alphaEq, Check.nameless, Synth.nameless, Nameless.apps]
    | _ => simp [Check.alphaEq, Check.nameless]

end

theorem Check.alphaEq_trans {t u v : Check} (h : t.alphaEq u = true) (h' : u.alphaEq v = true) :
    t.alphaEq v = true := by
  rw [Check.alphaEq_iff] at *
  exact h.trans h'

end TypeInType
