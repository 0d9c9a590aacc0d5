import TypeInType.Term

/-!
# Core terms

Terms without spans, names of binders and annotations. What is not bound by a binder of the term is a
variable of a context, which is an index, or an atom, which stands for itself.
-/

namespace TypeInType

/-- What a name that is not bound can be. A postulate stands for itself and a definition for its
body. The last four have no type: a name that nothing declares, a hypothesis and a variable of
read-back that no context accounts for, and an index that no binder accounts for. -/
inductive Atom where
  | postulate (name : String)
  | definition (name : String)
  | undeclared (name : String)
  | hyp (level : Nat)
  | quote (level : Nat)
  | stray (index : Nat)
  deriving DecidableEq, Repr

inductive Core where
  | var (i : Nat)
  | atom (a : Atom)
  | star
  | pi (A B : Core)
  | lam (b : Core)
  | app (f a : Core)
  | nat
  | zero
  | succ (n : Core)
  | natElim (m b s n : Core)
  | vec (a n : Core)
  | nil (a : Core)
  | cons (a n x xs : Core)
  | vecElim (a m b s n xs : Core)
  deriving DecidableEq, Repr

namespace Core

/-! ## Renaming and substitution -/

/-- A renaming inside a binder. -/
def upRen (ξ : Nat → Nat) : Nat → Nat
  | 0 => 0
  | i + 1 => ξ i + 1

def rename (ξ : Nat → Nat) : Core → Core
  | var i => var (ξ i)
  | atom a => atom a
  | star => star
  | pi A B => pi (A.rename ξ) (B.rename (upRen ξ))
  | lam b => lam (b.rename (upRen ξ))
  | app f a => app (f.rename ξ) (a.rename ξ)
  | nat => nat
  | zero => zero
  | succ n => succ (n.rename ξ)
  | natElim m b s n => natElim (m.rename ξ) (b.rename ξ) (s.rename ξ) (n.rename ξ)
  | vec a n => vec (a.rename ξ) (n.rename ξ)
  | nil a => nil (a.rename ξ)
  | cons a n x xs => cons (a.rename ξ) (n.rename ξ) (x.rename ξ) (xs.rename ξ)
  | vecElim a m b s n xs =>
    vecElim (a.rename ξ) (m.rename ξ) (b.rename ξ) (s.rename ξ) (n.rename ξ) (xs.rename ξ)

/-- The term inside one more binder. -/
def shift (t : Core) : Core :=
  t.rename Nat.succ

/-- A substitution inside a binder. -/
def up (σ : Nat → Core) : Nat → Core
  | 0 => var 0
  | i + 1 => (σ i).shift

def subst (σ : Nat → Core) : Core → Core
  | var i => σ i
  | atom a => atom a
  | star => star
  | pi A B => pi (A.subst σ) (B.subst (up σ))
  | lam b => lam (b.subst (up σ))
  | app f a => app (f.subst σ) (a.subst σ)
  | nat => nat
  | zero => zero
  | succ n => succ (n.subst σ)
  | natElim m b s n => natElim (m.subst σ) (b.subst σ) (s.subst σ) (n.subst σ)
  | vec a n => vec (a.subst σ) (n.subst σ)
  | nil a => nil (a.subst σ)
  | cons a n x xs => cons (a.subst σ) (n.subst σ) (x.subst σ) (xs.subst σ)
  | vecElim a m b s n xs =>
    vecElim (a.subst σ) (m.subst σ) (b.subst σ) (s.subst σ) (n.subst σ) (xs.subst σ)

/-- The substitution with one more term in front. -/
def push (t : Core) (σ : Nat → Core) : Nat → Core
  | 0 => t
  | i + 1 => σ i

/-- The body of a binder, with a term in place of the bound variable. -/
def inst (b a : Core) : Core :=
  b.subst (push a var)

/-- Substitution leaves the term as it is. -/
def Closed (t : Core) : Prop :=
  ∀ σ, t.subst σ = t

/-! ## Laws of substitution -/

theorem upRen_comp (ξ ζ : Nat → Nat) : upRen ζ ∘ upRen ξ = upRen (ζ ∘ ξ) := by
  funext i
  cases i with
  | zero => rfl
  | succ i => rfl

theorem rename_rename (t : Core) (ξ ζ : Nat → Nat) :
    (t.rename ξ).rename ζ = t.rename (ζ ∘ ξ) := by
  induction t generalizing ξ ζ with
  | var _ | atom _ | star | nat | zero => rfl
  | pi _ _ _ _ | lam _ _ => simp only [rename, upRen_comp, *]
  | app | succ | natElim | vec | nil | cons | vecElim => simp only [rename, *]

theorem up_comp_upRen (ξ : Nat → Nat) (σ : Nat → Core) : up σ ∘ upRen ξ = up (σ ∘ ξ) := by
  funext i
  cases i with
  | zero => rfl
  | succ i => rfl

theorem subst_rename (t : Core) (ξ : Nat → Nat) (σ : Nat → Core) :
    (t.rename ξ).subst σ = t.subst (σ ∘ ξ) := by
  induction t generalizing ξ σ with
  | var _ | atom _ | star | nat | zero => rfl
  | pi _ _ _ _ | lam _ _ => simp only [rename, subst, up_comp_upRen, *]
  | app | succ | natElim | vec | nil | cons | vecElim => simp only [rename, subst, *]

theorem rename_shift (t : Core) (ξ : Nat → Nat) : t.shift.rename (upRen ξ) = (t.rename ξ).shift := by
  simp only [shift, rename_rename]
  rfl

theorem rename_comp_up (σ : Nat → Core) (ξ : Nat → Nat) :
    rename (upRen ξ) ∘ up σ = up (rename ξ ∘ σ) := by
  funext i
  cases i with
  | zero => rfl
  | succ i => exact rename_shift (σ i) ξ

theorem rename_subst (t : Core) (σ : Nat → Core) (ξ : Nat → Nat) :
    (t.subst σ).rename ξ = t.subst (rename ξ ∘ σ) := by
  induction t generalizing σ ξ with
  | var _ | atom _ | star | nat | zero => rfl
  | pi _ _ _ _ | lam _ _ => simp only [rename, subst, rename_comp_up, *]
  | app | succ | natElim | vec | nil | cons | vecElim => simp only [rename, subst, *]

theorem subst_shift (t : Core) (σ : Nat → Core) : t.shift.subst (up σ) = (t.subst σ).shift := by
  simp only [shift, subst_rename, rename_subst]
  rfl

theorem subst_comp_up (σ τ : Nat → Core) : subst (up τ) ∘ up σ = up (subst τ ∘ σ) := by
  funext i
  cases i with
  | zero => rfl
  | succ i => exact subst_shift (σ i) τ

theorem subst_subst (t : Core) (σ τ : Nat → Core) :
    (t.subst σ).subst τ = t.subst (subst τ ∘ σ) := by
  induction t generalizing σ τ with
  | var _ | atom _ | star | nat | zero => rfl
  | pi _ _ _ _ | lam _ _ => simp only [subst, subst_comp_up, *]
  | app | succ | natElim | vec | nil | cons | vecElim => simp only [subst, *]

theorem up_var : up var = var := by
  funext i
  cases i with
  | zero => rfl
  | succ i => rfl

theorem subst_var (t : Core) : t.subst var = t := by
  induction t with
  | var _ | atom _ | star | nat | zero => rfl
  | pi _ _ _ _ | lam _ _ => simp only [subst, up_var, *]
  | app | succ | natElim | vec | nil | cons | vecElim => simp only [subst, *]

theorem up_var_comp (ξ : Nat → Nat) : up (var ∘ ξ) = var ∘ upRen ξ := by
  funext i
  cases i with
  | zero => rfl
  | succ i => rfl

theorem rename_eq_subst (t : Core) (ξ : Nat → Nat) : t.rename ξ = t.subst (var ∘ ξ) := by
  rw [← subst_var (t.rename ξ), subst_rename]

/-! ## Instantiation -/

theorem push_comp_up (σ : Nat → Core) (a : Core) :
    subst (push a var) ∘ up σ = push a σ := by
  funext i
  cases i with
  | zero => rfl
  | succ i =>
    show (σ i).shift.subst (push a var) = σ i
    rw [shift, subst_rename]
    exact subst_var (σ i)

theorem inst_subst_up (b a : Core) (σ : Nat → Core) :
    (b.subst (up σ)).inst a = b.subst (push a σ) := by
  rw [inst, subst_subst, push_comp_up]

theorem comp_push (σ : Nat → Core) (a : Core) :
    subst σ ∘ push a var = push (a.subst σ) σ := by
  funext i
  cases i with
  | zero => rfl
  | succ i => rfl

theorem subst_inst (b a : Core) (σ : Nat → Core) :
    (b.inst a).subst σ = (b.subst (up σ)).inst (a.subst σ) := by
  rw [inst_subst_up, inst, subst_subst, comp_push]

theorem rename_inst (b a : Core) (ξ : Nat → Nat) :
    (b.inst a).rename ξ = (b.rename (upRen ξ)).inst (a.rename ξ) := by
  simp only [rename_eq_subst, subst_inst, up_var_comp]

@[simp]
theorem inst_shift (t a : Core) : t.shift.inst a = t := by
  rw [inst, shift, subst_rename]
  exact subst_var t

/-- Under a binder, to put its own variable in for a fresh one changes nothing. -/
theorem inst_var_zero (t : Core) : (t.subst (up (var ∘ Nat.succ))).inst (var 0) = t := by
  have hpush : push (var 0) (var ∘ Nat.succ) = var := by
    funext i
    cases i with
    | zero => rfl
    | succ i => rfl
  rw [inst_subst_up, hpush, subst_var]

/-! ## Closed terms -/

theorem Closed.rename_eq {t : Core} (h : t.Closed) (ξ : Nat → Nat) : t.rename ξ = t := by
  rw [rename_eq_subst, h]

theorem Closed.shift_eq {t : Core} (h : t.Closed) : t.shift = t :=
  h.rename_eq _

theorem closed_atom (a : Atom) : (atom a).Closed := fun _ => rfl

end Core

end TypeInType
