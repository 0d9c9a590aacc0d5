import TypeInType.Proofs.Core.Term

/-!
# Conversion

The least congruence of core terms that is generated by the rules of computation: the application of
a function literal, the unfolding of a definition, and the eliminators on the constructors.
-/

namespace TypeInType

/-- A name that stands for a term. -/
structure Definition where
  type : Core
  body : Core

/-- The constants of a calculus. A postulate may have several types. -/
structure Theory where
  postulate : String → Core → Prop
  definition : String → Option Definition
  closed_postulate : ∀ {x A}, postulate x A → A.Closed
  closed_definition : ∀ {x d}, definition x = some d → d.type.Closed ∧ d.body.Closed

namespace Core

/-- `s n x xs r`, as the step of a vector elimination is used. -/
def app4 (s n x xs r : Core) : Core :=
  .app (.app (.app (.app s n) x) xs) r

inductive Conv (Θ : Theory) : Core → Core → Prop where
  | refl (t) : Conv Θ t t
  | symm {t u} : Conv Θ t u → Conv Θ u t
  | trans {t u v} : Conv Θ t u → Conv Θ u v → Conv Θ t v
  | beta (b a) : Conv Θ (.app (.lam b) a) (b.inst a)
  | delta {x d} : Θ.definition x = some d → Conv Θ (.atom (.definition x)) d.body
  | natZero (m b s) : Conv Θ (.natElim m b s .zero) b
  | natSucc (m b s n) :
      Conv Θ (.natElim m b s (.succ n)) (.app (.app s n) (.natElim m b s n))
  | vecNil (a m b s n a') : Conv Θ (.vecElim a m b s n (.nil a')) b
  | vecCons (a m b s n a' n' x xs) :
      Conv Θ (.vecElim a m b s n (.cons a' n' x xs)) (app4 s n' x xs (.vecElim a m b s n' xs))
  | pi {A A' B B'} : Conv Θ A A' → Conv Θ B B' → Conv Θ (.pi A B) (.pi A' B')
  | lam {b b'} : Conv Θ b b' → Conv Θ (.lam b) (.lam b')
  | app {f f' a a'} : Conv Θ f f' → Conv Θ a a' → Conv Θ (.app f a) (.app f' a')
  | succ {n n'} : Conv Θ n n' → Conv Θ (.succ n) (.succ n')
  | natElim {m m' b b' s s' n n'} : Conv Θ m m' → Conv Θ b b' → Conv Θ s s' → Conv Θ n n' →
      Conv Θ (.natElim m b s n) (.natElim m' b' s' n')
  | vec {a a' n n'} : Conv Θ a a' → Conv Θ n n' → Conv Θ (.vec a n) (.vec a' n')
  | nil {a a'} : Conv Θ a a' → Conv Θ (.nil a) (.nil a')
  | cons {a a' n n' x x' xs xs'} : Conv Θ a a' → Conv Θ n n' → Conv Θ x x' → Conv Θ xs xs' →
      Conv Θ (.cons a n x xs) (.cons a' n' x' xs')
  | vecElim {a a' m m' b b' s s' n n' xs xs'} : Conv Θ a a' → Conv Θ m m' → Conv Θ b b' →
      Conv Θ s s' → Conv Θ n n' → Conv Θ xs xs' →
      Conv Θ (.vecElim a m b s n xs) (.vecElim a' m' b' s' n' xs')

variable {Θ : Theory}

namespace Conv

/-! ## Substitution -/

theorem subst {t u : Core} (h : Conv Θ t u) (σ : Nat → Core) : Conv Θ (t.subst σ) (u.subst σ) := by
  induction h generalizing σ with
  | refl t => exact .refl _
  | symm _ ih => exact (ih σ).symm
  | trans _ _ ih ih' => exact (ih σ).trans (ih' σ)
  | beta b a => rw [subst_inst]; exact .beta _ _
  | delta h => rw [(Θ.closed_definition h).2]; exact .delta h
  | natZero m b s => exact .natZero _ _ _
  | natSucc m b s n => exact .natSucc _ _ _ _
  | vecNil a m b s n a' => exact .vecNil _ _ _ _ _ _
  | vecCons a m b s n a' n' x xs => exact .vecCons _ _ _ _ _ _ _ _ _
  | pi _ _ ihA ihB => exact .pi (ihA σ) (ihB _)
  | lam _ ih => exact .lam (ih _)
  | app _ _ ihf iha => exact .app (ihf σ) (iha σ)
  | succ _ ih => exact .succ (ih σ)
  | natElim _ _ _ _ ihm ihb ihs ihn => exact .natElim (ihm σ) (ihb σ) (ihs σ) (ihn σ)
  | vec _ _ iha ihn => exact .vec (iha σ) (ihn σ)
  | nil _ ih => exact .nil (ih σ)
  | cons _ _ _ _ iha ihn ihx ihxs => exact .cons (iha σ) (ihn σ) (ihx σ) (ihxs σ)
  | vecElim _ _ _ _ _ _ iha ihm ihb ihs ihn ihxs =>
    exact .vecElim (iha σ) (ihm σ) (ihb σ) (ihs σ) (ihn σ) (ihxs σ)

theorem rename {t u : Core} (h : Conv Θ t u) (ξ : Nat → Nat) :
    Conv Θ (t.rename ξ) (u.rename ξ) := by
  rw [rename_eq_subst, rename_eq_subst]
  exact h.subst _

theorem shift {t u : Core} (h : Conv Θ t u) : Conv Θ t.shift u.shift := h.rename _

theorem up {σ τ : Nat → Core} (h : ∀ i, Conv Θ (σ i) (τ i)) : ∀ i, Conv Θ (Core.up σ i) (Core.up τ i)
  | 0 => .refl _
  | i + 1 => (h i).shift

/-- Substitutions that agree up to conversion give the same term up to conversion. -/
theorem subst_congr (t : Core) {σ τ : Nat → Core} (h : ∀ i, Conv Θ (σ i) (τ i)) :
    Conv Θ (t.subst σ) (t.subst τ) := by
  induction t generalizing σ τ with
  | var i => exact h i
  | atom a => exact .refl _
  | star => exact .refl _
  | pi A B ihA ihB => exact .pi (ihA h) (ihB (up h))
  | lam b ih => exact .lam (ih (up h))
  | app f a ihf iha => exact .app (ihf h) (iha h)
  | nat => exact .refl _
  | zero => exact .refl _
  | succ n ih => exact .succ (ih h)
  | natElim m b s n ihm ihb ihs ihn => exact .natElim (ihm h) (ihb h) (ihs h) (ihn h)
  | vec a n iha ihn => exact .vec (iha h) (ihn h)
  | nil a ih => exact .nil (ih h)
  | cons a n x xs iha ihn ihx ihxs => exact .cons (iha h) (ihn h) (ihx h) (ihxs h)
  | vecElim a m b s n xs iha ihm ihb ihs ihn ihxs =>
    exact .vecElim (iha h) (ihm h) (ihb h) (ihs h) (ihn h) (ihxs h)

theorem inst {b b' a a' : Core} (hb : Conv Θ b b') (ha : Conv Θ a a') :
    Conv Θ (b.inst a) (b'.inst a') := by
  refine (hb.subst _).trans (subst_congr b' ?_)
  intro i
  cases i with
  | zero => exact ha
  | succ i => exact .refl _

theorem app4 {s s' n n' x x' xs xs' r r' : Core} (hs : Conv Θ s s') (hn : Conv Θ n n')
    (hx : Conv Θ x x') (hxs : Conv Θ xs xs') (hr : Conv Θ r r') :
    Conv Θ (app4 s n x xs r) (app4 s' n' x' xs' r') :=
  .app (.app (.app (.app hs hn) hx) hxs) hr

end Conv

end Core

end TypeInType
