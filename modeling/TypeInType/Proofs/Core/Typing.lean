import TypeInType.Proofs.Core.Confluence

/-!
# Typing of core terms

A dependent calculus in which `*` has type `*`. Function literals do not say what they take, so a term
may have types that are not convertible.
-/

namespace TypeInType

namespace Core

/-! ## The types of the eliminators' arguments -/

/-- `Nat -> *`. -/
def natMotive : Core :=
  pi nat star

/-- `forall (n : Nat) -> m n -> m (Succ n)`. -/
def natStep (m : Core) : Core :=
  pi nat (pi (app m.shift (var 0)) (app m.shift.shift (succ (var 1))))

/-- `forall (n : Nat) -> Vec a n -> *`. -/
def vecMotive (a : Core) : Core :=
  pi nat (pi (vec a.shift (var 0)) star)

/-- `forall (n : Nat) (x : a) (xs : Vec a n) -> m n xs -> m (Succ n) (Cons a n x xs)`. -/
def vecStep (a m : Core) : Core :=
  pi nat (pi a.shift (pi (vec a.shift.shift (var 1))
    (pi (app (app m.shift.shift.shift (var 2)) (var 0))
      (app (app m.shift.shift.shift.shift (succ (var 3)))
        (cons a.shift.shift.shift.shift (var 3) (var 2) (var 1))))))

/-! ## Typing -/

/-- The variable has the type, seen from the whole context. -/
inductive Lookup : List Core → Nat → Core → Prop where
  | here {Γ A} : Lookup (A :: Γ) 0 A.shift
  | there {Γ A B i} : Lookup Γ i A → Lookup (B :: Γ) (i + 1) A.shift

inductive HasType (Θ : Theory) : List Core → Core → Core → Prop where
  | var {Γ i A} : Lookup Γ i A → HasType Θ Γ (.var i) A
  | postulate {Γ x A} : Θ.postulate x A → HasType Θ Γ (.atom (.postulate x)) A
  | definition {Γ x d} : Θ.definition x = some d → HasType Θ Γ (.atom (.definition x)) d.type
  | star {Γ} : HasType Θ Γ .star .star
  | pi {Γ A B} : HasType Θ Γ A .star → HasType Θ (A :: Γ) B .star → HasType Θ Γ (.pi A B) .star
  | lam {Γ A B b} : HasType Θ Γ A .star → HasType Θ (A :: Γ) b B → HasType Θ Γ (.lam b) (.pi A B)
  | app {Γ A B f a} : HasType Θ Γ f (.pi A B) → HasType Θ Γ a A →
      HasType Θ Γ (.app f a) (B.inst a)
  | nat {Γ} : HasType Θ Γ .nat .star
  | zero {Γ} : HasType Θ Γ .zero .nat
  | succ {Γ n} : HasType Θ Γ n .nat → HasType Θ Γ (.succ n) .nat
  | natElim {Γ m b s n} : HasType Θ Γ m natMotive → HasType Θ Γ b (.app m .zero) →
      HasType Θ Γ s (natStep m) → HasType Θ Γ n .nat → HasType Θ Γ (.natElim m b s n) (.app m n)
  | vec {Γ a n} : HasType Θ Γ a .star → HasType Θ Γ n .nat → HasType Θ Γ (.vec a n) .star
  | nil {Γ a} : HasType Θ Γ a .star → HasType Θ Γ (.nil a) (.vec a .zero)
  | cons {Γ a n x xs} : HasType Θ Γ a .star → HasType Θ Γ n .nat → HasType Θ Γ x a →
      HasType Θ Γ xs (.vec a n) → HasType Θ Γ (.cons a n x xs) (.vec a (.succ n))
  | vecElim {Γ a m b s n xs} : HasType Θ Γ a .star → HasType Θ Γ m (vecMotive a) →
      HasType Θ Γ b (.app (.app m .zero) (.nil a)) → HasType Θ Γ s (vecStep a m) →
      HasType Θ Γ n .nat → HasType Θ Γ xs (.vec a n) →
      HasType Θ Γ (.vecElim a m b s n xs) (.app (.app m n) xs)
  | conv {Γ t A B} : HasType Θ Γ t A → Conv Θ A B → HasType Θ Γ B .star → HasType Θ Γ t B

/-- Every hypothesis is a type. -/
inductive CtxOk (Θ : Theory) : List Core → Prop where
  | nil : CtxOk Θ []
  | cons {Γ A} : CtxOk Θ Γ → HasType Θ Γ A .star → CtxOk Θ (A :: Γ)

end Core

/-- The types of the constants are types, and every definition has the type that it is given. -/
structure Theory.Ok (Θ : Theory) : Prop where
  postulate : ∀ {x A}, Θ.postulate x A → Core.HasType Θ [] A .star
  type : ∀ {x d}, Θ.definition x = some d → Core.HasType Θ [] d.type .star
  body : ∀ {x d}, Θ.definition x = some d → Core.HasType Θ [] d.body d.type

namespace Core

variable {Θ : Theory}

/-! ## Inversion -/

/-- The type is the one that the rule of the term's head gives it, conversion apart. -/
def Generated (Θ : Theory) (Γ : List Core) : Core → Core → Prop
  | var i, T => Lookup Γ i T
  | atom (.postulate x), T => Θ.postulate x T
  | atom (.definition x), T => ∃ d, Θ.definition x = some d ∧ T = d.type
  | atom _, _ => False
  | star, T => T = star
  | pi A B, T => HasType Θ Γ A star ∧ HasType Θ (A :: Γ) B star ∧ T = star
  | lam b, T => ∃ A B, HasType Θ Γ A star ∧ HasType Θ (A :: Γ) b B ∧ T = pi A B
  | app f a, T => ∃ A B, HasType Θ Γ f (pi A B) ∧ HasType Θ Γ a A ∧ T = B.inst a
  | nat, T => T = star
  | zero, T => T = nat
  | succ n, T => HasType Θ Γ n nat ∧ T = nat
  | natElim m b s n, T => HasType Θ Γ m natMotive ∧ HasType Θ Γ b (app m zero) ∧
      HasType Θ Γ s (natStep m) ∧ HasType Θ Γ n nat ∧ T = app m n
  | vec a n, T => HasType Θ Γ a star ∧ HasType Θ Γ n nat ∧ T = star
  | nil a, T => HasType Θ Γ a star ∧ T = vec a zero
  | cons a n x xs, T => HasType Θ Γ a star ∧ HasType Θ Γ n nat ∧ HasType Θ Γ x a ∧
      HasType Θ Γ xs (vec a n) ∧ T = vec a (succ n)
  | vecElim a m b s n xs, T => HasType Θ Γ a star ∧ HasType Θ Γ m (vecMotive a) ∧
      HasType Θ Γ b (app (app m zero) (nil a)) ∧ HasType Θ Γ s (vecStep a m) ∧
      HasType Θ Γ n nat ∧ HasType Θ Γ xs (vec a n) ∧ T = app (app m n) xs

theorem HasType.inv {Γ : List Core} {t T : Core} (h : HasType Θ Γ t T) :
    ∃ T', Generated Θ Γ t T' ∧ Conv Θ T' T := by
  induction h with
  | var hi => exact ⟨_, hi, .refl _⟩
  | postulate hx => exact ⟨_, hx, .refl _⟩
  | definition hx => exact ⟨_, ⟨_, hx, rfl⟩, .refl _⟩
  | star => exact ⟨_, rfl, .refl _⟩
  | pi hA hB => exact ⟨_, ⟨hA, hB, rfl⟩, .refl _⟩
  | lam hA hb => exact ⟨_, ⟨_, _, hA, hb, rfl⟩, .refl _⟩
  | app hf ha => exact ⟨_, ⟨_, _, hf, ha, rfl⟩, .refl _⟩
  | nat => exact ⟨_, rfl, .refl _⟩
  | zero => exact ⟨_, rfl, .refl _⟩
  | succ hn => exact ⟨_, ⟨hn, rfl⟩, .refl _⟩
  | natElim hm hb hs hn => exact ⟨_, ⟨hm, hb, hs, hn, rfl⟩, .refl _⟩
  | vec ha hn => exact ⟨_, ⟨ha, hn, rfl⟩, .refl _⟩
  | nil ha => exact ⟨_, ⟨ha, rfl⟩, .refl _⟩
  | cons ha hn hx hxs => exact ⟨_, ⟨ha, hn, hx, hxs, rfl⟩, .refl _⟩
  | vecElim ha hm hb hs hn hxs => exact ⟨_, ⟨ha, hm, hb, hs, hn, hxs, rfl⟩, .refl _⟩
  | conv _ hc _ ih =>
    obtain ⟨T', hg, hc'⟩ := ih
    exact ⟨T', hg, hc'.trans hc⟩

/-! ## Renaming -/

/-- The renaming takes the variables of a context to variables of the same types in another. -/
def RenOk (Γ Δ : List Core) (ξ : Nat → Nat) : Prop :=
  ∀ i A, Lookup Γ i A → Lookup Δ (ξ i) (A.rename ξ)

theorem RenOk.up {Γ Δ : List Core} {ξ : Nat → Nat} (h : RenOk Γ Δ ξ) (A : Core) :
    RenOk (A :: Γ) (A.rename ξ :: Δ) (upRen ξ) := by
  intro i B hi
  cases hi with
  | here => rw [rename_shift]; exact .here
  | there hi => rw [rename_shift]; exact .there (h _ _ hi)

theorem RenOk.shift (Γ : List Core) (A : Core) : RenOk Γ (A :: Γ) Nat.succ :=
  fun _ _ hi => .there hi

theorem RenOk.nil (Γ : List Core) (ξ : Nat → Nat) : RenOk [] Γ ξ := nofun

theorem rename_natStep (m : Core) (ξ : Nat → Nat) :
    (natStep m).rename ξ = natStep (m.rename ξ) := by
  simp only [natStep, rename, rename_shift, upRen]

theorem rename_vecMotive (a : Core) (ξ : Nat → Nat) :
    (vecMotive a).rename ξ = vecMotive (a.rename ξ) := by
  simp only [vecMotive, rename, rename_shift, upRen]

theorem rename_vecStep (a m : Core) (ξ : Nat → Nat) :
    (vecStep a m).rename ξ = vecStep (a.rename ξ) (m.rename ξ) := by
  simp only [vecStep, rename, rename_shift, upRen]

theorem HasType.rename {Γ Δ : List Core} {t A : Core} {ξ : Nat → Nat} (h : HasType Θ Γ t A)
    (hξ : RenOk Γ Δ ξ) : HasType Θ Δ (t.rename ξ) (A.rename ξ) := by
  induction h generalizing Δ ξ with
  | var hi => exact .var (hξ _ _ hi)
  | postulate hx => rw [(Θ.closed_postulate hx).rename_eq]; exact .postulate hx
  | definition hx => rw [(Θ.closed_definition hx).1.rename_eq]; exact .definition hx
  | star => exact .star
  | pi _ _ ihA ihB => exact .pi (ihA hξ) (ihB (hξ.up _))
  | lam _ _ ihA ihb => exact .lam (ihA hξ) (ihb (hξ.up _))
  | app _ _ ihf iha => rw [rename_inst]; exact .app (ihf hξ) (iha hξ)
  | nat => exact .nat
  | zero => exact .zero
  | succ _ ih => exact .succ (ih hξ)
  | natElim _ _ _ _ ihm ihb ihs ihn =>
    refine .natElim (ihm hξ) (ihb hξ) ?_ (ihn hξ)
    rw [← rename_natStep]
    exact ihs hξ
  | vec _ _ iha ihn => exact .vec (iha hξ) (ihn hξ)
  | nil _ ih => exact .nil (ih hξ)
  | cons _ _ _ _ iha ihn ihx ihxs => exact .cons (iha hξ) (ihn hξ) (ihx hξ) (ihxs hξ)
  | vecElim _ _ _ _ _ _ iha ihm ihb ihs ihn ihxs =>
    refine .vecElim (iha hξ) ?_ (ihb hξ) ?_ (ihn hξ) (ihxs hξ)
    · rw [← rename_vecMotive]; exact ihm hξ
    · rw [← rename_vecStep]; exact ihs hξ
  | conv _ hc _ ih ihB => exact .conv (ih hξ) (hc.rename ξ) (ihB hξ)

theorem HasType.shift {Γ : List Core} {t A : Core} (h : HasType Θ Γ t A) (B : Core) :
    HasType Θ (B :: Γ) t.shift A.shift :=
  h.rename (.shift Γ B)

/-- A closed term has its type in every context. -/
theorem HasType.of_nil {t A : Core} (h : HasType Θ [] t A) (ht : t.Closed) (hA : A.Closed)
    (Γ : List Core) : HasType Θ Γ t A := by
  have h' := h.rename (.nil Γ id)
  rwa [ht.rename_eq, hA.rename_eq] at h'

/-! ## Substitution -/

/-- The substitution takes the variables of a context to terms of the same types in another. -/
def SubstOk (Θ : Theory) (Γ Δ : List Core) (σ : Nat → Core) : Prop :=
  ∀ i A, Lookup Γ i A → HasType Θ Δ (σ i) (A.subst σ)

theorem SubstOk.up {Γ Δ : List Core} {σ : Nat → Core} (h : SubstOk Θ Γ Δ σ) (A : Core) :
    SubstOk Θ (A :: Γ) (A.subst σ :: Δ) (Core.up σ) := by
  intro i B hi
  cases hi with
  | here => rw [subst_shift]; exact .var .here
  | there hi => rw [subst_shift]; exact (h _ _ hi).shift _

theorem shift_subst_push (t a : Core) (σ : Nat → Core) : t.shift.subst (push a σ) = t.subst σ := by
  rw [Core.shift, subst_rename]
  rfl

theorem SubstOk.inst {Γ : List Core} {a A : Core} (h : HasType Θ Γ a A) :
    SubstOk Θ (A :: Γ) Γ (push a Core.var) := by
  intro i B hi
  cases hi with
  | here => rw [shift_subst_push, subst_var]; exact h
  | there hi => rw [shift_subst_push, subst_var]; exact .var hi

theorem subst_natStep (m : Core) (σ : Nat → Core) : (natStep m).subst σ = natStep (m.subst σ) := by
  simp only [natStep, subst, subst_shift]
  rfl

theorem subst_vecMotive (a : Core) (σ : Nat → Core) :
    (vecMotive a).subst σ = vecMotive (a.subst σ) := by
  simp only [vecMotive, subst, subst_shift]
  rfl

theorem subst_vecStep (a m : Core) (σ : Nat → Core) :
    (vecStep a m).subst σ = vecStep (a.subst σ) (m.subst σ) := by
  simp only [vecStep, subst, subst_shift]
  rfl

theorem HasType.subst {Γ Δ : List Core} {t A : Core} {σ : Nat → Core} (h : HasType Θ Γ t A)
    (hσ : SubstOk Θ Γ Δ σ) : HasType Θ Δ (t.subst σ) (A.subst σ) := by
  induction h generalizing Δ σ with
  | var hi => exact hσ _ _ hi
  | postulate hx => rw [Θ.closed_postulate hx]; exact .postulate hx
  | definition hx => rw [(Θ.closed_definition hx).1]; exact .definition hx
  | star => exact .star
  | pi _ _ ihA ihB => exact .pi (ihA hσ) (ihB (hσ.up _))
  | lam _ _ ihA ihb => exact .lam (ihA hσ) (ihb (hσ.up _))
  | app _ _ ihf iha => rw [subst_inst]; exact .app (ihf hσ) (iha hσ)
  | nat => exact .nat
  | zero => exact .zero
  | succ _ ih => exact .succ (ih hσ)
  | natElim _ _ _ _ ihm ihb ihs ihn =>
    refine .natElim (ihm hσ) (ihb hσ) ?_ (ihn hσ)
    rw [← subst_natStep]
    exact ihs hσ
  | vec _ _ iha ihn => exact .vec (iha hσ) (ihn hσ)
  | nil _ ih => exact .nil (ih hσ)
  | cons _ _ _ _ iha ihn ihx ihxs => exact .cons (iha hσ) (ihn hσ) (ihx hσ) (ihxs hσ)
  | vecElim _ _ _ _ _ _ iha ihm ihb ihs ihn ihxs =>
    refine .vecElim (iha hσ) ?_ (ihb hσ) ?_ (ihn hσ) (ihxs hσ)
    · rw [← subst_vecMotive]; exact ihm hσ
    · rw [← subst_vecStep]; exact ihs hσ
  | conv _ hc _ ih ihB => exact .conv (ih hσ) (hc.subst σ) (ihB hσ)

theorem HasType.inst {Γ : List Core} {b B a A : Core} (hb : HasType Θ (A :: Γ) b B)
    (ha : HasType Θ Γ a A) : HasType Θ Γ (b.inst a) (B.inst a) :=
  hb.subst (.inst ha)

/-- A hypothesis may be replaced by a convertible one. -/
theorem HasType.ctx_conv {Γ : List Core} {t T A B : Core} (h : HasType Θ (A :: Γ) t T)
    (hc : Conv Θ A B) (hA : HasType Θ Γ A .star) : HasType Θ (B :: Γ) t T := by
  have hσ : SubstOk Θ (A :: Γ) (B :: Γ) Core.var := by
    intro i C hi
    rw [subst_var]
    cases hi with
    | here => exact .conv (.var .here) hc.symm.shift (hA.shift B)
    | there hi => exact .var (.there hi)
  have h' := h.subst hσ
  rwa [subst_var, subst_var] at h'

/-! ## Regularity -/

theorem Lookup.ok {Γ : List Core} {i : Nat} {A : Core} (h : Lookup Γ i A) (hΓ : CtxOk Θ Γ) :
    HasType Θ Γ A .star := by
  induction h with
  | here =>
    cases hΓ with
    | cons _ hA => exact hA.shift _
  | there _ ih =>
    cases hΓ with
    | cons hΓ _ => exact (ih hΓ).shift _

theorem HasType.pi_inv {Γ : List Core} {A B T : Core} (h : HasType Θ Γ (.pi A B) T) :
    HasType Θ Γ A .star ∧ HasType Θ (A :: Γ) B .star := by
  obtain ⟨_, ⟨hA, hB, _⟩, _⟩ := h.inv
  exact ⟨hA, hB⟩

theorem HasType.natMotive_app {Γ : List Core} {m n : Core} (hm : HasType Θ Γ m natMotive)
    (hn : HasType Θ Γ n .nat) : HasType Θ Γ (.app m n) .star :=
  .app hm hn

theorem HasType.vecMotive_app {Γ : List Core} {a m n xs : Core} (hm : HasType Θ Γ m (vecMotive a))
    (hn : HasType Θ Γ n .nat) (hxs : HasType Θ Γ xs (.vec a n)) :
    HasType Θ Γ (.app (.app m n) xs) .star := by
  have h : HasType Θ Γ (.app m n) (.pi (.vec a n) .star) := by
    have h' := HasType.app hm hn
    simpa only [Core.inst, Core.subst, shift_subst_push, subst_var, push] using h'
  exact .app h hxs

/-- What types a term is a type. -/
theorem HasType.regular (hΘ : Θ.Ok) {Γ : List Core} {t A : Core} (h : HasType Θ Γ t A)
    (hΓ : CtxOk Θ Γ) : HasType Θ Γ A .star := by
  induction h with
  | var hi => exact hi.ok hΓ
  | postulate hx => exact (hΘ.postulate hx).of_nil (Θ.closed_postulate hx) (fun _ => rfl) _
  | definition hx => exact (hΘ.type hx).of_nil (Θ.closed_definition hx).1 (fun _ => rfl) _
  | star => exact .star
  | pi => exact .star
  | lam hA _ _ ihb => exact .pi hA (ihb (.cons hΓ hA))
  | app _ ha ihf _ => exact (ihf hΓ).pi_inv.2.inst ha
  | nat => exact .star
  | zero => exact .nat
  | succ => exact .nat
  | natElim hm _ _ hn => exact hm.natMotive_app hn
  | vec => exact .star
  | nil ha => exact .vec ha .zero
  | cons ha hn => exact .vec ha (.succ hn)
  | vecElim _ hm _ _ hn hxs => exact hm.vecMotive_app hn hxs
  | conv _ _ hB => exact hB

end Core

end TypeInType
