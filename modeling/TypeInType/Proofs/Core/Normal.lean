import TypeInType.Proofs.Core.Confluence

/-!
# Normal core terms

Normal terms have no reducts but themselves, so that convertible normal terms are equal.
-/

namespace TypeInType

namespace Core

variable {Θ : Theory}

/-- No subterm can take a step: every elimination is of a neutral term. -/
def Normal : Core → Prop
  | var _ => True
  | atom (.definition _) => False
  | atom _ => True
  | star => True
  | pi A B => A.Normal ∧ B.Normal
  | lam b => b.Normal
  | app f a => f.shape = some .neutral ∧ f.Normal ∧ a.Normal
  | nat => True
  | zero => True
  | succ n => n.Normal
  | natElim m b s n => n.shape = some .neutral ∧ m.Normal ∧ b.Normal ∧ s.Normal ∧ n.Normal
  | vec a n => a.Normal ∧ n.Normal
  | nil a => a.Normal
  | cons a n x xs => a.Normal ∧ n.Normal ∧ x.Normal ∧ xs.Normal
  | vecElim a m b s n xs => xs.shape = some .neutral ∧ a.Normal ∧ m.Normal ∧ b.Normal ∧ s.Normal ∧
      n.Normal ∧ xs.Normal

theorem Par.eq_of_normal {t u : Core} (h : Par Θ t u) (ht : t.Normal) : u = t := by
  induction h with
  | var | atom | star | nat | zero => rfl
  | pi _ _ ihA ihB => rw [ihA ht.1, ihB ht.2]
  | lam _ ih | succ _ ih | nil _ ih => rw [ih ht]
  | app _ _ ihf iha => rw [ihf ht.2.1, iha ht.2.2]
  | natElim _ _ _ _ ihm ihb ihs ihn =>
    rw [ihm ht.2.1, ihb ht.2.2.1, ihs ht.2.2.2.1, ihn ht.2.2.2.2]
  | vec _ _ iha ihn => rw [iha ht.1, ihn ht.2]
  | cons _ _ _ _ iha ihn ihx ihxs => rw [iha ht.1, ihn ht.2.1, ihx ht.2.2.1, ihxs ht.2.2.2]
  | vecElim _ _ _ _ _ _ iha ihm ihb ihs ihn ihxs =>
    rw [iha ht.2.1, ihm ht.2.2.1, ihb ht.2.2.2.1, ihs ht.2.2.2.2.1, ihn ht.2.2.2.2.2.1,
      ihxs ht.2.2.2.2.2.2]
  | delta => exact ht.elim
  | beta | natZero | natSucc | vecNil | vecCons => simp [Normal, shape] at ht

theorem Reds.eq_of_normal {t u : Core} (h : Reds Θ t u) (ht : t.Normal) : u = t := by
  induction h with
  | refl => rfl
  | tail _ hp ih =>
    subst ih
    exact hp.eq_of_normal ht

theorem Conv.eq_of_normal {t u : Core} (h : Conv Θ t u) (ht : t.Normal) (hu : u.Normal) :
    t = u := by
  obtain ⟨v, htv, huv⟩ := h.joins
  rw [← htv.eq_of_normal ht, huv.eq_of_normal hu]

/-! ## Renaming -/

theorem shape_rename (t : Core) (ξ : Nat → Nat) : (t.rename ξ).shape = t.shape := by
  induction t generalizing ξ with
  | app _ _ ih _ | natElim _ _ _ _ _ _ _ ih | vecElim _ _ _ _ _ _ _ _ _ _ _ ih =>
    simp only [rename, shape, ih ξ]
  | _ => rfl

theorem Normal.rename {t : Core} (h : t.Normal) (ξ : Nat → Nat) : (t.rename ξ).Normal := by
  induction t generalizing ξ with
  | var | star | nat | zero => trivial
  | atom a => exact h
  | pi _ _ ihA ihB => exact ⟨ihA h.1 ξ, ihB h.2 _⟩
  | lam _ ih => exact ih h _
  | app f _ ihf iha => exact ⟨(shape_rename f ξ).trans h.1, ihf h.2.1 ξ, iha h.2.2 ξ⟩
  | succ _ ih | nil _ ih => exact ih h ξ
  | natElim _ _ _ n ihm ihb ihs ihn =>
    exact ⟨(shape_rename n ξ).trans h.1, ihm h.2.1 ξ, ihb h.2.2.1 ξ, ihs h.2.2.2.1 ξ,
      ihn h.2.2.2.2 ξ⟩
  | vec _ _ iha ihn => exact ⟨iha h.1 ξ, ihn h.2 ξ⟩
  | cons _ _ _ _ iha ihn ihx ihxs =>
    exact ⟨iha h.1 ξ, ihn h.2.1 ξ, ihx h.2.2.1 ξ, ihxs h.2.2.2 ξ⟩
  | vecElim _ _ _ _ _ xs iha ihm ihb ihs ihn ihxs =>
    exact ⟨(shape_rename xs ξ).trans h.1, iha h.2.1 ξ, ihm h.2.2.1 ξ, ihb h.2.2.2.1 ξ,
      ihs h.2.2.2.2.1 ξ, ihn h.2.2.2.2.2.1 ξ, ihxs h.2.2.2.2.2.2 ξ⟩

/-- A normal term that waits for the value of a variable or of a constant. -/
def Stuck (t : Core) : Prop :=
  t.shape = some .neutral ∧ t.Normal

theorem Stuck.shift {t : Core} (h : t.Stuck) : t.shift.Stuck :=
  ⟨(shape_rename t _).trans h.1, h.2.rename _⟩

theorem Stuck.up {σ : Nat → Core} (h : ∀ i, (σ i).Stuck) : ∀ i, (Core.up σ i).Stuck
  | 0 => ⟨rfl, trivial⟩
  | i + 1 => (h i).shift

end Core

end TypeInType
