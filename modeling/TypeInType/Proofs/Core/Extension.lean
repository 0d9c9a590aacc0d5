import TypeInType.Proofs.Core.Typing

/-!
# Larger theories

What holds in a theory holds in every theory with more constants.
-/

namespace TypeInType

/-- The constants of a theory are constants of another. -/
structure Theory.Le (Θ Θ' : Theory) : Prop where
  postulate : ∀ {x A}, Θ.postulate x A → Θ'.postulate x A
  definition : ∀ {x d}, Θ.definition x = some d → Θ'.definition x = some d

namespace Core

variable {Θ Θ' : Theory} (hle : Θ.Le Θ')

include hle

theorem Par.mono {t u : Core} (h : Par Θ t u) : Par Θ' t u := by
  induction h with
  | var i => exact .var i
  | atom a => exact .atom a
  | star => exact .star
  | pi _ _ ihA ihB => exact .pi ihA ihB
  | lam _ ih => exact .lam ih
  | app _ _ ihf iha => exact .app ihf iha
  | nat => exact .nat
  | zero => exact .zero
  | succ _ ih => exact .succ ih
  | natElim _ _ _ _ ihm ihb ihs ihn => exact .natElim ihm ihb ihs ihn
  | vec _ _ iha ihn => exact .vec iha ihn
  | nil _ ih => exact .nil ih
  | cons _ _ _ _ iha ihn ihx ihxs => exact .cons iha ihn ihx ihxs
  | vecElim _ _ _ _ _ _ iha ihm ihb ihs ihn ihxs => exact .vecElim iha ihm ihb ihs ihn ihxs
  | beta _ _ ihb iha => exact .beta ihb iha
  | delta hx => exact .delta (hle.definition hx)
  | natZero _ ihb => exact .natZero ihb
  | natSucc _ _ _ _ ihm ihb ihs ihn => exact .natSucc ihm ihb ihs ihn
  | vecNil _ ihb => exact .vecNil ihb
  | vecCons _ _ _ _ _ _ _ iha ihm ihb ihs ihl ihx ihxs =>
    exact .vecCons iha ihm ihb ihs ihl ihx ihxs

theorem Reds.mono {t u : Core} (h : Reds Θ t u) : Reds Θ' t u :=
  h.lift id fun _ _ hp => hp.mono hle

theorem Conv.mono {t u : Core} (h : Conv Θ t u) : Conv Θ' t u := by
  obtain ⟨v, ht, hu⟩ := h.joins
  exact (ht.mono hle).conv.trans (hu.mono hle).conv.symm

theorem HasType.mono {Γ : List Core} {t A : Core} (h : HasType Θ Γ t A) : HasType Θ' Γ t A := by
  induction h with
  | var hi => exact .var hi
  | postulate hx => exact .postulate (hle.postulate hx)
  | definition hx => exact .definition (hle.definition hx)
  | star => exact .star
  | pi _ _ ihA ihB => exact .pi ihA ihB
  | lam _ _ ihA ihb => exact .lam ihA ihb
  | app _ _ ihf iha => exact .app ihf iha
  | nat => exact .nat
  | zero => exact .zero
  | succ _ ih => exact .succ ih
  | natElim _ _ _ _ ihm ihb ihs ihn => exact .natElim ihm ihb ihs ihn
  | vec _ _ iha ihn => exact .vec iha ihn
  | nil _ ih => exact .nil ih
  | cons _ _ _ _ iha ihn ihx ihxs => exact .cons iha ihn ihx ihxs
  | vecElim _ _ _ _ _ _ iha ihm ihb ihs ihn ihxs => exact .vecElim iha ihm ihb ihs ihn ihxs
  | conv _ hc _ ih ihB => exact .conv ih (hc.mono hle) ihB

end Core

end TypeInType
