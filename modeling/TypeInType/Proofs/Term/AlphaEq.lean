import TypeInType.Proofs.Value.Embedding

/-!
# Equality up to spans and names of binders

Terms that are equal up to spans and the names of binders have the same core term, and a term without
annotations is determined by its core term up to these.
-/

namespace TypeInType

open TypeInType.Core (up shift)

/-! ## Equal terms have the same core term -/

mutual

theorem Synth.erase_eq_of_alphaEq : ∀ {t u : Synth}, t.alphaEq u = true →
    ∀ (ν : Name → Core) (σ : Nat → Core), t.erase ν σ = u.erase ν σ
  | .ann _ e t, u, h, ν, σ => by
    cases u with
    | ann _ e' t' =>
      simp only [Synth.alphaEq, Bool.and_eq_true] at h
      exact Check.erase_eq_of_alphaEq h.1 ν σ
    | _ => simp only [Synth.alphaEq, Bool.false_eq_true] at h
  | .star _, u, h, ν, σ => by
    cases u with
    | star _ => rfl
    | _ => simp only [Synth.alphaEq, Bool.false_eq_true] at h
  | .pi _ _ d c, u, h, ν, σ => by
    cases u with
    | pi _ _ d' c' =>
      simp only [Synth.alphaEq, Bool.and_eq_true] at h
      simp only [Synth.erase, Check.erase_eq_of_alphaEq h.1, Check.erase_eq_of_alphaEq h.2]
    | _ => simp only [Synth.alphaEq, Bool.false_eq_true] at h
  | .bound _ i, u, h, ν, σ => by
    cases u with
    | bound _ i' =>
      simp only [Synth.alphaEq, beq_iff_eq] at h
      simp only [Synth.erase, h]
    | _ => simp only [Synth.alphaEq, Bool.false_eq_true] at h
  | .free _ x, u, h, ν, σ => by
    cases u with
    | free _ x' =>
      simp only [Synth.alphaEq, beq_iff_eq] at h
      simp only [Synth.erase, h]
    | _ => simp only [Synth.alphaEq, Bool.false_eq_true] at h
  | .app _ f a, u, h, ν, σ => by
    cases u with
    | app _ f' a' =>
      simp only [Synth.alphaEq, Bool.and_eq_true] at h
      simp only [Synth.erase, Synth.erase_eq_of_alphaEq h.1, Check.erase_eq_of_alphaEq h.2]
    | _ => simp only [Synth.alphaEq, Bool.false_eq_true] at h
  | .nat _, u, h, ν, σ => by
    cases u with
    | nat _ => rfl
    | _ => simp only [Synth.alphaEq, Bool.false_eq_true] at h
  | .zero _, u, h, ν, σ => by
    cases u with
    | zero _ => rfl
    | _ => simp only [Synth.alphaEq, Bool.false_eq_true] at h
  | .succ _ n, u, h, ν, σ => by
    cases u with
    | succ _ n' =>
      simp only [Synth.alphaEq] at h
      simp only [Synth.erase, Check.erase_eq_of_alphaEq h]
    | _ => simp only [Synth.alphaEq, Bool.false_eq_true] at h
  | .natElim _ m b s n, u, h, ν, σ => by
    cases u with
    | natElim _ m' b' s' n' =>
      simp only [Synth.alphaEq, Bool.and_eq_true] at h
      obtain ⟨⟨⟨hm, hb⟩, hs⟩, hn⟩ := h
      simp only [Synth.erase, Check.erase_eq_of_alphaEq hm, Check.erase_eq_of_alphaEq hb,
        Check.erase_eq_of_alphaEq hs, Check.erase_eq_of_alphaEq hn]
    | _ => simp only [Synth.alphaEq, Bool.false_eq_true] at h
  | .vec _ a n, u, h, ν, σ => by
    cases u with
    | vec _ a' n' =>
      simp only [Synth.alphaEq, Bool.and_eq_true] at h
      simp only [Synth.erase, Check.erase_eq_of_alphaEq h.1, Check.erase_eq_of_alphaEq h.2]
    | _ => simp only [Synth.alphaEq, Bool.false_eq_true] at h
  | .nil _ a, u, h, ν, σ => by
    cases u with
    | nil _ a' =>
      simp only [Synth.alphaEq] at h
      simp only [Synth.erase, Check.erase_eq_of_alphaEq h]
    | _ => simp only [Synth.alphaEq, Bool.false_eq_true] at h
  | .cons _ a n x xs, u, h, ν, σ => by
    cases u with
    | cons _ a' n' x' xs' =>
      simp only [Synth.alphaEq, Bool.and_eq_true] at h
      obtain ⟨⟨⟨ha, hn⟩, hx⟩, hxs⟩ := h
      simp only [Synth.erase, Check.erase_eq_of_alphaEq ha, Check.erase_eq_of_alphaEq hn,
        Check.erase_eq_of_alphaEq hx, Check.erase_eq_of_alphaEq hxs]
    | _ => simp only [Synth.alphaEq, Bool.false_eq_true] at h
  | .vecElim _ a m b s n xs, u, h, ν, σ => by
    cases u with
    | vecElim _ a' m' b' s' n' xs' =>
      simp only [Synth.alphaEq, Bool.and_eq_true] at h
      obtain ⟨⟨⟨⟨⟨ha, hm⟩, hb⟩, hs⟩, hn⟩, hxs⟩ := h
      simp only [Synth.erase, Check.erase_eq_of_alphaEq ha, Check.erase_eq_of_alphaEq hm,
        Check.erase_eq_of_alphaEq hb, Check.erase_eq_of_alphaEq hs, Check.erase_eq_of_alphaEq hn,
        Check.erase_eq_of_alphaEq hxs]
    | _ => simp only [Synth.alphaEq, Bool.false_eq_true] at h

theorem Check.erase_eq_of_alphaEq : ∀ {t u : Check}, t.alphaEq u = true →
    ∀ (ν : Name → Core) (σ : Nat → Core), t.erase ν σ = u.erase ν σ
  | .synth t, u, h, ν, σ => by
    cases u with
    | synth t' =>
      simp only [Check.alphaEq] at h
      exact Synth.erase_eq_of_alphaEq h ν σ
    | _ => simp only [Check.alphaEq, Bool.false_eq_true] at h
  | .lam _ _ b, u, h, ν, σ => by
    cases u with
    | lam _ _ b' =>
      simp only [Check.alphaEq] at h
      simp only [Check.erase, Check.erase_eq_of_alphaEq h]
    | _ => simp only [Check.alphaEq, Bool.false_eq_true] at h
  | .ascribe _ t e, u, h, ν, σ => by
    cases u with
    | ascribe _ t' e' =>
      simp only [Check.alphaEq, Bool.and_eq_true] at h
      exact Check.erase_eq_of_alphaEq h.2 ν σ
    | _ => simp only [Check.alphaEq, Bool.false_eq_true] at h
  | .sealed _ e, u, h, ν, σ => by
    cases u with
    | sealed _ e' =>
      simp only [Check.alphaEq] at h
      exact Synth.erase_eq_of_alphaEq h ν σ
    | _ => simp only [Check.alphaEq, Bool.false_eq_true] at h

end

/-! ## Terms without annotations -/

mutual

/-- The term has no annotations, ascriptions and seals. -/
def Synth.Plain : Synth → Prop
  | .ann _ _ _ => False
  | .star _ => True
  | .pi _ _ d c => d.Plain ∧ c.Plain
  | .bound _ _ => True
  | .free _ _ => True
  | .app _ h a => h.Plain ∧ a.Plain
  | .nat _ => True
  | .zero _ => True
  | .succ _ n => n.Plain
  | .natElim _ m b s n => m.Plain ∧ b.Plain ∧ s.Plain ∧ n.Plain
  | .vec _ a n => a.Plain ∧ n.Plain
  | .nil _ a => a.Plain
  | .cons _ a n x xs => a.Plain ∧ n.Plain ∧ x.Plain ∧ xs.Plain
  | .vecElim _ a m b s n xs => a.Plain ∧ m.Plain ∧ b.Plain ∧ s.Plain ∧ n.Plain ∧ xs.Plain

/-- The term has no annotations, ascriptions and seals. -/
def Check.Plain : Check → Prop
  | .synth t => t.Plain
  | .lam _ _ b => b.Plain
  | .ascribe _ _ _ => False
  | .sealed _ _ => False

end

/-- Every name stands for its own atom. -/
def atomName (x : Name) : Core :=
  .atom x.atom

theorem shift_atomName : shift ∘ atomName = atomName := rfl

theorem Name.atom_injective {x y : Name} (h : x.atom = y.atom) : x = y := by
  cases x <;> cases y <;> cases h <;> rfl

/-- A term without annotations that is no function literal does not become one. -/
theorem Synth.Plain.erase_ne_lam {t : Synth} (ht : t.Plain) {b : Core} :
    t.erase atomName .var ≠ .lam b := by
  cases t with
  | ann => exact ht.elim
  | _ => simp only [Synth.erase, atomName, ne_eq, reduceCtorEq, not_false_eq_true]

mutual

theorem Synth.Plain.alphaEq : ∀ {t u : Synth}, t.Plain → u.Plain →
    t.erase atomName .var = u.erase atomName .var → t.alphaEq u = true
  | .ann _ _ _, _, ht, _, _ => ht.elim
  | .star _, u, ht, hu, h => by
    cases u with
    | ann => exact hu.elim
    | star _ => rfl
    | _ => simp only [Synth.erase, atomName, reduceCtorEq] at h
  | .pi _ _ d c, u, ht, hu, h => by
    cases u with
    | ann => exact hu.elim
    | pi _ _ d' c' =>
      simp only [Synth.erase, shift_atomName, Core.up_var, Core.pi.injEq] at h
      simp only [Synth.alphaEq, Check.Plain.alphaEq ht.1 hu.1 h.1,
        Check.Plain.alphaEq ht.2 hu.2 h.2, Bool.and_self]
    | _ => simp only [Synth.erase, atomName, reduceCtorEq] at h
  | .bound _ i, u, ht, hu, h => by
    cases u with
    | ann => exact hu.elim
    | bound _ j =>
      simp only [Synth.erase, Core.var.injEq] at h
      simp only [Synth.alphaEq, h, beq_self_eq_true]
    | _ => simp only [Synth.erase, atomName, reduceCtorEq] at h
  | .free _ x, u, ht, hu, h => by
    cases u with
    | ann => exact hu.elim
    | free _ y =>
      simp only [Synth.erase, atomName, Core.atom.injEq] at h
      simp only [Synth.alphaEq, Name.atom_injective h, beq_self_eq_true]
    | _ => simp only [Synth.erase, atomName, reduceCtorEq] at h
  | .app _ f a, u, ht, hu, h => by
    cases u with
    | ann => exact hu.elim
    | app _ f' a' =>
      simp only [Synth.erase, Core.app.injEq] at h
      simp only [Synth.alphaEq, Synth.Plain.alphaEq ht.1 hu.1 h.1,
        Check.Plain.alphaEq ht.2 hu.2 h.2, Bool.and_self]
    | _ => simp only [Synth.erase, atomName, reduceCtorEq] at h
  | .nat _, u, ht, hu, h => by
    cases u with
    | ann => exact hu.elim
    | nat _ => rfl
    | _ => simp only [Synth.erase, atomName, reduceCtorEq] at h
  | .zero _, u, ht, hu, h => by
    cases u with
    | ann => exact hu.elim
    | zero _ => rfl
    | _ => simp only [Synth.erase, atomName, reduceCtorEq] at h
  | .succ _ n, u, ht, hu, h => by
    cases u with
    | ann => exact hu.elim
    | succ _ n' =>
      simp only [Synth.erase, Core.succ.injEq] at h
      simp only [Synth.alphaEq, Check.Plain.alphaEq (t := n) (u := n') ht hu h]
    | _ => simp only [Synth.erase, atomName, reduceCtorEq] at h
  | .natElim _ m b s n, u, ht, hu, h => by
    cases u with
    | ann => exact hu.elim
    | natElim _ m' b' s' n' =>
      simp only [Synth.erase, Core.natElim.injEq] at h
      simp only [Synth.alphaEq, Check.Plain.alphaEq ht.1 hu.1 h.1,
        Check.Plain.alphaEq ht.2.1 hu.2.1 h.2.1, Check.Plain.alphaEq ht.2.2.1 hu.2.2.1 h.2.2.1,
        Check.Plain.alphaEq ht.2.2.2 hu.2.2.2 h.2.2.2, Bool.and_self]
    | _ => simp only [Synth.erase, atomName, reduceCtorEq] at h
  | .vec _ a n, u, ht, hu, h => by
    cases u with
    | ann => exact hu.elim
    | vec _ a' n' =>
      simp only [Synth.erase, Core.vec.injEq] at h
      simp only [Synth.alphaEq, Check.Plain.alphaEq ht.1 hu.1 h.1,
        Check.Plain.alphaEq ht.2 hu.2 h.2, Bool.and_self]
    | _ => simp only [Synth.erase, atomName, reduceCtorEq] at h
  | .nil _ a, u, ht, hu, h => by
    cases u with
    | ann => exact hu.elim
    | nil _ a' =>
      simp only [Synth.erase, Core.nil.injEq] at h
      simp only [Synth.alphaEq, Check.Plain.alphaEq (t := a) (u := a') ht hu h]
    | _ => simp only [Synth.erase, atomName, reduceCtorEq] at h
  | .cons _ a n x xs, u, ht, hu, h => by
    cases u with
    | ann => exact hu.elim
    | cons _ a' n' x' xs' =>
      simp only [Synth.erase, Core.cons.injEq] at h
      simp only [Synth.alphaEq, Check.Plain.alphaEq ht.1 hu.1 h.1,
        Check.Plain.alphaEq ht.2.1 hu.2.1 h.2.1, Check.Plain.alphaEq ht.2.2.1 hu.2.2.1 h.2.2.1,
        Check.Plain.alphaEq ht.2.2.2 hu.2.2.2 h.2.2.2, Bool.and_self]
    | _ => simp only [Synth.erase, atomName, reduceCtorEq] at h
  | .vecElim _ a m b s n xs, u, ht, hu, h => by
    cases u with
    | ann => exact hu.elim
    | vecElim _ a' m' b' s' n' xs' =>
      simp only [Synth.erase, Core.vecElim.injEq] at h
      simp only [Synth.alphaEq, Check.Plain.alphaEq ht.1 hu.1 h.1,
        Check.Plain.alphaEq ht.2.1 hu.2.1 h.2.1, Check.Plain.alphaEq ht.2.2.1 hu.2.2.1 h.2.2.1,
        Check.Plain.alphaEq ht.2.2.2.1 hu.2.2.2.1 h.2.2.2.1,
        Check.Plain.alphaEq ht.2.2.2.2.1 hu.2.2.2.2.1 h.2.2.2.2.1,
        Check.Plain.alphaEq ht.2.2.2.2.2 hu.2.2.2.2.2 h.2.2.2.2.2, Bool.and_self]
    | _ => simp only [Synth.erase, atomName, reduceCtorEq] at h

theorem Check.Plain.alphaEq : ∀ {t u : Check}, t.Plain → u.Plain →
    t.erase atomName .var = u.erase atomName .var → t.alphaEq u = true
  | .synth t, .synth u, ht, hu, h => by
    simp only [Check.alphaEq]
    exact Synth.Plain.alphaEq ht hu h
  | .synth t, .lam _ _ b, ht, _, h => absurd h (Synth.Plain.erase_ne_lam (t := t) ht)
  | .lam _ _ b, .synth u, _, hu, h => absurd h.symm (Synth.Plain.erase_ne_lam (t := u) hu)
  | .lam _ _ b, .lam _ _ b', ht, hu, h => by
    simp only [Check.erase, shift_atomName, Core.up_var, Core.lam.injEq] at h
    simp only [Check.alphaEq]
    exact Check.Plain.alphaEq ht hu h
  | .ascribe _ _ _, _, ht, _, _ => ht.elim
  | .sealed _ _, _, ht, _, _ => ht.elim
  | _, .ascribe _ _ _, _, hu, _ => hu.elim
  | _, .sealed _ _, _, hu, _ => hu.elim

end

end TypeInType
